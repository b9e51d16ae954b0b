import XmlSelect.Proofs.TokenScan
import XmlSelect.Text.Read

/-! The stretches of a text that its tokens are read from. Only blanks stand between them, and each
goes on as far as it can. -/
namespace XmlSelect.XPath

/-- Whether a text is a name, with a prefix or without one. -/
def IsQualified (name : Text) : Prop :=
  isName name = true ∨
    ∃ space rest, name = space ++ ':' :: rest ∧ isName space = true ∧ isName rest = true

/-- No name goes on at the start of a text. -/
def StopsName (after : Text) : Prop := ∀ c ∈ after.head?, isNameChar c = false

/-- The tokens that are always written alike and are no names. -/
def Token.isMark : Token → Bool
  | leftParen | rightParen | leftBracket | rightBracket | dot | dotDot | atSign | comma | colonColon
  | slash | doubleSlash | pipe | plus | minus | multiply | star | equal | notEqual | less | lessEq
  | greater | greaterEq => true
  | _ => false

/-- What is read as a token in front of the text that is given last. -/
inductive Lexeme (operandBefore : Bool) : Token → Text → Text → Prop
  | mark {token : Token} (isMark : token.isMark = true) (after : Text) :
      Lexeme operandBefore token token.text after
  | integer {whole after : Text} (nonempty : whole ≠ []) (digits : ∀ c ∈ whole, c.isDigit = true)
      (ends : ∀ c ∈ after.head?, c.isDigit = false)
      (point : after.head? = some '.' → ∃ rest, after = '.' :: '.' :: rest) :
      Lexeme operandBefore (.number (.ofDigits false whole [])) whole after
  | decimal {whole fraction after : Text} (nonempty : whole ≠ [] ∨ fraction ≠ [])
      (digits : ∀ c ∈ whole, c.isDigit = true) (digits' : ∀ c ∈ fraction, c.isDigit = true)
      (ends : ∀ c ∈ after.head?, c.isDigit = false) :
      Lexeme operandBefore (.number (.ofDigits false whole fraction))
        (whole ++ '.' :: fraction) after
  | literal {quote : Char} {value : Text} (isQuote : quote = '\'' ∨ quote = '"')
      (absent : quote ∉ value) (after : Text) :
      Lexeme operandBefore (.literal value) (quote :: value ++ [quote]) after
  | reference {name after : Text} (qualified : IsQualified name) (ends : StopsName after) :
      Lexeme operandBefore (.reference name) ('$' :: name) after
  | operator {token : Token} {after : Text} (known : Token.operatorOfName? token.text = some token)
      (behind : operandBefore = true) (ends : StopsName after) :
      Lexeme operandBefore token token.text after
  | name {name after : Text} (qualified : IsQualified name) (ends : StopsName after) :
      Lexeme operandBefore (.ofName name after) name after
  | prefixWildcard {space : Text} (lexical : isName space = true) (after : Text) :
      Lexeme operandBefore (.ofPrefixWildcard space after) (space ++ ":*".toList) after

section Reading

variable {operandBefore : Bool} {c : Char} {rest text : Text}

theorem stopsName_dropWhile (text : Text) : StopsName (text.dropWhile isNameChar) := by
  intro c head
  have := List.head?_dropWhile_not isNameChar text
  rw [Option.mem_def.mp head] at this
  simpa using this

theorem localName_cons (start : isNameStart c = true) (rest : Text) :
    isName (localName (c :: rest)) = true ∧
      ∃ after, c :: rest = localName (c :: rest) ++ after ∧ StopsName after := by
  rw [localName, if_pos start]
  refine ⟨?_, rest.dropWhile isNameChar, ?_, stopsName_dropWhile rest⟩
  · rw [isName, start, Bool.true_and]
    exact List.all_takeWhile
  · rw [List.cons_append, List.takeWhile_append_dropWhile]

theorem isName_localName (nonempty : localName text ≠ []) :
    isName (localName text) = true ∧ ∃ after, text = localName text ++ after ∧ StopsName after := by
  cases text with
  | nil => exact absurd rfl nonempty
  | cons c rest =>
    by_cases start : isNameStart c = true
    · exact localName_cons start rest
    · exact absurd (if_neg start) nonempty

/-- A name is read to its end. -/
theorem qualifiedName_ok (nonempty : localName text ≠ []) :
    qualifiedName text ≠ [] ∧ IsQualified (qualifiedName text) ∧
      ∃ after, text = qualifiedName text ++ after ∧ StopsName after := by
  obtain ⟨lexical, after, same, ends⟩ := isName_localName nonempty
  have behind : text.drop (localName text).length = after :=
    (congrArg (List.drop _) same).trans List.drop_left
  simp only [qualifiedName, List.isEmpty_eq_false_iff.mpr nonempty, behind, Bool.false_eq_true,
    if_false]
  split
  · rename_i rest
    split
    · exact ⟨nonempty, .inl lexical, _, same, ends⟩
    · rename_i some
      obtain ⟨lexical', after', same', ends'⟩ := isName_localName (by simpa using some)
      refine ⟨by simp, .inr ⟨_, _, rfl, lexical, lexical'⟩, after', ?_, ends'⟩
      rw [List.append_assoc, List.cons_append, ← same']
      exact same
  · exact ⟨nonempty, .inl lexical, after, same, ends⟩

theorem colon_notMem_of_isName {name : Text} (lexical : isName name = true) : ':' ∉ name := by
  obtain ⟨first, rest, rfl, start, inner⟩ := isName_iff.mp lexical
  intro member
  rcases List.mem_cons.mp member with rfl | member
  · exact absurd start (by decide)
  · exact absurd (inner _ member) (by decide)

theorem IsQualified.isName_of_not_contains {name : Text} (qualified : IsQualified name)
    (plain : name.contains ':' = false) : isName name = true := by
  rcases qualified with lexical | ⟨space, rest, rfl, -, -⟩
  · exact lexical
  · simp at plain

theorem operatorOfName?_text {name : Text} {token : Token}
    (known : Token.operatorOfName? name = some token) : token.text = name := by
  simpa using List.find?_some known

theorem readName_ok {token : Token} {width : Nat} (start : isNameStart c = true)
    (read : Token.readName operandBefore (c :: rest) = (token, width)) :
    ∃ written after, c :: rest = written ++ after ∧ width = written.length ∧
      Lexeme operandBefore token written after := by
  have named : localName (c :: rest) ≠ [] := by simp [localName, start]
  obtain ⟨-, qualified, after, same, ends⟩ := qualifiedName_ok named
  have behind : (c :: rest).drop (qualifiedName (c :: rest)).length = after :=
    (congrArg (List.drop _) same).trans List.drop_left
  rw [Token.readName] at read
  simp only [behind] at read
  generalize qualifiedName (c :: rest) = name at *
  split at read
  · rename_i after plain
    cases read
    have lexical := qualified.isName_of_not_contains plain
    exact ⟨name ++ ":*".toList, after, by simpa using same, by simp, .prefixWildcard lexical after⟩
  · split at read
    · rename_i operator known
      cases read
      split at known
      · rename_i behind
        have text := operatorOfName?_text known
        rw [← text] at known same ⊢
        exact ⟨token.text, _, same, rfl, .operator known behind ends⟩
      · cases known
    · cases read
      exact ⟨name, _, same, rfl, .name qualified ends⟩

theorem numeral_ok {whole : Text} {fraction : Option Text}
    (read : numeral text = (whole, fraction)) : ∃ after,
      (∀ c ∈ whole, c.isDigit = true) ∧ (∀ c ∈ after.head?, c.isDigit = false) ∧
      match fraction with
      | none => text = whole ++ after ∧
        (after.head? = some '.' → ∃ rest, after = '.' :: '.' :: rest)
      | some fraction => text = whole ++ '.' :: fraction ++ after ∧
        ∀ c ∈ fraction, c.isDigit = true := by
  have digits : ∀ run : Text, ∀ c ∈ run.takeWhile Char.isDigit, c.isDigit = true :=
    fun run c member => List.all_eq_true.mp List.all_takeWhile c member
  have ends : ∀ run : Text, ∀ c ∈ (run.dropWhile Char.isDigit).head?, c.isDigit = false := by
    intro run c head
    have stops := List.head?_dropWhile_not Char.isDigit run
    rw [Option.mem_def.mp head] at stops
    simpa using stops
  have same := List.takeWhile_append_dropWhile (p := Char.isDigit) (l := text)
  have behind : text.drop (text.takeWhile Char.isDigit).length = text.dropWhile Char.isDigit :=
    (congrArg (List.drop _) same.symm).trans List.drop_left
  simp only [numeral, behind] at read
  split at read
  · rename_i rest found
    cases read
    exact ⟨_, digits text, ends text, same.symm, fun _ => ⟨rest, found⟩⟩
  · rename_i rest _ found
    cases read
    refine ⟨rest.dropWhile Char.isDigit, digits text, ends rest, ?_, digits rest⟩
    rw [List.append_assoc, List.cons_append, List.takeWhile_append_dropWhile, ← found]
    exact same.symm
  · rename_i other
    cases read
    refine ⟨_, digits text, ends text, same.symm, fun point => ?_⟩
    obtain ⟨rest, found⟩ := List.head?_eq_some_iff.mp point
    exact absurd found (other rest)

/-- A number starts with a digit, or with a point and a digit. -/
private def startsNumber (text : Text) : Bool :=
  match text with
  | '.' :: next :: _ => next.isDigit
  | c :: _ => c.isDigit
  | [] => false

private theorem not_startsNumber (ends : ∀ c ∈ text.head?, c.isDigit = false) :
    startsNumber ('.' :: text) = false ∧ (text.head? ≠ some '.' → startsNumber text = false) := by
  cases text with
  | nil => exact ⟨rfl, fun _ => rfl⟩
  | cons c rest =>
    have digit := ends c rfl
    refine ⟨digit, fun noPoint => ?_⟩
    unfold startsNumber
    split
    · simp at noPoint
      simp_all
    · simp_all
    · rfl

theorem readNumber_ok {token : Token} {width : Nat} (start : startsNumber text = true)
    (read : Token.readNumber text = (token, width)) :
    ∃ written after, text = written ++ after ∧ width = written.length ∧
      Lexeme operandBefore token written after := by
  unfold Token.readNumber at read
  split at read
  · rename_i whole found
    cases read
    obtain ⟨after, digits, ends, same, point⟩ := numeral_ok found
    refine ⟨whole, after, same, rfl, .integer ?_ digits ends point⟩
    rintro rfl
    rw [same, List.nil_append] at start
    by_cases dot : after.head? = some '.'
    · obtain ⟨behind, rfl⟩ := point dot
      cases start
    · exact absurd start (by simp [(not_startsNumber ends).2 dot])
  · rename_i whole fraction found
    cases read
    obtain ⟨after, digits, ends, same, digits'⟩ := numeral_ok found
    refine ⟨whole ++ '.' :: fraction, after, same, by simp; omega, .decimal ?_ digits digits' ends⟩
    refine Decidable.not_and_iff_or_not.mp ?_
    rintro ⟨rfl, rfl⟩
    rw [same] at start
    exact Bool.noConfusion ((not_startsNumber ends).1.symm.trans start)

theorem readLiteral_ok {quote : Char} {token : Token} {width : Nat}
    (isQuote : quote = '\'' ∨ quote = '"')
    (read : Token.readLiteral quote rest = .ok (token, width)) :
    ∃ written after, quote :: rest = written ++ after ∧ width = written.length ∧
      Lexeme operandBefore token written after := by
  unfold Token.readLiteral at read
  split at read
  · rename_i value after found
    cases read
    have same := Text.append_of_breakOn? found
    refine ⟨quote :: value ++ [quote], after, by simp [same], by simp,
      .literal isQuote (Text.notMem_of_breakOn?_singleton found) after⟩
  · cases read

/-- What is read as a token is a lexeme of it. -/
theorem read_ok {token : Token} {width : Nat}
    (read : Token.read operandBefore c rest = .ok (token, width)) :
    ∃ written after, c :: rest = written ++ after ∧ width = written.length ∧
      Lexeme operandBefore token written after := by
  unfold Token.read at read
  split at read
  case h_11 =>
    cases read
    refine ⟨['*'], rest, rfl, rfl, ?_⟩
    cases operandBefore <;> exact .mark rfl rest
  case h_23 next tail _ =>
    have read := Except.ok.inj read
    split at read
    · rename_i digit
      exact readNumber_ok digit read
    · cases read
      exact ⟨['.'], next :: tail, rfl, rfl, .mark rfl _⟩
  case h_25 => exact readLiteral_ok (.inr rfl) read
  case h_26 => exact readLiteral_ok (.inl rfl) read
  case h_27 =>
    dsimp only at read
    split at read
    · cases read
    · rename_i some
      cases read
      have named : localName rest ≠ [] := fun none => some (by simp [qualifiedName, none])
      obtain ⟨-, qualified, after, same, ends⟩ := qualifiedName_ok named
      exact ⟨'$' :: qualifiedName rest, after, congrArg ('$' :: ·) same, by simp,
        .reference qualified ends⟩
  case h_28 noPoint _ =>
    split at read
    · rename_i digit
      refine readNumber_ok ?_ (Except.ok.inj read)
      unfold startsNumber
      split
      · simp_all
      · simp_all
      · simp_all
    · split at read
      · rename_i start
        exact readName_ok start (Except.ok.inj read)
      · cases read
  all_goals first
    | cases read
      exact ⟨[_], _, rfl, rfl, .mark rfl _⟩
    | cases read
      exact ⟨[_, _], _, rfl, rfl, .mark rfl _⟩
    | cases read

end Reading

section Written

variable {operandBefore : Bool} {token : Token} {name written after : Text}

theorem ne_nil_of_isName (lexical : isName name = true) : name ≠ [] := by
  rintro rfl
  cases lexical

theorem not_isNameChar_of_isBlank {c : Char} (blank : isBlank c = true) : isNameChar c = false := by
  simp only [isBlank, Bool.or_eq_true, beq_iff_eq] at blank
  rcases blank with ((rfl | rfl) | rfl) | rfl <;> decide

theorem isNameChar_of_mem {c : Char} (lexical : isName name = true) (member : c ∈ name) :
    isNameChar c = true := by
  obtain ⟨first, rest, rfl, start, inner⟩ := isName_iff.mp lexical
  rcases List.mem_cons.mp member with rfl | member
  · simp only [isNameStart, Bool.or_eq_true] at start
    rcases start with letter | line
    · simp [isNameChar, isLetterOrNumber_of_isLetter letter]
    · simp [isNameChar, line]
  · exact inner c member

/-- A name goes on where one stands. -/
theorem not_stopsName (lexical : isName name = true) (after : Text) :
    ¬StopsName (name ++ after) := by
  intro stops
  obtain ⟨first, rest, rfl, -, -⟩ := isName_iff.mp lexical
  exact absurd (stops first rfl) (by simp [isNameChar_of_mem lexical List.mem_cons_self])

theorem IsQualified.ne_nil (qualified : IsQualified name) : name ≠ [] := by
  rcases qualified with lexical | ⟨space, rest, rfl, -, -⟩
  · exact ne_nil_of_isName lexical
  · simp

/-- The operators that are names. -/
theorem operator_cases (known : Token.operatorOfName? token.text = some token) :
    token = .and ∨ token = .or ∨ token = .mod ∨ token = .div := by
  simpa using List.mem_of_find?_eq_some known

theorem Lexeme.ne_nil (lexeme : Lexeme operandBefore token written after) : written ≠ [] := by
  cases lexeme with
  | mark isMark => cases token <;> first | exact List.cons_ne_nil _ _ | cases isMark
  | integer nonempty => exact nonempty
  | decimal => simp
  | literal => simp
  | reference => simp
  | operator known => rcases operator_cases known with rfl | rfl | rfl | rfl <;> decide
  | name qualified => exact qualified.ne_nil
  | prefixWildcard => simp

theorem isMark_ofName (name after : Text) : (Token.ofName name after).isMark = false := by
  unfold Token.ofName
  split
  · rfl
  · split <;> rfl
  · rfl

theorem isMark_ofPrefixWildcard (space after : Text) :
    (Token.ofPrefixWildcard space after).isMark = false := by
  unfold Token.ofPrefixWildcard
  split <;> rfl

/-- What is always written alike is its lexeme. -/
theorem Lexeme.text_of_isMark (lexeme : Lexeme operandBefore token written after)
    (isMark : token.isMark = true) : written = token.text := by
  cases lexeme with
  | mark | operator => rfl
  | integer | decimal | literal | reference => cases isMark
  | name => exact absurd isMark (by simp [isMark_ofName])
  | prefixWildcard => exact absurd isMark (by simp [isMark_ofPrefixWildcard])

/-- A function is read from its name, with a parenthesis behind it. -/
theorem Lexeme.function_ok (lexeme : Lexeme operandBefore (.function name) written after) :
    written = name ∧ IsQualified name ∧ StopsName after ∧
      (after.dropWhile isSpace).head? = some '(' := by
  generalize same : Token.function name = token at lexeme
  cases lexeme with
  | mark isMark => rw [← same] at isMark; cases isMark
  | integer | decimal | literal | reference => cases same
  | operator known => rcases operator_cases known with rfl | rfl | rfl | rfl <;> cases same
  | name qualified ends =>
    unfold Token.ofName at same
    split at same
    · cases same
    · rename_i shape
      split at same <;> cases same
      exact ⟨rfl, qualified, ends, by rw [shape]; rfl⟩
    · cases same
  | prefixWildcard =>
    unfold Token.ofPrefixWildcard at same
    split at same <;> cases same

/-- The tokens that are written with digits and points. -/
def Token.isPointed : Token → Bool
  | number _ | dot | dotDot => true
  | _ => false

theorem Token.endsOperand_of_isPointed (pointed : token.isPointed = true) :
    token.endsOperand = true := by
  cases token <;> first | rfl | cases pointed

/-- A word between operands is read from itself, behind an operand. -/
theorem Lexeme.word_ok (lexeme : Lexeme operandBefore token written after)
    (word : token = .or ∨ token = .and) :
    written = token.text ∧ operandBefore = true ∧ StopsName after := by
  cases lexeme with
  | mark isMark => rcases word with rfl | rfl <;> cases isMark
  | integer | decimal | literal | reference => rcases word with word | word <;> cases word
  | operator _ behind ends => exact ⟨rfl, behind, ends⟩
  | name =>
    unfold Token.ofName at word
    split at word
    · rcases word with word | word <;> cases word
    · split at word <;> rcases word with word | word <;> cases word
    · rcases word with word | word <;> cases word
  | prefixWildcard =>
    unfold Token.ofPrefixWildcard at word
    split at word <;> rcases word with word | word <;> cases word

theorem IsQualified.head {c : Char} {rest : Text} (qualified : IsQualified (c :: rest)) :
    isNameStart c = true := by
  rcases qualified with lexical | ⟨space, behind, same, lexical, -⟩
  · exact (Bool.and_eq_true_iff.mp lexical).1
  · cases space with
    | nil => cases lexical
    | cons first space =>
      cases same
      exact (Bool.and_eq_true_iff.mp lexical).1

/-- Only numbers and steps start with a point. -/
theorem Lexeme.isPointed_of_head (lexeme : Lexeme operandBefore token written after)
    (head : written.head? = some '.') : token.isPointed = true := by
  obtain ⟨rest, same⟩ := List.head?_eq_some_iff.mp head
  cases lexeme with
  | mark isMark => cases token <;> first | rfl | (cases isMark; done) | cases same
  | integer | decimal => rfl
  | literal isQuote =>
    cases same
    rcases isQuote with quote | quote <;> cases quote
  | reference => cases same
  | operator known => rcases operator_cases known with rfl | rfl | rfl | rfl <;> cases same
  | name qualified => exact absurd (same ▸ qualified).head (by decide)
  | @prefixWildcard space lexical =>
    obtain ⟨first, others, rfl, start, -⟩ := isName_iff.mp lexical
    cases same
    exact absurd start (by decide)

/-- A lexeme that ends in a character of a name is a hyphen, or it is written with digits and
points, or no name goes on behind it. -/
theorem Lexeme.last_cases {c : Char} (lexeme : Lexeme operandBefore token written after)
    (last : c ∈ written.getLast?) (named : isNameChar c = true) :
    token = .minus ∨ token.isPointed = true ∧ (c.isDigit = true ∨ c = '.') ∨ StopsName after := by
  have member := List.mem_of_getLast? last
  cases lexeme with
  | mark isMark =>
    cases token <;> first
      | exact .inl rfl
      | exact .inr (.inl ⟨rfl, .inr (Option.some.inj last).symm⟩)
      | (obtain rfl := Option.some.inj last; exact absurd named (by decide))
      | cases isMark
  | integer _ digits => exact .inr (.inl ⟨rfl, .inl (digits c member)⟩)
  | decimal _ digits digits' =>
    refine .inr (.inl ⟨rfl, ?_⟩)
    rcases List.mem_append.mp member with member | member
    · exact .inl (digits c member)
    · rcases List.mem_cons.mp member with rfl | member
      · exact .inr rfl
      · exact .inl (digits' c member)
  | @literal quote _ isQuote =>
    obtain rfl := Option.some.inj (List.getLast?_concat.symm.trans last)
    rcases isQuote with rfl | rfl <;> exact absurd named (by decide)
  | reference _ ends => exact .inr (.inr ends)
  | operator _ _ ends => exact .inr (.inr ends)
  | name _ ends => exact .inr (.inr ends)
  | prefixWildcard =>
    obtain rfl : '*' = c := by simpa using last
    exact absurd named (by decide)

end Written

section Scanning

/-- Whether an operand ends before a place, by the tokens in front of it. -/
def operandBehind : (operandBefore : Bool) → (front : List Located) → Bool
  | operandBefore, [] => operandBefore
  | _, found :: front => operandBehind found.token.endsOperand front

theorem operandBehind_concat (operandBefore : Bool) (front : List Located) (last : Located) :
    operandBehind operandBefore (front ++ [last]) = last.token.endsOperand := by
  induction front generalizing operandBefore with
  | nil => rfl
  | cons found front ih => exact ih found.token.endsOperand

/-- The first token of a text is read behind blanks. -/
theorem scan_cons_read {operandBefore : Bool} {position : Nat} {text : Text} {found : Located}
    {back : List Located} (scanned : scan operandBefore position text = .ok (found :: back)) :
    ∃ gap c tail after, text = gap ++ (c :: tail ++ after) ∧ (∀ c ∈ gap, isBlank c = true) ∧
      found.position = position + Text.byteLength gap ∧
      Token.read operandBefore c (tail ++ after) = .ok (found.token, (c :: tail).length) ∧
      Lexeme operandBefore found.token (c :: tail) after ∧
      scan found.token.endsOperand (found.position + Text.byteLength (c :: tail)) after =
        .ok back := by
  fun_induction scan operandBefore position text with
  | case1 => cases scanned
  | case2 operandBefore position c rest blank ih =>
    obtain ⟨gap, first, tail, after, rfl, blanks, place, read⟩ := ih scanned
    refine ⟨c :: gap, first, tail, after, rfl, ?_, ?_, read⟩
    · exact List.forall_mem_cons.mpr ⟨blank, blanks⟩
    · rw [place, Text.byteLength_cons, Nat.add_assoc]
  | case3 operandBefore position c rest printed ih =>
    obtain ⟨⟨token, width⟩, read, scanned⟩ := bind_ok scanned
    obtain ⟨tokens, behind, scanned⟩ := bind_ok scanned
    cases scanned
    have read := mapError_ok read
    obtain ⟨written, after, same, rfl, lexeme⟩ := read_ok read
    obtain ⟨first, tail, rfl⟩ := List.exists_cons_of_ne_nil lexeme.ne_nil
    obtain ⟨rfl, rfl⟩ := List.cons.inj same
    refine ⟨[], c, tail, after, rfl, List.forall_mem_nil _, rfl, read, lexeme, ?_⟩
    have taken : (c :: tail.append after).take (c :: tail).length = c :: tail :=
      @List.take_left _ (c :: tail) after
    have left : (tail.append after).drop ((c :: tail).length - 1) = after :=
      @List.drop_left _ tail after
    rw [taken, left] at behind
    exact behind

/-- The first token of a text is read from a lexeme behind blanks. -/
theorem scan_cons_ok {operandBefore : Bool} {position : Nat} {text : Text} {found : Located}
    {back : List Located} (scanned : scan operandBefore position text = .ok (found :: back)) :
    ∃ gap written after, text = gap ++ (written ++ after) ∧ (∀ c ∈ gap, isBlank c = true) ∧
      found.position = position + Text.byteLength gap ∧
      Lexeme operandBefore found.token written after ∧
      scan found.token.endsOperand (found.position + Text.byteLength written) after = .ok back := by
  obtain ⟨gap, c, tail, after, same, blanks, place, -, lexeme, behind⟩ := scan_cons_read scanned
  exact ⟨gap, c :: tail, after, same, blanks, place, lexeme, behind⟩

/-- Only blanks are in a text without tokens. -/
theorem scan_nil_ok {operandBefore : Bool} {position : Nat} {text : Text}
    (scanned : scan operandBefore position text = .ok []) : ∀ c ∈ text, isBlank c = true := by
  fun_induction scan operandBefore position text with
  | case1 => exact List.forall_mem_nil _
  | case2 operandBefore position c rest blank ih =>
    exact List.forall_mem_cons.mpr ⟨blank, ih scanned⟩
  | case3 operandBefore position c rest printed ih =>
    obtain ⟨⟨token, width⟩, read, scanned⟩ := bind_ok scanned
    obtain ⟨tokens, behind, scanned⟩ := bind_ok scanned
    cases scanned

/-- Some tokens are read from the front of a text, the others from the rest of it. -/
theorem scan_append_ok {operandBefore : Bool} {position : Nat} {text : Text}
    {front back : List Located} (scanned : scan operandBefore position text = .ok (front ++ back)) :
    ∃ before after, text = before ++ after ∧
      scan (operandBehind operandBefore front) (position + Text.byteLength before) after =
        .ok back := by
  induction front generalizing operandBefore position text with
  | nil => exact ⟨[], text, rfl, scanned⟩
  | cons found front ih =>
    obtain ⟨gap, written, rest, rfl, -, place, -, behind⟩ := scan_cons_ok scanned
    obtain ⟨before, after, rfl, others⟩ := ih behind
    refine ⟨gap ++ written ++ before, after, by simp, ?_⟩
    rw [operandBehind, Text.byteLength_append, Text.byteLength_append, ← Nat.add_assoc,
      ← Nat.add_assoc, ← place]
    exact others

/-- The token before a place ends right there. -/
def Touches (front : List Located) (before after : Text) : Prop :=
  ∃ others previous operandBefore written, front = others ++ [previous] ∧
    Lexeme operandBefore previous.token written after ∧ ∃ start, before = start ++ written ∧
      previous.position = Text.byteLength start

/-- Each token of an expression is read from a lexeme. The token before it ends right there, or
there is a blank between them. -/
theorem tokenize_ok {text : Text} {front back : List Located} {found : Located}
    (scanned : tokenize text = .ok (front ++ found :: back)) :
    ∃ before written after, text = before ++ (written ++ after) ∧
      found.position = Text.byteLength before ∧
      Lexeme (operandBehind false front) found.token written after ∧
      scan found.token.endsOperand (found.position + Text.byteLength written) after = .ok back ∧
      ((∀ c ∈ before.getLast?, isBlank c = true) ∨ Touches front before (written ++ after)) := by
  rcases List.eq_nil_or_concat front with rfl | ⟨others, previous, rfl⟩
  · obtain ⟨gap, written, after, rfl, blanks, place, lexeme, behind⟩ := scan_cons_ok scanned
    refine ⟨gap, written, after, rfl, by simpa using place, lexeme, behind, .inl fun c last => ?_⟩
    exact blanks c (List.mem_of_getLast? last)
  · rw [List.concat_eq_append, List.append_assoc, List.singleton_append] at scanned
    obtain ⟨start, rest, rfl, behind⟩ := scan_append_ok scanned
    obtain ⟨gap, written, rest, rfl, -, place, lexeme, behind⟩ := scan_cons_ok behind
    obtain ⟨gap', written', after, rfl, blanks, place', lexeme', behind⟩ := scan_cons_ok behind
    refine ⟨start ++ gap ++ written ++ gap', written', after, by simp, ?_, ?_, behind, ?_⟩
    · simp only [place', place, Text.byteLength_append]
      omega
    · rw [List.concat_eq_append, operandBehind_concat]
      exact lexeme'
    · rcases List.eq_nil_or_concat gap' with rfl | ⟨others', last, rfl⟩
      · refine .inr ⟨others, previous, _, written, List.concat_eq_append .., lexeme,
          start ++ gap, by simp, ?_⟩
        rw [place, Text.byteLength_append, Nat.zero_add]
      · left
        intro c same
        rw [List.concat_eq_append, ← List.append_assoc, List.getLast?_append] at same
        simp only [List.getLast?_singleton, Option.some_or, Option.mem_some_iff] at same
        exact blanks c (by simp [same])

/-- A character of a name in front of a name is a hyphen, or the end of what is written with digits
and points. -/
theorem Touches.last_cases {front : List Located} {before after : Text} {c : Char}
    (touches : Touches front before after) (goesOn : ¬StopsName after)
    (last : c ∈ before.getLast?) (named : isNameChar c = true) :
    ∃ others previous, front = others ++ [previous] ∧
      (previous.token = .minus ∧ previous.position + 1 = Text.byteLength before ∨
        previous.token.isPointed = true ∧ (c.isDigit = true ∨ c = '.')) := by
  obtain ⟨others, previous, _, written, same, lexeme, start, rfl, place⟩ := touches
  refine ⟨others, previous, same, ?_⟩
  have last : c ∈ written.getLast? := by
    obtain ⟨d, end_⟩ :=
      Option.ne_none_iff_exists'.mp (mt List.getLast?_eq_none_iff.mp lexeme.ne_nil)
    rw [List.getLast?_append, end_] at last
    rwa [end_]
  rcases lexeme.last_cases last named with minus | pointed | stops
  · refine .inl ⟨minus, ?_⟩
    rw [lexeme.text_of_isMark (by rw [minus]; rfl), minus, Text.byteLength_append, place]
    rfl
  · exact .inr pointed
  · exact absurd stops goesOn

end Scanning

end XmlSelect.XPath
