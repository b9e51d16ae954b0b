import XmlSelect.Proofs.WrittenPath

/-! Blanks between the tokens of an expression. The tokens cut a text into lexemes with nothing but
blanks behind them, and the same lexemes with other blanks behind them are the same tokens. -/
namespace XmlSelect.XPath

/-- A lexeme and the blanks behind it. -/
structure Piece where
  lexeme : Text
  gap : Text
  printed : ∃ c ∈ lexeme.getLast?, isBlank c = false
  blank : ∀ c ∈ gap, isBlank c = true

def Piece.text (piece : Piece) : Text := piece.lexeme ++ piece.gap

def joined (pieces : List Piece) : Text := pieces.flatMap Piece.text

/-- Whether a token is shown as it was written. -/
def Token.isPlain : Token → Bool
  | number _ | literal _ => false
  | _ => true

/-- What a text has between two byte offsets; characters start at both of them. -/
def Stretch (text : Text) (first last : Nat) (stretch : Text) : Prop :=
  ∃ before after, text = before ++ stretch ++ after ∧ Text.byteLength before = first ∧
    Text.byteLength (before ++ stretch) = last

/-- Between the pieces there are blanks. -/
def Separated (pieces : List Piece) : Prop := ∀ piece ∈ pieces.dropLast, piece.gap ≠ []

/-- Where the piece of a token ends: at the next token, or at the end of the text. -/
def pieceEnd (text : Text) (tokens : List Located) (i : Nat) : Nat :=
  (tokens[i + 1]?.map (·.position)).getD (Text.byteLength text)

section Reading

variable {operandBefore : Bool} {token : Token} {name after after' : Text}

/-- A blank comes first, or nothing. -/
def Spaced (after : Text) : Prop := ∀ c ∈ after.head?, isBlank c = true

/-- Names in front of the two texts are the same tokens. -/
def SameAhead (after after' : Text) : Prop :=
  ∀ name, Token.ofName name after = Token.ofName name after' ∧
    Token.ofPrefixWildcard name after = Token.ofPrefixWildcard name after'

theorem Spaced.cases (spaced : Spaced after) :
    after = [] ∨ ∃ rest, after = ' ' :: rest ∨ after = '\t' :: rest ∨ after = '\r' :: rest ∨
      after = '\n' :: rest := by
  cases after with
  | nil => exact .inl rfl
  | cons c rest =>
    have blank := spaced c rfl
    simp only [isBlank, Bool.or_eq_true, beq_iff_eq] at blank
    refine .inr ⟨rest, ?_⟩
    rcases blank with ((rfl | rfl) | rfl) | rfl <;> simp

theorem Spaced.endsName (spaced : Spaced after) : endsName after = true := by
  rcases spaced.cases with rfl | ⟨rest, rfl | rfl | rfl | rfl⟩ <;> rfl

theorem Spaced.not_isDigit (spaced : Spaced after) : ∀ c ∈ after.head?, c.isDigit = false := by
  rcases spaced.cases with rfl | ⟨rest, rfl | rfl | rfl | rfl⟩ <;> rintro c ⟨⟩ <;> rfl

theorem spaced_append {gap : Text} (blank : ∀ c ∈ gap, isBlank c = true)
    (ends : gap = [] → after = []) : Spaced (gap ++ after) := by
  cases gap with
  | nil =>
    rw [ends rfl]
    nofun
  | cons c gap =>
    rintro c ⟨⟩
    exact blank c List.mem_cons_self

theorem dropWhile_gap {gap : Text} (blank : ∀ c ∈ gap, isBlank c = true) (after : Text) :
    (gap ++ after).dropWhile isSpace = after.dropWhile isSpace :=
  List.dropWhile_append_of_pos fun c member =>
    isSpace_of_isAsciiSpace (isAsciiSpace_of_isBlank (blank c member))

theorem sameAhead_gap {gap gap' : Text} (blank : ∀ c ∈ gap, isBlank c = true)
    (blank' : ∀ c ∈ gap', isBlank c = true) : SameAhead gap gap' := by
  have nothing {gap : Text} (blank : ∀ c ∈ gap, isBlank c = true) : gap.dropWhile isSpace = [] := by
    simpa using dropWhile_gap blank []
  intro name
  simp only [Token.ofName, Token.ofPrefixWildcard, nothing blank, nothing blank', and_self]

/-- A lexeme starts with no white space, and only two colons start with a colon. -/
theorem Lexeme.head (lexeme : Lexeme operandBefore token name after) :
    ∃ c rest, name = c :: rest ∧ isSpace c = false ∧ (c = ':' → rest = [':']) := by
  have digit {c : Char} (digit : c.isDigit = true) : isSpace c = false ∧ c ≠ ':' := by
    refine ⟨Bool.eq_false_iff.mpr fun space => ?_, by rintro rfl; cases digit⟩
    exact forall_isSpace (p := fun c => ¬c.isDigit = true) (by decide) space digit
  have start {c : Char} (start : isNameStart c = true) : isSpace c = false ∧ c ≠ ':' := by
    refine ⟨Bool.eq_false_iff.mpr fun space => ?_, by rintro rfl; exact absurd start (by decide)⟩
    exact forall_isSpace (p := fun c => ¬isNameStart c = true) (by decide +kernel) space start
  cases lexeme with
  | mark isMark => cases token <;> first | exact ⟨_, _, rfl, by decide, by decide⟩ | cases isMark
  | integer nonempty digits =>
    obtain ⟨c, rest, rfl⟩ := List.exists_cons_of_ne_nil nonempty
    have := digit (digits c List.mem_cons_self)
    exact ⟨c, rest, rfl, this.1, fun colon => absurd colon this.2⟩
  | @decimal whole fraction after nonempty digits =>
    cases whole with
    | nil => exact ⟨'.', fraction, rfl, by decide, nofun⟩
    | cons c rest =>
      have := digit (digits c List.mem_cons_self)
      exact ⟨c, _, rfl, this.1, fun colon => absurd colon this.2⟩
  | literal isQuote =>
    rcases isQuote with rfl | rfl <;> exact ⟨_, _, rfl, by decide, nofun⟩
  | reference => exact ⟨'$', _, rfl, by decide, nofun⟩
  | operator known =>
    rcases operator_cases known with rfl | rfl | rfl | rfl <;>
      exact ⟨_, _, rfl, by decide, by decide⟩
  | name qualified =>
    obtain ⟨c, rest, rfl⟩ := List.exists_cons_of_ne_nil qualified.ne_nil
    have := start qualified.head
    exact ⟨c, rest, rfl, this.1, fun colon => absurd colon this.2⟩
  | prefixWildcard lexical =>
    obtain ⟨c, rest, rfl, named, -⟩ := isName_iff.mp lexical
    have := start named
    exact ⟨c, _, rfl, this.1, fun colon => absurd colon this.2⟩

/-- What a name is depends on no more than the next lexeme. -/
theorem Lexeme.sameAhead {gap gap' written : Text}
    (lexeme : Lexeme operandBefore token written after) (blank : ∀ c ∈ gap, isBlank c = true)
    (blank' : ∀ c ∈ gap', isBlank c = true) (tail tail' : Text) :
    SameAhead (gap ++ (written ++ tail)) (gap' ++ (written ++ tail')) := by
  obtain ⟨c, rest, rfl, printed, colon⟩ := lexeme.head
  have stops (tail : Text) : (c :: rest ++ tail).dropWhile isSpace = c :: (rest ++ tail) := by
    rw [List.cons_append, List.dropWhile_cons_of_neg (by simp [printed])]
  intro name
  simp only [Token.ofName, Token.ofPrefixWildcard, dropWhile_gap blank, dropWhile_gap blank', stops]
  by_cases same : c = ':'
  · subst same
    rw [colon rfl]
    exact ⟨rfl, rfl⟩
  · by_cases opens : c = '('
    · subst opens
      exact ⟨rfl, rfl⟩
    · constructor <;> (split <;> split <;> simp_all)

section Again

variable {c : Char} {tail written whole fraction : Text} {width : Nat}

theorem numeral_whole (digits : ∀ c ∈ whole, c.isDigit = true) (spaced : Spaced after) :
    numeral (whole ++ after) = (whole, none) := by
  simp only [numeral, (span_append digits spaced.not_isDigit).1, List.drop_left]
  rcases spaced.cases with rfl | ⟨rest, rfl | rfl | rfl | rfl⟩ <;> rfl

theorem numeral_fraction (digits : ∀ c ∈ whole, c.isDigit = true)
    (digits' : ∀ c ∈ fraction, c.isDigit = true) (spaced : Spaced after) :
    numeral (whole ++ '.' :: (fraction ++ after)) = (whole, some fraction) := by
  have point : ∀ c ∈ ('.' :: (fraction ++ after)).head?, c.isDigit = false := by
    rintro c ⟨⟩
    rfl
  have noPoint : (fraction ++ after).head? ≠ some '.' := by
    cases fraction with
    | nil => rcases spaced.cases with rfl | ⟨rest, rfl | rfl | rfl | rfl⟩ <;> nofun
    | cons d fraction =>
      rintro ⟨⟩
      cases digits' _ List.mem_cons_self
  simp only [numeral, (span_append digits point).1, List.drop_left]
  split
  · rename_i same
    exact absurd (by rw [(List.cons.inj same).2]; rfl) noPoint
  · rename_i same
    rw [← (List.cons.inj same).2, (span_append digits' spaced.not_isDigit).1]
  · rename_i other
    exact absurd rfl (other _)

theorem readName_wildcard (lexical : isName name = true) (operandBefore : Bool) (after : Text) :
    Token.readName operandBefore (name ++ ":*".toList ++ after) =
      (Token.ofPrefixWildcard name after, name.length + 2) := by
  have colon : StopsName (':' :: '*' :: after) := by
    rintro c ⟨⟩
    decide
  have whole : qualifiedName (name ++ ':' :: '*' :: after) = name := by
    have star : (localName ('*' :: after)).isEmpty = true := rfl
    have nonempty : name.isEmpty = false := by simpa using ne_nil_of_isName lexical
    simp only [qualifiedName, localName_of_stopsName lexical colon, List.drop_left, nonempty, star,
      Bool.false_eq_true, if_false, if_true]
  have plain : name.contains ':' = false := by simpa using colon_notMem_of_isName lexical
  have same : name ++ ":*".toList ++ after = name ++ ':' :: '*' :: after := by simp
  rw [same, Token.readName]
  simp only [whole, List.drop_left, plain]

/-- A name is read again from its lexeme. -/
theorem readName_again (start : isNameStart c = true)
    (read : Token.readName operandBefore (c :: tail ++ after) = (token, (c :: tail).length))
    (spaced : Spaced after') (ahead : SameAhead after after') :
    Token.readName operandBefore (c :: tail ++ after') = (token, (c :: tail).length) := by
  have named : localName (c :: tail ++ after) ≠ [] := by simp [localName, start]
  obtain ⟨-, qualified, behind, same, -⟩ := qualifiedName_ok named
  have rest : (c :: tail ++ after).drop (qualifiedName (c :: tail ++ after)).length = behind :=
    (congrArg (List.drop _) same).trans List.drop_left
  rw [Token.readName] at read
  simp only [rest] at read
  generalize qualifiedName (c :: tail ++ after) = name at *
  split at read
  · rename_i behind plain
    obtain ⟨known, length⟩ := Prod.mk.inj read
    have same : c :: tail ++ after = (name ++ ":*".toList) ++ behind := by simpa using same
    obtain ⟨written, rfl⟩ := List.append_inj same (by simp [← length])
    rw [written, readName_wildcard (qualified.isName_of_not_contains plain), ← (ahead name).2,
      known]
    simp
  · rename_i behind _ _ _
    have read : ((if operandBefore then Token.operatorOfName? name else none).getD
        (Token.ofName name behind), name.length) = (token, (c :: tail).length) := by
      generalize (if operandBefore then Token.operatorOfName? name else none) = operator at read ⊢
      cases operator <;> exact read
    obtain ⟨known, length⟩ := Prod.mk.inj read
    obtain ⟨written, rfl⟩ := List.append_inj same length.symm
    rw [written, readName_of_isQualified qualified spaced.endsName, ← (ahead name).1, known]

/-- A token is read again from its lexeme, whatever blanks are behind it. -/
theorem read_again (lexeme : Lexeme operandBefore token (c :: tail) after)
    (read : Token.read operandBefore c (tail ++ after) = .ok (token, (c :: tail).length))
    (spaced : Spaced after') (ahead : SameAhead after after') :
    Token.read operandBefore c (tail ++ after') = .ok (token, (c :: tail).length) := by
  -- a name may be an operator or not, which its lexeme does not tell: it is read anew
  by_cases start : isNameStart c = true
  · rw [read_isNameStart start] at read ⊢
    exact congrArg Except.ok (readName_again start (Except.ok.inj read) spaced ahead)
  obtain ⟨written, same⟩ : ∃ written, written = c :: tail := ⟨_, rfl⟩
  rw [← same] at lexeme
  cases lexeme with
  | mark isMark =>
    cases token <;> first
      | (cases isMark; done)
      | (cases same; rfl)
      | (cases same; cases operandBefore <;> first | rfl | cases read)
      | (cases same; rcases spaced.cases with rfl | ⟨rest, rfl | rfl | rfl | rfl⟩ <;> rfl)
  | integer nonempty digits =>
    cases same
    rw [read_isDigit (digits c List.mem_cons_self), ← List.cons_append, Token.readNumber,
      numeral_whole digits spaced]
  | @decimal whole fraction after nonempty digits digits' =>
    have number : Token.readNumber (c :: (tail ++ after')) =
        (.number (.ofDigits false whole fraction), (c :: tail).length) := by
      rw [← List.cons_append, ← same, List.append_assoc, List.cons_append, Token.readNumber,
        numeral_fraction digits digits' spaced, List.length_append, List.length_cons]
      dsimp only
      rw [Nat.add_assoc, Nat.add_comm 1]
    cases whole with
    | nil =>
      obtain ⟨d, fraction, rfl⟩ := List.exists_cons_of_ne_nil (nonempty.resolve_left (· rfl))
      cases same
      exact (read_point (digits' d List.mem_cons_self) _ _).trans (congrArg Except.ok number)
    | cons d whole =>
      cases same
      rw [read_isDigit (digits c List.mem_cons_self), number]
  | @literal quote value isQuote absent =>
    cases same
    have found : Token.readLiteral c (value ++ [c] ++ after') =
        .ok (.literal value, (c :: (value ++ [c])).length) := by
      rw [List.append_assoc, List.singleton_append, Token.readLiteral,
        Text.breakOn?_singleton absent]
      simp
    rcases isQuote with rfl | rfl <;> exact found
  | reference qualified =>
    cases same
    have whole := qualifiedName_of_isQualified qualified spaced.endsName
    have some := qualified.ne_nil
    simp [Token.read, whole, some]
  | operator known =>
    rcases operator_cases known with rfl | rfl | rfl | rfl <;> cases same <;>
      exact absurd rfl start
  | name qualified =>
    cases same
    exact absurd qualified.head start
  | prefixWildcard lexical =>
    obtain ⟨first, rest, rfl, named, -⟩ := isName_iff.mp lexical
    cases same
    exact absurd named start

end Again

end Reading

section Pieces

variable {operandBefore : Bool} {place position : Nat} {text : Text} {tokens : List Located}
  {pieces respaced : List Piece}

/-- Each token stands where its piece starts, in pieces from some place on. -/
inductive Laid : Nat → List Located → List Piece → Prop
  | nil (place : Nat) : Laid place [] []
  | cons {place : Nat} {found : Located} {tokens : List Located} {piece : Piece}
      {pieces : List Piece} (here : found.position = place)
      (shown : found.token.isPlain = true → piece.lexeme = found.token.text)
      (behind : Laid (place + Text.byteLength piece.text) tokens pieces) :
      Laid place (found :: tokens) (piece :: pieces)

/-- Of the tokens that are shown as they were written. -/
theorem Lexeme.eq_text {token : Token} {written after : Text}
    (lexeme : Lexeme operandBefore token written after) (plain : token.isPlain = true) :
    written = token.text := by
  cases lexeme with
  | mark | reference | operator => rfl
  | integer | decimal | literal => cases plain
  | name qualified =>
    unfold Token.ofName
    split
    · rfl
    · split
      · rename_i type known
        have named := List.find?_some known
        exact (beq_iff_eq.mp named).symm
      · rfl
    · rfl
  | prefixWildcard =>
    unfold Token.ofPrefixWildcard
    split <;> rfl

theorem IsQualified.not_isBlank {name : Text} (qualified : IsQualified name) {c : Char}
    (member : c ∈ name) : isBlank c = false := by
  have inner {name : Text} (lexical : isName name = true) (member : c ∈ name) :
      isBlank c = false := by
    refine Bool.eq_false_iff.mpr fun blank => ?_
    exact absurd (isNameChar_of_mem lexical member) (by simp [not_isNameChar_of_isBlank blank])
  rcases qualified with lexical | ⟨space, rest, rfl, lexical, lexical'⟩
  · exact inner lexical member
  · rcases List.mem_append.mp member with member | member
    · exact inner lexical member
    · rcases List.mem_cons.mp member with rfl | member
      · rfl
      · exact inner lexical' member

/-- A lexeme does not end in a blank. -/
theorem Lexeme.printed {token : Token} {written after : Text}
    (lexeme : Lexeme operandBefore token written after) :
    ∃ c ∈ written.getLast?, isBlank c = false := by
  have some := lexeme.ne_nil
  refine ⟨written.getLast some, List.getLast?_eq_some_getLast some, ?_⟩
  have member := List.getLast_mem some
  cases lexeme with
  | mark isMark => cases token <;> first | rfl | cases isMark
  | integer _ digits => exact not_isBlank_of_isDigit (digits _ member)
  | decimal _ digits digits' =>
    rcases List.mem_append.mp member with member | member
    · exact not_isBlank_of_isDigit (digits _ member)
    · rcases List.mem_cons.mp member with point | member
      · rw [point]
        rfl
      · exact not_isBlank_of_isDigit (digits' _ member)
  | literal isQuote =>
    rw [List.getLast_concat]
    rcases isQuote with rfl | rfl <;> rfl
  | reference qualified =>
    rcases List.mem_cons.mp member with sign | member
    · rw [sign]
      rfl
    · exact qualified.not_isBlank member
  | operator known => rcases operator_cases known with rfl | rfl | rfl | rfl <;> rfl
  | name qualified => exact qualified.not_isBlank member
  | prefixWildcard =>
    rw [List.getLast_append_of_ne_nil some (by decide)]
    rfl

theorem Scans.gap {gap rest : Text} {tokens : List Token} (blank : ∀ c ∈ gap, isBlank c = true)
    (behind : Scans operandBefore rest tokens) : Scans operandBefore (gap ++ rest) tokens := by
  induction gap with
  | nil => exact behind
  | cons c gap ih =>
    obtain ⟨first, others⟩ := List.forall_mem_cons.mp blank
    exact .blank first (ih others)

theorem joined_cons (piece : Piece) (pieces : List Piece) :
    joined (piece :: pieces) = piece.lexeme ++ (piece.gap ++ joined pieces) := by
  rw [joined, List.flatMap_cons, Piece.text, List.append_assoc, joined]

/-- The tokens of a text lie in pieces of it, and they are found again in the lexemes of the pieces
with other blanks. -/
theorem scan_pieces (scanned : scan operandBefore position text = .ok tokens) :
    ∃ lead pieces, text = lead ++ joined pieces ∧ (∀ c ∈ lead, isBlank c = true) ∧
      Laid (position + Text.byteLength lead) tokens pieces ∧
      ∀ lead' respaced, (∀ c ∈ lead', isBlank c = true) →
        respaced.map (·.lexeme) = pieces.map (·.lexeme) → Separated respaced →
        SameAhead text (lead' ++ joined respaced) ∧
          Scans operandBefore (lead' ++ joined respaced) (tokens.map (·.token)) := by
  induction tokens generalizing operandBefore position text with
  | nil =>
    have blank := scan_nil_ok scanned
    refine ⟨text, [], (List.append_nil text).symm, blank, .nil _, ?_⟩
    intro lead' respaced blank' same _
    obtain rfl := List.map_eq_nil_iff.mp same
    have nothing : Scans operandBefore (lead' ++ []) [] := .gap blank' (.nil _)
    rw [List.append_nil] at nothing
    rw [joined, List.flatMap_nil, List.append_nil]
    exact ⟨sameAhead_gap blank blank', nothing⟩
  | cons found tokens ih =>
    obtain ⟨gap, c, tail, after, rfl, blank, here, read, lexeme, behind⟩ := scan_cons_read scanned
    obtain ⟨lead, pieces, rfl, blankLead, laid, again⟩ := ih behind
    refine ⟨gap, ⟨c :: tail, lead, lexeme.printed, blankLead⟩ :: pieces, ?_, blank, ?_, ?_⟩
    · rw [joined_cons]
    · refine .cons here lexeme.eq_text ?_
      rw [Piece.text, Text.byteLength_append, ← here, ← Nat.add_assoc]
      exact laid
    · intro lead' respaced blank' same separated
      obtain ⟨piece, others, rfl, written, same⟩ := List.map_eq_cons_iff.mp same
      have separated' : Separated others ∧ (piece.gap = [] → joined others = []) := by
        cases others with
        | nil => exact ⟨nofun, fun _ => rfl⟩
        | cons next others =>
          obtain ⟨apart, separated⟩ := List.forall_mem_cons.mp separated
          exact ⟨separated, fun none => absurd none apart⟩
      obtain ⟨ahead, scans⟩ := again piece.gap others piece.blank same separated'.1
      have spaced : Spaced (piece.gap ++ joined others) := spaced_append piece.blank separated'.2
      -- a name looks at the blanks behind it and at the next lexeme, which are alike in both texts
      have read := read_again lexeme read spaced ahead
      rw [joined_cons, written]
      refine ⟨lexeme.sameAhead blank blank' _ _, .gap blank' ?_⟩
      obtain ⟨_, _, ⟨rfl, rfl⟩, visible, -⟩ := lexeme.head
      refine .cons (Bool.eq_false_iff.mpr fun blank => ?_) read ?_
      · exact absurd (isSpace_of_isAsciiSpace (isAsciiSpace_of_isBlank blank)) (by simp [visible])
      · have left : (tail.append (piece.gap ++ joined others)).drop ((c :: tail).length - 1) =
            piece.gap ++ joined others := @List.drop_left _ tail _
        rw [left]
        exact scans

theorem Laid.length (laid : Laid place tokens pieces) : pieces.length = tokens.length := by
  induction laid with
  | nil => rfl
  | cons _ _ _ ih => rw [List.length_cons, List.length_cons, ih]

theorem Laid.le (laid : Laid place tokens pieces) : ∀ found ∈ tokens, place ≤ found.position := by
  induction laid with
  | nil => exact List.forall_mem_nil _
  | cons here _ _ ih =>
    refine List.forall_mem_cons.mpr ⟨Nat.le_of_eq here.symm, fun found member => ?_⟩
    exact Nat.le_trans (Nat.le_add_right ..) (ih found member)

theorem Piece.byteLength_pos (piece : Piece) : 0 < Text.byteLength piece.text := by
  obtain ⟨c, last, -⟩ := piece.printed
  have some := List.ne_nil_of_mem (List.mem_of_getLast? last)
  obtain ⟨first, rest, same⟩ := List.exists_cons_of_ne_nil some
  rw [Piece.text, same, List.cons_append, Text.byteLength_cons]
  exact Nat.add_pos_left first.utf8Size_pos _

theorem Laid.ascending (laid : Laid place tokens pieces) :
    (tokens.map (·.position)).Pairwise (· < ·) := by
  induction laid with
  | nil => exact .nil
  | @cons _ _ _ piece _ here _ behind ih =>
    refine List.pairwise_cons.mpr ⟨fun position member => ?_, ih⟩
    obtain ⟨next, inside, rfl⟩ := List.mem_map.mp member
    calc
      _ = _ := here
      _ < _ := Nat.lt_add_of_pos_right piece.byteLength_pos
      _ ≤ next.position := behind.le next inside

/-- The text from a token to the next one is its piece. -/
theorem Laid.stretch {before : Text} {i : Nat} {found : Located} {piece : Piece}
    (laid : Laid place tokens pieces) (start : Text.byteLength before = place)
    (token : tokens[i]? = some found) (here : pieces[i]? = some piece) :
    Stretch (before ++ joined pieces) found.position (pieceEnd (before ++ joined pieces) tokens i)
        piece.text ∧
      (found.token.isPlain = true → piece.lexeme = found.token.text) := by
  induction laid generalizing before i with
  | nil => cases token
  | @cons _ first tokens own pieces place shown behind ih =>
    have cut : before ++ joined (own :: pieces) = before ++ own.text ++ joined pieces := by
      rw [joined, List.flatMap_cons, List.append_assoc, joined]
    have next : Text.byteLength (before ++ own.text) = _ + Text.byteLength own.text :=
      (Text.byteLength_append ..).trans (by rw [start])
    rw [cut]
    cases i with
    | zero =>
      obtain rfl := Option.some.inj token
      obtain rfl := Option.some.inj here
      refine ⟨⟨before, joined pieces, rfl, start.trans place.symm, ?_⟩, shown⟩
      cases behind with
      | nil => simp [pieceEnd, joined]
      | cons place' => exact next.trans place'.symm
    | succ i => exact ih next token here

/-- A text is cut into pieces, one for each token, behind blanks: the positions of the tokens
ascend, from each to the next there is a lexeme with blanks behind it, and only numbers and literals
are not shown as they are written. With other blanks between them, the lexemes are the same
tokens. -/
structure Cut (text : Text) (tokens : List Located) (lead : Text) (pieces : List Piece) :
    Prop where
  whole : text = lead ++ joined pieces
  blank : ∀ c ∈ lead, isBlank c = true
  ascending : (tokens.map (·.position)).Pairwise (· < ·)
  length : pieces.length = tokens.length
  stretch : ∀ (i : Nat) found piece, tokens[i]? = some found → pieces[i]? = some piece →
    Stretch text found.position (pieceEnd text tokens i) (piece.lexeme ++ piece.gap)
  shown : ∀ (i : Nat) found piece, tokens[i]? = some found → pieces[i]? = some piece →
    found.token.isPlain = true → piece.lexeme = found.token.text
  respaced : ∀ lead' respaced, (∀ c ∈ lead', isBlank c = true) →
    respaced.map (·.lexeme) = pieces.map (·.lexeme) → Separated respaced →
    ∃ again, tokenize (lead' ++ joined respaced) = .ok again ∧
      again.map (·.token) = tokens.map (·.token)

/-- Whatever is cut into tokens is cut into pieces without a loss, and how wide its blanks are does
not matter. -/
theorem tokenize_cuts (read : tokenize text = .ok tokens) :
    ∃ lead pieces, Cut text tokens lead pieces := by
  obtain ⟨lead, pieces, rfl, blank, laid, again⟩ := scan_pieces read
  rw [Nat.zero_add] at laid
  refine ⟨lead, pieces, rfl, blank, laid.ascending, laid.length, ?_, ?_, ?_⟩
  · exact fun i found piece token here => (laid.stretch rfl token here).1
  · exact fun i found piece token here => (laid.stretch rfl token here).2
  · intro lead' respaced blank' same separated
    exact (again lead' respaced blank' same separated).2.tokenize

theorem tokenize_cuts_wildcard :
    ∃ tokens, tokenize " a:*[.*1.]/child :: and-b\tmod$c:d ".toList = .ok tokens ∧
      tokens.length = 12 ∧
      ∃ lead pieces, Cut " a:*[.*1.]/child :: and-b\tmod$c:d ".toList tokens lead pieces := by
  have lexes : (tokenize " a:*[.*1.]/child :: and-b\tmod$c:d ".toList).toOption.any
      (·.length == 12) = true := by decide +kernel
  obtain ⟨tokens, read, count⟩ := exists_ok_of_any lexes
  exact ⟨tokens, read, eq_of_beq count, tokenize_cuts read⟩

end Pieces

end XmlSelect.XPath
