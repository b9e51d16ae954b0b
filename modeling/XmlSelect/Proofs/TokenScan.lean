import XmlSelect.Proofs.WordSearch
import XmlSelect.XPath.Scan

/-! The tokens of texts that are put together from pieces. A piece is scanned on its own if what
follows does not continue it, and the place where it stands does not matter. -/
namespace XmlSelect.XPath

/-- The text is cut into these tokens, at whatever place it starts. -/
def Scans (operandBefore : Bool) (text : Text) (tokens : List Token) : Prop :=
  ∀ position, (scan operandBefore position text).map (·.map (·.token)) = .ok tokens

/-- Whether a text is a name without a prefix. -/
def isName : Text → Bool
  | c :: rest => isNameStart c && rest.all isNameChar
  | [] => false

/-- Whether a name in front of a text ends there. -/
def endsName (rest : Text) : Bool := rest.head?.all fun c => !isNameChar c && c != ':'

/-- Whether a name in front of a text is a test: nothing makes it an axis or a call. -/
def endsTest (rest : Text) : Bool :=
  endsName rest && (rest.dropWhile isSpace).head?.all fun c => c != ':' && c != '('

theorem isName_iff {name : Text} : isName name = true ↔
    ∃ first rest, name = first :: rest ∧ isNameStart first = true ∧
      ∀ c ∈ rest, isNameChar c = true := by
  constructor
  · intro lexical
    cases name with
    | nil => cases lexical
    | cons first rest => exact ⟨first, rest, rfl, by simpa [isName] using lexical⟩
  · rintro ⟨first, rest, rfl, start, inner⟩
    simpa [isName, start] using inner

section Characters

variable {c : Char}

private theorem toNat_of_isNameStart (start : isNameStart c = true) :
    65 ≤ c.toNat ∧ c.toNat ≤ 90 ∨ c.toNat = 95 ∨ 97 ≤ c.toNat ∧ c.toNat ≤ 122 ∨
      128 ≤ c.toNat := by
  have upper : c.isUpper = decide (65 ≤ c.toNat ∧ c.toNat ≤ 90) := rfl
  have lower : c.isLower = (decide (97 ≤ c.toNat) && decide (c.toNat ≤ 122)) := rfl
  have letter : c.isAlpha = (c.isUpper || c.isLower) := rfl
  by_cases ascii : c.toNat < 128
  · simp only [isNameStart, isLetter, ascii, if_true, letter, upper, lower, Bool.or_eq_true,
      Bool.and_eq_true, decide_eq_true_eq, beq_iff_eq] at start
    rcases start with (⟨low, high⟩ | ⟨low, high⟩) | rfl
    · exact .inl ⟨low, high⟩
    · exact .inr (.inr (.inl ⟨low, high⟩))
    · exact .inr (.inl rfl)
  · exact .inr (.inr (.inr (Nat.le_of_not_lt ascii)))

theorem not_isBlank_of_isNameStart (start : isNameStart c = true) : isBlank c = false := by
  rw [Bool.eq_false_iff]
  intro blank
  simp only [isBlank, Bool.or_eq_true, beq_iff_eq] at blank
  rcases blank with ((rfl | rfl) | rfl) | rfl <;> revert start <;> decide

theorem not_isDigit_of_isNameStart (start : isNameStart c = true) : c.isDigit = false := by
  rw [Bool.eq_false_iff]
  intro digit
  obtain ⟨low, high⟩ : 48 ≤ c.toNat ∧ c.toNat ≤ 57 := Char.isDigit_iff_toNat.mp digit
  have := toNat_of_isNameStart start
  omega

theorem not_isBlank_of_isDigit (digit : c.isDigit = true) : isBlank c = false := by
  rw [Bool.eq_false_iff]
  intro blank
  simp only [isBlank, Bool.or_eq_true, beq_iff_eq] at blank
  rcases blank with ((rfl | rfl) | rfl) | rfl <;> revert digit <;> decide

theorem isNameChar_of_isDigit (digit : c.isDigit = true) : isNameChar c = true := by
  have ascii : c.toNat < 128 := Nat.lt_of_le_of_lt (Char.isDigit_iff_toNat.mp digit).2 (by decide)
  simp [isNameChar, isLetterOrNumber, ascii, digit]

/-- A number is read from its first digit on. -/
theorem read_isDigit (digit : c.isDigit = true) (operandBefore : Bool) (rest : Text) :
    Token.read operandBefore c rest = .ok (Token.readNumber (c :: rest)) := by
  unfold Token.read
  split <;> first
    | exact absurd digit (by decide)
    | exact if_pos digit

/-- So is a number from its point on, with a digit behind it. -/
theorem read_point (digit : c.isDigit = true) (operandBefore : Bool) (rest : Text) :
    Token.read operandBefore '.' (c :: rest) = .ok (Token.readNumber ('.' :: c :: rest)) := by
  have noPoint : c ≠ '.' := by
    rintro rfl
    cases digit
  rw [Token.read]
  · rw [if_pos digit]
  · exact noPoint

/-- A name is read from its first character on. -/
theorem read_isNameStart (start : isNameStart c = true) (operandBefore : Bool) (rest : Text) :
    Token.read operandBefore c rest = .ok (Token.readName operandBefore (c :: rest)) := by
  unfold Token.read
  split <;> first
    | exact absurd start (by decide)
    | rw [if_neg (Bool.eq_false_iff.mp (not_isDigit_of_isNameStart start)), if_pos start]

end Characters

section Names

variable {name rest : Text}

theorem localName_append (lexical : isName name = true) (ends : endsName rest = true) :
    localName (name ++ rest) = name := by
  obtain ⟨first, tail, rfl, start, inner⟩ := isName_iff.mp lexical
  have stops : rest.takeWhile isNameChar = [] := by
    cases rest with
    | nil => rfl
    | cons c rest =>
      simp only [endsName, List.head?_cons, Option.all_some, Bool.and_eq_true,
        Bool.not_eq_true'] at ends
      simp [ends.1]
  simp only [List.cons_append, localName, start, if_true]
  rw [List.takeWhile_append_of_pos inner, stops, List.append_nil]

private theorem not_colon_of_endsName {tail : Text} (ends : endsName rest = true) :
    rest ≠ ':' :: tail := by
  rintro rfl
  exact absurd ends (by simp [endsName])

theorem qualifiedName_append (lexical : isName name = true) (ends : endsName rest = true) :
    qualifiedName (name ++ rest) = name := by
  have named : name.isEmpty = false := by cases name <;> simp_all [isName]
  simp only [qualifiedName, localName_append lexical ends, named, List.drop_left]
  split
  · contradiction
  · split
    · exact absurd rfl (not_colon_of_endsName ends)
    · rfl

/-- A name that ends is read whole: an operator if it stands for one here, else what the text
behind it makes of it. -/
theorem readName_append (lexical : isName name = true) (ends : endsName rest = true)
    (operandBefore : Bool) :
    Token.readName operandBefore (name ++ rest) =
      (((if operandBefore then Token.operatorOfName? name else none).getD
        (Token.ofName name rest)), name.length) := by
  rw [Token.readName]
  simp only [qualifiedName_append lexical ends, List.drop_left]
  split
  · exact absurd rfl (not_colon_of_endsName ends)
  · split <;> rename_i operator <;> simp [operator]

theorem ofName_of_endsTest (name : Text) (ends : endsTest rest = true) :
    Token.ofName name rest = .nameTest name := by
  rw [endsTest, Bool.and_eq_true] at ends
  rw [Token.ofName]
  split <;> rename_i shape <;> simp_all

theorem ofName_call (noType : NodeType.ofName? name = none) (rest : Text) :
    Token.ofName name ('(' :: rest) = .function name := by
  have noBlank : ('(' :: rest).dropWhile isSpace = '(' :: rest := rfl
  simp [Token.ofName, noBlank, noType]

end Names

namespace Scans

variable {operandBefore : Bool} {rest : Text} {tokens : List Token}

theorem nil (operandBefore : Bool) : Scans operandBefore [] [] := by
  intro position
  rw [scan]
  rfl

theorem blank {c : Char} (isBlank : isBlank c = true) (behind : Scans operandBefore rest tokens) :
    Scans operandBefore (c :: rest) tokens := by
  intro position
  rw [scan, if_pos isBlank]
  exact behind _

theorem scan_cons {c : Char} {token : Token} {width : Nat} (printed : isBlank c = false)
    (read : Token.read operandBefore c rest = .ok (token, width)) (position : Nat) :
    scan operandBefore position (c :: rest) =
      (scan token.endsOperand (position + Text.byteLength ((c :: rest).take width))
        (rest.drop (width - 1))).map (⟨token, position⟩ :: ·) := by
  rw [scan, if_neg (Bool.eq_false_iff.mp printed), read]
  rfl

/-- One token and those behind it. -/
theorem cons {c : Char} {token : Token} {width : Nat} (printed : isBlank c = false)
    (read : Token.read operandBefore c rest = .ok (token, width))
    (behind : Scans token.endsOperand (rest.drop (width - 1)) tokens) :
    Scans operandBefore (c :: rest) (token :: tokens) := by
  intro position
  have located := behind (position + Text.byteLength ((c :: rest).take width))
  rw [scan_cons printed read]
  cases scanned : scan token.endsOperand (position + Text.byteLength ((c :: rest).take width))
      (rest.drop (width - 1)) with
  | error stop =>
    rw [scanned] at located
    cases located
  | ok found =>
    rw [scanned] at located
    simpa [Except.map] using located

theorem literal {quote : Char} {value : Text} (isQuote : quote = '\'' ∨ quote = '"')
    (absent : quote ∉ value) (behind : Scans true rest tokens) :
    Scans operandBefore (quote :: value ++ quote :: rest) (.literal value :: tokens) := by
  have read : Token.read operandBefore quote (value ++ quote :: rest) =
      .ok (.literal value, value.length + 2) := by
    have found : Token.readLiteral quote (value ++ quote :: rest) =
        .ok (.literal value, value.length + 2) := by
      rw [Token.readLiteral, Text.breakOn?_singleton absent]
    rcases isQuote with rfl | rfl <;> exact found
  refine cons (by rcases isQuote with rfl | rfl <;> decide) read ?_
  simpa [Token.endsOperand] using behind

/-- A name where an operand may stand. -/
theorem name {name : Text} (lexical : isName name = true) (ends : endsName rest = true)
    (behind : Scans (Token.ofName name rest).endsOperand rest tokens) :
    Scans false (name ++ rest) (Token.ofName name rest :: tokens) := by
  have whole := readName_append lexical ends false
  obtain ⟨first, tail, rfl, start, inner⟩ := isName_iff.mp lexical
  refine cons (not_isBlank_of_isNameStart start)
    ((read_isNameStart start false _).trans (congrArg Except.ok whole)) ?_
  simpa using behind

theorem nameTest {name : Text} (lexical : isName name = true) (ends : endsTest rest = true)
    (behind : Scans true rest tokens) : Scans false (name ++ rest) (.nameTest name :: tokens) := by
  rw [← ofName_of_endsTest name ends]
  refine Scans.name lexical (Bool.and_eq_true_iff.mp ends).1 ?_
  rw [ofName_of_endsTest name ends]
  exact behind

theorem call {name : Text} (lexical : isName name = true) (noType : NodeType.ofName? name = none)
    (behind : Scans false rest tokens) :
    Scans false (name ++ '(' :: rest) (.function name :: .leftParen :: tokens) := by
  rw [← ofName_call noType rest]
  refine Scans.name lexical rfl ?_
  rw [ofName_call noType rest]
  exact cons (by decide) rfl behind

/-- The word of an operator between blanks. -/
theorem word (word : Text) {operator : Token} (lexical : isName word = true)
    (known : Token.operatorOfName? word = some operator)
    (behind : Scans operator.endsOperand rest tokens) :
    Scans true (' ' :: (word ++ ' ' :: rest)) (operator :: tokens) := by
  have ends : endsName (' ' :: rest) = true := rfl
  have whole := readName_append lexical ends true
  rw [if_pos rfl, known, Option.getD_some] at whole
  obtain ⟨first, tail, rfl, start, -⟩ := isName_iff.mp lexical
  refine .blank rfl (cons (not_isBlank_of_isNameStart start)
    ((read_isNameStart start true _).trans (congrArg Except.ok whole)) ?_)
  simpa using blank rfl behind

/-- A natural number with its decimal digits. -/
theorem digits (number : Nat) (ends : rest.head?.all (fun c => !c.isDigit && c != '.') = true)
    (behind : Scans true rest tokens) :
    Scans operandBefore (Text.ofNat number ++ rest)
      (.number (Double.ofDigits false (Text.ofNat number) []) :: tokens) := by
  have isDigit : ∀ c ∈ Text.ofNat number, c.isDigit = true := fun c member =>
    Nat.isDigit_of_mem_toDigits (by decide) (by decide) member
  have nonempty : Text.ofNat number ≠ [] := Nat.toDigits_ne_nil
  generalize Text.ofNat number = text at isDigit nonempty ⊢
  have stops : rest.takeWhile Char.isDigit = [] := by cases rest <;> simp_all
  have whole : numeral (text ++ rest) = (text, none) := by
    have taken : (text ++ rest).takeWhile Char.isDigit = text := by
      rw [List.takeWhile_append_of_pos isDigit, stops, List.append_nil]
    simp only [numeral, taken, List.drop_left]
    split <;> simp_all
  obtain ⟨first, tail, rfl⟩ := List.exists_cons_of_ne_nil nonempty
  have digit := isDigit first List.mem_cons_self
  have read : Token.read operandBefore first (tail ++ rest) =
      .ok (.number (Double.ofDigits false (first :: tail) []), tail.length + 1) := by
    have number : Token.readNumber (first :: tail ++ rest) =
        (.number (Double.ofDigits false (first :: tail) []), tail.length + 1) := by
      rw [Token.readNumber, whole]
      rfl
    exact (read_isDigit digit operandBefore _).trans (congrArg Except.ok number)
  refine cons (not_isBlank_of_isDigit digit) read ?_
  simpa [Token.endsOperand] using behind

theorem slash (noSlash : rest.head? ≠ some '/') (behind : Scans false rest tokens) :
    Scans operandBefore ('/' :: rest) (.slash :: tokens) := by
  have read : Token.read operandBefore '/' rest = .ok (.slash, 1) := by
    unfold Token.read
    split <;> simp_all
  exact cons (by decide) read behind

theorem doubleSlash (behind : Scans false rest tokens) :
    Scans operandBefore ("//".toList ++ rest) (.doubleSlash :: tokens) :=
  cons (c := '/') (by decide) rfl behind

/-- The tokens of a text on its own. -/
theorem tokenize {text : Text} (scans : Scans false text tokens) :
    ∃ located, XPath.tokenize text = .ok located ∧ located.map (·.token) = tokens := by
  have whole := scans 0
  rw [XPath.tokenize]
  cases scanned : scan false 0 text with
  | error stop =>
    rw [scanned] at whole
    cases whole
  | ok located =>
    rw [scanned] at whole
    exact ⟨located, rfl, Except.ok.inj whole⟩

end Scans

end XmlSelect.XPath
