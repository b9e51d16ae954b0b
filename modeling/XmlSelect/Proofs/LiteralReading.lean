import Mathlib.Data.List.TakeWhile
import XmlSelect.Proofs.AcceptedText

/-! Literals as the check of constant operands reads them off a text in lower case: numbers as the
grammar reads them, strings with their letters in lower case. -/
namespace XmlSelect.Gate

open XPath

section LowerCase

variable {text : Text}

/-- What is no letter is the lower case of itself only. -/
theorem eq_of_toLower {c d : Char} (same : c.toLower = d) (noLetter : d.isAlpha = false) :
    c = d := by
  by_cases upper : c.isUpper = true
  · have letter := of_isUpper (fun c => c.toLower.isAlpha) (by decide) upper
    exact absurd letter (by simp [same, noLetter])
  · rw [← same, toLower_of_not_isUpper (by simpa using upper)]

theorem isDigit_toLower : ∀ c : Char, c.toLower.isDigit = c.isDigit :=
  same_toLower Char.isDigit (by decide)

theorem isBlank_toLower : ∀ c : Char, isBlank c.toLower = isBlank c :=
  same_toLower isBlank (by decide)

theorem toLower_eq_self (small : ∀ c ∈ text, c.isUpper = false) : Text.toLower text = text :=
  (List.map_congr_left fun c member => toLower_of_not_isUpper (small c member)).trans
    (List.map_id text)

theorem not_isUpper_of_isDigit {c : Char} (digit : c.isDigit = true) : c.isUpper = false := by
  rw [Bool.eq_false_iff]
  intro upper
  exact absurd (of_isUpper (fun c => !c.isDigit) (by decide) upper) (by simp [digit])

theorem toLower_digits (digits : ∀ c ∈ text, c.isDigit = true) : Text.toLower text = text :=
  toLower_eq_self fun c member => not_isUpper_of_isDigit (digits c member)

/-- The number that digits with a decimal point at most denote. -/
private def unsignedNumber (negative : Bool) (body : Text) : Double :=
  let whole := body.takeWhile Char.isDigit
  match body.dropWhile Char.isDigit with
  | [] => if whole.isEmpty then .nan else .ofDigits negative whole []
  | '.' :: fraction =>
    if whole.isEmpty && fraction.isEmpty || !fraction.all Char.isDigit then .nan
    else .ofDigits negative whole fraction
  | _ => .nan

private theorem readNumber_eq (text : Text) : readNumber text =
    match Text.trim isBlank text with
    | '-' :: body => unsignedNumber true body
    | body => unsignedNumber false body := by
  unfold readNumber
  generalize Text.trim isBlank text = trimmed
  change unsignedNumber (match trimmed with | '-' :: body => (true, body) | body => (false, body)).1
    (match trimmed with | '-' :: body => (true, body) | body => (false, body)).2 = _
  split <;> rfl

private theorem unsignedNumber_toLower (negative : Bool) (body : Text) :
    unsignedNumber negative (Text.toLower body) = unsignedNumber negative body := by
  have digits : (Text.toLower body).takeWhile Char.isDigit = body.takeWhile Char.isDigit := by
    rw [Text.toLower, List.takeWhile_map]
    have same : Char.isDigit ∘ Char.toLower = Char.isDigit := funext isDigit_toLower
    rw [same]
    exact toLower_digits (List.all_eq_true.mp List.all_takeWhile)
  unfold unsignedNumber
  rw [digits, Text.dropWhile_toLower isDigit_toLower]
  generalize body.dropWhile Char.isDigit = rest
  cases rest with
  | nil => rfl
  | cons c fraction =>
    by_cases point : c = '.'
    · subst point
      have all : (Text.toLower fraction).all Char.isDigit = fraction.all Char.isDigit := by
        rw [Text.toLower, List.all_map]
        exact congrArg (List.all fraction) (funext isDigit_toLower)
      have empty : (Text.toLower fraction).isEmpty = fraction.isEmpty := by
        rw [Text.toLower, List.isEmpty_map]
      change (if _ && (Text.toLower fraction).isEmpty || !(Text.toLower fraction).all _ then _
        else Double.ofDigits _ _ (Text.toLower fraction)) = if _ then _ else _
      rw [all, empty]
      split
      · rfl
      · rename_i digits
        rw [toLower_digits (by simp_all)]
    · have point' : c.toLower ≠ '.' := fun same => point (eq_of_toLower same (by decide))
      simp [Text.toLower, point, point']

/-- Letters make no number, so that their case does not matter. -/
theorem readNumber_toLower (text : Text) : readNumber (Text.toLower text) = readNumber text := by
  have trimmed : Text.trim isBlank (Text.toLower text) = Text.toLower (Text.trim isBlank text) := by
    rw [Text.trim, Text.dropWhile_toLower isBlank_toLower, Text.toLower, ← List.map_reverse,
      ← Text.toLower, Text.dropWhile_toLower isBlank_toLower, Text.toLower, ← List.map_reverse]
    rfl
  rw [readNumber_eq, readNumber_eq, trimmed]
  generalize Text.trim isBlank text = body
  cases body with
  | nil => rfl
  | cons c rest =>
    by_cases minus : c = '-'
    · subst minus
      exact unsignedNumber_toLower true rest
    · have minus' : c.toLower ≠ '-' := fun same => minus (eq_of_toLower same (by decide))
      have whole := unsignedNumber_toLower false (c :: rest)
      simp_all [Text.toLower]

end LowerCase

section Literals

variable {operandBefore : Bool} {token : Token} {written after : Text}

/-- A character of a number: no blank and no sign. -/
private theorem not_isBlank_of_part {c : Char} (part : (c.isDigit || c == '.') = true) :
    isBlank c = false := by
  rcases Bool.or_eq_true _ _ ▸ part with digit | point
  · exact not_isBlank_of_isDigit digit
  · rw [eq_of_beq point]
    decide

private theorem not_isUpper_of_part {c : Char} (part : (c.isDigit || c == '.') = true) :
    c.isUpper = false := by
  rcases Bool.or_eq_true _ _ ▸ part with digit | point
  · exact not_isUpper_of_isDigit digit
  · rw [eq_of_beq point]
    decide

/-- Digits and points are read without a sign and without blanks. -/
private theorem readNumber_unsigned {text : Text}
    (parts : ∀ c ∈ text, (c.isDigit || c == '.') = true) :
    readNumber text = unsignedNumber false text := by
  rw [readNumber_eq, Text.trim_eq_self fun c member => not_isBlank_of_part (parts c member)]
  split
  · exact absurd (parts '-' List.mem_cons_self) (by decide)
  · rfl

private theorem readNumber_integer {whole : Text} (nonempty : whole ≠ [])
    (digits : ∀ c ∈ whole, c.isDigit = true) :
    readNumber whole = .ofDigits false whole [] := by
  rw [readNumber_unsigned (fun c member => by simp [digits c member]), unsignedNumber,
    List.dropWhile_eq_nil_iff.mpr digits, List.takeWhile_eq_self_iff.mpr digits]
  simp [nonempty]

private theorem parts_decimal {whole fraction : Text} (digits : ∀ c ∈ whole, c.isDigit = true)
    (digits' : ∀ c ∈ fraction, c.isDigit = true) :
    ∀ c ∈ whole ++ '.' :: fraction, (c.isDigit || c == '.') = true := by
  intro c member
  rcases List.mem_append.mp member with member | member
  · simp [digits c member]
  · rcases List.mem_cons.mp member with rfl | member
    · rfl
    · simp [digits' c member]

private theorem readNumber_decimal {whole fraction : Text} (nonempty : whole ≠ [] ∨ fraction ≠ [])
    (digits : ∀ c ∈ whole, c.isDigit = true) (digits' : ∀ c ∈ fraction, c.isDigit = true) :
    readNumber (whole ++ '.' :: fraction) = .ofDigits false whole fraction := by
  have parts := parts_decimal digits digits'
  have point : Char.isDigit '.' = false := by decide
  rw [readNumber_unsigned parts, unsignedNumber, List.dropWhile_append_of_pos digits,
    List.takeWhile_append_of_pos digits]
  simp only [List.takeWhile_cons, List.dropWhile_cons, point, Bool.false_eq_true, if_false,
    List.append_nil]
  rw [if_neg]
  rw [Bool.or_eq_true, not_or]
  refine ⟨?_, by simpa using digits'⟩
  simpa using fun none none' => nonempty.elim (· none) (· none')

theorem isNaN_ofDigits (whole fraction : Text) :
    (Double.ofDigits false whole fraction).isNaN = false := by
  simp only [Double.ofDigits, Double.ofDecimal, Double.ofRatio]
  split <;> rfl

/-- What the check takes a token for, if the token is a literal. -/
def literalOf? : Token → Option Literal
  | .number value => some (.number value)
  | .literal value => some (.string (Text.toLower value))
  | _ => none

private theorem read?_number {value : Double} (nonempty : written ≠ [])
    (parts : ∀ c ∈ written, (c.isDigit || c == '.') = true)
    (ends : ∀ c ∈ after.head?, (c.isDigit || c == '.') = false)
    (read : readNumber written = value) (number : value.isNaN = false) :
    Literal.read? (written ++ after) = some (.number value, after) := by
  obtain ⟨first, rest, rfl⟩ := List.exists_cons_of_ne_nil nonempty
  have part := parts first List.mem_cons_self
  have stops : after.takeWhile (fun c => c.isDigit || c == '.') = [] ∧
      after.dropWhile (fun c => c.isDigit || c == '.') = after := by
    cases after with
    | nil => exact ⟨rfl, rfl⟩
    | cons c after => simp [ends c rfl]
  have quotes : (first == '\'' || first == '"') = false := by
    rw [Bool.eq_false_iff]
    intro quote
    rcases Bool.or_eq_true _ _ ▸ quote with same | same <;> rw [eq_of_beq same] at part <;>
      revert part <;> decide
  rw [List.cons_append, Literal.read?, quotes]
  simp only [Bool.false_eq_true, if_false]
  rw [← List.cons_append, List.takeWhile_append_of_pos parts, List.dropWhile_append_of_pos parts,
    stops.1, stops.2, List.append_nil, read, number]
  rfl

theorem literalOf?_ofName (name after : Text) : literalOf? (.ofName name after) = none := by
  unfold Token.ofName
  split
  · rfl
  · split <;> rfl
  · rfl

theorem literalOf?_ofPrefixWildcard (space after : Text) :
    literalOf? (.ofPrefixWildcard space after) = none := by
  unfold Token.ofPrefixWildcard
  split <;> rfl

private theorem read?_string {quote : Char} {value : Text} (isQuote : quote = '\'' ∨ quote = '"')
    (absent : quote ∉ value) (after : Text) :
    Literal.read? (quote :: value ++ quote :: after) = some (.string value, after) := by
  have quotes : (quote == '\'' || quote == '"') = true := by
    rcases isQuote with rfl | rfl <;> decide
  rw [List.cons_append, Literal.read?, quotes, if_pos rfl, Text.breakOn?_singleton absent]
  rfl

/-- In front of an operator, or of what else may stand behind an operand, the check reads a literal
as the grammar does, but in lower case. -/
theorem read?_of_lexeme {literal : Literal} (lexeme : Lexeme operandBefore token written after)
    (known : literalOf? token = some literal) (noPoint : after.head? ≠ some '.') :
    Literal.read? (Text.toLower (written ++ after)) = some (literal, Text.toLower after) := by
  have ends' (ends : ∀ c ∈ after.head?, c.isDigit = false) :
      ∀ c ∈ (Text.toLower after).head?, (c.isDigit || c == '.') = false := by
    intro c head
    rw [Text.toLower, List.head?_map, Option.mem_def, Option.map_eq_some_iff] at head
    obtain ⟨d, head, rfl⟩ := head
    have point : d.toLower ≠ '.' := fun same =>
      noPoint (head.trans (congrArg some (eq_of_toLower same (by decide))))
    simp [isDigit_toLower, ends d head, point]
  rw [Text.toLower_append]
  cases lexeme with
  | mark isMark => cases token <;> cases known <;> cases isMark
  | integer nonempty digits ends =>
    cases known
    rw [toLower_digits digits]
    exact read?_number nonempty (fun c member => by simp [digits c member]) (ends' ends)
      (readNumber_integer nonempty digits) (isNaN_ofDigits _ _)
  | @decimal whole fraction _ nonempty digits digits' ends =>
    cases known
    have parts := parts_decimal digits digits'
    rw [toLower_eq_self fun c member => not_isUpper_of_part (parts c member)]
    exact read?_number (by simp) parts (ends' ends)
      (readNumber_decimal nonempty digits digits') (isNaN_ofDigits _ _)
  | @literal quote value isQuote absent =>
    cases known
    have noLetter : quote.isAlpha = false := by rcases isQuote with rfl | rfl <;> decide
    have small : quote.toLower = quote := by rcases isQuote with rfl | rfl <;> decide
    have absent' : quote ∉ Text.toLower value := by
      intro member
      obtain ⟨c, member, same⟩ := List.mem_map.mp member
      exact absent (eq_of_toLower same noLetter ▸ member)
    have whole : Text.toLower (quote :: value ++ [quote]) =
        quote :: Text.toLower value ++ [quote] := by
      simp [Text.toLower, small]
    rw [whole, List.append_assoc]
    exact read?_string isQuote absent' (Text.toLower after)
  | reference => cases known
  | operator known' => rcases operator_cases known' with rfl | rfl | rfl | rfl <;> cases known
  | name => rw [literalOf?_ofName] at known; cases known
  | prefixWildcard => rw [literalOf?_ofPrefixWildcard] at known; cases known

end Literals

end XmlSelect.Gate
