import Mathlib.Data.List.Basic
import XmlSelect.Proofs.Lexemes
import XmlSelect.XPath.Parse

/-! Which characters above ASCII an expression can hold. In a literal it can be any of them, but
outside of all literals only those of names, and only where a name can go on. -/
namespace XmlSelect.XPath

section Quotes

/-- The quote of the literal that goes on behind a text, if one does. -/
def quoteBehind : Option Char → Text → Option Char
  | opened, [] => opened
  | none, c :: rest => quoteBehind (if c == '\'' || c == '"' then some c else none) rest
  | some quote, c :: rest => quoteBehind (if c == quote then none else some quote) rest

/-- No literal goes on behind the text. -/
def Closed (text : Text) : Prop := quoteBehind none text = none

theorem quoteBehind_append (opened : Option Char) (left right : Text) :
    quoteBehind opened (left ++ right) = quoteBehind (quoteBehind opened left) right := by
  induction left generalizing opened with
  | nil => cases opened <;> rfl
  | cons c left ih => cases opened <;> exact ih _

/-- A literal that is open goes on behind a text without its quote. -/
theorem quoteBehind_of_notMem {quote : Char} {text : Text} (absent : quote ∉ text) :
    quoteBehind (some quote) text = some quote := by
  induction text with
  | nil => rfl
  | cons c rest ih =>
    obtain ⟨other, absent⟩ := not_or.mp (mt List.mem_cons.mpr absent)
    have goesOn : (if c == quote then none else some quote) = some quote := by simp [Ne.symm other]
    rw [quoteBehind, goesOn]
    exact ih absent

theorem quoteBehind_quote {quote : Char} (isQuote : quote = '\'' ∨ quote = '"') (text : Text) :
    quoteBehind none (quote :: text) = quoteBehind (some quote) text := by
  rcases isQuote with rfl | rfl <;> rfl

variable {left right : Text}

theorem closed_append_iff (closed : Closed left) : Closed (left ++ right) ↔ Closed right := by
  rw [Closed, Closed, quoteBehind_append, closed]

theorem Closed.append (closed : Closed left) (closed' : Closed right) : Closed (left ++ right) :=
  (closed_append_iff closed).mpr closed'

/-- Whether a character starts no literal. -/
def isUnquoted (c : Char) : Bool := c != '\'' && c != '"'

theorem closed_of_unquoted {text : Text} (unquoted : ∀ c ∈ text, isUnquoted c = true) :
    Closed text := by
  induction text with
  | nil => rfl
  | cons c rest ih =>
    rw [List.forall_mem_cons] at unquoted
    have plain : (c == '\'' || c == '"') = false := by simpa [isUnquoted] using unquoted.1
    rw [Closed, quoteBehind, plain]
    exact ih unquoted.2

theorem closed_literal {quote : Char} {value : Text} (isQuote : quote = '\'' ∨ quote = '"')
    (absent : quote ∉ value) : Closed (quote :: value ++ [quote]) := by
  rw [Closed, List.cons_append, quoteBehind_quote isQuote, quoteBehind_append,
    quoteBehind_of_notMem absent]
  simp [quoteBehind]

theorem closed_flatMap {α : Type} {items : List α} {write : α → Text}
    (each : ∀ item ∈ items, Closed (write item)) : Closed (items.flatMap write) := by
  induction items with
  | nil => rfl
  | cons first rest ih =>
    rw [List.forall_mem_cons] at each
    exact each.1.append (ih each.2)

theorem closed_intercalate {separator : Text} {texts : List Text} (between : Closed separator)
    (each : ∀ text ∈ texts, Closed text) : Closed (List.intercalate separator texts) := by
  induction texts with
  | nil => rfl
  | cons first rest ih =>
    rw [List.forall_mem_cons] at each
    cases rest with
    | nil => simpa using each.1
    | cons second rest =>
      rw [List.intercalate_cons_cons]
      exact (each.1.append between).append (ih each.2)

end Quotes

/-- Outside of all literals, a character above ASCII that starts no name continues one. -/
def Held (text : Text) : Prop :=
  ∀ front c back, text = front ++ c :: back → Closed front → 128 ≤ c.toNat →
    isNameStart c = false → isNameChar c = true ∧ ∃ before ∈ front.getLast?, isNameChar before = true

section Held

variable {left right name : Text}

theorem held_of_ascii {text : Text} (ascii : ∀ c ∈ text, c.toNat < 128) : Held text := by
  rintro front c back rfl - high -
  exact absurd high (Nat.not_le.mpr (ascii c (by simp)))

theorem Held.append (held : Held left) (closed : Closed left) (held' : Held right) :
    Held (left ++ right) := by
  intro front c back same closedFront high noStart
  rcases List.append_eq_append_iff.mp same with ⟨inner, rfl, split⟩ | ⟨inner, rfl, split⟩
  · obtain ⟨named, before, last, namedBefore⟩ :=
      held' inner c back split ((closed_append_iff closed).mp closedFront) high noStart
    exact ⟨named, before, List.mem_getLast?_append_of_mem_getLast? last, namedBefore⟩
  · cases inner with
    | nil =>
      -- The character is the first one on the right, where no name goes on.
      obtain ⟨-, before, last, -⟩ := held' [] c back split.symm rfl high noStart
      cases last
    | cons first inner =>
      obtain ⟨rfl, -⟩ := List.cons.inj split
      exact held front c inner rfl closedFront high noStart

theorem held_of_isName (lexical : isName name = true) : Held name := by
  rintro front c back rfl - - noStart
  obtain ⟨first, rest, same, start, inner⟩ := isName_iff.mp lexical
  have named {d : Char} (member : d ∈ front ++ c :: back) : isNameChar d = true :=
    isNameChar_of_mem lexical member
  refine ⟨named (by simp), ?_⟩
  cases last : front.getLast? with
  | none =>
    rw [List.getLast?_eq_none_iff.mp last] at same
    obtain ⟨rfl, -⟩ := List.cons.inj same
    exact absurd start (by simp [noStart])
  | some before =>
    exact ⟨before, rfl, named (List.mem_append_left _ (List.mem_of_getLast? last))⟩

theorem isUnquoted_of_isNameChar {c : Char} (named : isNameChar c = true) :
    isUnquoted c = true := by
  simp only [isUnquoted, Bool.and_eq_true, bne_iff_ne]
  constructor <;> rintro rfl <;> exact absurd named (by decide)

theorem closed_of_isName (lexical : isName name = true) : Closed name :=
  closed_of_unquoted fun _ member => isUnquoted_of_isNameChar (isNameChar_of_mem lexical member)

theorem held_qualified (qualified : IsQualified name) : Held name ∧ Closed name := by
  rcases qualified with lexical | ⟨space, rest, rfl, lexical, lexical'⟩
  · exact ⟨held_of_isName lexical, closed_of_isName lexical⟩
  · have colon : Held [':'] := held_of_ascii (by simp)
    have mark : Closed [':'] := rfl
    have closed := closed_of_isName lexical
    exact ⟨(held_of_isName lexical).append closed (colon.append mark (held_of_isName lexical')),
      closed.append (mark.append (closed_of_isName lexical'))⟩

theorem held_literal {quote : Char} {value : Text} (isQuote : quote = '\'' ∨ quote = '"')
    (absent : quote ∉ value) : Held (quote :: value ++ [quote]) := by
  intro front c back same closed high _
  have ascii : quote.toNat < 128 := by rcases isQuote with rfl | rfl <;> decide
  have printed : c ≠ quote := by
    rintro rfl
    exact absurd high (Nat.not_le.mpr ascii)
  cases front with
  | nil => exact absurd (List.cons.inj same).1.symm printed
  | cons first front =>
    obtain rfl : quote = first := (List.cons.inj same).1
    have same : value ++ [quote] = front ++ c :: back := (List.cons.inj same).2
    have within : front <+: value := by
      rcases List.append_eq_append_iff.mp same with ⟨inner, -, split⟩ | ⟨inner, split, -⟩
      · -- Only the closing quote is behind the value.
        cases inner with
        | nil => exact absurd (List.cons.inj split).1.symm printed
        | cons => simp at split
      · exact ⟨inner, split.symm⟩
    have goesOn := quoteBehind_of_notMem fun member => absent (within.subset member)
    rw [Closed, quoteBehind_quote isQuote, goesOn] at closed
    cases closed

/-- Whether a character is in ASCII and no quote. -/
def isPlain (c : Char) : Bool := c.toNat < 128 && isUnquoted c

theorem isPlain_of_isDigit {c : Char} (digit : c.isDigit = true) : isPlain c = true := by
  have ascii : c.toNat < 128 :=
    Nat.lt_of_le_of_lt (Char.isDigit_iff_toNat.mp digit).2 (by decide)
  rw [isPlain, isUnquoted_of_isNameChar (isNameChar_of_isDigit digit), decide_eq_true ascii]
  rfl

theorem held_plain {text : Text} (plain : text.all isPlain = true) : Held text ∧ Closed text := by
  have each (c : Char) (member : c ∈ text) : c.toNat < 128 ∧ isUnquoted c = true := by
    simpa [isPlain] using List.all_eq_true.mp plain c member
  exact ⟨held_of_ascii fun c member => (each c member).1,
    closed_of_unquoted fun c member => (each c member).2⟩

theorem Lexeme.held {operandBefore : Bool} {token : Token} {written after : Text}
    (lexeme : Lexeme operandBefore token written after) : Held written ∧ Closed written := by
  cases lexeme with
  | mark isMark => cases token <;> first | exact held_plain (by decide) | cases isMark
  | integer _ digits =>
    exact held_plain (List.all_eq_true.mpr fun c member => isPlain_of_isDigit (digits c member))
  | decimal _ digits digits' =>
    refine held_plain (List.all_eq_true.mpr fun c member => ?_)
    rcases List.mem_append.mp member with member | member
    · exact isPlain_of_isDigit (digits c member)
    · rcases List.mem_cons.mp member with rfl | member
      · decide
      · exact isPlain_of_isDigit (digits' c member)
  | literal isQuote absent => exact ⟨held_literal isQuote absent, closed_literal isQuote absent⟩
  | reference qualified =>
    obtain ⟨held, closed⟩ := held_qualified qualified
    have dollar : Held ['$'] := (held_plain (by decide)).1
    exact ⟨dollar.append rfl held, closed⟩
  | operator known =>
    rcases operator_cases known with rfl | rfl | rfl | rfl <;> exact held_plain (by decide)
  | name qualified => exact held_qualified qualified
  | prefixWildcard lexical =>
    have wildcard : Held ":*".toList := (held_plain (by decide)).1
    have closed := closed_of_isName lexical
    exact ⟨(held_of_isName lexical).append closed wildcard, closed.append rfl⟩

/-- What is cut into tokens has no stray character. -/
theorem held_of_scan {operandBefore : Bool} {position : Nat} {text : Text}
    {tokens : List Located} (scanned : scan operandBefore position text = .ok tokens) :
    Held text := by
  have blank {gap : Text} (blanks : ∀ c ∈ gap, isBlank c = true) : Held gap ∧ Closed gap := by
    refine held_plain (List.all_eq_true.mpr fun c member => ?_)
    have known := blanks c member
    simp only [isBlank, Bool.or_eq_true, beq_iff_eq] at known
    rcases known with ((rfl | rfl) | rfl) | rfl <;> decide
  induction tokens generalizing operandBefore position text with
  | nil => exact (blank (scan_nil_ok scanned)).1
  | cons found behind ih =>
    obtain ⟨gap, written, after, rfl, blanks, -, lexeme, scanned⟩ := scan_cons_ok scanned
    obtain ⟨heldGap, closedGap⟩ := blank blanks
    obtain ⟨held, closed⟩ := lexeme.held
    exact heldGap.append closedGap (held.append closed (ih scanned))

theorem held_of_parse {text : Text} {value : Expr} (read : parse text = .ok value) :
    Held text := by
  obtain ⟨tokens, scanned, -⟩ := bind_ok read
  exact held_of_scan scanned

end Held

end XmlSelect.XPath
