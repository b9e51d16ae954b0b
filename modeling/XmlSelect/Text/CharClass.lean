import XmlSelect.Text.Basic
/-! The character classes of XML 1.0 and the three classes of white space in use. -/
namespace XmlSelect

/-- Whether a code point lies in one of the ranges, ends included. -/
def inRanges (ranges : List (Nat × Nat)) (point : Nat) : Bool :=
  ranges.any fun (low, high) => low ≤ point && point ≤ high

/-- The production `Char`: what may stand in a document at all. -/
def isXmlChar (c : Char) : Bool :=
  inRanges [(0x09, 0x0A), (0x0D, 0x0D), (0x20, 0xD7FF), (0xE000, 0xFFFD), (0x10000, 0x10FFFF)]
    c.toNat

/-- The production `NameStartChar`. -/
def isNameStart (c : Char) : Bool :=
  c.isAlpha || c == '_' || c == ':' ||
  inRanges [(0xC0, 0xD6), (0xD8, 0xF6), (0xF8, 0x2FF), (0x370, 0x37D), (0x37F, 0x1FFF),
    (0x200C, 0x200D), (0x2070, 0x218F), (0x2C00, 0x2FEF), (0x3001, 0xD7FF), (0xF900, 0xFDCF),
    (0xFDF0, 0xFFFD), (0x10000, 0xEFFFF)] c.toNat

/-- The production `NameChar`. -/
def isNameChar (c : Char) : Bool :=
  isNameStart c || c.isDigit || c == '-' || c == '.' ||
  inRanges [(0xB7, 0xB7), (0x300, 0x36F), (0x203F, 0x2040)] c.toNat

/-- The production `S`: space, tab, carriage return and line feed. -/
def isBlank (c : Char) : Bool := c == ' ' || c == '\t' || c == '\r' || c == '\n'

/-- The white space of ASCII: the blanks and the form feed. -/
def isAsciiSpace (c : Char) : Bool := isBlank c || c == '\x0c'

/-- The property `White_Space` of Unicode. -/
def isSpace (c : Char) : Bool :=
  inRanges [(0x09, 0x0D), (0x20, 0x20), (0x85, 0x85), (0xA0, 0xA0), (0x1680, 0x1680),
    (0x2000, 0x200A), (0x2028, 0x2029), (0x202F, 0x202F), (0x205F, 0x205F), (0x3000, 0x3000)]
    c.toNat

/-- The characters of that property, one by one. -/
theorem forall_isSpace {p : Char → Prop}
    (each : ∀ n ∈ [9, 10, 11, 12, 13, 0x20, 0x85, 0xA0, 0x1680, 0x2000, 0x2001, 0x2002, 0x2003,
      0x2004, 0x2005, 0x2006, 0x2007, 0x2008, 0x2009, 0x200A, 0x2028, 0x2029, 0x202F, 0x205F,
      0x3000], p (Char.ofNat n)) {c : Char} (space : isSpace c = true) : p c := by
  rw [← Char.ofNat_toNat c]
  refine each c.toNat ?_
  simp only [isSpace, inRanges, List.any_cons, List.any_nil, Bool.or_eq_true, Bool.and_eq_true,
    decide_eq_true_eq, Bool.false_eq_true, or_false] at space
  simp only [List.mem_cons, List.not_mem_nil, or_false]
  omega

theorem isNameChar_of_isNameStart {c : Char} (start : isNameStart c = true) :
    isNameChar c = true := by simp [isNameChar, start]

theorem isAsciiSpace_of_isBlank {c : Char} (blank : isBlank c = true) :
    isAsciiSpace c = true := by simp [isAsciiSpace, blank]

theorem isSpace_of_isAsciiSpace {c : Char} (space : isAsciiSpace c = true) :
    isSpace c = true := by
  simp only [isAsciiSpace, isBlank, Bool.or_eq_true, beq_iff_eq] at space
  rcases space with (((rfl | rfl) | rfl) | rfl) | rfl <;> decide

end XmlSelect
