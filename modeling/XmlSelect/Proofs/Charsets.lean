import Mathlib.Data.List.Basic
import XmlSelect.Encoding.Charset
import XmlSelect.Proofs.AsciiBytes
import XmlSelect.Proofs.LiteralReading

/-! The library of encodings that the program works with. It has UTF-8 and UTF-16 under their
labels, its labels are words in small letters of ASCII, and white space around them does not count.
In an encoding of single bytes each byte is a character, and exactly the bytes of ASCII are
characters of ASCII. -/
namespace XmlSelect.Charset

/-- An encoding in which each byte is a character. -/
def SingleByte (charset : Charset) : Prop :=
  charset ≠ .utf8 ∧ ∀ order, charset ≠ .utf16 order

theorem utf8_or_utf16_or_singleByte (charset : Charset) :
    charset = .utf8 ∨ (∃ order, charset = .utf16 order) ∨ charset.SingleByte := by
  cases charset with
  | utf8 => exact .inl rfl
  | utf16 order => exact .inr (.inl ⟨order, rfl⟩)
  | _ => exact .inr (.inr ⟨nofun, nofun⟩)

/-- The character of a byte in an encoding of single bytes. -/
def byteChar (charset : Charset) (byte : UInt8) : Char :=
  Char.ofNat (charset.bytePoint byte.toNat)

variable {charset : Charset}

theorem decode?_of_singleByte (single : charset.SingleByte) (bytes : List UInt8) :
    charset.decode? bytes = some (bytes.map charset.byteChar) := by
  cases charset with
  | utf8 => exact absurd rfl single.1
  | utf16 order => exact absurd rfl (single.2 order)
  | _ => rfl

theorem toNat_byteChar_of_ascii {byte : UInt8} (ascii : byte.toNat < 0x80) :
    (charset.byteChar byte).toNat = byte.toNat := by
  rw [byteChar, bytePoint.eq_def, if_pos ascii, Char.ofNat, dif_pos (Or.inl (by omega))]
  rfl

/-- The other bytes are no characters of ASCII. -/
theorem le_toNat_byteChar (single : charset.SingleByte) {byte : UInt8} (high : 0x80 ≤ byte.toNat) :
    0x80 ≤ (charset.byteChar byte).toNat := by
  have each : ∀ n : Fin 0x100, 0x80 ≤ n.val → 0x80 ≤ (Char.ofNat (charset.bytePoint n)).toNat := by
    cases charset with
    | utf8 => exact absurd rfl single.1
    | utf16 order => exact absurd rfl (single.2 order)
    | _ => decide +kernel
  exact each ⟨byte.toNat, byte.toNat_lt⟩ high

theorem renders (single : charset.SingleByte) (bytes : List UInt8) :
    Renders bytes (bytes.map charset.byteChar) := by
  induction bytes with
  | nil => exact .nil
  | cons byte bytes ih =>
    rw [List.map_cons]
    by_cases small : byte.toNat < 0x80
    · exact .ascii small (toNat_byteChar_of_ascii small) ih
    · have high : 0x80 ≤ byte.toNat := by omega
      exact Renders.foreign (List.cons_ne_nil byte []) (List.forall_mem_singleton.mpr high)
        (le_toNat_byteChar single high) ih

/-- Every encoding of this library extends ASCII or is UTF-16. -/
theorem renders_or_utf16 {bytes : List UInt8} {text : Text}
    (decoded : charset.decode? bytes = some text) :
    Renders bytes text ∨ ∃ order, Utf16.decode? order bytes = some text := by
  obtain rfl | ⟨order, rfl⟩ | single := charset.utf8_or_utf16_or_singleByte
  · exact .inl (Utf8.decode?_eq_some_iff.mp decoded ▸ Utf8.renders text)
  · exact .inr ⟨order, decoded⟩
  · rw [decode?_of_singleByte single] at decoded
    exact .inl (Option.some.inj decoded ▸ renders single bytes)

section Labels

/-- Known labels are words in small letters of ASCII. -/
theorem labels_ascii : ∀ label ∈ charset.labels,
    label ≠ [] ∧ ∀ c ∈ label, c.toNat < 0x80 ∧ isAsciiSpace c = false := by
  have checked (labels : List Text) (each : (labels.all fun label => !label.isEmpty &&
      label.all fun c => decide (c.toNat < 0x80) && !isAsciiSpace c) = true) :
      ∀ label ∈ labels, label ≠ [] ∧ ∀ c ∈ label, c.toNat < 0x80 ∧ isAsciiSpace c = false := by
    simpa using each
  cases charset with
  | utf16 order => cases order <;> exact checked _ (by decide +kernel)
  | _ => exact checked _ (by decide +kernel)

theorem mem_labels_of_ofLabel? {label : Text} (found : ofLabel? label = some charset) :
    Text.toLower (Text.trim isAsciiSpace label) ∈ charset.labels := by
  simpa using List.find?_some found

theorem isAsciiSpace_toLower : ∀ c : Char, isAsciiSpace c.toLower = isAsciiSpace c :=
  same_toLower isAsciiSpace (by decide)

/-- Only characters of ASCII have others of ASCII for small letters. -/
theorem ascii_of_toLower {c : Char} (small : c.toLower.toNat < 0x80) : c.toNat < 0x80 := by
  by_cases upper : c.isUpper = true
  · exact of_decide_eq_true (of_isUpper (fun c => decide (c.toNat < 0x80)) (by decide) upper)
  · rwa [toLower_of_not_isUpper (by simpa using upper)] at small

theorem ofLabel?_trim (label : Text) : ofLabel? (Text.trim isAsciiSpace label) = ofLabel? label := by
  unfold ofLabel?
  rw [Text.trim_trim]

theorem ofLabel?_of_isUtf8Label {label : Text} (named : Encoding.isUtf8Label label = true) :
    ofLabel? label = some .utf8 := by
  have small : Text.toLower label = "utf-8".toList ∨ Text.toLower label = "utf8".toList := by
    simpa [Encoding.isUtf8Label] using named
  have trimmed : Text.trim isAsciiSpace label = label := by
    refine Text.trim_eq_self fun c member => ?_
    have inside : c.toLower ∈ Text.toLower label := List.mem_map_of_mem member
    rw [← isAsciiSpace_toLower]
    rcases small with small | small <;> rw [small] at inside
    · simpa using List.all_eq_true.mp (rfl : "utf-8".toList.all (!isAsciiSpace ·) = true) _ inside
    · simpa using List.all_eq_true.mp (rfl : "utf8".toList.all (!isAsciiSpace ·) = true) _ inside
  unfold ofLabel?
  rw [trimmed]
  rcases small with small | small <;> rw [small] <;> decide

theorem ofLabel?_utf16 (order : Utf16.ByteOrder) :
    ofLabel? (Encoding.Mark.utf16 order).label = some (.utf16 order) := by
  cases order <;> decide

theorem ofLabel?_word {label : Text} (found : ofLabel? label = some charset) :
    Text.trim isAsciiSpace label ≠ [] ∧
      ∀ c ∈ Text.trim isAsciiSpace label, c.toNat < 0x80 ∧ isAsciiSpace c = false := by
  obtain ⟨filled, letters⟩ := labels_ascii _ (mem_labels_of_ofLabel? found)
  refine ⟨fun none => filled (congrArg Text.toLower none), fun c member => ?_⟩
  obtain ⟨small, apart⟩ := letters _ (List.mem_map_of_mem member)
  exact ⟨ascii_of_toLower small, isAsciiSpace_toLower c ▸ apart⟩

instance : Encoding.LawfulLibrary where
  utf8 named := ⟨utf8, ofLabel?_of_isUtf8Label named, rfl⟩
  utf16 order := ⟨utf16 order, ofLabel?_utf16 order, rfl⟩
  spaced := ofLabel?_trim
  word := ofLabel?_word

end Labels

end XmlSelect.Charset
