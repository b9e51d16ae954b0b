import XmlSelect.Proofs.Charsets

/-! Byte order marks. Behind a mark of UTF-16 the bytes are read in that encoding, whatever the
declaration says. Behind the mark of UTF-8 the declaration has the last word: another encoding that
it names is used as if there were no mark, and gives back the text only if the bytes mean the same
in both. -/
namespace XmlSelect

namespace Utf16

/-- Bytes that begin as a declaration does in ASCII begin with another character in UTF-16. -/
theorem head_of_opening {order : ByteOrder} {rest : List UInt8} {text : Text}
    (decoded : decode? order (0x3C :: 0x3F :: rest) = some text) :
    ∃ c behind, text = c :: behind ∧ (c.toNat = 0x3C3F ∨ c.toNat = 0x3F3C) := by
  obtain ⟨units, found, decoded⟩ := Option.bind_eq_some_iff.mp decoded
  have first : ∃ unit behind, units = unit :: behind ∧ (unit = 0x3C3F ∨ unit = 0x3F3C) := by
    obtain ⟨behind, -, rfl⟩ := Option.map_eq_some_iff.mp found
    cases order with
    | bigEndian => exact ⟨_, behind, rfl, .inl rfl⟩
    | littleEndian => exact ⟨_, behind, rfl, .inr rfl⟩
  obtain ⟨unit, behind, rfl, either⟩ := first
  cases behind with
  | nil =>
    obtain ⟨c, point, rfl⟩ := Option.map_eq_some_iff.mp decoded
    exact ⟨c, [], rfl, Utf8.char?_eq_some_iff.mp point ▸ either⟩
  | cons next behind =>
    rw [ofUnits?, if_neg (by omega)] at decoded
    obtain ⟨c, point, decoded⟩ := Option.bind_eq_some_iff.mp decoded
    obtain ⟨later, -, same⟩ := Option.bind_eq_some_iff.mp decoded
    cases same
    exact ⟨c, later, rfl, Utf8.char?_eq_some_iff.mp point ▸ either⟩

end Utf16

namespace Encoding

/-- A label is looked for only in bytes that begin as a declaration does in ASCII. -/
theorem opening_of_declaredLabel? {bytes : List UInt8} {label : Text}
    (declared : declaredLabel? bytes = some label) :
    Utf8.encode "<?xml".toList <+: bytes := by
  rw [← List.isPrefixOf_iff_prefix]
  cases opened : (Utf8.encode "<?xml".toList).isPrefixOf bytes with
  | true => rfl
  | false =>
    rw [declaredLabel?, opened] at declared
    cases declared

theorem plain_encode (text : Text) : decode.plain (Utf8.encode text) = .ok text := by
  rw [decode.plain, Utf8.decode?_eq_some_iff.mpr rfl]

section Labels

variable [Library]

theorem transcode_eq_ok_iff {bytes : List UInt8} {label text : Text} :
    transcode bytes label = .ok text ↔
      ∃ charset, Library.ofLabel? label = some charset ∧
        Library.decode? charset bytes = some text := by
  unfold transcode
  split
  · rename_i unknown
    simp [unknown]
  · rename_i charset known
    rw [known]
    split <;> rename_i decoded <;> simp [decoded]

theorem transcode_of_isUtf8Label [LawfulLibrary] {bytes : List UInt8} {label text : Text}
    (named : isUtf8Label label = true) :
    transcode bytes label = .ok text ↔ Utf8.decode? bytes = some text := by
  obtain ⟨charset, known, decodes⟩ := LawfulLibrary.utf8 named
  rw [transcode_eq_ok_iff, known, ← decodes]
  simp

theorem transcode_utf16Label [LawfulLibrary] {order : Utf16.ByteOrder} {bytes : List UInt8}
    {text : Text} :
    transcode bytes (Mark.utf16 order).label = .ok text ↔ Utf16.decode? order bytes = some text := by
  obtain ⟨charset, known, decodes⟩ := LawfulLibrary.utf16 order
  rw [transcode_eq_ok_iff, known, ← decodes]
  simp

end Labels

section Marks

variable [Library]

theorem decode_utf16Mark (order : Utf16.ByteOrder) (body : List UInt8) :
    decode ((Mark.utf16 order).bytes ++ body) = transcode body (Mark.utf16 order).label := by
  cases order <;> rfl

theorem decode_utf8Mark (body : List UInt8) :
    decode (Mark.utf8.bytes ++ body) =
      match declaredLabel? body with
      | some label => if isUtf8Label label then decode.plain body else transcode body label
      | none => decode.plain body := rfl

/-- Behind a mark of UTF-16 every text is read back. Behind the mark of UTF-8 a text is read back
exactly if its bytes are the same text in the encoding that its declaration names. -/
theorem decode_mark [LawfulLibrary] (text : Text) :
    (∀ order, decode ((Mark.utf16 order).bytes ++ Utf16.encode order text) = .ok text) ∧
      (decode (Mark.utf8.bytes ++ Utf8.encode text) = .ok text ↔
        ∀ label ∈ declaredLabel? (Utf8.encode text),
          transcode (Utf8.encode text) label = .ok text) := by
  constructor
  · intro order
    rw [decode_utf16Mark, transcode_utf16Label, Utf16.decode?_encode]
  · rw [decode_utf8Mark]
    cases declared : declaredLabel? (Utf8.encode text) with
    | none => exact iff_of_true (plain_encode text) nofun
    | some label =>
      simp only [Option.mem_some_iff, forall_eq']
      split
      · rename_i named
        exact iff_of_true (plain_encode text)
          ((transcode_of_isUtf8Label named).mpr (Utf8.decode?_eq_some_iff.mpr rfl))
      · exact Iff.rfl

end Marks

/-- A text that names an encoding of single bytes, in ASCII and not, and all marks. -/
theorem decode_mark_single :
    let plain := "<?xml version='1.0' encoding='windows-1252'?><r/>".toList
    let foreign := "<?xml version='1.0' encoding='windows-1252'?><r>é</r>".toList
    decode ((Mark.utf16 .littleEndian).bytes ++ Utf16.encode .littleEndian foreign) = .ok foreign ∧
      decode (Mark.utf8.bytes ++ Utf8.encode plain) = .ok plain ∧
      decode (Mark.utf8.bytes ++ Utf8.encode foreign) ≠ .ok foreign := by
  intro plain foreign
  have named : declaredLabel? (Utf8.encode plain) = some "windows-1252".toList := by decide +kernel
  have named' : declaredLabel? (Utf8.encode foreign) = some "windows-1252".toList := by
    decide +kernel
  refine ⟨(decode_mark foreign).1 .littleEndian, (decode_mark plain).2.mpr fun label member => ?_,
    fun read => ?_⟩
  · rw [named] at member
    cases member
    decide +kernel
  · have same := (decode_mark foreign).2.mp read _ named'
    exact absurd same (by decide +kernel)

/-- The label prevails over the mark of UTF-8. -/
theorem decode_mark_overruled :
    let text := "<?xml version='1.0' encoding='windows-1252'?><r>é</r>".toList
    decode (Mark.utf8.bytes ++ Utf8.encode text) =
        .ok "<?xml version='1.0' encoding='windows-1252'?><r>Ã©</r>".toList ∧
      decode (Mark.utf8.bytes ++ Utf8.encode text) ≠ .ok text := by
  decide +kernel

end Encoding

end XmlSelect
