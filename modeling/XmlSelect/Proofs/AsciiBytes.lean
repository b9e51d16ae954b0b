import XmlSelect.Proofs.TextCoding
import XmlSelect.Proofs.WordSearch
import XmlSelect.Text.CharClass

/-! Bytes as texts in encodings that extend ASCII. Where bytes are read as two texts in two such
encodings, the texts have the same words of ASCII at the same places, so that a search for one finds
it in either text or in neither. -/
namespace XmlSelect

/-- Whether a text is made of characters of ASCII. -/
def Ascii (text : Text) : Prop := ∀ c ∈ text, c.toNat < 0x80

instance (text : Text) : Decidable (Ascii text) :=
  List.decidableBAll (fun c : Char => c.toNat < 0x80) text

theorem ascii_of_isAsciiSpace {c : Char} (space : isAsciiSpace c = true) : c.toNat < 0x80 := by
  simp only [isAsciiSpace, isBlank, Bool.or_eq_true, beq_iff_eq] at space
  rcases space with (((rfl | rfl) | rfl) | rfl) | rfl <;> decide

/-- Bytes are a text in an encoding that extends ASCII: a byte below 0x80 is the character with its
value, and every other character takes one byte or more from 0x80 on. -/
inductive Renders : List UInt8 → Text → Prop
  | nil : Renders [] []
  | ascii {byte : UInt8} {c : Char} {bytes : List UInt8} {text : Text} (small : byte.toNat < 0x80)
      (same : c.toNat = byte.toNat) (behind : Renders bytes text) :
      Renders (byte :: bytes) (c :: text)
  | foreign {piece bytes : List UInt8} {c : Char} {text : Text} (filled : piece ≠ [])
      (high : ∀ byte ∈ piece, 0x80 ≤ byte.toNat) (large : 0x80 ≤ c.toNat)
      (behind : Renders bytes text) : Renders (piece ++ bytes) (c :: text)

namespace Utf8

theorem encode_append (front behind : Text) :
    encode (front ++ behind) = encode front ++ encode behind := List.flatMap_append

theorem le_toNat_encodeChar {c : Char} (high : ¬c.toNat < 0x80) :
    ∀ byte ∈ encodeChar c, 0x80 ≤ byte.toNat := by
  have bounds := toNat_bounds c
  have bits (unit : Nat) : c.toNat / unit % 0x40 < 0x40 := Nat.mod_lt _ (by decide)
  have lead {value : Nat} (large : 0x80 ≤ value) (small : value < 0x100) :
      0x80 ≤ value.toUInt8.toNat := (toNat_toUInt8 small).symm ▸ large
  have last : ∀ group ∈ [c.toNat / 1 % 0x40], group < 0x40 :=
    List.forall_mem_singleton.mpr (bits 1)
  by_cases two : c.toNat < 0x800
  · rw [encodeChar_two high two]
    exact List.forall_mem_cons.mpr ⟨lead (by omega) (by omega), le_toNat_continuations last⟩
  by_cases three : c.toNat < 0x10000
  · rw [encodeChar_three high two three]
    exact List.forall_mem_cons.mpr ⟨lead (by omega) (by omega),
      le_toNat_continuations (List.forall_mem_cons.mpr ⟨bits 0x40, last⟩)⟩
  · rw [encodeChar_four high two three]
    exact List.forall_mem_cons.mpr ⟨lead (by omega) (by omega), le_toNat_continuations
      (List.forall_mem_cons.mpr ⟨bits 0x1000, List.forall_mem_cons.mpr ⟨bits 0x40, last⟩⟩)⟩

theorem renders (text : Text) : Renders (encode text) text := by
  induction text with
  | nil => exact .nil
  | cons c text ih =>
    rw [encode_cons]
    by_cases small : c.toNat < 0x80
    · have value := toNat_toUInt8 (by omega : c.toNat < 0x100)
      rw [encodeChar_one small]
      exact .ascii (by omega) value.symm ih
    · exact .foreign (encodeChar_ne_nil c) (le_toNat_encodeChar small) (by omega) ih

end Utf8

namespace Renders

variable {bytes : List UInt8} {text front behind word : Text}

theorem of_append (renders : Renders bytes (front ++ behind)) :
    ∃ first rest, bytes = first ++ rest ∧ Renders first front ∧ Renders rest behind := by
  induction front generalizing bytes with
  | nil => exact ⟨[], bytes, rfl, .nil, renders⟩
  | cons c front ih =>
    cases renders with
    | ascii small same later =>
      obtain ⟨first, rest, rfl, here, there⟩ := ih later
      exact ⟨_ :: first, rest, rfl, .ascii small same here, there⟩
    | foreign filled high large later =>
      obtain ⟨first, rest, rfl, here, there⟩ := ih later
      exact ⟨_ ++ first, rest, (List.append_assoc ..).symm, .foreign filled high large here, there⟩

theorem eq_nil (renders : Renders [] text) : text = [] := by
  generalize empty : [] = bytes at renders
  cases renders with
  | nil => rfl
  | ascii => cases empty
  | foreign filled => exact absurd (List.append_eq_nil_iff.mp empty.symm).1 filled

/-- Words of ASCII have the same bytes in every encoding. -/
theorem eq_encode (renders : Renders bytes word) (ascii : Ascii word) :
    bytes = Utf8.encode word := by
  induction renders with
  | nil => rfl
  | @ascii byte c bytes text small same _ ih =>
    obtain ⟨first, ascii⟩ := List.forall_mem_cons.mp ascii
    rw [Utf8.encode_cons, Utf8.encodeChar_one first, ← ih ascii,
      ← (Utf8.toUInt8_eq_iff (by omega)).mpr same.symm, List.singleton_append]
  | foreign _ _ large => exact absurd (List.forall_mem_cons.mp ascii).1 (by omega)

/-- A byte of ASCII is the character with its value, wherever it stands. -/
theorem of_byte {before after : List UInt8} {c : Char} (small : c.toNat < 0x80)
    (renders : Renders (before ++ c.toNat.toUInt8 :: after) text) :
    ∃ front behind, text = front ++ c :: behind ∧ Renders before front ∧ Renders after behind := by
  have value := Utf8.toNat_toUInt8 (by omega : c.toNat < 0x100)
  generalize whole : before ++ c.toNat.toUInt8 :: after = bytes at renders
  induction renders generalizing before with
  | nil => exact absurd whole (List.append_ne_nil_of_right_ne_nil _ (List.cons_ne_nil _ _))
  | @ascii byte d bytes text low same later ih =>
    cases before with
    | nil =>
      obtain ⟨rfl, rfl⟩ := List.cons.inj whole
      obtain rfl : d = c := Char.toNat_inj.mp (same.trans value)
      exact ⟨[], text, rfl, .nil, later⟩
    | cons first before =>
      obtain ⟨rfl, rest⟩ := List.cons.inj whole
      obtain ⟨front, behind, rfl, here, there⟩ := ih rest
      exact ⟨d :: front, behind, rfl, .ascii low same here, there⟩
  | @foreign piece bytes d text filled high large later ih =>
    have inside : ∃ front, before = piece ++ front ∧ front ++ c.toNat.toUInt8 :: after = bytes := by
      obtain ⟨shared, rfl, rest⟩ | ⟨front, rfl, rest⟩ := List.append_eq_append_iff.mp whole
      · cases shared with
        | nil => exact ⟨[], by simp, rest⟩
        | cons byte shared =>
          cases rest
          have := high c.toNat.toUInt8 (List.mem_append_right _ List.mem_cons_self)
          omega
      · exact ⟨front, rfl, rest.symm⟩
    obtain ⟨first, rfl, rest⟩ := inside
    obtain ⟨front, behind, rfl, here, there⟩ := ih rest
    exact ⟨d :: front, behind, rfl, .foreign filled high large here, there⟩

theorem of_prefix {after : List UInt8} (ascii : Ascii word)
    (renders : Renders (Utf8.encode word ++ after) text) :
    ∃ behind, text = word ++ behind ∧ Renders after behind := by
  induction word generalizing text with
  | nil => exact ⟨text, rfl, renders⟩
  | cons c word ih =>
    obtain ⟨small, ascii⟩ := List.forall_mem_cons.mp ascii
    rw [Utf8.encode_cons, Utf8.encodeChar_one small, List.append_assoc] at renders
    have first : Renders ([] ++ c.toNat.toUInt8 :: (Utf8.encode word ++ after)) text := renders
    obtain ⟨front, later, rfl, here, rest⟩ := of_byte small first
    obtain rfl := eq_nil here
    obtain ⟨behind, rfl, there⟩ := ih ascii rest
    exact ⟨behind, rfl, there⟩

/-- A word of ASCII is there wherever its bytes are. -/
theorem of_word {before after : List UInt8} (ascii : Ascii word) (filled : word ≠ [])
    (renders : Renders (before ++ (Utf8.encode word ++ after)) text) :
    ∃ front behind, text = front ++ (word ++ behind) ∧ Renders before front ∧
      Renders after behind := by
  cases word with
  | nil => exact absurd rfl filled
  | cons c word =>
    obtain ⟨small, ascii⟩ := List.forall_mem_cons.mp ascii
    rw [Utf8.encode_cons, Utf8.encodeChar_one small, List.append_assoc] at renders
    obtain ⟨front, later, rfl, here, rest⟩ := of_byte small renders
    obtain ⟨behind, rfl, there⟩ := of_prefix ascii rest
    exact ⟨front, behind, rfl, here, there⟩

theorem infix_of_encode (ascii : Ascii word) (filled : word ≠ []) (renders : Renders bytes text)
    (inside : Utf8.encode word <:+: bytes) : word <:+: text := by
  obtain ⟨before, after, rfl⟩ := inside
  rw [List.append_assoc] at renders
  obtain ⟨front, behind, rfl, -⟩ := of_word ascii filled renders
  exact ⟨front, behind, List.append_assoc ..⟩

end Renders

/-- Two texts that the same bytes are in encodings that extend ASCII. -/
def Alike (text other : Text) : Prop := ∃ bytes, Renders bytes text ∧ Renders bytes other

namespace Alike

variable {text other front behind word : Text}

theorem symm : Alike text other → Alike other text :=
  fun ⟨bytes, first, second⟩ => ⟨bytes, second, first⟩

theorem refl (text : Text) : Alike text text := ⟨_, Utf8.renders text, Utf8.renders text⟩

theorem eq_of_ascii (alike : Alike text other) (ascii : Ascii other) : text = other := by
  obtain ⟨bytes, first, second⟩ := alike
  rw [second.eq_encode ascii, ← List.append_nil (Utf8.encode other)] at first
  obtain ⟨behind, rfl, rest⟩ := Renders.of_prefix ascii first
  rw [rest.eq_nil, List.append_nil]

/-- Texts that are alike have the same words of ASCII at places that correspond. -/
theorem of_word (ascii : Ascii word) (filled : word ≠ [])
    (alike : Alike text (front ++ (word ++ behind))) :
    ∃ front' behind', text = front' ++ (word ++ behind') ∧ Alike front' front ∧
      Alike behind' behind := by
  obtain ⟨bytes, first, second⟩ := alike
  obtain ⟨before, rest, rfl, here, second⟩ := second.of_append
  obtain ⟨middle, after, rfl, same, there⟩ := second.of_append
  rw [same.eq_encode ascii] at first
  obtain ⟨front', behind', rfl, here', there'⟩ := Renders.of_word ascii filled first
  exact ⟨front', behind', rfl, ⟨before, here', here⟩, ⟨after, there', there⟩⟩

theorem of_prefix (ascii : Ascii word) (alike : Alike text (word ++ behind)) :
    ∃ behind', text = word ++ behind' ∧ Alike behind' behind := by
  obtain ⟨bytes, first, second⟩ := alike
  obtain ⟨middle, after, rfl, same, there⟩ := second.of_append
  rw [same.eq_encode ascii] at first
  obtain ⟨behind', rfl, there'⟩ := Renders.of_prefix ascii first
  exact ⟨behind', rfl, ⟨after, there', there⟩⟩

theorem infix_iff (ascii : Ascii word) (filled : word ≠ []) (alike : Alike text other) :
    word <:+: text ↔ word <:+: other := by
  have once {text other : Text} (alike : Alike text other) (inside : word <:+: other) :
      word <:+: text := by
    obtain ⟨front, behind, rfl⟩ := inside
    rw [List.append_assoc] at alike
    obtain ⟨front', behind', rfl, -⟩ := of_word ascii filled alike
    exact ⟨front', behind', List.append_assoc ..⟩
  exact ⟨once alike.symm, once alike⟩

theorem mem_iff {c : Char} (small : c.toNat < 0x80) (alike : Alike text other) :
    c ∈ text ↔ c ∈ other := by
  have single {text : Text} : c ∈ text ↔ [c] <:+: text := by
    refine ⟨fun member => ?_, fun inside => inside.subset List.mem_cons_self⟩
    obtain ⟨front, behind, rfl⟩ := List.append_of_mem member
    exact ⟨front, behind, List.append_assoc ..⟩
  rw [single, single]
  exact infix_iff (List.forall_mem_singleton.mpr small) (List.cons_ne_nil _ _) alike

end Alike

end XmlSelect
