import Mathlib.Data.List.Basic
import Mathlib.Tactic.SplitIfs
import XmlSelect.Encoding.Utf16

/-! Texts as bytes. UTF-8 is read exactly from the bytes that it writes, each character in its
shortest form; what UTF-16 writes is read back in either order of the bytes. -/
namespace XmlSelect

namespace Utf8

theorem char?_eq_some_iff {point : Nat} {c : Char} : char? point = some c ↔ c.toNat = point := by
  unfold char?
  constructor
  · intro found
    split at found
    · rename_i valid
      cases found
      exact valid
    · cases found
  · rintro rfl
    rw [Char.ofNat_toNat, if_pos rfl]

theorem toNat_toUInt8 {value : Nat} (small : value < 0x100) : value.toUInt8.toNat = value := by
  rw [Nat.toUInt8, UInt8.toNat_ofNat', Nat.mod_eq_of_lt small]

theorem toUInt8_eq_iff {value : Nat} (small : value < 0x100) {byte : UInt8} :
    byte = value.toUInt8 ↔ byte.toNat = value := by
  rw [← UInt8.toNat_inj, toNat_toUInt8 small]

/-- A byte that continues a character is six bits behind the bits `10`. -/
theorem continuation?_eq_some_iff {byte : UInt8} {bits : Nat} :
    continuation? byte = some bits ↔ bits < 0x40 ∧ byte = (0x80 + bits).toUInt8 := by
  unfold continuation?
  constructor
  · intro found
    split at found
    · have same := Option.some.inj found
      have small : bits < 0x40 := by omega
      exact ⟨small, (toUInt8_eq_iff (by omega)).mpr (by omega)⟩
    · cases found
  · rintro ⟨small, rfl⟩
    rw [toNat_toUInt8 (by omega), if_pos (by omega), Nat.add_sub_cancel_left]

/-- Bytes that continue a character, from six bits each. -/
def continuations (groups : List Nat) : List UInt8 := groups.map fun bits => (0x80 + bits).toUInt8

theorem length_continuations (groups : List Nat) :
    (continuations groups).length = groups.length := List.length_map _

theorem le_toNat_continuations {groups : List Nat} (small : ∀ bits ∈ groups, bits < 0x40) :
    ∀ byte ∈ continuations groups, 0x80 ≤ byte.toNat := by
  intro byte member
  obtain ⟨bits, inside, rfl⟩ := List.mem_map.mp member
  have := small bits inside
  rw [toNat_toUInt8 (by omega)]
  omega

theorem continuations_eq_some_iff {bytes : List UInt8} {groups : List Nat} :
    bytes.mapM continuation? = some groups ↔
      (∀ bits ∈ groups, bits < 0x40) ∧ bytes = continuations groups := by
  induction bytes generalizing groups with
  | nil => cases groups <;> simp [continuations]
  | cons byte bytes ih =>
    rw [List.mapM_cons]
    simp only [Option.bind_eq_bind, Option.bind_eq_some_iff, Option.pure_def, Option.some.injEq,
      continuation?_eq_some_iff, ih]
    cases groups with
    | nil => simp [continuations]
    | cons bits groups =>
      simp only [continuations, List.cons.injEq, List.forall_mem_cons, List.map_cons]
      constructor
      · rintro ⟨_, ⟨small, rfl⟩, _, ⟨each, rfl⟩, rfl, rfl⟩
        exact ⟨⟨small, each⟩, rfl, rfl⟩
      · rintro ⟨⟨small, each⟩, rfl, rfl⟩
        exact ⟨_, ⟨small, rfl⟩, _, ⟨each, rfl⟩, rfl, rfl⟩

theorem toNat_bounds (c : Char) : c.toNat < 0xD800 ∨ 0xDFFF < c.toNat ∧ c.toNat < 0x110000 :=
  c.valid

section Forms

variable {c : Char}

theorem encodeChar_one (one : c.toNat < 0x80) : encodeChar c = [c.toNat.toUInt8] := by
  rw [encodeChar, if_pos one]

theorem encodeChar_two (one : ¬c.toNat < 0x80) (two : c.toNat < 0x800) :
    encodeChar c = (0xC0 + c.toNat / 0x40).toUInt8 :: continuations [c.toNat / 1 % 0x40] := by
  rw [encodeChar, if_neg one, if_pos two]
  rfl

theorem encodeChar_three (one : ¬c.toNat < 0x80) (two : ¬c.toNat < 0x800)
    (three : c.toNat < 0x10000) :
    encodeChar c = (0xE0 + c.toNat / 0x1000).toUInt8 ::
      continuations [c.toNat / 0x40 % 0x40, c.toNat / 1 % 0x40] := by
  rw [encodeChar, if_neg one, if_neg two, if_pos three]
  rfl

theorem encodeChar_four (one : ¬c.toNat < 0x80) (two : ¬c.toNat < 0x800)
    (three : ¬c.toNat < 0x10000) :
    encodeChar c = (0xF0 + c.toNat / 0x40000).toUInt8 ::
      continuations [c.toNat / 0x1000 % 0x40, c.toNat / 0x40 % 0x40, c.toNat / 1 % 0x40] := by
  rw [encodeChar, if_neg one, if_neg two, if_neg three]
  rfl

end Forms

/-- The bytes of a character are read as that character, whatever stands behind them. -/
theorem decodeChar?_encodeChar (c : Char) (rest : List UInt8) :
    decodeChar? (encodeChar c ++ rest) = some (c, (encodeChar c).length) := by
  have bounds := toNat_bounds c
  have found := char?_eq_some_iff.mpr (rfl : c.toNat = c.toNat)
  have bits (unit : Nat) : c.toNat / unit % 0x40 < 0x40 := Nat.mod_lt _ (by decide)
  have taken {groups : List Nat} (each : ∀ group ∈ groups, group < 0x40) :
      ((continuations groups ++ rest).take groups.length).mapM continuation? = some groups := by
    rw [List.take_left' (length_continuations groups)]
    exact continuations_eq_some_iff.mpr ⟨each, rfl⟩
  by_cases one : c.toNat < 0x80
  · have lead := toNat_toUInt8 (by omega : c.toNat < 0x100)
    rw [encodeChar_one one, List.singleton_append, decodeChar?]
    dsimp only
    rw [lead, if_pos one, found]
    rfl
  by_cases two : c.toNat < 0x800
  · have lead := toNat_toUInt8 (by omega : 0xC0 + c.toNat / 0x40 < 0x100)
    have whole : (0xC0 + c.toNat / 0x40 - 0xC0) * 0x40 + c.toNat / 1 % 0x40 = c.toNat := by omega
    have groups : ((continuations [c.toNat / 1 % 0x40] ++ rest).take 1).mapM continuation? = _ :=
      taken (List.forall_mem_singleton.mpr (bits 1))
    rw [encodeChar_two one two, List.cons_append, decodeChar?]
    dsimp only
    rw [lead, if_neg (by omega), if_neg (by omega), if_pos (by omega), groups,
      Option.bind_eq_bind, Option.bind_some]
    dsimp only
    rw [whole, if_neg one, found]
    rfl
  by_cases three : c.toNat < 0x10000
  · have lead := toNat_toUInt8 (by omega : 0xE0 + c.toNat / 0x1000 < 0x100)
    have whole : (0xE0 + c.toNat / 0x1000 - 0xE0) * 0x1000 + c.toNat / 0x40 % 0x40 * 0x40 +
        c.toNat / 1 % 0x40 = c.toNat := by omega
    have groups : ((continuations [c.toNat / 0x40 % 0x40, c.toNat / 1 % 0x40] ++ rest).take
        2).mapM continuation? = _ :=
      taken (List.forall_mem_cons.mpr ⟨bits 0x40, List.forall_mem_singleton.mpr (bits 1)⟩)
    rw [encodeChar_three one two three, List.cons_append, decodeChar?]
    dsimp only
    rw [lead, if_neg (by omega), if_neg (by omega), if_neg (by omega), if_pos (by omega), groups,
      Option.bind_eq_bind, Option.bind_some]
    dsimp only
    rw [whole, if_neg two, found]
    rfl
  · have lead := toNat_toUInt8 (by omega : 0xF0 + c.toNat / 0x40000 < 0x100)
    have whole : (0xF0 + c.toNat / 0x40000 - 0xF0) * 0x40000 + c.toNat / 0x1000 % 0x40 * 0x1000 +
        c.toNat / 0x40 % 0x40 * 0x40 + c.toNat / 1 % 0x40 = c.toNat := by omega
    have groups : ((continuations [c.toNat / 0x1000 % 0x40, c.toNat / 0x40 % 0x40,
        c.toNat / 1 % 0x40] ++ rest).take 3).mapM continuation? = _ :=
      taken (List.forall_mem_cons.mpr ⟨bits 0x1000, List.forall_mem_cons.mpr
        ⟨bits 0x40, List.forall_mem_singleton.mpr (bits 1)⟩⟩)
    rw [encodeChar_four one two three, List.cons_append, decodeChar?]
    dsimp only
    rw [lead, if_neg (by omega), if_neg (by omega), if_neg (by omega), if_neg (by omega),
      if_pos (by omega), groups, Option.bind_eq_bind, Option.bind_some]
    dsimp only
    rw [whole, if_neg three, found]
    rfl

theorem eq_of_map_char? {point width count : Nat} {c : Char}
    (found : (char? point).map (·, count) = some (c, width)) : c.toNat = point ∧ width = count := by
  obtain ⟨_, same, pair⟩ := Option.map_eq_some_iff.mp found
  obtain ⟨rfl, rfl⟩ := Prod.mk.inj pair
  exact ⟨char?_eq_some_iff.mp same, rfl⟩

/-- Bytes that are read as a character are its shortest form. -/
theorem of_decodeChar? {bytes : List UInt8} {c : Char} {width : Nat}
    (decoded : decodeChar? bytes = some (c, width)) :
    ∃ rest, bytes = encodeChar c ++ rest ∧ width = (encodeChar c).length := by
  cases bytes with
  | nil => cases decoded
  | cons first rest =>
    have form {value count : Nat} {groups : List Nat} (small : value < 0x100)
        (lead : first.toNat = value) (behind : rest.take count = continuations groups) :
        first :: rest = value.toUInt8 :: continuations groups ++ rest.drop count := by
      rw [← behind, List.cons_append, List.take_append_drop, ← (toUInt8_eq_iff small).mpr lead]
    simp only [decodeChar?] at decoded
    split_ifs at decoded with one two three four five
    · obtain ⟨point, rfl⟩ := eq_of_map_char? decoded
      have none : rest.take 0 = continuations [] := rfl
      have bytes := form (by omega : c.toNat < 0x100) point.symm none
      rw [encodeChar_one (by omega)]
      exact ⟨rest, bytes, rfl⟩
    · obtain ⟨groups, taken, found⟩ := Option.bind_eq_some_iff.mp decoded
      obtain ⟨small, behind⟩ := continuations_eq_some_iff.mp taken
      split at found
      · rename_i low
        split_ifs at found with short
        obtain ⟨point, rfl⟩ := eq_of_map_char? found
        simp only [List.forall_mem_cons] at small
        obtain rfl : low = c.toNat / 1 % 0x40 := by omega
        rw [encodeChar_two (by omega) (by omega)]
        exact ⟨rest.drop 1, form (by omega) (by omega) behind, rfl⟩
      · cases found
    · obtain ⟨groups, taken, found⟩ := Option.bind_eq_some_iff.mp decoded
      obtain ⟨small, behind⟩ := continuations_eq_some_iff.mp taken
      split at found
      · rename_i middle low
        split_ifs at found with short
        obtain ⟨point, rfl⟩ := eq_of_map_char? found
        simp only [List.forall_mem_cons] at small
        obtain rfl : low = c.toNat / 1 % 0x40 := by omega
        obtain rfl : middle = c.toNat / 0x40 % 0x40 := by omega
        rw [encodeChar_three (by omega) (by omega) (by omega)]
        exact ⟨rest.drop 2, form (by omega) (by omega) behind, rfl⟩
      · cases found
    · obtain ⟨groups, taken, found⟩ := Option.bind_eq_some_iff.mp decoded
      obtain ⟨small, behind⟩ := continuations_eq_some_iff.mp taken
      split at found
      · rename_i high middle low
        split_ifs at found with short
        obtain ⟨point, rfl⟩ := eq_of_map_char? found
        simp only [List.forall_mem_cons] at small
        obtain rfl : low = c.toNat / 1 % 0x40 := by omega
        obtain rfl : middle = c.toNat / 0x40 % 0x40 := by omega
        obtain rfl : high = c.toNat / 0x1000 % 0x40 := by omega
        rw [encodeChar_four (by omega) (by omega) (by omega)]
        exact ⟨rest.drop 3, form (by omega) (by omega) behind, rfl⟩
      · cases found

theorem encodeChar_ne_nil (c : Char) : encodeChar c ≠ [] := by
  unfold encodeChar
  dsimp only
  split_ifs <;> exact List.cons_ne_nil _ _

/-- What stands behind the bytes of a character. -/
theorem drop_encodeChar {c : Char} {first : UInt8} {rest behind : List UInt8}
    (bytes : first :: rest = encodeChar c ++ behind) :
    rest.drop ((encodeChar c).length - 1) = behind := by
  cases form : encodeChar c with
  | nil => exact absurd form (encodeChar_ne_nil c)
  | cons lead others =>
    rw [form, List.cons_append] at bytes
    rw [(List.cons.inj bytes).2, List.length_cons, Nat.add_sub_cancel, List.drop_left]

/-- One character is read after another. -/
theorem decode?_encodeChar (c : Char) (rest : List UInt8) :
    decode? (encodeChar c ++ rest) = (decode? rest).map (c :: ·) := by
  have decoded := decodeChar?_encodeChar c rest
  cases bytes : encodeChar c ++ rest with
  | nil => exact absurd (List.append_eq_nil_iff.mp bytes).1 (encodeChar_ne_nil c)
  | cons first others =>
    rw [bytes] at decoded
    rw [decode?, decoded, Option.bind_eq_bind, Option.bind_some]
    dsimp only
    rw [drop_encodeChar bytes.symm]
    cases decode? rest <;> rfl

theorem encode_cons (c : Char) (text : Text) :
    encode (c :: text) = encodeChar c ++ encode text := List.flatMap_cons

/-- Bytes are read as a text exactly if they are what the text is written as. -/
theorem decode?_eq_some_iff {bytes : List UInt8} {text : Text} :
    decode? bytes = some text ↔ bytes = encode text := by
  constructor
  · intro decoded
    induction bytes using decode?.induct generalizing text with
    | case1 =>
      rw [decode?] at decoded
      cases decoded
      rfl
    | case2 first rest ih =>
      have start := decoded
      rw [decode?] at start
      obtain ⟨⟨c, width⟩, char, -⟩ := Option.bind_eq_some_iff.mp start
      obtain ⟨behind, bytes, rfl⟩ := of_decodeChar? char
      rw [bytes, decode?_encodeChar] at decoded
      obtain ⟨later, further, rfl⟩ := Option.map_eq_some_iff.mp decoded
      have same := drop_encodeChar bytes
      have ended := ih (encodeChar c).length (same.symm ▸ further)
      rw [bytes, same.symm.trans ended, encode_cons]
  · rintro rfl
    induction text with
    | nil => rw [encode, List.flatMap_nil, decode?]
    | cons c text ih => rw [encode_cons, decode?_encodeChar, ih, Option.map_some]

end Utf8

namespace Utf16

theorem units?_unitBytes (order : ByteOrder) {unit : Nat} (small : unit < 0x10000)
    (rest : List UInt8) :
    units? order (unitBytes order unit ++ rest) = (units? order rest).map (unit :: ·) := by
  have high := Utf8.toNat_toUInt8 (by omega : unit / 0x100 < 0x100)
  have low := Utf8.toNat_toUInt8 (by omega : unit % 0x100 < 0x100)
  have whole : unit / 0x100 * 0x100 + unit % 0x100 = unit := Nat.div_add_mod' unit 0x100
  cases order <;> simp only [unitBytes, List.cons_append, List.nil_append, units?, high, low, whole]

theorem units?_flatMap (order : ByteOrder) {units : List Nat}
    (small : ∀ unit ∈ units, unit < 0x10000) :
    units? order (units.flatMap (unitBytes order)) = some units := by
  induction units with
  | nil => rfl
  | cons unit units ih =>
    rw [List.forall_mem_cons] at small
    rw [List.flatMap_cons, units?_unitBytes order small.1, ih small.2, Option.map_some]

theorem encodeChar_small (c : Char) : ∀ unit ∈ encodeChar c, unit < 0x10000 := by
  have bounds := Utf8.toNat_bounds c
  unfold encodeChar
  dsimp only
  split_ifs
  · exact List.forall_mem_singleton.mpr (by omega)
  · exact List.forall_mem_cons.mpr ⟨by omega, List.forall_mem_singleton.mpr (by omega)⟩

theorem ofUnits?_encodeChar (c : Char) (rest : List Nat) :
    ofUnits? (encodeChar c ++ rest) = (ofUnits? rest).map (c :: ·) := by
  have bounds := Utf8.toNat_bounds c
  have found := Utf8.char?_eq_some_iff.mpr (rfl : c.toNat = c.toNat)
  rw [encodeChar]
  split_ifs with one
  · cases rest with
    | nil => simp [ofUnits?, found]
    | cons next rest =>
      rw [List.singleton_append, ofUnits?, if_neg (by omega), found, Option.bind_eq_bind,
        Option.bind_some]
      cases ofUnits? (next :: rest) <;> rfl
  · have whole : 0x10000 + (0xD800 + (c.toNat - 0x10000) / 0x400 - 0xD800) * 0x400 +
        (0xDC00 + (c.toNat - 0x10000) % 0x400 - 0xDC00) = c.toNat := by omega
    rw [List.cons_append, List.singleton_append, ofUnits?, if_pos (by omega), if_pos (by omega),
      whole, found, Option.bind_eq_bind, Option.bind_some]
    cases ofUnits? rest <;> rfl

/-- A text is read back in either byte order. -/
theorem decode?_encode (order : ByteOrder) (text : Text) :
    decode? order (encode order text) = some text := by
  have small : ∀ unit ∈ text.flatMap encodeChar, unit < 0x10000 := fun unit member =>
    have ⟨c, _, inside⟩ := List.mem_flatMap.mp member
    encodeChar_small c unit inside
  rw [decode?, encode, units?_flatMap order small, Option.bind_some]
  clear small
  induction text with
  | nil => rfl
  | cons c text ih => rw [List.flatMap_cons, ofUnits?_encodeChar, ih, Option.map_some]

end Utf16

end XmlSelect
