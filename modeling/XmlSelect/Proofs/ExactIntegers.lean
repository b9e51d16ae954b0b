import Mathlib.Algebra.Order.Ring.Nat
import Mathlib.Data.Nat.Log
import XmlSelect.Number.Numeral

/-! Natural numbers that fit into the 53 significant bits of a double. They are exact, so that what
is written with their digits is equal to them and to no other, and so are their differences. With a
half added, those with all 53 bits do not fit any more. -/
namespace XmlSelect

/-- The digits of a number denote it. -/
theorem digitsValue_ofNat (n : Nat) : digitsValue (Text.ofNat n) = n :=
  Nat.ofDigitChars_toDigits (by decide) (by decide)

namespace Double

section Units

variable {n unit places : Nat}

private theorem log2_mul_unit (isUnit : unit = Nat.pow 2 places) (positive : 0 < n) :
    (n * unit).log2 = n.log2 + places := by
  subst isUnit
  have nonzero : n * 2 ^ places ≠ 0 :=
    Nat.mul_ne_zero positive.ne' (Nat.pow_pos (by decide)).ne'
  refine (Nat.log2_eq_iff nonzero).mpr ⟨?_, ?_⟩
  · rw [Nat.pow_add]
    exact Nat.mul_le_mul_right _ (Nat.log2_self_le positive.ne')
  · rw [Nat.add_right_comm, Nat.pow_add]
    exact Nat.mul_lt_mul_of_pos_right Nat.lt_log2_self (Nat.pow_pos (by decide))

/-- The distance between neighbours divides the units of a number with few bits. -/
private theorem spacing_dvd_unit (isUnit : unit = Nat.pow 2 places) (fine : 52 ≤ places)
    (small : n < 2 ^ 53) : spacing (n * unit) ∣ n * unit := by
  rcases Nat.eq_zero_or_pos n with rfl | positive
  · rw [Nat.zero_mul]
    exact Nat.dvd_zero _
  · have few : n.log2 < 53 := (Nat.log2_lt positive.ne').mpr small
    rw [spacing, log2_mul_unit isUnit positive, isUnit]
    exact Nat.dvd_mul_left_of_dvd (Nat.pow_dvd_pow 2 (by omega)) n

private theorem mul_unit_lt {top most : Nat} (isUnit : unit = Nat.pow 2 places)
    (isTop : top = Nat.pow 2 most) (room : 53 + places ≤ most) (small : n < 2 ^ 53) :
    n * unit < top := by
  subst isUnit isTop
  calc n * 2 ^ places < 2 ^ 53 * 2 ^ places :=
        Nat.mul_lt_mul_of_pos_right small (Nat.pow_pos (by decide))
    _ = 2 ^ (53 + places) := (Nat.pow_add 2 53 places).symm
    _ ≤ 2 ^ most := Nat.pow_le_pow_right (by decide) room

/-- A number of units with few bits is not rounded. -/
private theorem ofRatio_mul_unit {most : Nat} (negative : Bool) (isUnit : unit = Nat.pow 2 places)
    (isTop : overflow = Nat.pow 2 most) (fine : 52 ≤ places) (room : 53 + places ≤ most)
    (small : n < 2 ^ 53) : ofRatio negative (n * unit) 1 = finite negative (n * unit) := by
  have below := mul_unit_lt isUnit isTop room small
  have whole := spacing_dvd_unit isUnit fine small
  have kept : roundQuotient (n * unit) (spacing (n * unit)) * spacing (n * unit) = n * unit := by
    have positive : 0 < spacing (n * unit) := Nat.pow_pos (by decide)
    rw [roundQuotient, Nat.mod_eq_zero_of_dvd whole, Nat.mul_zero, if_pos positive,
      Nat.div_mul_cancel whole]
  rw [ofRatio]
  simp only [Nat.div_one, Nat.one_mul]
  rw [kept, if_neg (Nat.not_le.mpr below)]

/-- Where all bits are taken by units, half a unit more goes to the even neighbour. -/
private theorem ofRatio_add_half {half most : Nat} (negative : Bool)
    (isUnit : unit = Nat.pow 2 places) (isHalf : unit = 2 * half)
    (isTop : overflow = Nat.pow 2 most) (room : 53 + places < most) (full : 2 ^ 52 ≤ n)
    (small : n < 2 ^ 53) :
    ofRatio negative (n * unit + half) 1 = finite negative ((n + n % 2) * unit) := by
  have positive : 0 < unit := isUnit ▸ Nat.pow_pos (by decide)
  have inner : half < unit := by omega
  have log : (n * unit + half).log2 = 52 + places := by
    refine (Nat.log2_eq_iff (by omega)).mpr ⟨?_, ?_⟩
    · calc 2 ^ (52 + places) = 2 ^ 52 * unit := by rw [Nat.pow_add, isUnit]; rfl
        _ ≤ n * unit := Nat.mul_le_mul_right unit full
        _ ≤ n * unit + half := Nat.le_add_right _ _
    · calc n * unit + half < (n + 1) * unit := by rw [Nat.succ_mul]; omega
        _ ≤ 2 ^ 53 * unit := Nat.mul_le_mul_right unit small
        _ = 2 ^ (52 + places + 1) := by rw [Nat.add_right_comm, Nat.pow_add, isUnit]; rfl
  have step : spacing (n * unit + half) = unit := by
    rw [spacing, log, Nat.add_sub_cancel_left, isUnit]
  have quotient : (n * unit + half) / unit = n := by
    rw [Nat.mul_comm, Nat.mul_add_div positive, Nat.div_eq_of_lt inner, Nat.add_zero]
  have rest : (n * unit + half) % unit = half := by
    rw [Nat.mul_comm, Nat.mul_add_mod, Nat.mod_eq_of_lt inner]
  have below : (n + n % 2) * unit < overflow := by
    calc (n + n % 2) * unit ≤ 2 ^ 53 * unit := Nat.mul_le_mul_right unit (by omega)
      _ = 2 ^ (53 + places) := by rw [Nat.pow_add, isUnit]; rfl
      _ < overflow := isTop ▸ Nat.pow_lt_pow_right (by decide) room
  have rounded : roundQuotient (n * unit + half) unit = n + n % 2 := by
    rw [roundQuotient, quotient, rest, if_neg (by omega), if_neg (by omega)]
  rw [ofRatio]
  simp only [Nat.div_one, Nat.one_mul]
  rw [step, rounded, if_neg (Nat.not_le.mpr below)]

end Units

/-- One is two halves, and both are powers of two far enough below the overflow. -/
private theorem exists_places : ∃ places most, perOne = Nat.pow 2 (places + 1) ∧
    overflow = Nat.pow 2 most ∧ 52 ≤ places ∧ 54 + places < most := by
  obtain ⟨places, last⟩ : ∃ places, 1074 = places + 1 := ⟨1073, rfl⟩
  unfold perOne overflow
  rw [last]
  exact ⟨places, _, Eq.refl _, Eq.refl _, by omega, by omega⟩

theorem perOne_pos : 0 < perOne := by
  obtain ⟨places, -, isUnit, -⟩ := exists_places
  exact isUnit ▸ Nat.pow_pos (by decide)

theorem ofRatio_mul_perOne {n : Nat} (negative : Bool) (small : n < 2 ^ 53) :
    ofRatio negative (n * perOne) 1 = finite negative (n * perOne) := by
  obtain ⟨places, most, isUnit, isTop, fine, room⟩ := exists_places
  exact ofRatio_mul_unit negative isUnit isTop (by omega) (by omega) small

/-- A number with few bits is not rounded. -/
theorem ofNat_eq {n : Nat} (small : n < 2 ^ 53) : ofNat n = finite false (n * perOne) :=
  ofRatio_mul_perOne false small

theorem equal_ofNat_iff {n m : Nat} (small : n < 2 ^ 53) (small' : m < 2 ^ 53) :
    equal (ofNat n) (ofNat m) = true ↔ n = m := by
  rw [ofNat_eq small, ofNat_eq small', equal, signed, signed, beq_iff_eq]
  simp only [Bool.false_eq_true, if_false, Int.natCast_inj]
  exact Nat.mul_left_inj perOne_pos.ne'

section Differences

variable {n m : Nat} (small : n < 2 ^ 53) (small' : m < 2 ^ 53)

include small small'

private theorem sub_ofNat : sub (ofNat n) (ofNat m) =
    if n * perOne = m * perOne then zero
    else if m * perOne < n * perOne then ofRatio false (n * perOne - m * perOne) 1
    else ofRatio true (m * perOne - n * perOne) 1 := by
  rw [ofNat_eq small, ofNat_eq small', sub, neg, add]
  simp only [Bool.not_false, Bool.false_beq, Bool.not_true, Bool.false_eq_true, if_false,
    beq_iff_eq]

theorem sub_ofNat_of_le (le : m ≤ n) :
    sub (ofNat n) (ofNat m) = finite false ((n - m) * perOne) := by
  rw [sub_ofNat small small']
  rcases Nat.eq_or_lt_of_le le with rfl | lt
  · rw [if_pos rfl, Nat.sub_self, Nat.zero_mul, zero]
  · have apart : m * perOne < n * perOne := Nat.mul_lt_mul_of_pos_right lt perOne_pos
    rw [if_neg apart.ne', if_pos apart, ← Nat.sub_mul]
    exact ofRatio_mul_perOne false (by omega)

theorem sub_ofNat_of_lt (lt : n < m) :
    sub (ofNat n) (ofNat m) = finite true ((m - n) * perOne) := by
  have apart : n * perOne < m * perOne := Nat.mul_lt_mul_of_pos_right lt perOne_pos
  rw [sub_ofNat small small', if_neg apart.ne, if_neg apart.asymm, ← Nat.sub_mul]
  exact ofRatio_mul_perOne true (by omega)

end Differences

/-- What becomes of an integer when a half is added and the rest behind the point is dropped. From
2^52 on no bit is left for the half, and the sum goes to the even neighbour. -/
def afterHalf (n : Nat) : Nat := if n < 2 ^ 52 then n else n + n % 2

theorem floor_add_half {n : Nat} (small : n < 2 ^ 53) :
    (add (finite false (n * perOne)) half).floor = finite false (afterHalf n * perOne) := by
  obtain ⟨places, most, isUnit, isTop, fine, room⟩ := exists_places
  have positive : 0 < Nat.pow 2 places := Nat.pow_pos (by decide)
  have isHalf : perOne = 2 * Nat.pow 2 places := isUnit.trans (Nat.pow_succ' ..)
  have halved : perOne / 2 = Nat.pow 2 places := by
    rw [isHalf, Nat.mul_div_cancel_left _ (by decide)]
  have sum : add (finite false (n * perOne)) half =
      ofRatio false (n * perOne + Nat.pow 2 places) 1 := by
    rw [half, halved, add, beq_self_eq_true, if_pos rfl]
  rw [sum, afterHalf]
  by_cases few : n < 2 ^ 52
  · have odd : n * perOne + Nat.pow 2 places = (2 * n + 1) * Nat.pow 2 places := by
      rw [isHalf, Nat.add_mul, Nat.one_mul, ← Nat.mul_assoc, Nat.mul_comm n 2]
    have quotient : (n * perOne + Nat.pow 2 places) / perOne = n := by
      rw [Nat.mul_comm, Nat.mul_add_div perOne_pos, Nat.div_eq_of_lt (by omega), Nat.add_zero]
    have rest : (n * perOne + Nat.pow 2 places) % perOne = Nat.pow 2 places := by
      rw [Nat.mul_comm, Nat.mul_add_mod, Nat.mod_eq_of_lt (by omega)]
    rw [odd, ofRatio_mul_unit false rfl isTop fine (by omega) (by omega), ← odd, floor, rest,
      quotient, if_pos few, if_neg (by simp)]
    rfl
  · rw [ofRatio_add_half false isUnit isHalf isTop (by omega) (Nat.le_of_not_lt few) small, floor,
      Nat.mul_mod_left, if_neg few]
    rfl

/-- What is written with the digits of a natural number is that number. -/
theorem ofDigits_ofNat (n : Nat) : ofDigits false (Text.ofNat n) [] = ofNat n := by
  rw [ofDigits, List.append_nil, digitsValue_ofNat]
  rfl

end Double

end XmlSelect
