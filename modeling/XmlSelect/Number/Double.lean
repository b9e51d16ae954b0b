/-! Numbers of IEEE 754 double precision, computed exactly: a finite one is a sign and a count of
units of 2^-1074, and each operation rounds its exact result once, to nearest and ties to even. -/
namespace XmlSelect

/-- A number in double precision. -/
inductive Double
  | nan
  | infinity (negative : Bool)
  | finite (negative : Bool) (units : Nat)
deriving DecidableEq

namespace Double

/-- How many units make the number one. -/
def perOne : Nat := Nat.pow 2 1074

/-- The least count of units that is no finite number, that of 2^1024. -/
def overflow : Nat := Nat.pow 2 2098

/-- The distance between neighbours at a count of units: 53 significant bits are kept. -/
def spacing (units : Nat) : Nat := Nat.pow 2 (units.log2 - 52)

/-- A quotient rounded to the nearest integer, a half to the even one. -/
def roundQuotient (numerator denominator : Nat) : Nat :=
  let quotient := numerator / denominator
  let rest := numerator % denominator
  if 2 * rest < denominator then quotient
  else if denominator < 2 * rest then quotient + 1
  else quotient + quotient % 2

/-- The number nearest to a ratio of units. -/
def ofRatio (negative : Bool) (numerator denominator : Nat) : Double :=
  let step := spacing (numerator / denominator)
  let units := roundQuotient numerator (denominator * step) * step
  if overflow ≤ units then infinity negative else finite negative units

/-- The number nearest to a natural number. -/
def ofNat (n : Nat) : Double := ofRatio false (n * perOne) 1

/-- The number nearest to `digits` divided by ten to the power of `places`. -/
def ofDecimal (negative : Bool) (digits places : Nat) : Double :=
  ofRatio negative (digits * perOne) (Nat.pow 10 places)

def zero : Double := finite false 0

def negativeZero : Double := finite true 0

def one : Double := finite false perOne

def half : Double := finite false (perOne / 2)

def isNaN : Double → Bool
  | nan => true
  | _ => false

/-- Whether a number equals zero, of either sign. -/
def isZero : Double → Bool
  | finite _ 0 => true
  | _ => false

def neg : Double → Double
  | nan => nan
  | infinity negative => infinity !negative
  | finite negative units => finite (!negative) units

/-- The sum; equal amounts of opposite sign give the positive zero. -/
def add : Double → Double → Double
  | nan, _ | _, nan => nan
  | infinity left, infinity right => if left == right then infinity left else nan
  | infinity left, finite .. => infinity left
  | finite .., infinity right => infinity right
  | finite left amount, finite right other =>
    if left == right then ofRatio left (amount + other) 1
    else if amount == other then zero
    else if other < amount then ofRatio left (amount - other) 1
    else ofRatio right (other - amount) 1

def sub (left right : Double) : Double := add left (neg right)

def mul : Double → Double → Double
  | nan, _ | _, nan => nan
  | infinity left, infinity right => infinity (left ^^ right)
  | infinity left, finite right amount => if amount == 0 then nan else infinity (left ^^ right)
  | finite left amount, infinity right => if amount == 0 then nan else infinity (left ^^ right)
  | finite left amount, finite right other => ofRatio (left ^^ right) (amount * other) perOne

def div : Double → Double → Double
  | nan, _ | _, nan | infinity _, infinity _ => nan
  | infinity left, finite right _ => infinity (left ^^ right)
  | finite left _, infinity right => finite (left ^^ right) 0
  | finite left amount, finite right other =>
    if other == 0 then if amount == 0 then nan else infinity (left ^^ right)
    else ofRatio (left ^^ right) (amount * perOne) other

/-- The remainder of the quotient cut towards zero; it has the sign of the dividend and is exact. -/
def mod : Double → Double → Double
  | nan, _ | _, nan | infinity _, _ => nan
  | finite left amount, infinity _ => finite left amount
  | finite left amount, finite _ other =>
    if other == 0 then nan else finite left (amount % other)

/-- A count of units with its sign. -/
def signed (negative : Bool) (units : Nat) : Int := if negative then -(units : Int) else units

/-- Equality of numbers: the zeros are equal, and no number equals NaN. -/
def equal : Double → Double → Bool
  | nan, _ | _, nan => false
  | infinity left, infinity right => left == right
  | infinity _, finite .. | finite .., infinity _ => false
  | finite left amount, finite right other => signed left amount == signed right other

/-- The strict order of numbers; NaN is not below or above any number. -/
def less : Double → Double → Bool
  | nan, _ | _, nan => false
  | infinity left, infinity right => left && !right
  | infinity left, finite .. => left
  | finite .., infinity right => !right
  | finite left amount, finite right other => signed left amount < signed right other

/-- The order of numbers; NaN is not comparable, not even to itself. -/
def lessEq (left right : Double) : Bool := less left right || equal left right

/-- The greatest integer that is not above a number. -/
def floor : Double → Double
  | finite negative units =>
    if units % perOne == 0 then finite negative units
    else if negative then finite true ((units / perOne + 1) * perOne)
    else finite false (units / perOne * perOne)
  | other => other

/-- The least integer that is not below a number. -/
def ceiling : Double → Double
  | finite negative units =>
    if units % perOne == 0 then finite negative units
    else if negative then finite true (units / perOne * perOne)
    else finite false ((units / perOne + 1) * perOne)
  | other => other

/-- The 64 bits of the interchange format; NaN has its quiet form. -/
def toBits : Double → UInt64
  | nan => 0x7FF8000000000000
  | infinity negative => (if negative then 0x8000000000000000 else 0) + 0x7FF0000000000000
  | finite negative units =>
    let exponent := units.log2 - 52
    (if negative then 0x8000000000000000 else 0) +
      (exponent * Nat.pow 2 52 + units / Nat.pow 2 exponent).toUInt64

/-- The number with the given bits of the interchange format. -/
def ofBits (bits : UInt64) : Double :=
  let negative := Nat.pow 2 63 ≤ bits.toNat
  let exponent := bits.toNat % Nat.pow 2 63 / Nat.pow 2 52
  let fraction := bits.toNat % Nat.pow 2 52
  if exponent == 2047 then if fraction == 0 then infinity negative else nan
  else if exponent == 0 then finite negative fraction
  else finite negative ((Nat.pow 2 52 + fraction) * Nat.pow 2 (exponent - 1))

theorem equal_comm (left right : Double) : equal left right = equal right left := by
  cases left <;> cases right <;> simp only [equal] <;> rw [Bool.beq_comm]

theorem neg_neg (number : Double) : neg (neg number) = number := by
  cases number <;> simp [neg]

end Double

end XmlSelect
