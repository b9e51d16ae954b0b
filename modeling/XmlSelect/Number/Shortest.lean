import XmlSelect.Number.Double
import XmlSelect.Text.Basic
/-! Decimal text of double-precision numbers: the fewest digits that read back as the number,
always written out by position. -/
namespace XmlSelect.Double

/-- The reals that round to a count of units, in quarters of a unit. Below a power of two the
neighbour is only half as far away. -/
def roundingInterval (units : Nat) : Nat × Nat :=
  let step := spacing units
  let gap := if 1 < step ∧ units == Nat.pow 2 52 * step then step else 2 * step
  (4 * units - gap, 4 * units + 2 * step)

/-- The multiple of 10^place that rounds to a count of units, if its two neighbours on that grid
include one. Of two the nearer is taken, and at the same distance the upper. The ends of the
interval round to the number when its last bit is zero. -/
def onGrid? (units : Nat) (place : Int) : Option Nat :=
  let mesh := Nat.pow 10 place.toNat * (4 * perOne)
  let factor := Nat.pow 10 (-place).toNat
  let (low, high) := roundingInterval units
  let rounds (digits : Nat) : Bool :=
    if units / spacing units % 2 == 0 then
      low * factor ≤ digits * mesh ∧ digits * mesh ≤ high * factor
    else low * factor < digits * mesh ∧ digits * mesh < high * factor
  let value := 4 * units * factor
  let lower := value / mesh
  match rounds lower, rounds (lower + 1) with
  | true, true => some (if 2 * value < (2 * lower + 1) * mesh then lower else lower + 1)
  | true, false => some lower
  | false, true => some (lower + 1)
  | false, false => none

/-- Digits and place of the shortest decimal that reads back as a count of units: the coarsest
grid that holds one. On the grid of 10^-1074 every count of units is a point. -/
def shortest (units : Nat) : Nat × Int :=
  let places := (List.range 1383).map fun (k : Nat) => (308 : Int) - k
  (places.findSome? fun place => (onGrid? units place).map (·, place)).getD
    (units * Nat.pow 5 1074, -1074)

/-- Digits times 10^place, written without an exponent. -/
def positional (digits : Nat) (place : Int) : Text :=
  let text := Nat.toDigits 10 digits
  let places := (-place).toNat
  if 0 ≤ place then text ++ List.replicate place.toNat '0'
  else if places < text.length then
    text.take (text.length - places) ++ '.' :: text.drop (text.length - places)
  else '0' :: '.' :: List.replicate (places - text.length) '0' ++ text

/-- The shortest decimal text of a count of units. -/
def unitsText (units : Nat) : Text :=
  if units == 0 then ['0'] else let (digits, place) := shortest units; positional digits place

/-- The shortest decimal text of a number. -/
def toText : Double → Text
  | nan => "NaN".toList
  | infinity negative => if negative then "-inf".toList else "inf".toList
  | finite negative units => if negative then '-' :: unitsText units else unitsText units

end XmlSelect.Double
