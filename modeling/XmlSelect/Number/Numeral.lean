import XmlSelect.Number.Double
import XmlSelect.Text.Basic
/-! Reading numbers and integers from decimal digits. -/
namespace XmlSelect

/-- The natural number that a run of decimal digits denotes. -/
def digitsValue (digits : Text) : Nat :=
  digits.foldl (fun value c => 10 * value + (c.toNat - '0'.toNat)) 0

/-- The number nearest to the digits before and after a decimal point. -/
def Double.ofDigits (negative : Bool) (whole fraction : Text) : Double :=
  Double.ofDecimal negative (digitsValue (whole ++ fraction)) fraction.length

/-- An integer: one sign at most, then at least one decimal digit and nothing else. -/
def readInteger? (text : Text) : Option Int :=
  let (negative, digits) := match text with
    | '-' :: digits => (true, digits)
    | '+' :: digits => (false, digits)
    | digits => (false, digits)
  if digits.isEmpty || !digits.all Char.isDigit then none
  else some (if negative then -(digitsValue digits : Int) else digitsValue digits)

end XmlSelect
