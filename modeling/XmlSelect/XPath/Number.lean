import XmlSelect.Number.Numeral
import XmlSelect.Number.Shortest
import XmlSelect.Text.CharClass
/-! The numbers of XPath: how they are read from strings, written as strings, and rounded. -/
namespace XmlSelect.XPath

/-- Reads a number: blanks around it, a minus sign, then digits with a decimal point at most. All
other text is NaN. -/
def readNumber (text : Text) : Double :=
  let trimmed := Text.trim isBlank text
  let (negative, body) := match trimmed with
    | '-' :: body => (true, body)
    | body => (false, body)
  let whole := body.takeWhile Char.isDigit
  match body.dropWhile Char.isDigit with
  | [] => if whole.isEmpty then .nan else .ofDigits negative whole []
  | '.' :: fraction =>
    if whole.isEmpty && fraction.isEmpty || !fraction.all Char.isDigit then .nan
    else .ofDigits negative whole fraction
  | _ => .nan

/-- Writes a number: integers below 10^18 with all their digits, other numbers with the fewest
digits that read back. Both zeros are written alike. -/
def numberText : Double → Text
  | .nan => "NaN".toList
  | .infinity negative => if negative then "-Infinity".toList else "Infinity".toList
  | .finite negative units =>
    let amount :=
      if units % Double.perOne == 0 && units / Double.perOne < 1000000000000000000 then
        Text.ofNat (units / Double.perOne)
      else Double.unitsText units
    if negative && units != 0 then '-' :: amount else amount

/-- The nearest integer; a half goes up, and what goes up to zero from below is the negative
zero. -/
def round : Double → Double
  | .finite negative units =>
    if negative && 0 < units && 2 * units ≤ Double.perOne then .negativeZero
    else (Double.add (.finite negative units) .half).floor
  | other => other

/-- The sum of some numbers; no numbers add up to the negative zero. -/
def sum (numbers : List Double) : Double := numbers.foldl Double.add .negativeZero

end XmlSelect.XPath
