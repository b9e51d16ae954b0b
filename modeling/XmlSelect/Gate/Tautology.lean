import XmlSelect.XPath.Number
/-! Finding operands of `or` and `and` in the text of an expression that decide it whatever the
document holds. -/
namespace XmlSelect.Gate

/-- A character that continues a name to its left, as far as the text alone can tell. -/
def isNamePart (c : Char) : Bool := c.isAlphanum || c == '-' || c == '_' || c == '.'

/-- A number or a string at the start of a text. -/
inductive Literal
  | number (value : Double)
  | string (value : Text)

namespace Literal

def toNumber : Literal → Double
  | number value => value
  | string value => XPath.readNumber value

/-- Strings are equal as text; with a number both count as numbers. -/
def equals : Literal → Literal → Bool
  | string left, string right => left == right
  | left, right => left.toNumber.equal right.toNumber

/-- The literal at the start of a text, and the text behind it. -/
def read? : Text → Option (Literal × Text)
  | [] => none
  | first :: rest =>
    if first == '\'' || first == '"' then
      (Text.breakOn? [first] rest).map fun (value, after) => (string value, after)
    else
      let isPart : Char → Bool := fun c => c.isDigit || c == '.'
      let value := XPath.readNumber ((first :: rest).takeWhile isPart)
      if value.isNaN then none else some (number value, (first :: rest).dropWhile isPart)

end Literal

/-- Whether a text starts with a call of a function without arguments. -/
def startsWithCall (name text : Text) : Bool :=
  match (Text.dropPrefix? name text).map (·.dropWhile isSpace) with
  | some ('(' :: rest) => (rest.dropWhile isSpace).head? == some ')'
  | _ => false

/-- The value of the comparison of two literals at the start of a text. -/
def constantComparison? (text : Text) : Option Bool := do
  let (left, rest) ← Literal.read? text
  let (negated, rest) ← match rest.dropWhile isSpace with
    | '!' :: '=' :: rest => some (true, rest)
    | '=' :: rest => some (false, rest)
    | _ => none
  let (right, _) ← Literal.read? (rest.dropWhile isSpace)
  return left.equals right != negated

/-- The value of the operand at the start of a text, if it is constant. -/
def constantOperand? (text : Text) : Option Bool :=
  if startsWithCall "true".toList text then some true
  else if startsWithCall "false".toList text then some false
  else constantComparison? text

/-- Whether a keyword stands on its own between two characters. -/
def isBounded (previous : Option Char) (after : Text) : Bool :=
  !previous.any isNamePart && after.head?.any fun c =>
    isAsciiSpace c || c.isDigit || c == '(' || c == '\'' || c == '"'

/-- Whether a keyword stands in front of an operand with the given constant value. -/
def decides (keyword : Text) (value : Bool) (text : Text) : Bool :=
  (Text.occurrences keyword text).any fun (previous, after) =>
    isBounded previous after &&
      constantOperand? (after.dropWhile fun c => isAsciiSpace c || c == '(') == some value

/-- Whether an `or` has a true operand or an `and` a false one. -/
def hasTautology (text : Text) : Bool :=
  decides "or".toList true text || decides "and".toList false text

end XmlSelect.Gate
