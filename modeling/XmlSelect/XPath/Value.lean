import XmlSelect.Tree.Document
import XmlSelect.XPath.Error
import XmlSelect.XPath.Expr
import XmlSelect.XPath.Number
/-! The values of expressions, their conversions and their comparison. -/
namespace XmlSelect.XPath

/-- A value; the nodes of a node-set are in document order, each once. -/
inductive Value
  | boolean (value : Bool)
  | number (value : Double)
  | string (value : Text)
  | nodeSet (nodes : List Nat)
deriving DecidableEq

def booleanText (value : Bool) : Text := if value then "true".toList else "false".toList

namespace Value

def type : Value → ValueType
  | boolean _ => .boolean
  | number _ => .number
  | string _ => .string
  | nodeSet _ => .nodeSet

/-- Whether a value counts as true: zeros, NaN, the empty string and the empty node-set do not. -/
def toBoolean : Value → Bool
  | boolean value => value
  | number value => !value.isZero && !value.isNaN
  | string value => !value.isEmpty
  | nodeSet nodes => !nodes.isEmpty

/-- The number that a value stands for without looking at a document; a node-set has none. -/
def toNumber : Value → Double
  | boolean value => if value then .one else .zero
  | number value => value
  | string value => readNumber value
  | nodeSet _ => .nan

/-- The string that a value stands for without looking at a document; a node-set has none. -/
def toText : Value → Text
  | boolean value => booleanText value
  | number value => numberText value
  | string value => value
  | nodeSet _ => []

/-- The string of a value; for a node-set it is the text of its first node. -/
def textIn (document : Document) : Value → Text
  | nodeSet nodes => (nodes.head?.map document.textContent).getD []
  | other => other.toText

/-- The number of a value; for a node-set it is read from its string. -/
def numberIn (document : Document) : Value → Double
  | nodeSet nodes => readNumber ((nodeSet nodes).textIn document)
  | other => other.toNumber

/-- The nodes of a node-set. -/
def nodes : Value → Except Error (List Nat)
  | nodeSet nodes => .ok nodes
  | other => .error (.notNodeSet other.type)

/-- A value in short; of a node-set only its size. -/
def display : Value → Text
  | nodeSet nodes => "node-set(".toList ++ Text.ofNat nodes.length ++ [')']
  | other => other.toText

/-- Equality of values that are no node-sets: as booleans if one is a boolean, else as numbers if
one is a number, else as strings. -/
def equals : Value → Value → Bool
  | boolean left, right => left == right.toBoolean
  | left, boolean right => left.toBoolean == right
  | number left, right => left.equal right.toNumber
  | left, number right => left.toNumber.equal right
  | left, right => left.toText == right.toText

/-- A comparison of values that are no node-sets; the order is that of their numbers. -/
def compareAtoms (operator : Operator) (left right : Value) : Bool :=
  match operator with
  | .equal => left.equals right
  | .notEqual => !left.equals right
  | .less => left.toNumber.less right.toNumber
  | .lessEq => left.toNumber.lessEq right.toNumber
  | .greater => right.toNumber.less left.toNumber
  | _ => right.toNumber.lessEq left.toNumber

/-- A comparison with a node-set on the left: as a boolean if the other value is one, else some
node has to compare so, as a number or as a string. -/
def compareNodes (document : Document) (operator : Operator) (nodes : List Nat) :
    Value → Bool
  | boolean other => compareAtoms operator (boolean !nodes.isEmpty) (boolean other)
  | number other => nodes.any fun node =>
    compareAtoms operator (number (readNumber (document.textContent node))) (number other)
  | other => nodes.any fun node =>
    compareAtoms operator (string (document.textContent node)) other

/-- A comparison of any two values. -/
def compare (document : Document) (operator : Operator) : Value → Value → Bool
  | nodeSet left, nodeSet right => left.any fun node => right.any fun other =>
    compareAtoms operator (string (document.textContent node))
      (string (document.textContent other))
  | nodeSet nodes, other => compareNodes document operator nodes other
  | other, nodeSet nodes => compareNodes document operator.flipped nodes other
  | left, right => compareAtoms operator left right

end Value

end XmlSelect.XPath
