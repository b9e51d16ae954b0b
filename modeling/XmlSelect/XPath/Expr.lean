import XmlSelect.Number.Double
import XmlSelect.XPath.Axis
/-! The syntax trees of XPath expressions. -/
namespace XmlSelect.XPath

/-- The operators between two operands, the union apart. -/
inductive Operator
  | or
  | and
  | equal
  | notEqual
  | less
  | lessEq
  | greater
  | greaterEq
  | add
  | sub
  | mul
  | div
  | mod
deriving DecidableEq

namespace Operator

def all : List Operator :=
  [or, and, equal, notEqual, less, lessEq, greater, greaterEq, add, sub, mul, div, mod]

def text : Operator → Text
  | or => "or".toList
  | and => "and".toList
  | equal => "=".toList
  | notEqual => "!=".toList
  | less => "<".toList
  | lessEq => "<=".toList
  | greater => ">".toList
  | greaterEq => ">=".toList
  | add => "+".toList
  | sub => "-".toList
  | mul => "*".toList
  | div => "div".toList
  | mod => "mod".toList

/-- The operator with the given spelling. -/
def ofText? (text : Text) : Option Operator := all.find? (·.text == text)

/-- The operator that says the same of exchanged operands, for the comparisons. -/
def flipped : Operator → Operator
  | less => greater
  | lessEq => greaterEq
  | greater => less
  | greaterEq => lessEq
  | other => other

theorem flipped_flipped (operator : Operator) : operator.flipped.flipped = operator := by
  cases operator <;> rfl

theorem ofText?_text (operator : Operator) : ofText? operator.text = some operator := by
  cases operator <;> rfl

end Operator

/-- What a step asks of the nodes on its axis. -/
inductive NodeTest
  /-- A name as it is written, with its prefix if it has one. -/
  | name (name : Text)
  | wildcard
  /-- Any name with this prefix. -/
  | prefixWildcard (space : Text)
  | node
  | text
  | comment
  | instruction (target : Option Text)
deriving DecidableEq

/-- The test as it is written in an expression. -/
def NodeTest.display : NodeTest → Text
  | .name qualified => qualified
  | .wildcard => "*".toList
  | .prefixWildcard space => space ++ ":*".toList
  | .node => "node()".toList
  | .text => "text()".toList
  | .comment => "comment()".toList
  | .instruction none => "processing-instruction()".toList
  | .instruction (some target) => "processing-instruction('".toList ++ target ++ "')".toList

mutual

/-- An expression. -/
inductive Expr
  | number (value : Double)
  | literal (value : Text)
  | reference (variableName : Text)
  | binary (operator : Operator) (left right : Expr)
  | negate (operand : Expr)
  | call (function : Text) (arguments : List Expr)
  /-- Steps from the context node. -/
  | path (steps : List Step)
  /-- Steps from the document node; without a step it is the document node. -/
  | rootPath (steps : List Step)
  /-- Steps from each node of a node-set. -/
  | filterPath (start : Expr) (steps : List Step)
  /-- The nodes of a node-set that meet each predicate. -/
  | filter (nodes : Expr) (predicates : List Expr)
  | union (left right : Expr)

/-- One step of a location path. -/
inductive Step
  | mk (axis : Axis) (test : NodeTest) (predicates : List Expr)

end

namespace Step

def axis : Step → Axis
  | mk axis _ _ => axis

def test : Step → NodeTest
  | mk _ test _ => test

def predicates : Step → List Expr
  | mk _ _ predicates => predicates

/-- The step that a double slash abbreviates. -/
def anyDepth : Step := mk .descendantOrSelf .node []

end Step

end XmlSelect.XPath
