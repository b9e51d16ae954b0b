import XmlSelect.XPath.Token
/-! What can be wrong with an expression, and how it is reported. -/
namespace XmlSelect.XPath

/-- The deepest nesting of an expression. -/
def maxDepth : Nat := 256

/-- Why a text is not an expression. -/
inductive SyntaxFault
  | strayColon
  | strayExclamation
  | missingVariableName
  | strayCharacter (found : Char)
  | unterminatedLiteral
  | empty
  | trailing (found : Token)
  | expected (wanted : Token) (found : Option Token)
  | expectedNodeTest (found : Option Token)
  | expectedOperand (found : Option Token)
  | unknownAxis (name : Text)
  | tooDeep
deriving DecidableEq

/-- The token at which reading stopped, or the end. -/
def describeFound : Option Token → Text
  | some token => '\'' :: token.text ++ ['\'']
  | none => "end of expression".toList

def SyntaxFault.message : SyntaxFault → Text
  | strayColon => "unexpected ':'".toList
  | strayExclamation => "expected '=' after '!'".toList
  | missingVariableName => "expected variable name after '$'".toList
  | strayCharacter found => "unexpected character '".toList ++ [found, '\'']
  | unterminatedLiteral => "unterminated string literal".toList
  | empty => "empty XPath expression".toList
  | trailing found => "unexpected token '".toList ++ found.text ++ "' after expression".toList
  | expected wanted found =>
    "expected '".toList ++ wanted.text ++ "', found ".toList ++ describeFound found
  | expectedNodeTest found => "expected node test, found ".toList ++ describeFound found
  | expectedOperand found => "unexpected ".toList ++ describeFound found
  | unknownAxis name => "unknown axis '".toList ++ name ++ ['\'']
  | tooDeep => "expression nested too deeply (max ".toList ++ Text.ofNat maxDepth ++ [')']

/-- A syntax error and the byte offset of its place. -/
structure SyntaxError where
  fault : SyntaxFault
  position : Nat
deriving DecidableEq

/-- The four types of values. -/
inductive ValueType
  | boolean
  | number
  | string
  | nodeSet
deriving DecidableEq

def ValueType.name : ValueType → Text
  | boolean => "boolean".toList
  | number => "number".toList
  | string => "string".toList
  | nodeSet => "node-set".toList

/-- How many arguments a function takes; without an upper end there is no limit. -/
structure Arity where
  least : Nat
  most : Option Nat
deriving DecidableEq

namespace Arity

def accepts (arity : Arity) (count : Nat) : Bool :=
  arity.least ≤ count && arity.most.all (count ≤ ·)

def text (arity : Arity) : Text :=
  match arity.most with
  | none => Text.ofNat arity.least ++ " or more".toList
  | some most =>
    if arity.least == most then Text.ofNat most
    else Text.ofNat arity.least ++ " or ".toList ++ Text.ofNat most

end Arity

/-- Why an expression has no value. -/
inductive Error
  | malformed (error : SyntaxError)
  | undefinedFunction (name : Text)
  | undefinedVariable (name : Text)
  | argumentCount (function : Text) (arity : Arity) (count : Nat)
  | notNodeSet (found : ValueType)
deriving DecidableEq

namespace Error

def message : Error → Text
  | malformed error =>
    "XPath syntax error at position ".toList ++ Text.ofNat error.position ++ ": ".toList ++
      error.fault.message
  | undefinedFunction name => "undefined function: ".toList ++ name ++ "()".toList
  | undefinedVariable name => "undefined variable: $".toList ++ name
  | argumentCount function arity count =>
    function ++ "() expects ".toList ++ arity.text ++ " argument(s), got ".toList ++
      Text.ofNat count
  | notNodeSet found =>
    "type error: expected ".toList ++ ValueType.nodeSet.name ++ ", found ".toList ++ found.name

/-- The byte offset of the error in the expression, if it has one. -/
def position? : Error → Option Nat
  | malformed error => some error.position
  | _ => none

end Error

end XmlSelect.XPath
