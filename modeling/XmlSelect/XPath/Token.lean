import XmlSelect.Number.Shortest
import XmlSelect.Text.Letter
/-! The tokens of XPath expressions. -/
namespace XmlSelect.XPath

/-- The tests for a kind of node that are written like calls. -/
inductive NodeType
  | comment
  | text
  | instruction
  | node
deriving DecidableEq

namespace NodeType

def name : NodeType → Text
  | comment => "comment".toList
  | text => "text".toList
  | instruction => "processing-instruction".toList
  | node => "node".toList

/-- The kind of node with the given name. -/
def ofName? (name : Text) : Option NodeType :=
  [comment, text, instruction, node].find? (·.name == name)

end NodeType

/-- A token; a star is told apart by what stands before it, a name by what stands after it. -/
inductive Token
  | leftParen
  | rightParen
  | leftBracket
  | rightBracket
  | dot
  | dotDot
  | atSign
  | comma
  | colonColon
  | slash
  | doubleSlash
  | pipe
  | plus
  | minus
  /-- A star between two operands. -/
  | multiply
  /-- A star as a name test. -/
  | star
  | equal
  | notEqual
  | less
  | lessEq
  | greater
  | greaterEq
  | and
  | or
  | mod
  | div
  | number (value : Double)
  | literal (value : Text)
  | nameTest (name : Text)
  /-- A prefix with a star for the name. -/
  | prefixWildcard (space : Text)
  /-- A reference to a variable, without the dollar sign. -/
  | reference (name : Text)
  | function (name : Text)
  | nodeType (type : NodeType)
  | axis (name : Text)
deriving DecidableEq

namespace Token

/-- How a token is shown in messages; but for numbers and literals it is what was written. -/
def text : Token → Text
  | leftParen => "(".toList
  | rightParen => ")".toList
  | leftBracket => "[".toList
  | rightBracket => "]".toList
  | dot => ".".toList
  | dotDot => "..".toList
  | atSign => "@".toList
  | comma => ",".toList
  | colonColon => "::".toList
  | slash => "/".toList
  | doubleSlash => "//".toList
  | pipe => "|".toList
  | plus => "+".toList
  | minus => "-".toList
  | multiply | star => "*".toList
  | equal => "=".toList
  | notEqual => "!=".toList
  | less => "<".toList
  | lessEq => "<=".toList
  | greater => ">".toList
  | greaterEq => ">=".toList
  | and => "and".toList
  | or => "or".toList
  | mod => "mod".toList
  | div => "div".toList
  | number value => value.toText
  | literal value => '\'' :: value ++ ['\'']
  | nameTest name | function name | axis name => name
  | prefixWildcard space => space ++ ":*".toList
  | reference name => '$' :: name
  | nodeType type => type.name

/-- Whether an operand may end here, so that a star or an operator name after it is an operator. -/
def endsOperand : Token → Bool
  | rightParen | rightBracket | dot | dotDot | star | number _ | literal _ | nameTest _
  | prefixWildcard _ | reference _ => true
  | _ => false

/-- Whether a location step may start here. -/
def startsStep : Token → Bool
  | nameTest _ | prefixWildcard _ | star | axis _ | atSign | dot | dotDot | nodeType _ => true
  | _ => false

end Token

/-- A token and the byte offset at which it starts. -/
structure Located where
  token : Token
  position : Nat

/-- Whether a character may start a name in an expression. -/
def isNameStart (c : Char) : Bool := isLetter c || c == '_'

/-- Whether a character may continue a name in an expression. -/
def isNameChar (c : Char) : Bool :=
  isLetterOrNumber c || c == '_' || c == '-' || c == '.' || c == '\u00b7'

end XmlSelect.XPath
