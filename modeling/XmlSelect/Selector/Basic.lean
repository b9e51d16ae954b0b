import XmlSelect.Text.CharClass
/-! CSS selectors: compounds joined by the descendant and the child combinator. -/
namespace XmlSelect.Selector

/-- How a compound is joined to the one in front of it. -/
inductive Combinator
  | descendant
  | child
deriving DecidableEq

/-- How the value of an attribute is compared with an operand. -/
inductive Comparison
  /-- The value is the operand. -/
  | equals
  /-- The operand is one of the words of the value. -/
  | includesWord
  | startsWith
  | endsWith
  | contains
  /-- The value is the operand or continues it with a hyphen. -/
  | dashMatch
deriving DecidableEq

namespace Comparison

def text : Comparison → Text
  | equals => "=".toList
  | includesWord => "~=".toList
  | startsWith => "^=".toList
  | endsWith => "$=".toList
  | contains => "*=".toList
  | dashMatch => "|=".toList

/-- The comparison that a character announces in front of an equals sign. -/
def ofMark? : Char → Option Comparison
  | '~' => some includesWord
  | '^' => some startsWith
  | '$' => some endsWith
  | '*' => some contains
  | '|' => some dashMatch
  | _ => none

end Comparison

/-- A test of an attribute; without a condition the attribute only has to be there. -/
structure AttributeTest where
  name : Text
  condition : Option (Comparison × Text)
deriving DecidableEq

/-- A compound selector; without a tag every element will do. -/
structure Compound where
  tag : Option Text := none
  ids : List Text := []
  classes : List Text := []
  attributes : List AttributeTest := []
deriving DecidableEq

/-- Compounds from the outermost to the one that is selected, each with the combinator in front of
it; the first one is a descendant of the document. -/
abbrev Chain := List (Combinator × Compound)

/-- A character of an identifier: one of a name, but for the colon and the period. -/
def isIdentChar (c : Char) : Bool := isNameChar c && c != ':' && c != '.'

/-- A character that may start a tag or an attribute name. -/
def isIdentStart (c : Char) : Bool := isNameStart c && c != ':'

/-- Why a text is no selector. -/
inductive Fault
  | unterminatedAttribute
  | unterminatedString
  | danglingCombinator
  | emptyAttributeName
  | missingAttributeValue
  | missingIdentifier (mark : Char)
  | unsupported (found : Char)
deriving DecidableEq

/-- A fault and the byte offset of its place; a blank selector has none. -/
inductive Error
  | empty
  | malformed (fault : Fault) (position : Nat)
deriving DecidableEq

namespace Error

def message : Error → Text
  | empty => "CSS selector cannot be empty".toList
  | malformed fault position =>
    let what := match fault with
      | .unterminatedAttribute => "unterminated attribute selector starting".toList
      | .unterminatedString => "unterminated quoted value starting".toList
      | .danglingCombinator => "expected a selector after combinator".toList
      | .emptyAttributeName => "empty attribute name".toList
      | .missingAttributeValue => "missing attribute value".toList
      | .missingIdentifier mark => "expected an identifier after '".toList ++ [mark, '\'']
      | .unsupported found => "unsupported selector syntax '".toList ++ [found, '\'']
    what ++ " at position ".toList ++ Text.ofNat position

def position? : Error → Option Nat
  | empty => none
  | malformed _ position => some position

end Error

end XmlSelect.Selector
