import XmlSelect.Text.CharClass
import XmlSelect.Text.Location
/-! What can be wrong with a document, and how it is reported. -/
namespace XmlSelect.Markup

/-- The parts of a document that end at a delimiter of their own. -/
inductive Part
  | comment
  | cdata
  | instruction
  | literal
deriving DecidableEq

def Part.name : Part → Text
  | comment => "comment".toList
  | cdata => "CDATA section".toList
  | instruction => "processing instruction".toList
  | literal => "quoted literal".toList

/-- Why a text is not a well-formed document. -/
inductive Fault
  | expected (wanted : Text) (found : Option Char)
  | nameAtEnd
  | invalidNameStart (found : Char)
  | blankRequired
  | unterminated (part : Part)
  | invalidCharIn (part : Part) (found : Char)
  | invalidChar (found : Char)
  | quotedLiteralRequired
  | emptyCharReference
  | charReferenceOutOfRange
  | charReferenceInvalid (point : Nat)
  | blankRequiredInDeclaration
  | invalidStandalone (value : Text)
  | unexpectedInDeclaration (name : Text)
  | missingVersion
  | unexpectedInSubset
  | unterminatedSubset
  | unterminatedMarkupDeclaration
  | entityWithoutValue (name : Text)
  | undefinedEntity (name : Text)
  | recursiveEntity (name : Text)
  | tooManyExpansions (limit : Nat)
  | externalEntityInAttribute (name : Text)
  | unresolvedEntity (name systemId : Text)
  | unterminatedReference
  | invalidReference (reference : Text)
  | tooDeep (limit : Nat)
  | unterminatedStartTag (name : Text)
  | blankRequiredBetweenAttributes
  | unquotedAttribute
  | unterminatedAttribute
  | lessThanInAttribute
  | duplicateAttribute (name element : Text)
  | unclosedElement (name : Text)
  | mismatchedEndTag (wanted found : Text)
  | sectionEndInText
  | doubleHyphenInComment
  | misplacedDeclaration
  | misplacedDoctype
  | contentAfterRoot
  | textOutsideRoot
  | missingRoot
  | unexpectedEnd
deriving DecidableEq

/-- A code point in hexadecimal capitals, at least four digits long. -/
def hexPoint (width : Nat) (point : Nat) : Text :=
  let digits := (Nat.toDigits 16 point).map Char.toUpper
  List.replicate (width - digits.length) '0' ++ digits

/-- The character at which reading stopped, or the end. -/
def describeFound : Option Char → Text
  | some c => ['\'', c, '\'']
  | none => "end of input".toList

def Fault.message : Fault → Text
  | expected wanted found =>
    "expected '".toList ++ wanted ++ "', found ".toList ++ describeFound found
  | nameAtEnd => "expected name, found end of input".toList
  | invalidNameStart found => "invalid name start character: '".toList ++ [found, '\'']
  | blankRequired => "whitespace required".toList
  | unterminated part => "unterminated ".toList ++ part.name
  | invalidCharIn part found =>
    "invalid XML character in ".toList ++ part.name ++ ": U+".toList ++ hexPoint 4 found.toNat
  | invalidChar found => "invalid XML character: U+".toList ++ hexPoint 4 found.toNat
  | quotedLiteralRequired => "expected quoted literal".toList
  | emptyCharReference => "empty character reference".toList
  | charReferenceOutOfRange => "character reference out of range".toList
  | charReferenceInvalid point =>
    "character reference &#x".toList ++ hexPoint 1 point ++
      "; is not a valid XML character".toList
  | blankRequiredInDeclaration => "whitespace required in XML declaration".toList
  | invalidStandalone value => "invalid standalone value '".toList ++ value ++ ['\'']
  | unexpectedInDeclaration name =>
    "unexpected '".toList ++ name ++ "' in XML declaration".toList
  | missingVersion => "XML declaration is missing version".toList
  | unexpectedInSubset => "unexpected content in DOCTYPE internal subset".toList
  | unterminatedSubset => "unterminated DOCTYPE internal subset".toList
  | unterminatedMarkupDeclaration => "unterminated markup declaration".toList
  | entityWithoutValue name =>
    "entity '".toList ++ name ++ "' needs a value or an external identifier".toList
  | undefinedEntity name => "undefined entity '&".toList ++ name ++ ";'".toList
  | recursiveEntity name => "recursive entity reference '&".toList ++ name ++ ";'".toList
  | tooManyExpansions limit =>
    "entity expansion limit exceeded (".toList ++ Text.ofNat limit ++ [')']
  | externalEntityInAttribute name =>
    "external entity '&".toList ++ name ++ ";' referenced in attribute value".toList
  | unresolvedEntity name systemId =>
    "failed to resolve external entity '".toList ++ name ++ "' (".toList ++ systemId ++ [')']
  | unterminatedReference => "unterminated reference in entity value".toList
  | invalidReference reference =>
    "invalid character reference '&".toList ++ reference ++ ";'".toList
  | tooDeep limit => "maximum nesting depth exceeded (".toList ++ Text.ofNat limit ++ [')']
  | unterminatedStartTag name => "unterminated start tag '".toList ++ name ++ ['\'']
  | blankRequiredBetweenAttributes => "whitespace required between attributes".toList
  | unquotedAttribute => "attribute value must be quoted".toList
  | unterminatedAttribute => "unterminated attribute value".toList
  | lessThanInAttribute => "'<' not allowed in attribute value".toList
  | duplicateAttribute name element =>
    "duplicate attribute '".toList ++ name ++ "' on '".toList ++ element ++ ['\'']
  | unclosedElement name => "element '".toList ++ name ++ "' is not closed".toList
  | mismatchedEndTag wanted found =>
    "mismatched end tag: expected '</".toList ++ wanted ++ ">', found '</".toList ++ found ++
      ">'".toList
  | sectionEndInText => "']]>' not allowed in character data".toList
  | doubleHyphenInComment => "'--' not allowed inside a comment".toList
  | misplacedDeclaration => "XML declaration allowed only at the start of the document".toList
  | misplacedDoctype => "misplaced DOCTYPE declaration".toList
  | contentAfterRoot => "content after document element".toList
  | textOutsideRoot => "text outside of the document element".toList
  | missingRoot => "missing root element".toList
  | unexpectedEnd => "unexpected end of input".toList

/-- What a document may hold that is passed over with a warning. -/
inductive Warning
  | parameterEntityIgnored (name : Text)
  | externalEntitySkipped (name systemId : Text)
deriving DecidableEq

def Warning.message : Warning → Text
  | parameterEntityIgnored name =>
    "parameter entity reference '%".toList ++ name ++ ";' ignored".toList
  | externalEntitySkipped name systemId =>
    "external entity '".toList ++ name ++ "' (".toList ++ systemId ++ ") not loaded".toList

/-- A warning and its place. -/
structure Diagnostic where
  warning : Warning
  place : Location
deriving DecidableEq

/-- The one grade of severity that lets reading go on. -/
def Diagnostic.severity : Text := "warning".toList

def Diagnostic.text (diagnostic : Diagnostic) : Text :=
  severity ++ ": ".toList ++ diagnostic.warning.message ++ " at ".toList ++ diagnostic.place.text

end XmlSelect.Markup
