import XmlSelect.Text.Letter
import XmlSelect.Tree.Navigation
import XmlSelect.XPath.Value
/-! The core functions of XPath. -/
namespace XmlSelect.XPath

/-- What an expression is evaluated in: a node, and its place among those that are looked at. -/
structure Context where
  document : Document
  node : Nat
  position : Nat
  size : Nat

/-- The context of a node on its own. -/
def Context.ofNode (document : Document) (node : Nat) : Context := ⟨document, node, 1, 1⟩

inductive CoreFunction
  | last
  | position
  | count
  | id
  | localName
  | name
  | namespaceUri
  | string
  | concat
  | startsWith
  | contains
  | substringBefore
  | substringAfter
  | substring
  | stringLength
  | normalizeSpace
  | translate
  | boolean
  | not
  | true
  | false
  | lang
  | number
  | sum
  | floor
  | ceiling
  | round
deriving DecidableEq

namespace CoreFunction

def all : List CoreFunction :=
  [last, position, count, id, localName, name, namespaceUri, string, concat, startsWith, contains,
    substringBefore, substringAfter, substring, stringLength, normalizeSpace, translate, boolean,
    not, true, false, lang, number, sum, floor, ceiling, round]

def text : CoreFunction → Text
  | last => "last".toList
  | position => "position".toList
  | count => "count".toList
  | id => "id".toList
  | localName => "local-name".toList
  | name => "name".toList
  | namespaceUri => "namespace-uri".toList
  | string => "string".toList
  | concat => "concat".toList
  | startsWith => "starts-with".toList
  | contains => "contains".toList
  | substringBefore => "substring-before".toList
  | substringAfter => "substring-after".toList
  | substring => "substring".toList
  | stringLength => "string-length".toList
  | normalizeSpace => "normalize-space".toList
  | translate => "translate".toList
  | boolean => "boolean".toList
  | not => "not".toList
  | true => "true".toList
  | false => "false".toList
  | lang => "lang".toList
  | number => "number".toList
  | sum => "sum".toList
  | floor => "floor".toList
  | ceiling => "ceiling".toList
  | round => "round".toList

/-- The function with the given name. -/
def ofText? (text : Text) : Option CoreFunction := all.find? (·.text == text)

def arity : CoreFunction → Arity
  | last | position | true | false => ⟨0, some 0⟩
  | localName | name | namespaceUri | string | stringLength | normalizeSpace | number =>
    ⟨0, some 1⟩
  | count | id | boolean | not | lang | sum | floor | ceiling | round => ⟨1, some 1⟩
  | startsWith | contains | substringBefore | substringAfter => ⟨2, some 2⟩
  | substring => ⟨2, some 3⟩
  | translate => ⟨3, some 3⟩
  | concat => ⟨2, none⟩

theorem ofText?_text (function : CoreFunction) : ofText? function.text = some function := by
  cases function <;> decide +kernel

end CoreFunction

/-- The characters at positions from `start` on and before `stop`, counted from one. -/
def charsBetween (start stop : Double) (text : Text) : Text :=
  ((text.zipIdx 1).filter fun (_, index) =>
    let position := Double.ofNat index
    start.lessEq position && position.less stop).map (·.1)

/-- White space at the ends dropped, and each run of it inside made one space. -/
def normalizeSpace (text : Text) : Text :=
  List.intercalate [' '] (Text.words isAsciiSpace text)

/-- Each character of `source` replaced by the one at the same place in `target`; without one it is
dropped. The first place of a character counts. -/
def translateChars (source target text : Text) : Text :=
  text.filterMap fun c =>
    match source.idxOf? c with
    | some index => target[index]?
    | none => some c

/-- A name without its prefix. -/
def withoutPrefix (name : Text) : Text :=
  match Text.breakOn? [':'] name with
  | some (_, after) => after
  | none => name

/-- Whether the language of a node, said nearest by `xml:lang` on it or above, is the wanted one or
a kind of it. -/
def isLanguage (document : Document) (node : Nat) (wanted : Text) : Bool :=
  let declared := (node :: document.ancestors node).findSome? fun place =>
    document.attribute? place "xml:lang".toList
  match declared with
  | none => Bool.false
  | some language =>
    match Text.dropPrefix? (Text.toLower wanted) (Text.toLower language) with
    | some rest => rest.isEmpty || rest.head? == some '-'
    | none => Bool.false

/-- The elements whose `id` attribute is one of the tokens. -/
def elementsWithId (document : Document) (tokens : List Text) : List Nat :=
  (document.descendants Document.root).filter fun node =>
    (document.attribute? node "id".toList).any tokens.contains

/-- The tokens by which the function `id` looks for elements: of a node-set those of each node. -/
def idTokens (document : Document) : Value → List Text
  | .nodeSet nodes =>
    nodes.flatMap fun node => Text.words isAsciiSpace (document.textContent node)
  | other => Text.words isAsciiSpace (other.textIn document)

/-- The value of a function for the values of its arguments. -/
def CoreFunction.apply (function : CoreFunction) (context : Context) (arguments : List Value) :
    Except Error Value :=
  let document := context.document
  let text := Value.textIn document
  let number := Value.numberIn document
  let own := document.textContent context.node
  match function, arguments with
  | last, [] => .ok (.number (.ofNat context.size))
  | position, [] => .ok (.number (.ofNat context.position))
  | count, [set] => do return .number (.ofNat (← set.nodes).length)
  | id, [tokens] => .ok (.nodeSet (elementsWithId document (idTokens document tokens)))
  | localName, [] => .ok (.string (withoutPrefix ((document.name? context.node).getD [])))
  | localName, [set] => do
    return .string (withoutPrefix (((← set.nodes).head?.bind document.name?).getD []))
  | name, [] => .ok (.string ((document.name? context.node).getD []))
  | name, [set] => do return .string (((← set.nodes).head?.bind document.name?).getD [])
  | namespaceUri, [] => .ok (.string [])
  | namespaceUri, [set] => do let _ ← set.nodes; return .string []
  | string, [] => .ok (.string own)
  | string, [value] => .ok (.string (text value))
  | concat, first :: second :: others =>
    .ok (.string ((first :: second :: others).flatMap text))
  | startsWith, [whole, start] => .ok (.boolean ((text start).isPrefixOf (text whole)))
  | contains, [whole, part] => .ok (.boolean (Text.includes (text part) (text whole)))
  | substringBefore, [whole, part] =>
    .ok (.string (((Text.breakOn? (text part) (text whole)).map (·.1)).getD []))
  | substringAfter, [whole, part] =>
    .ok (.string (((Text.breakOn? (text part) (text whole)).map (·.2)).getD []))
  | substring, [whole, start] =>
    .ok (.string (charsBetween (XPath.round (number start)) (.infinity Bool.false) (text whole)))
  | substring, [whole, start, length] =>
    let first := XPath.round (number start)
    .ok (.string (charsBetween first (first.add (XPath.round (number length))) (text whole)))
  | stringLength, [] => .ok (.number (.ofNat own.length))
  | stringLength, [value] => .ok (.number (.ofNat (text value).length))
  | normalizeSpace, [] => .ok (.string (XPath.normalizeSpace own))
  | normalizeSpace, [value] => .ok (.string (XPath.normalizeSpace (text value)))
  | translate, [value, source, target] =>
    .ok (.string (translateChars (text source) (text target) (text value)))
  | boolean, [value] => .ok (.boolean value.toBoolean)
  | not, [value] => .ok (.boolean !value.toBoolean)
  | true, [] => .ok (.boolean Bool.true)
  | false, [] => .ok (.boolean Bool.false)
  | lang, [wanted] => .ok (.boolean (isLanguage document context.node (text wanted)))
  | CoreFunction.number, [] => .ok (.number (readNumber own))
  | CoreFunction.number, [value] => .ok (.number (number value))
  | sum, [set] => do
    let texts := (← set.nodes).map document.textContent
    return .number (XPath.sum (texts.map readNumber))
  | floor, [value] => .ok (.number (number value).floor)
  | ceiling, [value] => .ok (.number (number value).ceiling)
  | round, [value] => .ok (.number (XPath.round (number value)))
  | function, arguments => .error (.argumentCount function.text function.arity arguments.length)

end XmlSelect.XPath
