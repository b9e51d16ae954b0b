import XmlSelect.Tree.Document
/-! Writing documents and parts of them. -/
namespace XmlSelect.Markup

/-- How a document is written. With `indent`, elements without character data among their children
have each child on a line of its own. -/
structure Style where
  indent : Bool := false
  indentText : Text := [' ', ' ']
  declaration : Bool := true

/-- A character of running text; a carriage return would be read as a line feed. -/
def escapeText (c : Char) : Text :=
  match c with
  | '&' => "&amp;".toList
  | '<' => "&lt;".toList
  | '>' => "&gt;".toList
  | '\r' => "&#13;".toList
  | c => [c]

/-- A character of an attribute value between double quotes; blanks would be read as spaces. -/
def escapeAttribute (c : Char) : Text :=
  match c with
  | '"' => "&quot;".toList
  | '\n' => "&#10;".toList
  | '\t' => "&#9;".toList
  | c => escapeText c

def printAttribute (self : Attribute) : Text :=
  self.name ++ ['=', '"'] ++ self.value.flatMap escapeAttribute ++ ['"']

/-- The identifiers of a document type declaration. -/
def printIdentifiers : Option Text → Option Text → Text
  | some system, some publicId =>
    " PUBLIC \"".toList ++ publicId ++ "\" \"".toList ++ system ++ ['"']
  | some system, none => " SYSTEM \"".toList ++ system ++ ['"']
  | none, _ => []

def printLeaf : Leaf → Text
  | .text content => content.flatMap escapeText
  | .cdata content => "<![CDATA[".toList ++ content ++ "]]>".toList
  | .comment content => "<!--".toList ++ content ++ "-->".toList
  | .instruction target none => "<?".toList ++ target ++ "?>".toList
  | .instruction target (some data) => "<?".toList ++ target ++ ' ' :: data ++ "?>".toList
  | .doctype name system publicId =>
    "<!DOCTYPE ".toList ++ name ++ printIdentifiers system publicId ++ ['>']

/-- A line end and the indentation of a level. -/
def newLine (style : Style) (depth : Nat) : Text :=
  '\n' :: (List.replicate depth style.indentText).flatten

/-- Siblings on one level, with `gap` in front of each. -/
def printForest (style : Style) (depth : Nat) (gap : Text) : Forest → Text
  | .nil => []
  | .leaf first rest => gap ++ printLeaf first ++ printForest style depth gap rest
  | .element name attributes content rest =>
    let tag := name ++ attributes.flatMap fun self => ' ' :: printAttribute self
    let whole :=
      if content.isEmpty then '<' :: tag ++ ['/', '>']
      else
        let pretty := style.indent && !content.holdsText
        let inner := if pretty then newLine style (depth + 1) else []
        let closing := if pretty then newLine style depth else []
        '<' :: tag ++ '>' :: printForest style (depth + 1) inner content ++ closing ++
          '<' :: '/' :: name ++ ['>']
    gap ++ whole ++ printForest style depth gap rest

/-- The declaration of a document; a document without one gets version 1.0. -/
def printDeclaration (declaration : Option Declaration) : Text :=
  let version := (declaration.map (·.version)).getD "1.0".toList
  let encoding := match declaration.bind (·.encoding) with
    | some encoding => " encoding=\"".toList ++ encoding ++ ['"']
    | none => []
  let standalone := match declaration.bind (·.standalone) with
    | some standalone =>
      " standalone=\"".toList ++ (if standalone then "yes" else "no").toList ++ ['"']
    | none => []
  "<?xml version=\"".toList ++ version ++ ['"'] ++ encoding ++ standalone ++ "?>\n".toList

/-- The nodes at the top of a document, each with a line end behind it. -/
def printTop (style : Style) : Forest → Text
  | .nil => []
  | .leaf first rest => printLeaf first ++ '\n' :: printTop style rest
  | .element name attributes content rest =>
    printForest style 0 [] (.element name attributes content .nil) ++ '\n' :: printTop style rest

/-- A whole document. -/
def print (style : Style) (document : Document) : Text :=
  (if style.declaration then printDeclaration document.declaration else []) ++
    printTop style document.content

/-- The children of a node without anything between them. -/
def printContent (document : Document) (id : Nat) : Text :=
  ((document.node? id).map fun node => printForest {} 0 [] node.content).getD []

/-- The children of some nodes one after another. -/
def printContents (document : Document) (nodes : List Nat) : Text :=
  nodes.flatMap (printContent document)

/-- A node with what is inside it; the document node is its children. -/
def printNode (document : Document) (id : Nat) : Text :=
  match document.node? id with
  | none => []
  | some node => match node.kind with
    | .document => printForest {} 0 [] node.content
    | .element name attributes => printForest {} 0 [] (.element name attributes node.content .nil)
    | .attr self => printAttribute self
    | .leaf self => printLeaf self

end XmlSelect.Markup
