import XmlSelect.Text.CharClass
import XmlSelect.Tree.Forest
/-! Documents with their nodes numbered in document order: the document node is 1, and an element
is followed by its attributes and then by its content. A node is referred to by its number. -/
namespace XmlSelect

/-- What a node is, apart from its place. -/
inductive NodeKind
  | document
  | element (name : Text) (attributes : List Attribute)
  | attr (self : Attribute)
  | leaf (self : Leaf)
deriving DecidableEq

/-- A node with its place: the node above it, the last number inside it, and what is below it. -/
structure Node where
  kind : NodeKind
  parent : Option Nat
  last : Nat
  content : Forest
deriving DecidableEq

namespace NodeKind

def typeName : NodeKind → Text
  | document => "document".toList
  | element .. => "element".toList
  | attr _ => "attribute".toList
  | leaf (.text _) => "text".toList
  | leaf (.cdata _) => "cdata".toList
  | leaf (.comment _) => "comment".toList
  | leaf (.instruction ..) => "processing-instruction".toList
  | leaf (.doctype ..) => "doctype".toList

def isElement : NodeKind → Bool
  | element .. => true
  | _ => false

def isAttribute : NodeKind → Bool
  | attr _ => true
  | _ => false

/-- Whether a node is character data. -/
def isText : NodeKind → Bool
  | leaf self => self.isText
  | _ => false

def isComment : NodeKind → Bool
  | leaf (.comment _) => true
  | _ => false

def isInstruction : NodeKind → Bool
  | leaf (.instruction ..) => true
  | _ => false

/-- The name of an element or attribute, the target of an instruction. -/
def name? : NodeKind → Option Text
  | element name _ => some name
  | attr self => some self.name
  | leaf (.instruction target _) => some target
  | _ => none

/-- The text that a node holds itself. -/
def ownText? : NodeKind → Option Text
  | attr self => some self.value
  | leaf (.text content) | leaf (.cdata content) | leaf (.comment content) => some content
  | leaf (.instruction _ data) => data
  | _ => none

def attributes : NodeKind → List Attribute
  | element _ attributes => attributes
  | _ => []

end NodeKind

/-- The nodes of siblings below `parent`, numbered from `next` on. -/
def Forest.nodes (parent next : Nat) : Forest → List Node
  | .nil => []
  | .leaf first rest =>
    ⟨.leaf first, some parent, next, .nil⟩ :: rest.nodes parent (next + 1)
  | .element name attributes content rest =>
    let inside := next + 1 + attributes.length
    let after := inside + content.size
    ⟨.element name attributes, some parent, after - 1, content⟩ ::
      (attributes.mapIdx fun index self =>
        ⟨.attr self, some next, next + 1 + index, .nil⟩) ++
      content.nodes next inside ++ rest.nodes parent after

/-- Each node has one number. -/
theorem Forest.length_nodes (parent next : Nat) (forest : Forest) :
    (forest.nodes parent next).length = forest.size := by
  induction forest generalizing parent next with
  | nil => rfl
  | leaf first rest ih => simp [nodes, size, ih]
  | element name attributes content rest inner outer =>
    simp [nodes, size, inner, outer]
    omega

/-- The declaration at the start of a document. -/
structure Declaration where
  version : Text
  encoding : Option Text
  standalone : Option Bool
deriving DecidableEq

/-- All nodes of a document by number, the document node first. -/
def Forest.numbered (content : Forest) : List Node :=
  ⟨.document, none, content.size + 1, content⟩ :: content.nodes 1 2

/-- A document and the table of its nodes. -/
structure Document where
  declaration : Option Declaration
  content : Forest
  nodes : Array Node
  nodes_eq : nodes = content.numbered.toArray

namespace Document

def ofForest (declaration : Option Declaration) (content : Forest) : Document :=
  ⟨declaration, content, content.numbered.toArray, rfl⟩

/-- The number of the document node. -/
def root : Nat := 1

def node? (document : Document) (id : Nat) : Option Node :=
  if id = 0 then none else document.nodes[id - 1]?

/-- How many nodes there are, attributes included; it is the greatest number. -/
def nodeCount (document : Document) : Nat := document.nodes.size

theorem nodeCount_eq (document : Document) :
    document.nodeCount = document.content.size + 1 := by
  simp [nodeCount, document.nodes_eq, Forest.numbered, Forest.length_nodes]

def kind? (document : Document) (id : Nat) : Option NodeKind := (document.node? id).map (·.kind)

def isElement (document : Document) (id : Nat) : Bool :=
  (document.kind? id).any NodeKind.isElement

def isAttribute (document : Document) (id : Nat) : Bool :=
  (document.kind? id).any NodeKind.isAttribute

def isText (document : Document) (id : Nat) : Bool := (document.kind? id).any NodeKind.isText

/-- The name of an element or attribute, the target of an instruction. -/
def name? (document : Document) (id : Nat) : Option Text :=
  (document.kind? id).bind NodeKind.name?

/-- The text that a node holds itself. -/
def ownText? (document : Document) (id : Nat) : Option Text :=
  (document.kind? id).bind NodeKind.ownText?

def attributes (document : Document) (id : Nat) : List Attribute :=
  ((document.kind? id).map NodeKind.attributes).getD []

/-- The value of an attribute of an element. -/
def attribute? (document : Document) (id : Nat) (name : Text) : Option Text :=
  ((document.attributes id).find? (·.name == name)).map (·.value)

/-- The text of a node: for elements and the document all character data inside, else its own. -/
def textContent (document : Document) (id : Nat) : Text :=
  match document.node? id with
  | some ⟨.document, _, _, content⟩ | some ⟨.element .., _, _, content⟩ => content.text
  | some node => node.kind.ownText?.getD []
  | none => []

/-- The texts of some nodes one after another. -/
def textContents (document : Document) (nodes : List Nat) : Text :=
  nodes.flatMap document.textContent

/-- Whether a node is character data made of blanks alone. -/
def isBlank (document : Document) (id : Nat) : Bool :=
  document.isText id && (document.ownText? id).all fun text =>
    text.all XmlSelect.isBlank

end Document

end XmlSelect
