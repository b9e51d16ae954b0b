import XmlSelect.Tree.Forest
/-! Nodes in an arena: each has a slot with links to the nodes around it, and is referred to by the
number of its slot. The links are set when a node is appended to the node above it; moving between
nodes only follows them. -/
namespace XmlSelect

/-- What a node is. An element lists its attributes by their numbers. -/
inductive SlotKind
  | document
  | element (name : Text) (attributes : List Nat)
  | attr (self : Attribute)
  | leaf (self : Leaf)
deriving DecidableEq

namespace SlotKind

def isElement : SlotKind → Bool
  | element .. => true
  | _ => false

def isAttribute : SlotKind → Bool
  | attr _ => true
  | _ => false

def attributes : SlotKind → List Nat
  | element _ attributes => attributes
  | _ => []

/-- Lists one more attribute, if the node is an element. -/
def addAttribute (id : Nat) : SlotKind → SlotKind
  | element name attributes => element name (attributes ++ [id])
  | kind => kind

end SlotKind

/-- A node with its links. -/
structure Slot where
  kind : SlotKind
  parent : Option Nat := none
  firstChild : Option Nat := none
  lastChild : Option Nat := none
  nextSibling : Option Nat := none
  previousSibling : Option Nat := none
deriving DecidableEq

structure Arena where
  slots : Array Slot

namespace Arena

/-- The document node alone. It has the number 1; the slot in front of it is no node. -/
def new : Arena := ⟨#[{ kind := .document }, { kind := .document }]⟩

/-- The number of the document node. -/
def root : Nat := 1

def slot? (arena : Arena) (id : Nat) : Option Slot := if id = 0 then none else arena.slots[id]?

/-- The number of the next node. -/
def next (arena : Arena) : Nat := arena.slots.size

def nodeCount (arena : Arena) : Nat := arena.slots.size - 1

/-- A new node, without links. -/
def create (arena : Arena) (kind : SlotKind) : Arena :=
  ⟨arena.slots.push { kind := kind }⟩

def modify (arena : Arena) (id : Nat) (change : Slot → Slot) : Arena :=
  ⟨arena.slots.modify id change⟩

section Links

variable (arena : Arena) (id : Nat)

def kind? : Option SlotKind := (arena.slot? id).map (·.kind)

/-- The node above; for an attribute its element. -/
def parent? : Option Nat := (arena.slot? id).bind (·.parent)

def firstChild? : Option Nat := (arena.slot? id).bind (·.firstChild)

def lastChild? : Option Nat := (arena.slot? id).bind (·.lastChild)

def nextSibling? : Option Nat := (arena.slot? id).bind (·.nextSibling)

def previousSibling? : Option Nat := (arena.slot? id).bind (·.previousSibling)

def isElement : Bool := (arena.kind? id).any SlotKind.isElement

def isAttribute : Bool := (arena.kind? id).any SlotKind.isAttribute

/-- The attributes of an element in source order. -/
def attributeNodes : List Nat := ((arena.kind? id).map SlotKind.attributes).getD []

end Links

/-- Puts a node behind the last child of another one. -/
def append (arena : Arena) (parent child : Nat) : Arena :=
  let arena := arena.modify child fun slot => { slot with parent := some parent }
  match arena.lastChild? parent with
  | some last =>
    let arena := arena.modify last fun slot => { slot with nextSibling := some child }
    let arena := arena.modify child fun slot => { slot with previousSibling := some last }
    arena.modify parent fun slot => { slot with lastChild := some child }
  | none =>
    let arena := arena.modify parent fun slot => { slot with firstChild := some child }
    arena.modify parent fun slot => { slot with lastChild := some child }

/-- A new attribute of an element. It is no child of the element. -/
def addAttribute (arena : Arena) (element : Nat) (self : Attribute) : Arena :=
  let id := arena.next
  let arena := arena.create (.attr self)
  let arena := arena.modify id fun slot => { slot with parent := some element }
  arena.modify element fun slot => { slot with kind := slot.kind.addAttribute id }

section Walks

/-- A node and the siblings behind it, nearest first; each has a greater number. -/
def forward (arena : Arena) (id : Nat) : List Nat :=
  id :: match arena.nextSibling? id with
    | some next =>
      if _further : id < next ∧ next ≤ arena.nodeCount then arena.forward next else []
    | none => []
termination_by arena.nodeCount - id

/-- A node and the siblings in front of it, nearest first; each has a smaller number. -/
def backward (arena : Arena) (id : Nat) : List Nat :=
  id :: match arena.previousSibling? id with
    | some previous => if _further : previous < id then arena.backward previous else []
    | none => []
termination_by id

/-- The siblings behind a node, nearest first. -/
def followingSiblings (arena : Arena) (id : Nat) : List Nat :=
  match arena.nextSibling? id with
  | some next => arena.forward next
  | none => []

/-- The siblings in front of a node, nearest first. -/
def precedingSiblings (arena : Arena) (id : Nat) : List Nat :=
  match arena.previousSibling? id with
  | some previous => arena.backward previous
  | none => []

/-- The child nodes in document order; attributes are no children. -/
def children (arena : Arena) (id : Nat) : List Nat :=
  match arena.firstChild? id with
  | some first => arena.forward first
  | none => []

/-- The nodes above, nearest first; each has a smaller number. -/
def ancestors (arena : Arena) (id : Nat) : List Nat :=
  match arena.parent? id with
  | some parent => if _above : parent < id then parent :: arena.ancestors parent else []
  | none => []
termination_by id

def elementChildren (arena : Arena) (id : Nat) : List Nat :=
  (arena.children id).filter arena.isElement

def firstElementChild? (arena : Arena) (id : Nat) : Option Nat :=
  (arena.children id).find? arena.isElement

/-- The first element from the last child on backward. -/
def lastElementChild? (arena : Arena) (id : Nat) : Option Nat :=
  (arena.lastChild? id).bind fun last => (arena.backward last).find? arena.isElement

/-- The next sibling that is an element. -/
def nextElement? (arena : Arena) (id : Nat) : Option Nat :=
  (arena.followingSiblings id).find? arena.isElement

/-- The nearest sibling in front that is an element. -/
def previousElement? (arena : Arena) (id : Nat) : Option Nat :=
  (arena.precedingSiblings id).find? arena.isElement

end Walks

end Arena

end XmlSelect
