import XmlSelect.Tree.Document
/-! Moving between the nodes of a document. Numbers are document order, so that a subtree is an
interval of numbers: a node, its attributes, and what is inside. -/
namespace XmlSelect.Document

/-- The node above; for an attribute its element. -/
def parent? (document : Document) (id : Nat) : Option Nat :=
  (document.node? id).bind (·.parent)

/-- The last number inside a node. -/
def lastInside (document : Document) (id : Nat) : Nat :=
  ((document.node? id).map (·.last)).getD id

/-- The number behind a node and all that is inside it. -/
def skip (document : Document) (id : Nat) : Nat := max id (document.lastInside id) + 1

/-- The nodes from `id` to `last`, leaving out what is inside each. -/
def siblingsFrom (document : Document) (id last : Nat) : List Nat :=
  if _within : id ≤ last then id :: document.siblingsFrom (document.skip id) last else []
termination_by last + 1 - id
decreasing_by simp only [skip]; omega

/-- The child nodes in document order; attributes are no children. -/
def children (document : Document) (id : Nat) : List Nat :=
  document.siblingsFrom (id + 1 + (document.attributes id).length) (document.lastInside id)

/-- The first of the nodes from `id` to `last`, if there are any. -/
def firstFrom? (id last : Nat) : Option Nat := if id ≤ last then some id else none

def firstChild? (document : Document) (id : Nat) : Option Nat :=
  firstFrom? (id + 1 + (document.attributes id).length) (document.lastInside id)

def lastChild? (document : Document) (id : Nat) : Option Nat :=
  (document.children id).getLast?

/-- The siblings behind a node, nearest first. Attributes have none. -/
def followingSiblings (document : Document) (id : Nat) : List Nat :=
  match document.parent? id with
  | some parent =>
    if document.isAttribute id then []
    else document.siblingsFrom (document.skip id) (document.lastInside parent)
  | none => []

/-- The siblings in front of a node, nearest first. Attributes have none. -/
def precedingSiblings (document : Document) (id : Nat) : List Nat :=
  match document.parent? id with
  | some parent =>
    if document.isAttribute id then []
    else ((document.children parent).takeWhile (· < id)).reverse
  | none => []

def nextSibling? (document : Document) (id : Nat) : Option Nat :=
  match document.parent? id with
  | some parent =>
    if document.isAttribute id then none
    else firstFrom? (document.skip id) (document.lastInside parent)
  | none => none

def previousSibling? (document : Document) (id : Nat) : Option Nat :=
  (document.precedingSiblings id).head?

/-- The nodes above, nearest first; each has a smaller number. -/
def ancestors (document : Document) (id : Nat) : List Nat :=
  match document.parent? id with
  | some parent => if _above : parent < id then parent :: document.ancestors parent else []
  | none => []
termination_by id

/-- The nodes with numbers above `after` and up to `last` that are no attributes. -/
def nodesBetween (document : Document) (after last : Nat) : List Nat :=
  (List.range' (after + 1) (last - after)).filter fun id => !document.isAttribute id

/-- Where a walk over everything inside `top` goes on that is done with what is inside `id`: at the
next sibling, or where it goes on when it is done with the node above. At `top` it ends. -/
def climb? (document : Document) (top id : Nat) : Option Nat :=
  if id = top then none
  else match document.nextSibling? id with
    | some sibling => some sibling
    | none =>
      match document.parent? id with
      | some parent => if _above : parent < id then document.climb? top parent else none
      | none => none
termination_by id

/-- The node behind `id` in a walk over everything inside `top`: its first child if it has one. -/
def nextInside? (document : Document) (top id : Nat) : Option Nat :=
  match document.firstChild? id with
  | some child => some child
  | none => document.climb? top id

/-- A walk over everything inside `top`, from `id` on; each node has a greater number than the one
before it. -/
def walkFrom (document : Document) (top id : Nat) : List Nat :=
  id :: match document.nextInside? top id with
    | some next =>
      if _further : id < next ∧ next ≤ document.nodeCount then document.walkFrom top next else []
    | none => []
termination_by document.nodeCount - id

/-- All nodes inside a node, depth first, attributes apart. -/
def descendants (document : Document) (id : Nat) : List Nat :=
  match document.firstChild? id with
  | some child => document.walkFrom id child
  | none => []

/-- All nodes behind the end of a node in document order, attributes apart. For an attribute these
are the content of its element and what is behind the element. -/
def following (document : Document) (id : Nat) : List Nat :=
  document.nodesBetween (document.lastInside id) document.nodeCount

/-- Whether a node is inside another one. -/
def surrounds (document : Document) (outer inner : Nat) : Bool :=
  outer < inner && inner ≤ document.lastInside outer

/-- The nodes that come before a node in a walk over everything inside the document and are not
around it, nearest first. An attribute is placed at its element. The walk never comes to the
document node itself, so that all nodes count as in front of it. -/
def preceding (document : Document) (id : Nat) : List Nat :=
  let anchor := if document.isAttribute id then (document.parent? id).getD id else id
  let before := (document.descendants root).takeWhile (· != anchor)
  (before.filter fun other => !document.surrounds other anchor).reverse

/-- The attributes of an element in source order. -/
def attributeNodes (document : Document) (id : Nat) : List Nat :=
  List.range' (id + 1) (document.attributes id).length

/-- The one element at the top, if there is one. -/
def rootElement? (document : Document) : Option Nat :=
  (document.children root).find? document.isElement

def elementChildren (document : Document) (id : Nat) : List Nat :=
  (document.children id).filter document.isElement

def firstElementChild? (document : Document) (id : Nat) : Option Nat :=
  (document.children id).find? document.isElement

def lastElementChild? (document : Document) (id : Nat) : Option Nat :=
  (document.children id).reverse.find? document.isElement

/-- The next sibling that is an element. -/
def nextElement? (document : Document) (id : Nat) : Option Nat :=
  (document.followingSiblings id).find? document.isElement

/-- The nearest sibling in front that is an element. -/
def previousElement? (document : Document) (id : Nat) : Option Nat :=
  (document.precedingSiblings id).find? document.isElement

end XmlSelect.Document
