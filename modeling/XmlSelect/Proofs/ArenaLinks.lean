import Mathlib.Data.List.Induction
import XmlSelect.Proofs.ArenaGrowth
import XmlSelect.Proofs.DocumentOrder

/-! The arena that the content of a document grows into has the nodes of the document, and each link
that is stored in it leads where the intervals of numbers say. -/
namespace XmlSelect

/-- What a slot says of the node with a number; the attributes of an element follow it. -/
def NodeKind.inSlot (id : Nat) : NodeKind → SlotKind
  | .document => .document
  | .element name attributes => .element name (List.range' (id + 1) attributes.length)
  | .attr self => .attr self
  | .leaf self => .leaf self

namespace Document

variable {document : Document}

/-- The arena with the nodes of a document, appended one after another. -/
def arena (document : Document) : Arena := Arena.new.appendForest Arena.root document.content

/-- A node with the links that its place in the document gives it. -/
def linked (document : Document) (id : Nat) (node : Node) : Slot where
  kind := node.kind.inSlot id
  parent := node.parent
  firstChild := document.firstChild? id
  lastChild := document.lastChild? id
  nextSibling := document.nextSibling? id
  previousSibling := document.previousSibling? id

section Placed

variable {arena : Arena} {parent next id : Nat} {previous : Option Nat} {forest : Forest}

theorem linked_child {node : Node} {front back : List Nat}
    (found : document.node? id = some node)
    (split : document.children parent = front ++ id :: back) :
    document.linked id node =
      { kind := node.kind.inSlot id, parent := some parent,
        firstChild := (childStarts id node).head?, lastChild := (childStarts id node).getLast?,
        nextSibling := back.head?, previousSibling := front.getLast? } := by
  obtain ⟨above, -⟩ := child_of_append split
  rw [parent?, found] at above
  rw [linked, firstChild?_eq_head?, lastChild?, children_eq found, nextSibling?_eq_head?,
    followingSiblings_eq split, previousSibling?, precedingSiblings_eq split, List.head?_reverse]
  simpa using above

theorem linked_attribute {self : Attribute} {element : Nat}
    (found : document.node? id = some ⟨.attr self, some element, id, .nil⟩) :
    document.linked id ⟨.attr self, some element, id, .nil⟩ =
      { kind := .attr self, parent := some element } := by
  have own : document.isAttribute id = true := by
    rw [isAttribute, kind?, found]
    rfl
  obtain ⟨children, following, preceding⟩ := attribute_alone own
  simp [linked, firstChild?_eq_head?, lastChild?, nextSibling?_eq_head?, previousSibling?, children,
    following, preceding, NodeKind.inSlot]

/-- Slots of siblings are those of the nodes with the same numbers. -/
theorem slot?_of_holds {front : List Nat} (covers : forest.Covers id next)
    (holds : arena.Holds parent next front.getLast? forest)
    (places : document.Places parent next forest)
    (split : document.children parent = front ++ forest.starts next) :
    arena.slot? id = (document.node? id).map (document.linked id) := by
  induction covers generalizing parent front with
  | leaf =>
    rw [holds.1, places.1, Option.map_some, linked_child places.1 split]
    rfl
  | @afterLeaf next _ _ _ ih =>
    refine @ih parent (front ++ [next]) ?_ places.2 ?_
    · simpa using holds.2
    · simpa [Forest.starts] using split
  | element =>
    rw [holds.1, places.1, Option.map_some, linked_child places.1 split]
    rfl
  | attr found place =>
    subst place
    have here := places.2.1 _ _ found
    rw [holds.2.1 _ _ found, here, Option.map_some, linked_attribute here]
  | @inside next _ _ _ _ _ ih =>
    obtain ⟨here, -, inside, -⟩ := places
    exact @ih next [] holds.2.2.1 inside (children_eq here)
  | @afterElement next _ _ _ _ _ ih =>
    refine @ih parent (front ++ [next]) ?_ places.2.2.2 ?_
    · simpa using holds.2.2.2
    · simpa [Forest.starts] using split

end Placed

theorem open_new : Arena.new.Open Arena.root where
  positive := by decide
  known := by decide
  last := by decide
  ends := by decide

theorem next_arena (document : Document) : document.arena.next = document.content.size + 2 := by
  rw [arena, Arena.next_appendForest]
  exact Nat.add_comm _ _

theorem nodeCount_arena (document : Document) : document.arena.nodeCount = document.nodeCount := by
  have next := document.next_arena
  rw [Arena.next] at next
  rw [Arena.nodeCount, nodeCount_eq, next]
  rfl

/-- The slots of the arena are the nodes of the document with their links. -/
theorem slot?_arena (document : Document) (id : Nat) :
    document.arena.slot? id = (document.node? id).map (document.linked id) := by
  obtain ⟨grown, placed⟩ := Arena.grown_appendForest open_new document.content
  have holds : document.arena.Holds root 2 ([] : List Nat).getLast? document.content := placed
  by_cases isRoot : id = root
  · subst isRoot
    have here := node?_root document
    have above : document.parent? root = none := by
      rw [parent?, here]
      rfl
    have slot := grown.above
    rw [here, Option.map_some, linked, firstChild?_eq_head?, lastChild?, children_eq here,
      nextSibling?, previousSibling?, precedingSiblings, above]
    refine slot.trans ?_
    simp [Arena.new, Arena.slot?, Arena.root, Slot.adopt, childStarts, NodeKind.attributes,
      NodeKind.inSlot, root, Arena.next]
  · by_cases known : 1 < id ∧ id < 2 + document.content.size
    · exact slot?_of_holds (Forest.covers_of_bounds known.1 known.2) holds
        (places_content document) (children_eq (node?_root document))
    · have count := document.nodeCount_eq
      simp only [root] at isRoot
      rw [node?_eq_none (by omega), Option.map_none]
      by_cases zero : id = 0
      · simp [Arena.slot?, zero]
      · exact Arena.slot?_eq_none (by rw [next_arena]; omega)

section Links

variable (document : Document) (id : Nat)

/-- A link of the arena leads where the document says, if it says nothing of unknown nodes. -/
theorem link_arena {link : Slot → Option Nat} {view : Nat → Option Nat}
    (same : ∀ node, document.node? id = some node → link (document.linked id node) = view id)
    (unknown : document.node? id = none → view id = none) :
    (document.arena.slot? id).bind link = view id := by
  rw [slot?_arena]
  cases found : document.node? id with
  | none => exact (unknown found).symm
  | some node => exact same node found

theorem parent?_arena : document.arena.parent? id = document.parent? id := by
  rw [Arena.parent?, slot?_arena, parent?]
  cases document.node? id <;> rfl

theorem firstChild?_arena : document.arena.firstChild? id = document.firstChild? id :=
  link_arena document id (fun _ _ => rfl) fun unknown => by
    rw [firstChild?_eq_head?, children_eq_nil unknown]
    rfl

theorem lastChild?_arena : document.arena.lastChild? id = document.lastChild? id :=
  link_arena document id (fun _ _ => rfl) fun unknown => by
    rw [lastChild?, children_eq_nil unknown]
    rfl

theorem nextSibling?_arena : document.arena.nextSibling? id = document.nextSibling? id :=
  link_arena document id (fun _ _ => rfl) fun unknown => by
    rw [nextSibling?, parent?, unknown]
    rfl

theorem previousSibling?_arena :
    document.arena.previousSibling? id = document.previousSibling? id :=
  link_arena document id (fun _ _ => rfl) fun unknown => by
    rw [previousSibling?, precedingSiblings, parent?, unknown]
    rfl

theorem kind?_arena :
    document.arena.kind? id = (document.kind? id).map (NodeKind.inSlot id) := by
  rw [Arena.kind?, slot?_arena, kind?]
  cases document.node? id <;> rfl

theorem isElement_arena : document.arena.isElement id = document.isElement id := by
  rw [Arena.isElement, kind?_arena, isElement]
  rcases document.kind? id with _ | _ | _ | _ | _ <;> rfl

theorem isAttribute_arena : document.arena.isAttribute id = document.isAttribute id := by
  rw [Arena.isAttribute, kind?_arena, isAttribute]
  rcases document.kind? id with _ | _ | _ | _ | _ <;> rfl

theorem attributeNodes_arena : document.arena.attributeNodes id = document.attributeNodes id := by
  rw [Arena.attributeNodes, kind?_arena, attributeNodes, attributes]
  rcases document.kind? id with _ | _ | _ | _ | _ <;> rfl

end Links

section Walks

variable {parent id : Nat} {front back : List Nat}

/-- From a child on forward the walk passes the children behind it, and is never cut off. -/
theorem forward_arena (split : document.children parent = front ++ id :: back) :
    document.arena.forward id = id :: back := by
  induction back generalizing front id with
  | nil =>
    rw [Arena.forward, nextSibling?_arena, nextSibling?_eq_head?, followingSiblings_eq split]
    rfl
  | cons next rest ih =>
    have split' : document.children parent = (front ++ [id]) ++ next :: rest := by simp [split]
    have ordered := document.children_pairwise parent
    rw [split, List.pairwise_append, List.pairwise_cons] at ordered
    have further := ordered.2.1.1 next List.mem_cons_self
    have known := (child_bounds (show next ∈ document.children parent by simp [split])).2
    rw [Arena.forward, nextSibling?_arena, nextSibling?_eq_head?, followingSiblings_eq split]
    simp only [List.head?_cons, nodeCount_arena, further, known, and_self, dite_true, ih split']

/-- From a child on backward the walk passes the children in front of it, nearest first. -/
theorem backward_arena (split : document.children parent = front ++ id :: back) :
    document.arena.backward id = id :: front.reverse := by
  induction front using List.reverseRecOn generalizing back id with
  | nil =>
    rw [Arena.backward, previousSibling?_arena, previousSibling?, precedingSiblings_eq split]
    rfl
  | append_singleton front previous ih =>
    have split' : document.children parent = front ++ previous :: id :: back := by simp [split]
    have ordered := document.children_pairwise parent
    rw [split, List.pairwise_append] at ordered
    have nearer := ordered.2.2 previous (by simp) id List.mem_cons_self
    rw [Arena.backward, previousSibling?_arena, previousSibling?, precedingSiblings_eq split]
    simp [nearer, ih split']

theorem children_arena (document : Document) (id : Nat) :
    document.arena.children id = document.children id := by
  rw [Arena.children, firstChild?_arena, firstChild?_eq_head?]
  cases listed : document.children id with
  | nil => rfl
  | cons first rest => exact forward_arena (show _ = [] ++ first :: rest from listed)

theorem followingSiblings_arena (document : Document) (id : Nat) :
    document.arena.followingSiblings id = document.followingSiblings id := by
  rw [Arena.followingSiblings, nextSibling?_arena, nextSibling?_eq_head?]
  by_cases none : document.followingSiblings id = []
  · rw [none]
    rfl
  · obtain ⟨parent, front, split⟩ := exists_children_following none
    cases behind : document.followingSiblings id with
    | nil => exact absurd behind none
    | cons next rest =>
      rw [behind, List.append_cons] at split
      exact forward_arena split

theorem precedingSiblings_arena (document : Document) (id : Nat) :
    document.arena.precedingSiblings id = document.precedingSiblings id := by
  rw [Arena.precedingSiblings, previousSibling?_arena, previousSibling?]
  by_cases none : document.precedingSiblings id = []
  · rw [none]
    rfl
  · obtain ⟨parent, back, split⟩ := exists_children_preceding none
    cases before : document.precedingSiblings id with
    | nil => exact absurd before none
    | cons previous rest =>
      rw [before, List.reverse_cons, ← List.append_cons] at split
      have walked := backward_arena split
      rwa [List.reverse_reverse] at walked

/-- The walk from the last child backward comes to the last element first. -/
theorem lastElementChild?_arena (document : Document) (id : Nat) :
    document.arena.lastElementChild? id = document.lastElementChild? id := by
  rw [Arena.lastElementChild?, lastChild?_arena, lastChild?, lastElementChild?,
    funext document.isElement_arena]
  cases listed : document.children id using List.reverseRecOn with
  | nil => rfl
  | append_singleton front last =>
    rw [List.getLast?_concat, Option.bind_some, backward_arena listed, List.reverse_append]
    rfl

theorem ancestors_arena (document : Document) (id : Nat) :
    document.arena.ancestors id = document.ancestors id := by
  induction id using Nat.strongRecOn with
  | ind id ih =>
    rw [Arena.ancestors, ancestors, parent?_arena]
    cases above : document.parent? id with
    | none => rfl
    | some parent =>
      have lower := (parent?_lt above).2
      simp [lower, ih parent lower]

end Walks

end Document

end XmlSelect
