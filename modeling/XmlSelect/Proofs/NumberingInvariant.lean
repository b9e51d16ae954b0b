import Mathlib.Data.List.Basic
import XmlSelect.Tree.Navigation

/-! The numbers of a document are its document order. Siblings are placed in the table of nodes one
subtree after another, and every view of the tree (children, siblings, attributes, parents) follows
from where they are placed. -/
namespace XmlSelect

/-- The numbers of siblings, of which the first one is `next`. -/
def Forest.starts (next : Nat) : Forest → List Nat
  | .nil => []
  | .leaf _ rest => next :: rest.starts (next + 1)
  | .element _ attributes content rest =>
    next :: rest.starts (next + 1 + attributes.length + content.size)

theorem Forest.starts_bounds {next id : Nat} {forest : Forest} (member : id ∈ forest.starts next) :
    next ≤ id ∧ id < next + forest.size := by
  induction forest generalizing next with
  | nil => cases member
  | leaf first rest ih =>
    rcases List.mem_cons.mp member with rfl | member
    · simp [size]
    · have := ih member
      simp only [size]
      omega
  | element name attributes content rest _ ih =>
    rcases List.mem_cons.mp member with rfl | member
    · simp only [size]
      omega
    · have := ih member
      simp only [size]
      omega

theorem Forest.starts_pairwise (next : Nat) (forest : Forest) :
    (forest.starts next).Pairwise (· < ·) := by
  induction forest generalizing next with
  | nil => exact List.Pairwise.nil
  | leaf first rest ih =>
    refine List.pairwise_cons.mpr ⟨fun id member => ?_, ih (next + 1)⟩
    have := (starts_bounds member).1
    omega
  | element name attributes content rest _ ih =>
    refine List.pairwise_cons.mpr ⟨fun id member => ?_, ih _⟩
    have := (starts_bounds member).1
    omega

/-- Where a number is among siblings that start at another one: at one of them, at an attribute of
one, or inside one. -/
inductive Forest.Covers (id : Nat) : Nat → Forest → Prop
  | leaf {self : Leaf} {rest : Forest} : Covers id id (.leaf self rest)
  | afterLeaf {next : Nat} {self : Leaf} {rest : Forest} (further : Covers id (next + 1) rest) :
      Covers id next (.leaf self rest)
  | element {name : Text} {attributes : List Attribute} {content rest : Forest} :
      Covers id id (.element name attributes content rest)
  | attr {next index : Nat} {name : Text} {attributes : List Attribute} {self : Attribute}
      {content rest : Forest} (listed : attributes[index]? = some self)
      (place : id = next + 1 + index) : Covers id next (.element name attributes content rest)
  | inside {next : Nat} {name : Text} {attributes : List Attribute} {content rest : Forest}
      (within : Covers id (next + 1 + attributes.length) content) :
      Covers id next (.element name attributes content rest)
  | afterElement {next : Nat} {name : Text} {attributes : List Attribute} {content rest : Forest}
      (further : Covers id (next + 1 + attributes.length + content.size) rest) :
      Covers id next (.element name attributes content rest)

/-- Siblings take as many numbers as they have nodes, and leave none out. -/
theorem Forest.covers_of_bounds {next id : Nat} {forest : Forest} (first : next ≤ id)
    (last : id < next + forest.size) : forest.Covers id next := by
  induction forest generalizing next with
  | nil => exact absurd last (by simpa [size] using first)
  | leaf self rest ih =>
    simp only [size] at last
    rcases Nat.eq_or_lt_of_le first with rfl | further
    · exact .leaf
    · exact .afterLeaf (ih further (by omega))
  | element name attributes content rest inner outer =>
    simp only [size] at last
    rcases Nat.eq_or_lt_of_le first with rfl | further
    · exact .element
    · by_cases isOwn : id < next + 1 + attributes.length
      · obtain ⟨index, place⟩ := Nat.exists_eq_add_of_le further
        exact .attr (List.getElem?_eq_getElem (by omega)) place
      · by_cases isInside : id < next + 1 + attributes.length + content.size
        · exact .inside (inner (by omega) isInside)
        · exact .afterElement (outer (by omega) (by omega))

namespace Document

variable {document : Document}

/-- The nodes from `next` on, one after another. -/
def Lists (document : Document) (next : Nat) : List Node → Prop
  | [] => True
  | node :: rest => document.node? next = some node ∧ document.Lists (next + 1) rest

theorem lists_append (next : Nat) (front back : List Node) :
    document.Lists next (front ++ back) ↔
      document.Lists next front ∧ document.Lists (next + front.length) back := by
  induction front generalizing next with
  | nil => simp [Lists]
  | cons node rest ih => simp [Lists, ih, and_assoc, Nat.add_assoc, Nat.add_comm 1]

theorem Lists.node?_eq {next index : Nat} {nodes : List Node} {node : Node}
    (lists : document.Lists next nodes) (found : nodes[index]? = some node) :
    document.node? (next + index) = some node := by
  induction nodes generalizing next index with
  | nil => cases found
  | cons first rest ih =>
    cases index with
    | zero => exact lists.1.trans found
    | succ index =>
      rw [← Nat.succ_add_eq_add_succ]
      exact ih lists.2 found

theorem lists_nodes (document : Document) : document.Lists 1 document.content.numbered := by
  have every (before after : List Node) (all : document.content.numbered = before ++ after) :
      document.Lists (before.length + 1) after := by
    induction after generalizing before with
    | nil => trivial
    | cons node rest ih =>
      refine ⟨by simp [node?, document.nodes_eq, all], ?_⟩
      have further := ih (before ++ [node]) (by simp [all])
      rwa [List.length_append, List.length_singleton] at further
  exact every [] _ rfl

/-- The attributes of an element stand behind it, one after another. -/
def PlacesAttributes (document : Document) (element : Nat) (attributes : List Attribute) : Prop :=
  ∀ index self, attributes[index]? = some self →
    document.node? (element + 1 + index) =
      some ⟨.attr self, some element, element + 1 + index, .nil⟩

/-- The nodes from `next` on are those of siblings below `parent`, with all that is inside. -/
def Places (document : Document) (parent : Nat) : (next : Nat) → Forest → Prop
  | _, .nil => True
  | next, .leaf first rest =>
    document.node? next = some ⟨.leaf first, some parent, next, .nil⟩ ∧
      document.Places parent (next + 1) rest
  | next, .element name attributes content rest =>
    document.node? next = some ⟨.element name attributes, some parent,
        next + attributes.length + content.size, content⟩ ∧
      document.PlacesAttributes next attributes ∧
      document.Places next (next + 1 + attributes.length) content ∧
      document.Places parent (next + 1 + attributes.length + content.size) rest

theorem Lists.places {parent next : Nat} {forest : Forest}
    (lists : document.Lists next (forest.nodes parent next)) :
    document.Places parent next forest := by
  induction forest generalizing parent next with
  | nil => trivial
  | leaf first rest ih => exact ⟨lists.1, ih lists.2⟩
  | element name attributes content rest inner outer =>
    rw [Forest.nodes, lists_append, List.cons_append, Lists, lists_append] at lists
    simp only [List.length_cons, List.length_append, List.length_mapIdx,
      Forest.length_nodes] at lists
    obtain ⟨⟨self, own, inside⟩, behind⟩ := lists
    refine ⟨?_, fun index attr found => own.node?_eq (by simp [found]), inner inside, outer ?_⟩
    · rw [self, show next + 1 + attributes.length + content.size - 1 =
        next + attributes.length + content.size by omega]
    · rwa [show next + (attributes.length + content.size + 1) =
        next + 1 + attributes.length + content.size by omega] at behind

theorem node?_root (document : Document) :
    document.node? root = some ⟨.document, none, document.content.size + 1, document.content⟩ :=
  (lists_nodes document).1

theorem places_content (document : Document) : document.Places root 2 document.content :=
  (lists_nodes document).2.places

/-- What the table says of a node is so: its attributes and its content are placed behind it, up to
the last number inside. -/
structure Settled (document : Document) (id : Nat) (node : Node) : Prop where
  attributes : document.PlacesAttributes id node.kind.attributes
  content : document.Places id (id + 1 + node.kind.attributes.length) node.content
  last : node.last = id + node.kind.attributes.length + node.content.size

/-- The numbers of the children of a node, by its place and its content. -/
def childStarts (id : Nat) (node : Node) : List Nat :=
  node.content.starts (id + 1 + node.kind.attributes.length)

/-- How a node is placed under the one above it: as one of the attributes or of the children. -/
inductive Seated (document : Document) (id : Nat) (node : Node) : Prop where
  | attr {above index : Nat} {outer : Node} {self : Attribute}
      (found : document.node? above = some outer)
      (listed : outer.kind.attributes[index]? = some self) (place : id = above + 1 + index)
      (content : node = ⟨.attr self, some above, id, .nil⟩)
  | child {above : Nat} {outer : Node} (found : document.node? above = some outer)
      (listed : id ∈ childStarts above outer) (parent : node.parent = some above)
      (kind : node.kind.isAttribute = false) (below : node.kind ≠ .document)

theorem settled_leaf (id : Nat) (self : Leaf) (above : Option Nat) :
    document.Settled id ⟨.leaf self, above, id, .nil⟩ :=
  ⟨nofun, trivial, rfl⟩

theorem settled_attribute (id : Nat) (self : Attribute) (above : Option Nat) :
    document.Settled id ⟨.attr self, above, id, .nil⟩ :=
  ⟨nofun, trivial, rfl⟩

/-- Each number among placed siblings is a node with its place. The siblings may be the last ones
of those below `parent`. -/
theorem Places.seated {parent next id : Nat} {forest : Forest} {outer : Node}
    (places : document.Places parent next forest) (above : document.node? parent = some outer)
    (listed : ∀ start ∈ forest.starts next, start ∈ childStarts parent outer)
    (covers : forest.Covers id next) :
    ∃ node, document.node? id = some node ∧ document.Settled id node ∧
      document.Seated id node := by
  induction covers generalizing parent outer with
  | leaf =>
    have first := listed _ List.mem_cons_self
    exact ⟨_, places.1, settled_leaf .., .child above first rfl rfl (by simp)⟩
  | afterLeaf _ ih =>
    exact ih places.2 above fun start member => listed start (List.mem_cons_of_mem _ member)
  | element =>
    obtain ⟨here, own, inside, -⟩ := places
    have first := listed _ List.mem_cons_self
    exact ⟨_, here, ⟨own, inside, rfl⟩, .child above first rfl rfl (by simp)⟩
  | attr found place =>
    obtain ⟨here, own, -⟩ := places
    subst place
    exact ⟨_, own _ _ found, settled_attribute .., .attr here found rfl rfl⟩
  | inside _ ih =>
    obtain ⟨here, -, inside, -⟩ := places
    exact ih inside here fun _ member => member
  | afterElement _ ih =>
    exact ih places.2.2.2 above fun start member => listed start (List.mem_cons_of_mem _ member)

theorem Places.parent_of_mem_starts {parent next id : Nat} {forest : Forest}
    (places : document.Places parent next forest) (member : id ∈ forest.starts next) :
    ∃ node, document.node? id = some node ∧ node.parent = some parent ∧
      node.kind.isAttribute = false := by
  induction forest generalizing next with
  | nil => cases member
  | leaf self rest ih =>
    rcases List.mem_cons.mp member with rfl | member
    · exact ⟨_, places.1, rfl, rfl⟩
    · exact ih places.2 member
  | element name attributes content rest _ ih =>
    rcases List.mem_cons.mp member with rfl | member
    · exact ⟨_, places.1, rfl, rfl⟩
    · exact ih places.2.2.2 member

theorem node?_eq_none {id : Nat} (unknown : id = 0 ∨ document.nodeCount < id) :
    document.node? id = none := by
  unfold node?
  split
  · rfl
  · rw [Array.getElem?_eq_none_iff]
    have : document.nodes.size = document.nodeCount := rfl
    omega

/-- A node is the document node or has its place under another node. -/
theorem settled_of_node? {id : Nat} {node : Node} (found : document.node? id = some node) :
    document.Settled id node ∧
      (id = root ∧ node = ⟨.document, none, document.content.size + 1, document.content⟩ ∨
        1 < id ∧ document.Seated id node) := by
  by_cases isRoot : id = root
  · subst isRoot
    rw [node?_root] at found
    cases found
    exact ⟨⟨nofun, places_content document, by simp [root, NodeKind.attributes, Nat.add_comm]⟩,
      .inl ⟨rfl, rfl⟩⟩
  · have known : ¬(id = 0 ∨ document.nodeCount < id) := by
      intro unknown
      rw [node?_eq_none unknown] at found
      cases found
    have count := document.nodeCount_eq
    have above : 1 < id := by
      simp only [root] at isRoot
      omega
    have last : id < 2 + document.content.size := by omega
    obtain ⟨other, same, settled, seated⟩ := (places_content document).seated
      (node?_root document) (fun _ member => member) (Forest.covers_of_bounds above last)
    cases same.symm.trans found
    exact ⟨settled, .inr ⟨above, seated⟩⟩

/-- The nodes are the numbers from one to the count of nodes. -/
theorem isSome_node? (document : Document) (id : Nat) :
    (document.node? id).isSome = true ↔ 1 ≤ id ∧ id ≤ document.nodeCount := by
  constructor
  · intro found
    by_contra unknown
    rw [node?_eq_none (by omega)] at found
    cases found
  · rintro ⟨first, last⟩
    have within : id - 1 < document.nodes.size := by
      have : document.nodes.size = document.nodeCount := rfl
      omega
    simp [node?, Nat.ne_of_gt first, within]

/-- Every node below the document node has its place in the content. -/
theorem covers_of_kind {id : Nat} {kind : NodeKind} (here : document.kind? id = some kind)
    (below : kind ≠ .document) : document.content.Covers id 2 := by
  obtain ⟨node, found, rfl⟩ := Option.map_eq_some_iff.mp here
  have known := (isSome_node? document id).mp (by rw [found]; rfl)
  have count := document.nodeCount_eq
  have other : id ≠ 1 := by
    rintro rfl
    cases (node?_root document).symm.trans found
    exact below rfl
  exact Forest.covers_of_bounds (by omega) (by omega)

theorem Places.leaf_alone {parent next id : Nat} {forest : Forest} {self : Leaf}
    (places : document.Places parent next forest) (covers : forest.Covers id next)
    (kind : document.kind? id = some (.leaf self)) :
    ∃ above, document.node? id = some ⟨.leaf self, some above, id, .nil⟩ := by
  induction covers generalizing parent with
  | leaf =>
    simp only [kind?, places.1, Option.map_some, Option.some.injEq, NodeKind.leaf.injEq] at kind
    exact ⟨parent, kind ▸ places.1⟩
  | afterLeaf _ ih => exact ih places.2
  | element => simp [kind?, places.1] at kind
  | attr found place =>
    subst place
    simp [kind?, places.2.1 _ _ found] at kind
  | inside _ ih => exact ih places.2.2.1
  | afterElement _ ih => exact ih places.2.2.2

/-- A node that can have no children has nothing inside it. -/
theorem leaf_alone {id : Nat} {self : Leaf} (kind : document.kind? id = some (.leaf self)) :
    ∃ above, document.node? id = some ⟨.leaf self, some above, id, .nil⟩ :=
  (places_content document).leaf_alone (covers_of_kind kind (by simp)) kind

theorem attributes_eq {id : Nat} {node : Node} (found : document.node? id = some node) :
    document.attributes id = node.kind.attributes := by
  simp [attributes, kind?, found]

theorem lastInside_eq {id : Nat} {node : Node} (found : document.node? id = some node) :
    document.lastInside id = node.last := by
  simp [lastInside, found]

theorem siblingsFrom_eq {id last : Nat} (within : id ≤ last) :
    document.siblingsFrom id last = id :: document.siblingsFrom (document.skip id) last := by
  rw [siblingsFrom, dif_pos within]

theorem siblingsFrom_eq_nil {id last : Nat} (beyond : last < id) :
    document.siblingsFrom id last = [] := by
  rw [siblingsFrom, dif_neg (by omega)]

theorem head?_siblingsFrom (id last : Nat) :
    (document.siblingsFrom id last).head? = firstFrom? id last := by
  by_cases within : id ≤ last
  · rw [siblingsFrom_eq within, firstFrom?, if_pos within]
    rfl
  · rw [siblingsFrom_eq_nil (by omega), firstFrom?, if_neg within]
    rfl

theorem firstChild?_eq_head? (document : Document) (id : Nat) :
    document.firstChild? id = (document.children id).head? :=
  (head?_siblingsFrom ..).symm

theorem nextSibling?_eq_head? (document : Document) (id : Nat) :
    document.nextSibling? id = (document.followingSiblings id).head? := by
  rw [nextSibling?, followingSiblings]
  split
  · split
    · rfl
    · exact (head?_siblingsFrom ..).symm
  · rfl

/-- Going from sibling to sibling passes over what is inside each. -/
theorem Places.siblingsFrom_eq_starts {parent next last : Nat} {forest : Forest}
    (places : document.Places parent next forest) (all : last + 1 = next + forest.size) :
    document.siblingsFrom next last = forest.starts next := by
  induction forest generalizing next with
  | nil => exact siblingsFrom_eq_nil (by rw [Forest.size] at all; omega)
  | leaf self rest ih =>
    simp only [Forest.size] at all
    have skipped : document.skip next = next + 1 := by
      simp [skip, lastInside_eq places.1]
    rw [siblingsFrom_eq (by omega), skipped, ih places.2 (by omega), Forest.starts]
  | element name attributes content rest _ ih =>
    simp only [Forest.size] at all
    have skipped : document.skip next = next + 1 + attributes.length + content.size := by
      simp only [skip, lastInside_eq places.1]
      omega
    rw [siblingsFrom_eq (by omega), skipped, ih places.2.2.2 (by omega), Forest.starts]

/-- The children of a node are the siblings that its content lists. -/
theorem children_eq {id : Nat} {node : Node} (found : document.node? id = some node) :
    document.children id = childStarts id node := by
  obtain ⟨settled, -⟩ := settled_of_node? found
  rw [children, attributes_eq found, lastInside_eq found]
  refine settled.content.siblingsFrom_eq_starts ?_
  rw [settled.last]
  omega

theorem children_eq_nil {id : Nat} (unknown : document.node? id = none) :
    document.children id = [] := by
  simp [children, attributes, kind?, lastInside, unknown, siblingsFrom_eq_nil]

theorem children_pairwise (document : Document) (id : Nat) :
    (document.children id).Pairwise (· < ·) := by
  cases found : document.node? id with
  | none =>
    rw [children_eq_nil found]
    exact List.Pairwise.nil
  | some node =>
    rw [children_eq found]
    exact Forest.starts_pairwise ..

/-- The children of a node are the nodes below it, attributes apart. -/
theorem mem_children_iff (document : Document) (parent id : Nat) :
    id ∈ document.children parent ↔
      document.parent? id = some parent ∧ document.isAttribute id = false := by
  constructor
  · intro member
    cases found : document.node? parent with
    | none => simp [children_eq_nil found] at member
    | some outer =>
      rw [children_eq found] at member
      obtain ⟨settled, -⟩ := settled_of_node? found
      obtain ⟨node, here, above, kind⟩ := settled.content.parent_of_mem_starts member
      simp [parent?, isAttribute, kind?, here, above, kind]
  · rintro ⟨above, kind⟩
    obtain ⟨node, found, below⟩ := Option.bind_eq_some_iff.mp above
    rcases (settled_of_node? found).2 with ⟨rfl, rfl⟩ | ⟨-, seated⟩
    · cases below
    · cases seated with
      | attr _ _ _ content =>
        simp [isAttribute, kind?, found, content, NodeKind.isAttribute] at kind
      | child outer listed parent _ _ =>
        cases below.symm.trans parent
        rwa [children_eq outer]

/-- A node has a smaller number than what is below it. -/
theorem parent?_lt {id parent : Nat} (above : document.parent? id = some parent) :
    1 ≤ parent ∧ parent < id := by
  obtain ⟨node, found, below⟩ := Option.bind_eq_some_iff.mp above
  have known {other : Nat} {outer : Node} (outerFound : document.node? other = some outer) :
      1 ≤ other := by
    exact ((isSome_node? document other).mp (by rw [outerFound]; rfl)).1
  rcases (settled_of_node? found).2 with ⟨rfl, rfl⟩ | ⟨-, seated⟩
  · cases below
  · cases seated with
    | attr outer _ place content =>
      subst content
      cases below
      exact ⟨known outer, by omega⟩
    | child outer listed parent _ _ =>
      cases below.symm.trans parent
      have := (Forest.starts_bounds listed).1
      exact ⟨known outer, by omega⟩

end Document

end XmlSelect
