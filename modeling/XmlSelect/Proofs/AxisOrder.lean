import XmlSelect.Proofs.AxisPartition
import XmlSelect.Proofs.DocumentOrder

/-! The order of the axes. Going from sibling to sibling, and through what is inside each, passes an
interval of numbers; so every axis goes through the document in one direction and comes to no node
twice. -/
namespace XmlSelect

namespace Document

variable {document : Document}

section Walks

/-- A node with all that is inside it, attributes apart. -/
def branch (document : Document) (id : Nat) : List Nat := id :: document.descendants id

theorem branch_eq {after : Nat} (kind : document.isAttribute (after + 1) = false) :
    document.branch (after + 1) =
      document.nodesBetween after (document.lastInside (after + 1)) := by
  have last := document.le_lastInside (after + 1)
  have alone : document.nodesBetween after (after + 1) = [after + 1] := by
    simp [nodesBetween, kind]
  rw [branch, descendants_eq, ← nodesBetween_append (Nat.le_succ after) last, alone,
    List.singleton_append]

/-- The walks over siblings pass what is between the first of them and the end of the last. -/
theorem flatMap_branch_siblingsFrom {after last : Nat} (start : after ≤ last)
    (inside : ∀ id ∈ document.siblingsFrom (after + 1) last,
      document.isAttribute id = false ∧ document.lastInside id ≤ last) :
    (document.siblingsFrom (after + 1) last).flatMap document.branch =
      document.nodesBetween after last := by
  induction rest : last - after using Nat.strongRecOn generalizing after with
  | ind length ih =>
    by_cases within : after + 1 ≤ last
    · have behind : document.skip (after + 1) = document.lastInside (after + 1) + 1 := by
        rw [skip, Nat.max_eq_right (le_lastInside ..)]
      rw [siblingsFrom_eq within, behind, List.forall_mem_cons] at inside
      obtain ⟨⟨kind, ends⟩, further⟩ := inside
      have own := document.le_lastInside (after + 1)
      rw [siblingsFrom_eq within, behind, List.flatMap_cons, branch_eq kind,
        ih _ (by omega) ends further rfl, nodesBetween_append (by omega) ends]
    · obtain rfl : after = last := by omega
      rw [siblingsFrom_eq_nil (Nat.lt_succ_self after), nodesBetween_self, List.flatMap_nil]

/-- A child lies inside its parent, and is no attribute. -/
theorem child_within {parent id : Nat} (member : id ∈ document.children parent) :
    document.isAttribute id = false ∧ document.lastInside id ≤ document.lastInside parent := by
  obtain ⟨above, kind⟩ := (mem_children_iff ..).mp member
  exact ⟨kind, lastInside_le_parent above⟩

/-- What is inside a node is its children with what is inside each. -/
theorem descendants_eq_flatMap (document : Document) (id : Nat) :
    document.descendants id = (document.children id).flatMap document.branch := by
  have own := document.attributes_within id
  have walked : (document.children id).flatMap document.branch = document.nodesBetween
      (id + (document.attributes id).length) (document.lastInside id) := by
    rw [children, Nat.add_right_comm]
    refine flatMap_branch_siblingsFrom own fun child member => child_within ?_
    rwa [children, Nat.add_right_comm]
  rw [walked, descendants_eq, ← nodesBetween_append (Nat.le_add_right ..) own,
    nodesBetween_attributes, List.nil_append]

/-- What is between the end of a node and that of its parent is the siblings behind it with what is
inside each. -/
theorem flatMap_followingSiblings {id parent : Nat} (member : id ∈ document.children parent) :
    (document.followingSiblings id).flatMap document.branch =
      document.nodesBetween (document.lastInside id) (document.lastInside parent) := by
  obtain ⟨front, back, split⟩ := List.append_of_mem member
  have behind : document.skip id = document.lastInside id + 1 := by
    rw [skip, Nat.max_eq_right (le_lastInside ..)]
  have same : document.siblingsFrom (document.lastInside id + 1) (document.lastInside parent) =
      back := by
    rw [← behind]
    exact siblingsFrom_of_append split
  rw [followingSiblings_eq split, ← same]
  refine flatMap_branch_siblingsFrom (child_within member).2 fun sibling listed => ?_
  rw [same] at listed
  exact child_within (split ▸ List.mem_append_right front (List.mem_cons_of_mem id listed))

/-- Behind a node are the siblings behind it and behind each node above it, with what is inside
each. -/
theorem following_eq_flatMap {id : Nat} (known : (document.node? id).isSome = true)
    (kind : document.isAttribute id = false) :
    document.following id = (id :: document.ancestors id).flatMap fun outer =>
      (document.followingSiblings outer).flatMap document.branch := by
  obtain ⟨first, last⟩ := (isSome_node? document id).mp known
  induction id using Nat.strongRecOn with
  | ind id ih =>
    rcases Nat.eq_or_lt_of_le first with rfl | below
    · have top : document.parent? root = none := by
        rw [parent?, node?_root]
        rfl
      have alone : document.followingSiblings root = [] := by
        rw [followingSiblings, top]
      rw [following, ← root, lastInside_root, nodesBetween_self, ancestors_eq_nil top]
      simp [alone]
    · obtain ⟨parent, above⟩ := parent_of_known below last
      have member : id ∈ document.children parent := (mem_children_iff ..).mpr ⟨above, kind⟩
      obtain ⟨outerFirst, lower⟩ := parent?_lt above
      have outerLast : parent ≤ document.nodeCount := by omega
      have outerKind : document.isAttribute parent = false := by
        rw [Bool.eq_false_iff]
        intro isOwn
        simp [(attribute_alone isOwn).1] at member
      have outerKnown := (isSome_node? document parent).mpr ⟨outerFirst, outerLast⟩
      have outer := ih parent lower outerKnown outerKind outerFirst outerLast
      rw [ancestors_eq above, List.flatMap_cons, ← outer, flatMap_followingSiblings member]
      exact (nodesBetween_append (child_within member).2
        (lastInside_le_nodeCount outerKnown)).symm

end Walks

section Siblings

theorem followingSiblings_pairwise (document : Document) (id : Nat) :
    (document.followingSiblings id).Pairwise (· < ·) := by
  by_cases none : document.followingSiblings id = []
  · rw [none]
    exact List.Pairwise.nil
  · obtain ⟨parent, member⟩ := parent_of_followingSiblings none
    obtain ⟨front, back, split⟩ := List.append_of_mem member
    have ordered := document.children_pairwise parent
    rw [split] at ordered
    rw [followingSiblings_eq split]
    exact ordered.sublist ((List.sublist_cons_self id back).trans (List.sublist_append_right ..))

theorem precedingSiblings_pairwise (document : Document) (id : Nat) :
    (document.precedingSiblings id).Pairwise (· > ·) := by
  by_cases none : document.precedingSiblings id = []
  · rw [none]
    exact List.Pairwise.nil
  · obtain ⟨parent, member⟩ := parent_of_precedingSiblings none
    obtain ⟨front, back, split⟩ := List.append_of_mem member
    have ordered := document.children_pairwise parent
    rw [split] at ordered
    rw [precedingSiblings_eq split]
    exact List.pairwise_reverse.mpr (ordered.sublist (List.sublist_append_left ..))

end Siblings

end Document

namespace XPath

/-- Nodes in the direction of an axis, the nearest one first: forwards in document order, or
backwards. -/
def Axis.Ordered (axis : Axis) (nodes : List Nat) : Prop :=
  nodes.Pairwise fun near far => if axis.isReverse then far < near else near < far

variable {document : Document}

/-- Every axis goes through the document in its direction. -/
theorem Axis.ordered_nodes (axis : Axis) (document : Document) (node : Nat) :
    axis.Ordered (axis.nodes document node) := by
  cases axis with
  | child => exact document.children_pairwise node
  | descendant => exact document.descendants_pairwise node
  | parent =>
    show (document.parent? node).toList.Pairwise (· > ·)
    cases document.parent? node with
    | none => exact List.Pairwise.nil
    | some parent => exact List.pairwise_singleton ..
  | ancestor => exact document.ancestors_pairwise node
  | followingSibling => exact document.followingSiblings_pairwise node
  | precedingSibling => exact document.precedingSiblings_pairwise node
  | following => exact document.nodesBetween_pairwise _ _
  | preceding => exact document.preceding_pairwise node
  | attributes => exact List.pairwise_lt_range'
  | namespaces => exact List.Pairwise.nil
  | self => exact List.pairwise_singleton ..
  | descendantOrSelf =>
    refine List.pairwise_cons.mpr ⟨fun inside member => ?_, document.descendants_pairwise node⟩
    exact (Document.interval_of_mem_ancestors (Document.mem_descendants_iff.mp member).1).1
  | ancestorOrSelf =>
    refine List.pairwise_cons.mpr ⟨fun outer member => ?_, document.ancestors_pairwise node⟩
    exact (Document.interval_of_mem_ancestors member).1

theorem Axis.Ordered.nodup {axis : Axis} {nodes : List Nat} (ordered : axis.Ordered nodes) :
    nodes.Nodup := by
  refine ordered.imp fun {near far} apart => ?_
  split at apart
  · exact Nat.ne_of_gt apart
  · exact Nat.ne_of_lt apart

/-- The first node is the nearest one. -/
theorem Axis.Ordered.head {axis : Axis} {nodes : List Nat} (ordered : axis.Ordered nodes)
    {first other : Nat} (here : nodes.head? = some first) (listed : other ∈ nodes) :
    if axis.isReverse then other ≤ first else first ≤ other := by
  obtain ⟨rest, rfl⟩ := List.head?_eq_some_iff.mp here
  have further := (List.pairwise_cons.mp ordered).1
  rcases List.mem_cons.mp listed with rfl | behind
  · split <;> exact Nat.le_refl other
  · have apart := further other behind
    split at apart
    · rw [if_pos ‹_›]
      exact Nat.le_of_lt apart
    · rw [if_neg ‹_›]
      exact Nat.le_of_lt apart

end XPath

namespace Document

variable {document : Document}

section Attributes

theorem not_isAttribute_of_parent? {id parent : Nat} (above : document.parent? id = some parent) :
    document.isAttribute parent = false := by
  rw [Bool.eq_false_iff]
  intro isOwn
  obtain ⟨_, _, self, here, -, -⟩ := attribute_place isOwn
  cases kind : document.isAttribute id with
  | true =>
    have listed := (mem_attributeNodes_iff document parent id).mpr ⟨above, kind⟩
    rw [attributeNodes, attributes_eq here] at listed
    cases listed
  | false =>
    have member := (mem_children_iff document parent id).mpr ⟨above, kind⟩
    simp [(attribute_alone isOwn).1] at member

theorem first_of_mem_ancestors {id outer : Nat} (above : outer ∈ document.ancestors id) :
    1 ≤ outer := by
  induction id using Nat.strongRecOn with
  | ind id ih =>
    cases up : document.parent? id with
    | none => simp [ancestors_eq_nil up] at above
    | some parent =>
      rw [ancestors_eq up] at above
      rcases List.mem_cons.mp above with rfl | further
      · exact (parent?_lt up).1
      · exact ih parent (parent?_lt up).2 further

theorem not_isAttribute_of_mem_ancestors {id outer : Nat} (above : outer ∈ document.ancestors id) :
    document.isAttribute outer = false := by
  induction id using Nat.strongRecOn with
  | ind id ih =>
    cases up : document.parent? id with
    | none => simp [ancestors_eq_nil up] at above
    | some parent =>
      rw [ancestors_eq up] at above
      rcases List.mem_cons.mp above with rfl | further
      · exact not_isAttribute_of_parent? up
      · exact ih parent (parent?_lt up).2 further

/-- An attribute is placed at its element. -/
theorem preceding_attribute {own element : Nat} (isOwn : document.isAttribute own = true)
    (above : document.parent? own = some element) :
    document.preceding own = document.preceding element := by
  simp [preceding, isOwn, above, not_isAttribute_of_parent? above]

/-- All nodes but the attributes, in document order. -/
def treeNodes (document : Document) : List Nat := document.nodesBetween 0 document.nodeCount

theorem mem_treeNodes {id : Nat} : id ∈ document.treeNodes ↔
    (document.node? id).isSome = true ∧ document.isAttribute id = false := by
  rw [isSome_node?, treeNodes, nodesBetween, List.mem_filter, List.mem_range'_1,
    Bool.not_eq_true']
  refine and_congr_left fun _ => ?_
  omega

theorem not_isAttribute_of_mem_preceding {id other : Nat}
    (member : other ∈ document.preceding id) : document.isAttribute other = false := by
  rw [preceding, List.mem_reverse] at member
  have passed := (List.takeWhile_sublist _).subset (List.mem_filter.mp member).1
  exact (mem_descendants_iff.mp passed).2

theorem not_isAttribute_of_mem_following {id other : Nat}
    (member : other ∈ document.following id) : document.isAttribute other = false := by
  simpa using (List.mem_filter.mp member).2

section Place

variable {own element : Nat} (isOwn : document.isAttribute own = true)
  (above : document.parent? own = some element)
include isOwn above

/-- An attribute is behind its element, which is not the document node, and in front of what is
inside the element. -/
theorem attribute_bounds : 1 < element ∧ element < own ∧ own ≤ document.nodeCount ∧
    document.lastInside own = own ∧
      ∀ other, element < other → other ≤ own → document.isAttribute other = true := by
  obtain ⟨_, index, self, here, listed, place⟩ := attribute_place isOwn
  cases above.symm.trans (show document.parent? own = _ by rw [parent?, here])
  obtain ⟨first, lower⟩ := parent?_lt above
  obtain ⟨within, -⟩ := List.getElem?_eq_some_iff.mp listed
  refine ⟨Nat.lt_of_le_of_ne first fun isRoot => ?_, lower, ?_, lastInside_eq here, ?_⟩
  · rw [← isRoot, ← root, attributes_eq (node?_root document)] at listed
    cases listed
  · exact ((isSome_node? document own).mp (by rw [here]; rfl)).2
  · intro other behind front
    have member : other ∈ document.attributeNodes element := List.mem_range'_1.mpr (by omega)
    exact ((mem_attributeNodes_iff ..).mp member).2

omit isOwn in
theorem mem_ancestors_attribute {other : Nat} : other ∈ document.ancestors own ↔
    other = element ∨ other < element ∧ element ≤ document.lastInside other := by
  rw [ancestors_eq above, List.mem_cons, mem_ancestors_iff (not_isAttribute_of_parent? above)]

theorem mem_preceding_attribute {other : Nat} (kind : document.isAttribute other = false) :
    other ∈ document.preceding own ↔
      1 < other ∧ other < element ∧ document.lastInside other < element := by
  obtain ⟨below, lower, known, -⟩ := attribute_bounds isOwn above
  rw [preceding_attribute isOwn above]
  exact mem_preceding below (by omega) (not_isAttribute_of_parent? above) kind

/-- Behind an attribute is what is inside its element and then what is behind the element. -/
theorem following_attribute :
    document.following own = document.descendants element ++ document.following element := by
  obtain ⟨first, lower, known, alone, between⟩ := attribute_bounds isOwn above
  have others : document.nodesBetween element own = [] := by
    rw [nodesBetween, List.filter_eq_nil_iff]
    intro other listed
    rw [List.mem_range'_1] at listed
    simp [between other (by omega) (by omega)]
  have whole : document.lastInside element ≤ document.nodeCount :=
    lastInside_le_nodeCount ((isSome_node? document element).mpr (by omega))
  rw [following, following, descendants_eq, alone, nodesBetween_append (le_lastInside ..) whole,
    ← nodesBetween_append (Nat.le_of_lt lower) known, others, List.nil_append]

theorem mem_following_attribute {other : Nat} (kind : document.isAttribute other = false) :
    other ∈ document.following own ↔ own < other ∧ other ≤ document.nodeCount := by
  rw [following, (attribute_bounds isOwn above).2.2.2.1, mem_nodesBetween kind]

end Place

/-- What is above a node, in front of it or behind it is a node and no attribute. -/
theorem around_subset {id : Nat} (known : id ≤ document.nodeCount) :
    document.ancestors id ++ document.preceding id ++ document.following id ⊆
      document.treeNodes := by
  intro other listed
  rw [mem_treeNodes, isSome_node?]
  rcases List.mem_append.mp listed with early | behind
  · rcases List.mem_append.mp early with above | front
    · have := (interval_of_mem_ancestors above).1
      exact ⟨⟨first_of_mem_ancestors above, by omega⟩, not_isAttribute_of_mem_ancestors above⟩
    · have kind := not_isAttribute_of_mem_preceding front
      rw [preceding, List.mem_reverse] at front
      have passed := (List.takeWhile_sublist _).subset (List.mem_filter.mp front).1
      rw [mem_descendants_iff_bounds kind, lastInside_root] at passed
      exact ⟨⟨Nat.one_le_of_lt passed.1, passed.2⟩, kind⟩
  · have kind := not_isAttribute_of_mem_following behind
    have bounds := (mem_nodesBetween kind).mp behind
    exact ⟨⟨Nat.one_le_of_lt bounds.1, bounds.2⟩, kind⟩

/-- What is above an attribute, in front of it and behind it is everything, each node once. -/
theorem perm_attribute {own : Nat} (isOwn : document.isAttribute own = true) :
    (document.ancestors own ++ document.preceding own ++ document.following own).Perm
      document.treeNodes := by
  obtain ⟨element, index, self, here, -⟩ := attribute_place isOwn
  have above : document.parent? own = some element := by rw [parent?, here]; rfl
  obtain ⟨below, lower, known, -, between⟩ := attribute_bounds isOwn above
  have isAbove (other : Nat) : other ∈ document.ancestors own ↔ _ := mem_ancestors_attribute above
  have isFront (other : Nat) : document.isAttribute other = false →
      (other ∈ document.preceding own ↔ _) := mem_preceding_attribute isOwn above
  have isBehind (other : Nat) : document.isAttribute other = false →
      (other ∈ document.following own ↔ _) := mem_following_attribute isOwn above
  have nodup : (document.ancestors own ++ document.preceding own ++
      document.following own).Nodup := by
    refine List.nodup_append.mpr ⟨List.nodup_append.mpr
      ⟨(XPath.Axis.ordered_nodes .ancestor ..).nodup,
        (XPath.Axis.ordered_nodes .preceding ..).nodup, ?_⟩,
      (XPath.Axis.ordered_nodes .following ..).nodup, ?_⟩
    · rintro other outer _ front rfl
      have := (isAbove _).mp outer
      have := (isFront _ (not_isAttribute_of_mem_preceding front)).mp front
      omega
    · rintro other early _ behind rfl
      have kind := not_isAttribute_of_mem_following behind
      have := (isBehind _ kind).mp behind
      rcases List.mem_append.mp early with outer | front
      · have := (isAbove _).mp outer
        omega
      · have := (isFront _ kind).mp front
        omega
  refine (List.perm_ext_iff_of_nodup nodup
    ((nodesBetween_pairwise ..).imp Nat.ne_of_lt)).mpr fun other => ?_
  constructor
  · exact fun listed => around_subset known listed
  · intro listed
    obtain ⟨first, last⟩ := (isSome_node? ..).mp (mem_treeNodes.mp listed).1
    have kind := (mem_treeNodes.mp listed).2
    rw [List.mem_append, List.mem_append, isAbove, isFront _ kind, isBehind _ kind]
    have whole : other = 1 → element ≤ document.lastInside other := by
      rintro rfl
      have := lastInside_root document
      rw [root] at this
      omega
    have apart : ¬(element < other ∧ other ≤ own) := by
      rintro ⟨behind, front⟩
      simp [between other behind front] at kind
    omega

end Attributes

/-- Every axis comes to each of its nodes once and in its direction, the nearest one first; and the
axes around an attribute divide the document. -/
theorem axes_ordered (document : Document) :
    (∀ (axis : XPath.Axis) (node : Nat), (axis.nodes document node).Nodup ∧
      axis.Ordered (axis.nodes document node) ∧
        ∀ first ∈ (axis.nodes document node).head?, ∀ other ∈ axis.nodes document node,
          if axis.isReverse then other ≤ first else first ≤ other) ∧
      ∀ own, document.isAttribute own = true →
        (document.ancestors own ++ document.preceding own ++ document.following own).Perm
          document.treeNodes := by
  refine ⟨fun axis node => ?_, fun own isOwn => perm_attribute isOwn⟩
  have ordered := axis.ordered_nodes document node
  exact ⟨ordered.nodup, ordered, fun _ first _ listed => ordered.head first listed⟩

/-- An element and a text in front of the element with the attribute, and a text behind it. -/
theorem axes_ordered_attribute : ∃ reading,
    Markup.parseText {} "<r><x/>y<a b='c'>t<d/></a>z</r>".toList = .ok reading ∧
      reading.document.isAttribute 6 = true ∧
      XPath.Axis.preceding.nodes reading.document 6 = [4, 3] ∧
      XPath.Axis.preceding.Ordered (XPath.Axis.preceding.nodes reading.document 6) ∧
      ([5, 2, 1] ++ [4, 3] ++ [7, 8, 9]).Perm reading.document.treeNodes := by
  have listed : (Markup.parseText {} "<r><x/>y<a b='c'>t<d/></a>z</r>".toList).toOption.map
      (fun reading => (reading.document.isAttribute 6, reading.document.ancestors 6,
        reading.document.preceding 6, reading.document.following 6)) =
      some (true, [5, 2, 1], [4, 3], [7, 8, 9]) := by decide +kernel
  cases read : Markup.parseText {} "<r><x/>y<a b='c'>t<d/></a>z</r>".toList with
  | error _ => rw [read] at listed; cases listed
  | ok reading =>
    simp only [read, Except.toOption, Option.map_some, Option.some.injEq, Prod.mk.injEq] at listed
    obtain ⟨isOwn, above, front, behind⟩ := listed
    have ordered := axes_ordered reading.document
    refine ⟨reading, rfl, isOwn, front, (ordered.1 .preceding 6).2.1, ?_⟩
    rw [← above, ← front, ← behind]
    exact ordered.2 6 isOwn

end Document

end XmlSelect

