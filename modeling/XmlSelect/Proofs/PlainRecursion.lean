import Mathlib.Order.Bounds.Basic
import XmlSelect.Proofs.AxisOrder

/-! The walk over everything inside a node against plain recursion over its children, and the text
of a node against what the walk passes. -/
namespace XmlSelect.Document

variable {document : Document}

/-- Everything below a node by plain recursion: each child, followed by everything below it. -/
def below (document : Document) (id : Nat) : List Nat :=
  (document.children id).attach.flatMap fun ⟨child, _member⟩ => child :: document.below child
termination_by document.nodeCount - id
decreasing_by
  have := child_bounds _member
  omega

theorem below_eq (document : Document) (id : Nat) :
    document.below id =
      (document.children id).flatMap fun child => child :: document.below child := by
  rw [below, List.flatMap_subtype (g := fun child => child :: document.below child)
    (fun _ _ => rfl)]
  simp

/-- The walk passes what plain recursion lists, in the same order. -/
theorem descendants_eq_below (document : Document) (id : Nat) :
    document.descendants id = document.below id := by
  induction rest : document.nodeCount - id using Nat.strongRecOn generalizing id with
  | ind length ih =>
    rw [descendants_eq_flatMap, below_eq]
    refine List.flatMap_congr fun child member => ?_
    have bounds := child_bounds member
    rw [branch, ih _ (by omega) child rfl]

/-- The greatest number at a node or below it is the last one inside. -/
theorem isGreatest_lastInside {id : Nat} (known : (document.node? id).isSome = true) :
    IsGreatest {other | other = id ∨ id ∈ document.ancestors other} (document.lastInside id) := by
  constructor
  · obtain ⟨node, found⟩ := Option.isSome_iff_exists.mp known
    obtain ⟨settled, -⟩ := settled_of_node? found
    have last := lastInside_eq found
    rw [settled.last] at last
    by_cases inside : 0 < node.content.size
    · exact .inr (settled.content.mem_ancestors
        (Forest.covers_of_bounds (by omega) (by omega)))
    · by_cases own : 0 < node.kind.attributes.length
      · have listed : document.lastInside id ∈ document.attributeNodes id := by
          rw [attributeNodes, attributes_eq found, List.mem_range'_1]
          omega
        exact .inr (parent_mem_ancestors ((mem_attributeNodes_iff ..).mp listed).1)
      · exact .inl (by omega)
  · rintro other (rfl | above)
    · exact le_lastInside document other
    · exact Nat.le_trans (le_lastInside document other) (interval_of_mem_ancestors above).2

section CharacterData

theorem PlacesAttributes.filter_isText {element : Nat} {attributes : List Attribute}
    (places : document.PlacesAttributes element attributes) :
    (List.range' (element + 1) attributes.length).filter document.isText = [] := by
  rw [List.filter_eq_nil_iff]
  intro own member
  obtain ⟨first, last⟩ := List.mem_range'_1.mp member
  obtain ⟨index, rfl⟩ := Nat.exists_eq_add_of_le first
  have listed : attributes[index]? = some attributes[index] := List.getElem?_eq_getElem (by omega)
  simp [isText, kind?, places index _ listed, NodeKind.isText]

/-- The text of siblings is what the character data among their numbers holds. -/
theorem Places.text_eq {parent next : Nat} {forest : Forest}
    (places : document.Places parent next forest) :
    ((List.range' next forest.size).filter document.isText).flatMap
      (fun id => (document.ownText? id).getD []) = forest.text := by
  induction forest generalizing parent next with
  | nil => rfl
  | leaf first rest ih =>
    have kind : document.kind? next = some (.leaf first) := by rw [kind?, places.1]; rfl
    rw [Forest.size, List.range'_succ, List.filter_cons, Forest.text]
    cases first with
    | text content | cdata content =>
      rw [if_pos (by rw [isText, kind]; rfl), List.flatMap_cons, ih places.2, ownText?, kind]
      rfl
    | comment | instruction | doctype =>
      rw [if_neg (by rw [isText, kind]; exact Bool.false_ne_true), ih places.2]
      rfl
  | element name attributes content rest inside behind =>
    obtain ⟨place, own, within, further⟩ := places
    have here : document.isText next = false := by
      simp [isText, kind?, place, NodeKind.isText]
    have split : 1 + attributes.length + content.size + rest.size =
        attributes.length + content.size + rest.size + 1 := by omega
    rw [Forest.size, split, List.range'_succ, List.filter_cons_of_neg (by simp [here]),
      ← List.range'_append_1, ← List.range'_append_1, List.filter_append, List.filter_append,
      own.filter_isText, List.nil_append, List.flatMap_append, inside within,
      ← Nat.add_assoc (next + 1), behind further, Forest.text]

/-- The text of an element or of the document is what the character data below it holds. -/
theorem textContent_eq_flatMap {id : Nat} (holds : document.isElement id = true ∨ id = root) :
    document.textContent id = ((document.descendants id).filter document.isText).flatMap
      fun other => (document.ownText? other).getD [] := by
  have others (other : Nat) : (document.isText other && !document.isAttribute other) =
      document.isText other := by
    rw [isText, isAttribute]
    cases document.kind? other with
    | none => rfl
    | some kind => cases kind <;> simp [NodeKind.isText, NodeKind.isAttribute]
  have inside : ∀ node, document.node? id = some node →
      ((document.descendants id).filter document.isText).flatMap
        (fun other => (document.ownText? other).getD []) = node.content.text := by
    intro node found
    obtain ⟨settled, -⟩ := settled_of_node? found
    have length : node.last - id = node.kind.attributes.length + node.content.size := by
      rw [settled.last]
      omega
    rw [descendants_eq, nodesBetween, lastInside_eq found, length, List.filter_filter]
    simp only [others]
    rw [← List.range'_append_1, List.filter_append, settled.attributes.filter_isText,
      List.nil_append, settled.content.text_eq]
  rcases holds with isElement | rfl
  · obtain ⟨_, found, element⟩ := (Option.any_eq_true ..).mp isElement
    obtain ⟨⟨kind, parent, last, content⟩, here, rfl⟩ := Option.map_eq_some_iff.mp found
    rw [inside _ here, textContent, here]
    cases kind <;> first | rfl | cases element
  · rw [inside _ (node?_root document), textContent, node?_root]

end CharacterData

/-- The walk over everything inside a node, which goes by links alone, comes to an end; it is plain
recursion, it is an interval of numbers, and it passes the text of the node. -/
structure DepthFirst (document : Document) (id : Nat) : Prop where
  climb : ∀ other, document.climb? id other = if other = id then none
    else (document.nextSibling? other).or ((document.parent? other).bind (document.climb? id))
  steps : Follows (document.nextInside? id) (document.firstChild? id) (document.descendants id)
  recursion : document.descendants id = document.below id
  interval : document.descendants id =
    (List.range' (id + 1) (document.lastInside id - id)).filter (!document.isAttribute ·)
  ascending : (document.descendants id).Pairwise (· < ·)
  greatest : (document.node? id).isSome = true →
    IsGreatest {other | other = id ∨ id ∈ document.ancestors other} (document.lastInside id)
  text : document.isElement id = true ∨ id = root →
    document.textContent id = ((document.descendants id).filter document.isText).flatMap
      fun other => (document.ownText? other).getD []

theorem depthFirst (document : Document) (id : Nat) : document.DepthFirst id where
  climb := climb?_eq document id
  steps := by
    rw [descendants_eq]
    exact follows_inside document id
  recursion := descendants_eq_below document id
  interval := descendants_eq document id
  ascending := descendants_pairwise document id
  greatest := isGreatest_lastInside
  text := textContent_eq_flatMap

end XmlSelect.Document
