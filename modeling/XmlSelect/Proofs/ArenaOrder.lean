import XmlSelect.Proofs.ArenaLinks

/-! The numbers in the arena of a document are its document order, and all links keep to it:
following them from the document node passes every node once, in the order of the numbers. -/
namespace XmlSelect

namespace Arena

/-- A walk over the listed nodes one after another: each node, its attributes, and then its children
in turn. -/
inductive Walk (arena : Arena) : (listed passed : List Nat) → Prop
  | done : arena.Walk [] []
  | step {id : Nat} {rest passed : List Nat}
      (further : arena.Walk (arena.children id ++ rest) passed) :
      arena.Walk (id :: rest) (id :: arena.attributeNodes id ++ passed)

/-- The numbers run from one to the count of nodes in document order, and all links keep to it. -/
structure Numbered (arena : Arena) : Prop where
  known : ∀ id, (arena.slot? id).isSome = true ↔ 1 ≤ id ∧ id ≤ arena.nodeCount
  document_node : ∀ id, arena.kind? id = some .document ↔ id = 1
  root_parent : arena.parent? 1 = none
  parent : ∀ id, 1 < id → id ≤ arena.nodeCount →
    ∃ parent, arena.parent? id = some parent ∧ 1 ≤ parent ∧ parent < id
  children : ∀ parent, ∃ visited : List Nat,
    Follows arena.nextSibling? (arena.firstChild? parent) visited ∧
      visited.Pairwise (· < ·) ∧ arena.lastChild? parent = visited.getLast? ∧
      ∀ id, id ∈ visited ↔ arena.parent? id = some parent ∧ arena.isAttribute id = false
  siblings : ∀ left right,
    arena.previousSibling? right = some left ↔ arena.nextSibling? left = some right
  attributes : ∀ element name attributes,
    arena.kind? element = some (.element name attributes) →
      attributes = List.range' (element + 1) attributes.length ∧
      ∀ id, id ∈ attributes ↔ arena.parent? id = some element ∧ arena.isAttribute id = true
  attribute_owner : ∀ id, arena.isAttribute id = true →
    ∃ element, arena.parent? id = some element ∧ arena.isElement element = true
  attribute_links : ∀ id, arena.isAttribute id = true →
    arena.firstChild? id = none ∧ arena.lastChild? id = none ∧
      arena.nextSibling? id = none ∧ arena.previousSibling? id = none
  walk : arena.Walk [1] (List.range' 1 arena.nodeCount)

end Arena

namespace Document

variable {document : Document}

/-- The walk over placed siblings passes all their numbers in order. -/
theorem Places.walk {parent next : Nat} {forest : Forest} {listed passed : List Nat}
    (places : document.Places parent next forest) (further : document.arena.Walk listed passed) :
    document.arena.Walk (forest.starts next ++ listed)
      (List.range' next forest.size ++ passed) := by
  induction forest generalizing parent next listed passed with
  | nil => exact further
  | leaf self rest ih =>
    have alone : document.arena.children next = [] := by
      rw [children_arena, children_eq places.1]
      rfl
    have own : document.arena.attributeNodes next = [] := by
      rw [attributeNodes_arena, attributeNodes, attributes_eq places.1]
      rfl
    have step := ih places.2 further
    rw [← List.nil_append (rest.starts (next + 1) ++ listed), ← alone] at step
    have walked := Arena.Walk.step step
    rwa [own] at walked
  | element name attributes content rest inner outer =>
    obtain ⟨here, -, inside, behind⟩ := places
    have below : document.arena.children next =
        content.starts (next + 1 + attributes.length) := by
      rw [children_arena, children_eq here]
      rfl
    have own : document.arena.attributeNodes next =
        List.range' (next + 1) attributes.length := by
      rw [attributeNodes_arena, attributeNodes, attributes_eq here]
      rfl
    have step := inner inside (outer behind further)
    rw [← below] at step
    have walked := Arena.Walk.step step
    have numbers : List.range' next (Forest.element name attributes content rest).size =
        next :: (List.range' (next + 1) attributes.length ++
          (List.range' (next + 1 + attributes.length) content.size ++
            List.range' (next + 1 + attributes.length + content.size) rest.size)) := by
      rw [List.range'_append_1, List.range'_append_1, ← List.range'_succ]
      congr 1
      simp only [Forest.size]
      omega
    rw [own] at walked
    rw [Forest.starts, numbers]
    simpa only [List.cons_append, List.append_assoc] using walked

/-- An element lists its attributes in their order. -/
theorem map_kind?_arena (document : Document) (element : Nat) :
    (document.arena.attributeNodes element).map document.arena.kind? =
      (document.attributes element).map fun self => some (.attr self) := by
  rw [attributeNodes_arena, attributeNodes]
  refine List.ext_getElem (by simp) fun index listed within => ?_
  have known : index < (document.attributes element).length := by simpa using listed
  have member : element + 1 + index ∈ document.attributeNodes element :=
    List.mem_range'_1.mpr ⟨by omega, by omega⟩
  obtain ⟨above, isOwn⟩ := (mem_attributeNodes_iff ..).mp member
  obtain ⟨other, place, self, here, found, same⟩ := attribute_place isOwn
  rw [parent?, here] at above
  obtain rfl : other = element := Option.some.inj above
  obtain rfl : place = index := by omega
  obtain ⟨_, own⟩ := List.getElem?_eq_some_iff.mp found
  rw [List.getElem_map, List.getElem_map, List.getElem_range', Nat.one_mul, kind?_arena, kind?, here,
    own]
  rfl

theorem numbered_arena (document : Document) : document.arena.Numbered where
  known id := by
    rw [slot?_arena, Option.isSome_map, nodeCount_arena]
    exact isSome_node? document id
  document_node id := by
    rw [kind?_arena, ← kind?_eq_document_iff]
    rcases document.kind? id with _ | _ | _ | _ | _ <;> simp [NodeKind.inSlot]
  root_parent := by
    rw [parent?_arena, parent?, ← root, node?_root]
    rfl
  parent id below known := by
    rw [nodeCount_arena] at known
    obtain ⟨parent, above⟩ := parent_of_known below known
    exact ⟨parent, (parent?_arena ..).trans above, parent?_lt above⟩
  children parent := by
    refine ⟨document.children parent, ?_, children_pairwise document parent, ?_, fun id => ?_⟩
    · rw [firstChild?_arena, funext document.nextSibling?_arena]
      exact follows_children document parent
    · exact lastChild?_arena document parent
    · rw [parent?_arena, isAttribute_arena]
      exact mem_children_iff document parent id
  siblings left right := by
    rw [previousSibling?_arena, nextSibling?_arena]
    exact previousSibling?_eq_some_iff.trans nextSibling?_eq_some_iff.symm
  attributes element name listed kind := by
    have own : document.arena.attributeNodes element = listed := by
      rw [Arena.attributeNodes, kind]
      rfl
    rw [attributeNodes_arena] at own
    refine ⟨?_, fun id => ?_⟩
    · rw [← own, attributeNodes, List.length_range']
    · rw [← own, parent?_arena, isAttribute_arena]
      exact mem_attributeNodes_iff document element id
  attribute_owner id isOwn := by
    rw [isAttribute_arena] at isOwn
    obtain ⟨element, index, self, here, listed, -⟩ := attribute_place isOwn
    refine ⟨element, by rw [parent?_arena, parent?, here]; rfl, ?_⟩
    rw [isElement_arena]
    cases kind : document.kind? element with
    | none => simp [attributes, kind] at listed
    | some outer =>
      cases outer <;>
        simp_all [attributes, isElement, NodeKind.attributes, NodeKind.isElement]
  attribute_links id isOwn := by
    rw [isAttribute_arena] at isOwn
    obtain ⟨children, following, preceding⟩ := attribute_alone isOwn
    simp [firstChild?_arena, lastChild?_arena, nextSibling?_arena, previousSibling?_arena,
      firstChild?_eq_head?, lastChild?, nextSibling?_eq_head?, previousSibling?, children,
      following, preceding]
  walk := by
    have walked := (places_content document).walk .done
    have below : document.arena.children 1 = document.content.starts 2 := by
      rw [children_arena, ← root, children_eq (node?_root document)]
      rfl
    have own : document.arena.attributeNodes 1 = [] := by
      rw [attributeNodes_arena, attributeNodes, ← root, attributes_eq (node?_root document)]
      rfl
    rw [← below] at walked
    have whole := Arena.Walk.step (show document.arena.Walk (_ ++ []) _ from walked)
    rw [own] at whole
    rw [nodeCount_arena, nodeCount_eq, List.range'_succ]
    simpa using whole

end Document

end XmlSelect
