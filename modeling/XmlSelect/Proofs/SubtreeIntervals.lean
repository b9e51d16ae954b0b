import XmlSelect.Proofs.NumberingInvariant

/-! What is inside a node is an interval of numbers: a node lies in the interval of another one
exactly if the other one is above it. -/
namespace XmlSelect.Document

variable {document : Document}

theorem ancestors_eq {id parent : Nat} (above : document.parent? id = some parent) :
    document.ancestors id = parent :: document.ancestors parent := by
  rw [ancestors, above]
  exact dif_pos (parent?_lt above).2

theorem ancestors_eq_nil {id : Nat} (top : document.parent? id = none) :
    document.ancestors id = [] := by
  rw [ancestors, top]

/-- What is above a node is above all that is below it. -/
theorem mem_ancestors_trans {first second third : Nat}
    (outer : first ∈ document.ancestors second) (inner : second ∈ document.ancestors third) :
    first ∈ document.ancestors third := by
  induction third using Nat.strongRecOn with
  | ind third ih =>
    cases above : document.parent? third with
    | none => simp [ancestors_eq_nil above] at inner
    | some parent =>
      rw [ancestors_eq above] at inner ⊢
      rcases List.mem_cons.mp inner with rfl | further
      · exact List.mem_cons_of_mem _ outer
      · exact List.mem_cons_of_mem _ (ih parent (parent?_lt above).2 further)

theorem parent_mem_ancestors {id parent : Nat} (above : document.parent? id = some parent) :
    parent ∈ document.ancestors id := by
  rw [ancestors_eq above]
  exact List.mem_cons_self

theorem Places.mem_ancestors {parent next id : Nat} {forest : Forest}
    (places : document.Places parent next forest) (covers : forest.Covers id next) :
    parent ∈ document.ancestors id := by
  induction covers generalizing parent with
  | leaf => exact parent_mem_ancestors (by rw [parent?, places.1]; rfl)
  | afterLeaf _ ih => exact ih places.2
  | element => exact parent_mem_ancestors (by rw [parent?, places.1]; rfl)
  | @attr next _ _ _ _ _ _ found place =>
    obtain ⟨here, own, -⟩ := places
    have outer : parent ∈ document.ancestors next :=
      parent_mem_ancestors (by rw [parent?, here]; rfl)
    refine mem_ancestors_trans outer (parent_mem_ancestors ?_)
    rw [place, parent?, own _ _ found]
    rfl
  | @inside next _ _ _ _ _ ih =>
    obtain ⟨here, -, inside, -⟩ := places
    have outer : parent ∈ document.ancestors next :=
      parent_mem_ancestors (by rw [parent?, here]; rfl)
    exact mem_ancestors_trans outer (ih inside)
  | afterElement _ ih => exact ih places.2.2.2

theorem Places.last_lt {parent next id : Nat} {forest : Forest} {node : Node}
    (places : document.Places parent next forest) (member : id ∈ forest.starts next)
    (found : document.node? id = some node) : node.last < next + forest.size := by
  induction forest generalizing next with
  | nil => cases member
  | leaf self rest ih =>
    simp only [Forest.size]
    rcases List.mem_cons.mp member with rfl | member
    · cases places.1.symm.trans found
      simp
    · have := ih places.2 member
      omega
  | element name attributes content rest _ ih =>
    simp only [Forest.size]
    rcases List.mem_cons.mp member with rfl | member
    · cases places.1.symm.trans found
      simp only
      omega
    · have := ih places.2.2.2 member
      omega

theorem le_lastInside (document : Document) (id : Nat) : id ≤ document.lastInside id := by
  cases found : document.node? id with
  | none => simp [lastInside, found]
  | some node =>
    rw [lastInside_eq found, (settled_of_node? found).1.last]
    omega

/-- The interval of a node lies in that of the node above it. -/
theorem lastInside_le_parent {id parent : Nat} (above : document.parent? id = some parent) :
    document.lastInside id ≤ document.lastInside parent := by
  obtain ⟨node, found, below⟩ := Option.bind_eq_some_iff.mp above
  rcases (settled_of_node? found).2 with ⟨-, rfl⟩ | ⟨-, seated⟩
  · cases below
  · rw [lastInside_eq found]
    cases seated with
    | attr outer listed place content =>
      subst content
      cases below
      obtain ⟨within, -⟩ := List.getElem?_eq_some_iff.mp listed
      rw [lastInside_eq outer, (settled_of_node? outer).1.last]
      simp only
      omega
    | child outer listed parent _ _ =>
      cases below.symm.trans parent
      obtain ⟨settled, -⟩ := settled_of_node? outer
      have := settled.content.last_lt listed found
      rw [lastInside_eq outer, settled.last]
      omega

theorem interval_of_mem_ancestors {id outer : Nat} (above : outer ∈ document.ancestors id) :
    outer < id ∧ document.lastInside id ≤ document.lastInside outer := by
  induction id using Nat.strongRecOn with
  | ind id ih =>
    cases up : document.parent? id with
    | none => simp [ancestors_eq_nil up] at above
    | some parent =>
      have lower := (parent?_lt up).2
      have nested := lastInside_le_parent up
      rw [ancestors_eq up] at above
      rcases List.mem_cons.mp above with rfl | further
      · exact ⟨lower, nested⟩
      · have := ih parent lower further
        omega

/-- The nodes above a node that is no attribute are those around it. -/
theorem mem_ancestors_iff {id outer : Nat} (kind : document.isAttribute id = false) :
    outer ∈ document.ancestors id ↔ outer < id ∧ id ≤ document.lastInside outer := by
  constructor
  · intro above
    obtain ⟨lower, nested⟩ := interval_of_mem_ancestors above
    exact ⟨lower, Nat.le_trans (le_lastInside document id) nested⟩
  · rintro ⟨lower, within⟩
    cases found : document.node? outer with
    | none =>
      rw [lastInside, found] at within
      exact absurd lower (Nat.not_lt.mpr within)
    | some node =>
      obtain ⟨settled, -⟩ := settled_of_node? found
      rw [lastInside_eq found, settled.last] at within
      by_cases isOwn : id < outer + 1 + node.kind.attributes.length
      · obtain ⟨index, rfl⟩ := Nat.exists_eq_add_of_le lower
        have listed : node.kind.attributes[index]? = some node.kind.attributes[index] :=
          List.getElem?_eq_getElem (by omega)
        simp [isAttribute, kind?, settled.attributes index _ listed, NodeKind.isAttribute] at kind
      · exact settled.content.mem_ancestors (Forest.covers_of_bounds (by omega) (by omega))

/-- Everything but the document node is below it. -/
theorem root_mem_ancestors {id : Nat} (below : 1 < id) (known : id ≤ document.nodeCount) :
    root ∈ document.ancestors id := by
  have count := document.nodeCount_eq
  exact (places_content document).mem_ancestors (Forest.covers_of_bounds below (by omega))

theorem lastInside_root (document : Document) : document.lastInside root = document.nodeCount := by
  rw [lastInside_eq (node?_root document), nodeCount_eq]

theorem lastInside_le_nodeCount {id : Nat} (known : (document.node? id).isSome = true) :
    document.lastInside id ≤ document.nodeCount := by
  obtain ⟨first, last⟩ := (isSome_node? document id).mp known
  rcases Nat.eq_or_lt_of_le first with rfl | below
  · exact Nat.le_of_eq (lastInside_root document)
  · rw [← lastInside_root]
    exact (interval_of_mem_ancestors (root_mem_ancestors below last)).2

theorem attributes_within (document : Document) (id : Nat) :
    id + (document.attributes id).length ≤ document.lastInside id := by
  cases found : document.node? id with
  | none => simp [attributes, kind?, lastInside, found]
  | some node =>
    rw [attributes_eq found, lastInside_eq found, (settled_of_node? found).1.last]
    omega

end XmlSelect.Document
