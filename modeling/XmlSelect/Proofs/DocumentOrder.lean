import XmlSelect.Proofs.NumberingInvariant

/-! The links between the nodes of a document agree with its numbers: following them from the
document node passes every node once, in the order of the numbers. -/
namespace XmlSelect

/-- What following `next` from `start` on passes, to the end. -/
def Follows (next : Nat → Option Nat) : (start : Option Nat) → List Nat → Prop
  | start, [] => start = none
  | start, id :: rest => start = some id ∧ Follows next (next id) rest

namespace Document

variable {document : Document}

theorem siblingsFrom_tail {first last id : Nat} {back : List Nat}
    (split : document.siblingsFrom first last = id :: back) :
    document.siblingsFrom (document.skip id) last = back := by
  by_cases within : first ≤ last
  · rw [siblingsFrom_eq within] at split
    obtain ⟨rfl, rest⟩ := List.cons.inj split
    exact rest
  · rw [siblingsFrom_eq_nil (by omega)] at split
    cases split

theorem siblingsFrom_of_append {first last id : Nat} {front back : List Nat}
    (split : document.siblingsFrom first last = front ++ id :: back) :
    document.siblingsFrom (document.skip id) last = back := by
  induction front generalizing first with
  | nil => exact siblingsFrom_tail split
  | cons other front ih => exact ih (siblingsFrom_tail split)

section Siblings

variable {parent id : Nat} {front back : List Nat}

theorem child_of_append (split : document.children parent = front ++ id :: back) :
    document.parent? id = some parent ∧ document.isAttribute id = false := by
  rw [← mem_children_iff, split]
  exact List.mem_append_right front List.mem_cons_self

/-- The siblings behind a child are the children behind it. -/
theorem followingSiblings_eq (split : document.children parent = front ++ id :: back) :
    document.followingSiblings id = back := by
  obtain ⟨above, kind⟩ := child_of_append split
  rw [followingSiblings, above]
  simp only [kind, Bool.false_eq_true, if_false]
  exact siblingsFrom_of_append split

/-- The siblings in front of a child are the children in front of it, nearest first. -/
theorem precedingSiblings_eq (split : document.children parent = front ++ id :: back) :
    document.precedingSiblings id = front.reverse := by
  obtain ⟨above, kind⟩ := child_of_append split
  have ordered := document.children_pairwise parent
  rw [split, List.pairwise_append] at ordered
  have before : ∀ other ∈ front, decide (other < id) = true := fun other member =>
    decide_eq_true (ordered.2.2 other member id List.mem_cons_self)
  rw [precedingSiblings, above]
  simp only [kind, Bool.false_eq_true, if_false, split]
  rw [List.takeWhile_append_of_pos before, List.takeWhile_cons_of_neg (by simp), List.append_nil]

theorem follows_nextSibling? (front : List Nat)
    (split : document.children parent = front ++ back) :
    Follows document.nextSibling? back.head? back := by
  induction back generalizing front with
  | nil => rfl
  | cons id rest ih =>
    refine ⟨rfl, ?_⟩
    rw [nextSibling?_eq_head?, followingSiblings_eq split]
    exact ih (front ++ [id]) (by rw [split, List.append_assoc, List.singleton_append])

theorem follows_children (document : Document) (id : Nat) :
    Follows document.nextSibling? (document.firstChild? id) (document.children id) := by
  rw [firstChild?_eq_head?]
  exact follows_nextSibling? [] rfl

end Siblings

theorem parent_of_followingSiblings {id : Nat} (some : document.followingSiblings id ≠ []) :
    ∃ parent, id ∈ document.children parent := by
  rw [followingSiblings] at some
  split at some
  · rename_i parent above
    split at some
    · exact absurd rfl some
    · rename_i kind
      exact ⟨parent, (mem_children_iff ..).mpr ⟨above, by simpa using kind⟩⟩
  · exact absurd rfl some

theorem parent_of_precedingSiblings {id : Nat} (some : document.precedingSiblings id ≠ []) :
    ∃ parent, id ∈ document.children parent := by
  rw [precedingSiblings] at some
  split at some
  · rename_i parent above
    split at some
    · exact absurd rfl some
    · rename_i kind
      exact ⟨parent, (mem_children_iff ..).mpr ⟨above, by simpa using kind⟩⟩
  · exact absurd rfl some

theorem exists_children_following {id : Nat} (some : document.followingSiblings id ≠ []) :
    ∃ parent front, document.children parent = front ++ id :: document.followingSiblings id := by
  obtain ⟨parent, member⟩ := parent_of_followingSiblings some
  obtain ⟨front, back, split⟩ := List.append_of_mem member
  exact ⟨parent, front, by rw [followingSiblings_eq split, split]⟩

theorem exists_children_preceding {id : Nat} (some : document.precedingSiblings id ≠ []) :
    ∃ parent back,
      document.children parent = (document.precedingSiblings id).reverse ++ id :: back := by
  obtain ⟨parent, member⟩ := parent_of_precedingSiblings some
  obtain ⟨front, back, split⟩ := List.append_of_mem member
  exact ⟨parent, back, by rw [precedingSiblings_eq split, List.reverse_reverse, split]⟩

theorem nextSibling?_eq_some_iff {left right : Nat} :
    document.nextSibling? left = some right ↔
      ∃ parent front back, document.children parent = front ++ left :: right :: back := by
  constructor
  · intro next
    have behind : document.followingSiblings left ≠ [] := by
      intro none
      simp [nextSibling?_eq_head?, none] at next
    obtain ⟨parent, member⟩ := parent_of_followingSiblings behind
    obtain ⟨front, back, split⟩ := List.append_of_mem member
    rw [nextSibling?_eq_head?, followingSiblings_eq split] at next
    obtain ⟨rest, rfl⟩ := List.head?_eq_some_iff.mp next
    exact ⟨parent, front, rest, split⟩
  · rintro ⟨parent, front, back, split⟩
    rw [nextSibling?_eq_head?, followingSiblings_eq split]
    rfl

theorem previousSibling?_eq_some_iff {left right : Nat} :
    document.previousSibling? right = some left ↔
      ∃ parent front back, document.children parent = front ++ left :: right :: back := by
  constructor
  · intro previous
    have before : document.precedingSiblings right ≠ [] := by
      intro none
      simp [previousSibling?, none] at previous
    obtain ⟨parent, member⟩ := parent_of_precedingSiblings before
    obtain ⟨front, back, split⟩ := List.append_of_mem member
    rw [previousSibling?, precedingSiblings_eq split, List.head?_reverse] at previous
    obtain ⟨start, rfl⟩ := List.getLast?_eq_some_iff.mp previous
    exact ⟨parent, start, back, by rw [split, List.append_assoc, List.singleton_append]⟩
  · rintro ⟨parent, front, back, split⟩
    have same : document.children parent = (front ++ [left]) ++ right :: back := by
      rw [split, List.append_assoc, List.singleton_append]
    rw [previousSibling?, precedingSiblings_eq same, List.head?_reverse]
    simp

theorem child_bounds {parent id : Nat} (member : id ∈ document.children parent) :
    parent < id ∧ id ≤ document.nodeCount := by
  obtain ⟨above, -⟩ := (mem_children_iff ..).mp member
  refine ⟨(parent?_lt above).2, ?_⟩
  obtain ⟨node, found, -⟩ := Option.bind_eq_some_iff.mp above
  exact ((isSome_node? document id).mp (by rw [found]; rfl)).2

theorem kind?_eq_document_iff (document : Document) (id : Nat) :
    document.kind? id = some .document ↔ id = 1 := by
  constructor
  · intro kind
    obtain ⟨node, found, same⟩ := Option.map_eq_some_iff.mp kind
    rcases (settled_of_node? found).2 with ⟨isRoot, -⟩ | ⟨-, seated⟩
    · exact isRoot
    · cases seated with
      | attr _ _ _ content => simp [content] at same
      | child _ _ _ _ below => exact absurd same below
  · rintro rfl
    rw [kind?, ← root, node?_root]
    rfl

theorem parent_of_known {id : Nat} (below : 1 < id) (known : id ≤ document.nodeCount) :
    ∃ parent, document.parent? id = some parent := by
  obtain ⟨node, found⟩ := Option.isSome_iff_exists.mp
    ((isSome_node? document id).mpr ⟨Nat.le_of_lt below, known⟩)
  rcases (settled_of_node? found).2 with ⟨rfl, -⟩ | ⟨-, seated⟩
  · exact absurd below (by decide)
  · cases seated with
    | attr _ _ _ content => exact ⟨_, by rw [parent?, found, content]; rfl⟩
    | child _ _ parent _ _ => exact ⟨_, by rw [parent?, found]; exact parent⟩

/-- An attribute stands at the place that its element gives it. -/
theorem attribute_place {id : Nat} (isOwn : document.isAttribute id = true) :
    ∃ (element index : Nat) (self : Attribute),
      document.node? id = some ⟨.attr self, some element, id, .nil⟩ ∧
      (document.attributes element)[index]? = some self ∧ id = element + 1 + index := by
  obtain ⟨kind, found, own⟩ := (Option.any_eq_true ..).mp isOwn
  obtain ⟨node, here, rfl⟩ := Option.map_eq_some_iff.mp found
  rcases (settled_of_node? here).2 with ⟨-, rfl⟩ | ⟨-, seated⟩
  · cases own
  · cases seated with
    | @attr element index outer self above listed place content =>
      subst content
      exact ⟨element, index, self, here, by rw [attributes_eq above]; exact listed, place⟩
    | child _ _ _ other _ => exact absurd own (by simp [other])

/-- The attributes of an element are the nodes behind it whose parent it is. -/
theorem mem_attributeNodes_iff (document : Document) (element id : Nat) :
    id ∈ document.attributeNodes element ↔
      document.parent? id = some element ∧ document.isAttribute id = true := by
  rw [attributeNodes, List.mem_range'_1]
  constructor
  · rintro ⟨first, last⟩
    cases found : document.node? element with
    | none =>
      simp [attributes, kind?, found] at last
      omega
    | some outer =>
      rw [attributes_eq found] at last
      obtain ⟨index, rfl⟩ := Nat.exists_eq_add_of_le first
      have listed : outer.kind.attributes[index]? = some outer.kind.attributes[index] :=
        List.getElem?_eq_getElem (by omega)
      have here := (settled_of_node? found).1.attributes index _ listed
      simp [parent?, isAttribute, kind?, here, NodeKind.isAttribute]
  · rintro ⟨above, isOwn⟩
    obtain ⟨other, index, self, here, listed, place⟩ := attribute_place isOwn
    rw [parent?, here] at above
    cases above
    obtain ⟨within, -⟩ := List.getElem?_eq_some_iff.mp listed
    omega

/-- Nothing is linked to an attribute but its element. -/
theorem attribute_alone {id : Nat} (isOwn : document.isAttribute id = true) :
    document.children id = [] ∧ document.followingSiblings id = [] ∧
      document.precedingSiblings id = [] := by
  obtain ⟨element, index, self, here, -, -⟩ := attribute_place isOwn
  have above : document.parent? id = some element := by
    rw [parent?, here]
    rfl
  exact ⟨by rw [children_eq here]; rfl, by simp [followingSiblings, above, isOwn],
    by simp [precedingSiblings, above, isOwn]⟩

end Document

end XmlSelect
