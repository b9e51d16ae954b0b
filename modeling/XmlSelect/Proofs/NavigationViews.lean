import Mathlib.Data.List.Induction
import XmlSelect.Proofs.ArenaLinks
import XmlSelect.Proofs.AxisPartition

/-! The views on the tree agree. The walks forward from the first child and backward from the last
one pass the same children, the links upward lead from each of them to the node that they are
children of, and the views of elements are the views of all nodes without the others. -/
namespace XmlSelect

namespace Arena

/-- Two siblings, the left one in front, without an element between them. -/
def NoElementBetween (arena : Arena) (left right : Nat) : Prop :=
  ∃ parent front between back,
    arena.children parent = front ++ left :: (between ++ right :: back) ∧
      ∀ other ∈ between, arena.isElement other = false

/-- Forward, backward and upward views, with those of elements, are views of one tree. -/
structure ViewsAgree (arena : Arena) : Prop where
  forward : ∀ id, Follows arena.nextSibling? (arena.firstChild? id) (arena.children id)
  backward : ∀ id,
    Follows arena.previousSibling? (arena.lastChild? id) (arena.children id).reverse
  behind : ∀ id, Follows arena.nextSibling? (arena.nextSibling? id) (arena.followingSiblings id)
  before : ∀ id,
    Follows arena.previousSibling? (arena.previousSibling? id) (arena.precedingSiblings id)
  upward : ∀ parent, ∀ child ∈ arena.children parent, arena.parent? child = some parent
  elements : ∀ id,
    arena.elementChildren id = (arena.children id).filter arena.isElement ∧
      arena.firstElementChild? id = (arena.elementChildren id).head? ∧
      arena.lastElementChild? id = (arena.elementChildren id).getLast?
  next_element : ∀ left right, arena.nextElement? left = some right ↔
    arena.isElement right = true ∧ arena.NoElementBetween left right
  adjacent_elements : ∀ left right,
    arena.isElement left = true → arena.isElement right = true →
      (arena.nextElement? left = some right ↔ arena.previousElement? right = some left)
  ancestors : ∀ id, (arena.slot? id).isSome = true →
    Follows arena.parent? (arena.parent? id) (arena.ancestors id) ∧
      (id :: arena.ancestors id).Pairwise (· > ·) ∧
      (id :: arena.ancestors id).getLast? = some root

end Arena

namespace Document

variable {document : Document} {id left right parent : Nat}

/-- Two siblings of a document without an element between them. -/
def NoElementBetween (document : Document) (left right : Nat) : Prop :=
  ∃ parent front between back,
    document.children parent = front ++ left :: (between ++ right :: back) ∧
      ∀ other ∈ between, document.isElement other = false

/-- Following the links backward passes what is in front, nearest first. -/
theorem follows_previousSibling? {front : List Nat} (back : List Nat)
    (split : document.children parent = front ++ back) :
    Follows document.previousSibling? front.getLast? front.reverse := by
  induction front using List.reverseRecOn generalizing back with
  | nil => rfl
  | append_singleton front last ih =>
    rw [List.append_assoc, List.singleton_append] at split
    rw [List.reverse_append, List.getLast?_concat]
    refine ⟨rfl, ?_⟩
    rw [previousSibling?, precedingSiblings_eq split, List.head?_reverse]
    exact ih _ split

theorem follows_followingSiblings (document : Document) (id : Nat) :
    Follows document.nextSibling? (document.nextSibling? id) (document.followingSiblings id) := by
  by_cases none : document.followingSiblings id = []
  · rw [nextSibling?_eq_head?, none]
    rfl
  · obtain ⟨parent, front, split⟩ := exists_children_following none
    rw [nextSibling?_eq_head?]
    exact follows_nextSibling? (front ++ [id]) (by rw [split, List.append_assoc]; rfl)

theorem follows_precedingSiblings (document : Document) (id : Nat) :
    Follows document.previousSibling? (document.previousSibling? id)
      (document.precedingSiblings id) := by
  by_cases none : document.precedingSiblings id = []
  · rw [previousSibling?, none]
    rfl
  · obtain ⟨parent, back, split⟩ := exists_children_preceding none
    have before := follows_previousSibling? _ split
    rwa [List.reverse_reverse, List.getLast?_reverse] at before

theorem follows_ancestors (document : Document) (id : Nat) :
    Follows document.parent? (document.parent? id) (document.ancestors id) := by
  induction id using Nat.strongRecOn with
  | ind id ih =>
    cases above : document.parent? id with
    | none => rw [ancestors_eq_nil above]; rfl
    | some parent =>
      rw [ancestors_eq above]
      exact ⟨rfl, ih parent (parent?_lt above).2⟩

/-- The way up, with the node that it starts at, has smaller and smaller numbers. -/
theorem upward_pairwise (document : Document) (id : Nat) :
    (id :: document.ancestors id).Pairwise (· > ·) :=
  List.pairwise_cons.mpr
    ⟨fun _ above => (interval_of_mem_ancestors above).1, document.ancestors_pairwise id⟩

/-- The way up ends at the document node. -/
theorem getLast?_upward (known : (document.node? id).isSome = true) :
    (id :: document.ancestors id).getLast? = some root := by
  obtain ⟨first, last⟩ := (isSome_node? document id).mp known
  induction id using Nat.strongRecOn with
  | ind id ih =>
    rcases Nat.eq_or_lt_of_le first with rfl | below
    · rw [ancestors_eq_nil (by rw [parent?, ← root, node?_root]; rfl)]
      rfl
    · obtain ⟨parent, above⟩ := parent_of_known below last
      have lower := parent?_lt above
      rw [ancestors_eq above, List.getLast?_cons_cons]
      exact ih parent lower.2 ((isSome_node? ..).mpr (by omega)) lower.1 (by omega)

theorem nextElement?_eq_some_iff : document.nextElement? left = some right ↔
    document.isElement right = true ∧ document.NoElementBetween left right := by
  rw [nextElement?, List.find?_eq_some_iff_append]
  refine and_congr_right fun _ => ⟨?_, ?_⟩
  · rintro ⟨between, back, behind, none⟩
    have some : document.followingSiblings left ≠ [] := by simp [behind]
    obtain ⟨parent, front, split⟩ := exists_children_following some
    exact ⟨parent, front, between, back, behind ▸ split, by simpa using none⟩
  · rintro ⟨parent, front, between, back, split, none⟩
    exact ⟨between, back, followingSiblings_eq split, by simpa using none⟩

theorem previousElement?_eq_some_iff : document.previousElement? right = some left ↔
    document.isElement left = true ∧ document.NoElementBetween left right := by
  rw [previousElement?, List.find?_eq_some_iff_append]
  refine and_congr_right fun _ => ⟨?_, ?_⟩
  · rintro ⟨between, front, before, none⟩
    have some : document.precedingSiblings right ≠ [] := by simp [before]
    obtain ⟨parent, back, split⟩ := exists_children_preceding some
    rw [before] at split
    exact ⟨parent, front.reverse, between.reverse, back, by simp [split], by simpa using none⟩
  · rintro ⟨parent, front, between, back, split, none⟩
    have same : document.children parent = (front ++ left :: between) ++ right :: back := by
      rw [split, List.append_assoc, List.cons_append]
    exact ⟨between.reverse, front.reverse, by simp [precedingSiblings_eq same],
      by simpa using none⟩

theorem noElementBetween_arena (left right : Nat) :
    document.arena.NoElementBetween left right ↔ document.NoElementBetween left right := by
  simp only [Arena.NoElementBetween, NoElementBetween, children_arena, isElement_arena]

theorem nextElement?_arena (document : Document) (id : Nat) :
    document.arena.nextElement? id = document.nextElement? id := by
  rw [Arena.nextElement?, followingSiblings_arena, funext document.isElement_arena, nextElement?]

theorem previousElement?_arena (document : Document) (id : Nat) :
    document.arena.previousElement? id = document.previousElement? id := by
  rw [Arena.previousElement?, precedingSiblings_arena, funext document.isElement_arena,
    previousElement?]

/-- The views on the arena of a document agree. -/
theorem viewsAgree_arena (document : Document) : document.arena.ViewsAgree where
  forward id := by
    rw [funext document.nextSibling?_arena, firstChild?_arena, children_arena]
    exact follows_children document id
  backward id := by
    rw [funext document.previousSibling?_arena, lastChild?_arena, children_arena]
    exact follows_previousSibling? [] (List.append_nil _).symm
  behind id := by
    rw [funext document.nextSibling?_arena, followingSiblings_arena]
    exact follows_followingSiblings document id
  before id := by
    rw [funext document.previousSibling?_arena, precedingSiblings_arena]
    exact follows_precedingSiblings document id
  upward parent child member := by
    rw [children_arena] at member
    rw [parent?_arena]
    exact ((mem_children_iff ..).mp member).1
  elements id := by
    rw [Arena.firstElementChild?, lastElementChild?_arena, Arena.elementChildren, children_arena,
      funext document.isElement_arena]
    exact ⟨rfl, List.head?_filter.symm, List.getLast?_filter.symm⟩
  next_element left right := by
    rw [nextElement?_arena, isElement_arena, noElementBetween_arena]
    exact nextElement?_eq_some_iff
  adjacent_elements left right isLeft isRight := by
    rw [isElement_arena] at isLeft isRight
    rw [nextElement?_arena, previousElement?_arena, nextElement?_eq_some_iff,
      previousElement?_eq_some_iff]
    simp only [isLeft, isRight]
  ancestors id known := by
    rw [slot?_arena, Option.isSome_map] at known
    rw [funext document.parent?_arena, ancestors_arena]
    exact ⟨follows_ancestors document id, upward_pairwise document id, getLast?_upward known⟩

end Document

end XmlSelect
