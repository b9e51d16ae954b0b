import XmlSelect.Proofs.DocumentOrder
import XmlSelect.Proofs.SubtreeIntervals

/-! The walk over everything inside a node. It goes by the links alone and remembers no more than
the node it has come to; where it goes on is always the next number that is no attribute. -/
namespace XmlSelect.Document

variable {document : Document} {top id parent after next last : Nat}

section Between

theorem mem_nodesBetween {after last : Nat} (kind : document.isAttribute other = false) :
    other ∈ document.nodesBetween after last ↔ after < other ∧ other ≤ last := by
  rw [nodesBetween, List.mem_filter, List.mem_range'_1, kind]
  simp only [Bool.not_false, and_true]
  omega

theorem nodesBetween_append {after middle last : Nat} (first : after ≤ middle)
    (second : middle ≤ last) :
    document.nodesBetween after middle ++ document.nodesBetween middle last =
      document.nodesBetween after last := by
  obtain ⟨front, rfl⟩ := Nat.exists_eq_add_of_le first
  obtain ⟨back, rfl⟩ := Nat.exists_eq_add_of_le second
  rw [nodesBetween, nodesBetween, nodesBetween, ← List.filter_append, Nat.add_right_comm after,
    Nat.add_sub_cancel_left, Nat.add_sub_cancel_left, List.range'_append_1, Nat.add_assoc after,
    Nat.add_sub_cancel_left]

theorem nodesBetween_self (document : Document) (id : Nat) : document.nodesBetween id id = [] := by
  rw [nodesBetween, Nat.sub_self]
  rfl

theorem nodesBetween_attributes (document : Document) (id : Nat) :
    document.nodesBetween id (id + (document.attributes id).length) = [] := by
  rw [nodesBetween, Nat.add_sub_cancel_left, List.filter_eq_nil_iff]
  intro own listed
  have member : own ∈ document.attributeNodes id := listed
  simp [((mem_attributeNodes_iff ..).mp member).2]

theorem nodesBetween_cons (first : after < next) (within : next ≤ last)
    (kind : document.isAttribute next = false)
    (others : ∀ id, after < id → id < next → document.isAttribute id = true) :
    document.nodesBetween after last = next :: document.nodesBetween next last := by
  have before : document.nodesBetween after (next - 1) = [] := by
    rw [nodesBetween, List.filter_eq_nil_iff]
    intro id listed
    rw [List.mem_range'_1] at listed
    simp [others id (by omega) (by omega)]
  have alone : document.nodesBetween (next - 1) next = [next] := by
    obtain ⟨before, rfl⟩ := Nat.exists_eq_succ_of_ne_zero (Nat.ne_zero_of_lt first)
    simp [nodesBetween, kind]
  rw [← nodesBetween_append (Nat.le_of_lt first) within,
    ← nodesBetween_append (Nat.le_sub_one_of_lt first) (Nat.sub_le next 1), before, alone]
  rfl

end Between

/-- The nodes behind `after` up to `last` start with the given one, or there are none. -/
def StartsAt (document : Document) (after last : Nat) : Option Nat → Prop
  | some next => document.nodesBetween after last = next :: document.nodesBetween next last
  | none => document.nodesBetween after last = []

theorem StartsAt.bounds (starts : document.StartsAt after last (some next)) :
    after < next ∧ next ≤ last ∧ document.isAttribute next = false := by
  have member : next ∈ document.nodesBetween after last := by
    rw [starts]
    exact List.mem_cons_self
  obtain ⟨listed, kind⟩ := List.mem_filter.mp member
  rw [List.mem_range'_1] at listed
  exact ⟨by omega, by omega, by simpa using kind⟩

theorem StartsAt.widen {middle : Nat} {first? : Option Nat}
    (starts : document.StartsAt middle last first?) (before : after ≤ middle)
    (behind : middle ≤ last) (none : document.nodesBetween after middle = []) :
    document.StartsAt after last first? := by
  have same : document.nodesBetween after last = document.nodesBetween middle last := by
    rw [← nodesBetween_append before behind, none, List.nil_append]
  cases first? with
  | none => exact same.trans starts
  | some first => exact same.trans starts

/-- Behind a node with its attributes, the nodes inside it start with its first child. -/
theorem startsAt_firstChild? (document : Document) (id : Nat) :
    document.StartsAt id (document.lastInside id) (document.firstChild? id) := by
  have own : ∀ other, id < other → other < id + 1 + (document.attributes id).length →
      document.isAttribute other = true := fun other behind before => by
    refine ((mem_attributeNodes_iff document id other).mp ?_).2
    rw [attributeNodes, List.mem_range'_1]
    exact ⟨behind, before⟩
  by_cases within : id + 1 + (document.attributes id).length ≤ document.lastInside id
  · have first : document.firstChild? id = some _ := if_pos within
    have listed := first
    rw [firstChild?_eq_head?] at listed
    obtain ⟨-, kind⟩ := (mem_children_iff ..).mp (List.mem_of_mem_head? listed)
    rw [first]
    exact nodesBetween_cons (by omega) within kind own
  · have none : document.firstChild? id = none := if_neg within
    have all : document.lastInside id = id + (document.attributes id).length := by
      have := document.attributes_within id
      omega
    rw [none, all]
    exact nodesBetween_attributes document id

/-- What is at `top` or below it, attributes apart. -/
def IsWithin (document : Document) (top id : Nat) : Prop :=
  (id = top ∨ top ∈ document.ancestors id) ∧ document.isAttribute id = false

theorem IsWithin.lastInside_le (within : document.IsWithin top id) :
    document.lastInside id ≤ document.lastInside top := by
  rcases within.1 with rfl | below
  · exact Nat.le_refl _
  · exact (interval_of_mem_ancestors below).2

theorem isWithin_of_bounds (behind : top < id) (last : id ≤ document.lastInside top)
    (kind : document.isAttribute id = false) : document.IsWithin top id :=
  ⟨.inr ((mem_ancestors_iff kind).mpr ⟨behind, last⟩), kind⟩

theorem IsWithin.up (within : document.IsWithin top id) (inner : id ≠ top) :
    ∃ parent, document.parent? id = some parent ∧ document.IsWithin top parent := by
  have below := within.1.resolve_left inner
  cases above : document.parent? id with
  | none => simp [ancestors_eq_nil above] at below
  | some parent =>
    refine ⟨parent, rfl, ?_, ?_⟩
    · rw [ancestors_eq above] at below
      exact (List.mem_cons.mp below).imp_left Eq.symm
    · have child := (mem_children_iff ..).mpr ⟨above, within.2⟩
      refine Bool.eq_false_iff.mpr fun isOwn => ?_
      rw [(attribute_alone isOwn).1] at child
      cases child

/-- The climb is not cut off on the way up. -/
theorem climb?_eq (document : Document) (top id : Nat) :
    document.climb? top id = if id = top then none
      else (document.nextSibling? id).or ((document.parent? id).bind (document.climb? top)) := by
  rw [climb?]
  split
  · rfl
  · cases document.nextSibling? id with
    | some sibling => rfl
    | none =>
      cases above : document.parent? id with
      | none => rfl
      | some parent => exact dif_pos (parent?_lt above).2

/-- Behind the end of a node the nodes inside `top` start where the climb leads. -/
theorem startsAt_climb? (within : document.IsWithin top id) :
    document.StartsAt (document.lastInside id) (document.lastInside top)
      (document.climb? top id) := by
  induction id using Nat.strongRecOn with
  | ind id ih =>
    rw [climb?_eq]
    split
    · rename_i same
      rw [same]
      exact nodesBetween_self document _
    · rename_i inner
      obtain ⟨parent, above, up⟩ := within.up inner
      have nested := up.lastInside_le
      have behind : document.skip id = document.lastInside id + 1 := by
        rw [skip, Nat.max_eq_right (le_lastInside ..)]
      have sibling : document.nextSibling? id =
          firstFrom? (document.lastInside id + 1) (document.lastInside parent) := by
        rw [nextSibling?, above, ← behind]
        exact if_neg (by simp [within.2])
      rw [sibling, above]
      by_cases further : document.lastInside id + 1 ≤ document.lastInside parent
      · rw [firstFrom?, if_pos further] at sibling ⊢
        obtain ⟨_, front, back, split⟩ := nextSibling?_eq_some_iff.mp sibling
        have same := split.trans (List.append_cons front id _)
        exact nodesBetween_cons (Nat.lt_succ_self _) (Nat.le_trans further nested)
          (child_of_append same).2 fun _ _ _ => by omega
      · have ends : document.lastInside id = document.lastInside parent := by
          have := lastInside_le_parent above
          omega
        rw [firstFrom?, if_neg further, ends]
        exact ih parent (parent?_lt above).2 up

/-- Behind a node, the nodes inside `top` start where the walk goes on. -/
theorem startsAt_nextInside? (within : document.IsWithin top id) :
    document.StartsAt id (document.lastInside top) (document.nextInside? top id) := by
  have inside := startsAt_firstChild? document id
  have nested := within.lastInside_le
  have whole : document.nodesBetween id (document.lastInside id) ++
      document.nodesBetween (document.lastInside id) (document.lastInside top) =
        document.nodesBetween id (document.lastInside top) :=
    nodesBetween_append (le_lastInside document id) nested
  rw [nextInside?]
  cases first : document.firstChild? id with
  | some child =>
    rw [first] at inside
    rw [StartsAt, ← whole, inside, List.cons_append, nodesBetween_append inside.bounds.2.1 nested]
  | none =>
    rw [first] at inside
    exact (startsAt_climb? within).widen (le_lastInside document id) nested inside

/-- The walk passes what is behind a node and inside `top`, and then ends. -/
theorem follows_nodesBetween (within : document.IsWithin top id) :
    Follows (document.nextInside? top) (document.nextInside? top id)
      (document.nodesBetween id (document.lastInside top)) := by
  have starts := startsAt_nextInside? within
  induction listed : document.nodesBetween id (document.lastInside top) generalizing id with
  | nil =>
    cases onward : document.nextInside? top id with
    | none => rfl
    | some next =>
      rw [onward, StartsAt, listed] at starts
      cases starts
  | cons next rest ih =>
    cases onward : document.nextInside? top id with
    | none =>
      rw [onward, StartsAt, listed] at starts
      cases starts
    | some other =>
      rw [onward] at starts
      obtain ⟨behind, last, kind⟩ := starts.bounds
      rw [StartsAt, listed] at starts
      obtain ⟨rfl, rfl⟩ := List.cons.inj starts
      have onTop : top < next := by
        rcases within.1 with rfl | below
        · exact behind
        · exact Nat.lt_trans (interval_of_mem_ancestors below).1 behind
      have inner := isWithin_of_bounds onTop last kind
      exact ⟨rfl, ih inner (startsAt_nextInside? inner) rfl⟩

theorem follows_inside (document : Document) (id : Nat) :
    Follows (document.nextInside? id) (document.firstChild? id)
      (document.nodesBetween id (document.lastInside id)) := by
  have starts := startsAt_firstChild? document id
  cases first : document.firstChild? id with
  | none =>
    rw [first] at starts
    exact starts ▸ rfl
  | some child =>
    rw [first] at starts
    obtain ⟨behind, last, kind⟩ := starts.bounds
    rw [StartsAt] at starts
    rw [starts]
    exact ⟨rfl, follows_nodesBetween (isWithin_of_bounds behind last kind)⟩

/-- A walk that goes upward in numbers is not cut off. -/
theorem walkFrom_eq {rest : List Nat}
    (follows : Follows (document.nextInside? top) (document.nextInside? top id) rest)
    (ascending : (id :: rest).Pairwise (· < ·))
    (known : ∀ other ∈ rest, other ≤ document.nodeCount) :
    document.walkFrom top id = id :: rest := by
  induction rest generalizing id with
  | nil =>
    have ends : document.nextInside? top id = none := follows
    rw [walkFrom, ends]
  | cons next rest ih =>
    obtain ⟨onward, follows⟩ := follows
    obtain ⟨above, ascending⟩ := List.pairwise_cons.mp ascending
    obtain ⟨bound, known⟩ := List.forall_mem_cons.mp known
    rw [walkFrom, onward]
    simp only [above next List.mem_cons_self, bound, and_self, dif_pos, ih follows ascending known]

theorem nodesBetween_pairwise (document : Document) (after last : Nat) :
    (document.nodesBetween after last).Pairwise (· < ·) :=
  List.Pairwise.filter _ List.pairwise_lt_range'

/-- The walk over everything inside a node passes its interval, attributes apart. -/
theorem descendants_eq (document : Document) (id : Nat) :
    document.descendants id = document.nodesBetween id (document.lastInside id) := by
  have follows := follows_inside document id
  have ascending := nodesBetween_pairwise document id (document.lastInside id)
  rw [descendants]
  cases listed : document.nodesBetween id (document.lastInside id) with
  | nil =>
    rw [listed] at follows
    have none : document.firstChild? id = none := follows
    rw [none]
  | cons child rest =>
    rw [listed] at follows ascending
    obtain ⟨first, further⟩ := follows
    rw [first]
    refine walkFrom_eq further ascending fun other member => ?_
    have inside : other ∈ document.nodesBetween id (document.lastInside id) :=
      listed ▸ List.mem_cons_of_mem child member
    have bound := (List.mem_range'_1.mp (List.mem_filter.mp inside).1).2
    have known : (document.node? id).isSome = true := by
      rw [firstChild?_eq_head?] at first
      have above := ((mem_children_iff ..).mp (List.mem_of_mem_head? first)).1
      exact (isSome_node? document id).mpr ⟨(parent?_lt above).1, by
        have := (child_bounds (List.mem_of_mem_head? first))
        omega⟩
    have := lastInside_le_nodeCount known
    have := le_lastInside document id
    omega

theorem mem_descendants_iff_bounds (kind : document.isAttribute next = false) :
    next ∈ document.descendants id ↔ id < next ∧ next ≤ document.lastInside id := by
  rw [descendants_eq, mem_nodesBetween kind]

theorem mem_descendants_iff {id outer : Nat} :
    id ∈ document.descendants outer ↔
      outer ∈ document.ancestors id ∧ document.isAttribute id = false := by
  rw [descendants_eq, nodesBetween, List.mem_filter, List.mem_range'_1]
  cases kind : document.isAttribute id with
  | true => simp
  | false =>
    rw [mem_ancestors_iff kind]
    have := le_lastInside document outer
    simp only [Bool.not_false, and_true]
    omega

end XmlSelect.Document
