import Mathlib.Data.List.Infix
import Mathlib.Data.List.Induction
import Mathlib.Logic.Relation
import XmlSelect.Proofs.CacheRefinement
import XmlSelect.Proofs.DocumentOrder

/-! The slots of a `Recency` are neither lost nor shared: whatever was done with the keys, each
slot has one place in the order of use or is vacant, and all links lead to slots. So a cache has no
more slots than it was ever allowed to have expressions. -/
namespace XmlSelect.Gate

namespace Recency

/-- The slot of the key that was used next before the one in a slot. -/
def older? (recency : Recency) (id : Nat) : Option Nat := recency.slots[id]?.bind (·.older)

/-- The slot of the key that was used next after the one in a slot. -/
def newer? (recency : Recency) (id : Nat) : Option Nat := recency.slots[id]?.bind (·.newer)

/-- What can be done with the keys; only a key that is not there is added. -/
inductive Step (recency : Recency) : Recency → Prop
  | touch {key : Text} {touched : Recency} (found : recency.touch? key = some touched) :
      Step recency touched
  | push {key : Text} (absent : recency.contains key = false) : Step recency (recency.push key)
  | dropOldest : Step recency recency.dropOldest
  | clear : Step recency empty

/-- What leads to a slot: both ends, the links of the slots in `order`, the index and the list of
vacant slots. -/
inductive LeadsTo (recency : Recency) (order : List Nat) (id : Nat) : Prop
  | newest (here : recency.newest = some id)
  | oldest (here : recency.oldest = some id)
  | older {other : Nat} (listed : other ∈ order) (here : recency.older? other = some id)
  | newer {other : Nat} (listed : other ∈ order) (here : recency.newer? other = some id)
  | indexed {key : Text} (here : recency.index[key]? = some id)
  | vacant (here : id ∈ recency.vacant)

/-- The slots in use are those of `order`, the newest first: the links pass them in both
directions, the index leads from each key to the slot that holds it, and all other slots are
vacant. -/
structure Intact (recency : Recency) (order : List Nat) : Prop where
  forward : Follows recency.older? recency.newest order
  backward : Follows recency.newer? recency.oldest order.reverse
  nodup : order.Nodup
  inverse : ∀ id ∈ order, ∀ other ∈ order,
    recency.older? id = some other ↔ recency.newer? other = some id
  in_use : ∀ id, id ∈ order ↔ ∃ key : Text, recency.index[key]? = some id
  own_slot : ∀ (key : Text) (id : Nat), recency.index[key]? = some id ↔
    id ∈ order ∧ recency.slots[id]?.map (·.key) = some key
  vacant_nodup : recency.vacant.Nodup
  vacant_iff : ∀ id, id ∈ recency.vacant ↔ id < recency.slots.size ∧ id ∉ order
  in_range : ∀ id, recency.LeadsTo order id → id < recency.slots.size

section Links

variable {recency : Recency} {newer older : Option Nat} {entries : List (Nat × Text)}

theorem Linked.follows_older (linked : Linked recency.slots none newer entries) :
    Follows recency.older? (firstSlot none entries) (entries.map Prod.fst) := by
  induction entries generalizing newer with
  | nil => rfl
  | cons entry rest ih =>
    obtain ⟨here, further⟩ := linked
    refine ⟨rfl, ?_⟩
    rw [older?, here]
    exact ih further

theorem Linked.follows_newer (linked : Linked recency.slots older none entries) :
    Follows recency.newer? (lastSlot none entries) (entries.map Prod.fst).reverse := by
  induction entries using List.reverseRecOn generalizing older with
  | nil => rfl
  | append_singleton front entry ih =>
    obtain ⟨before, here, -⟩ := (linked_append ..).mp linked
    rw [lastSlot_append, List.map_append, List.reverse_append]
    refine ⟨rfl, ?_⟩
    rw [newer?, here]
    exact ih before

end Links

namespace Represents

variable {recency changed : Recency} {entries : List (Nat × Text)} {id other : Nat}

/-- The neighbours of a slot in the order are those that its links give. -/
theorem exists_between (represents : Represents recency entries)
    (listed : id ∈ entries.map Prod.fst) : ∃ front key back,
      entries = front ++ (id, key) :: back ∧
        recency.slots[id]? = some ⟨key, lastSlot none front, firstSlot none back⟩ := by
  obtain ⟨⟨_, key⟩, member, rfl⟩ := List.mem_map.mp listed
  obtain ⟨front, back, rfl⟩ := List.append_of_mem member
  exact ⟨front, key, back, rfl, represents.ordered.slot_between⟩

theorem newer_of_older (represents : Represents recency entries)
    (listed : id ∈ entries.map Prod.fst) (link : recency.older? id = some other) :
    other ∈ entries.map Prod.fst ∧ recency.newer? other = some id := by
  obtain ⟨front, key, back, rfl, here⟩ := represents.exists_between listed
  rw [older?, here] at link
  cases back with
  | nil => cases link
  | cons entry back =>
    cases link
    have moved : front ++ (id, key) :: entry :: back = (front ++ [(id, key)]) ++ entry :: back := by
      rw [List.append_assoc, List.singleton_append]
    rw [moved] at represents
    have behind := represents.ordered.slot_between
    refine ⟨by simp, ?_⟩
    rw [newer?, behind, lastSlot_append]
    rfl

theorem older_of_newer (represents : Represents recency entries)
    (listed : other ∈ entries.map Prod.fst) (link : recency.newer? other = some id) :
    id ∈ entries.map Prod.fst ∧ recency.older? id = some other := by
  obtain ⟨front, key, back, rfl, here⟩ := represents.exists_between listed
  rw [newer?, here] at link
  rcases List.eq_nil_or_concat' front with rfl | ⟨front, entry, rfl⟩
  · cases link
  · rw [lastSlot_append] at link
    cases link
    rw [List.append_assoc, List.singleton_append] at represents
    have before := represents.ordered.slot_between
    refine ⟨by simp, ?_⟩
    rw [older?, before]
    rfl

theorem in_range (represents : Represents recency entries)
    (leads : recency.LeadsTo (entries.map Prod.fst) id) : id < recency.slots.size := by
  have known : ∀ other ∈ entries.map Prod.fst, other < recency.slots.size := fun other listed =>
    List.mem_range.mp (represents.slots_perm.mem_iff.mp (List.mem_append_left _ listed))
  cases leads with
  | newest here =>
    rw [represents.ordered.newest] at here
    cases entries with
    | nil => cases here
    | cons entry rest =>
      cases here
      exact known _ List.mem_cons_self
  | oldest here =>
    rw [represents.ordered.oldest] at here
    rcases List.eq_nil_or_concat' entries with rfl | ⟨front, entry, rfl⟩
    · cases here
    · rw [lastSlot_append] at here
      cases here
      exact known _ (by simp)
  | older listed here => exact known _ (represents.newer_of_older listed here).1
  | newer listed here => exact known _ (represents.older_of_newer listed here).1
  | indexed here =>
    exact known _ (List.mem_map.mpr ⟨_, (represents.indexed _ _).mp here, rfl⟩)
  | vacant here =>
    exact List.mem_range.mp (represents.slots_perm.mem_iff.mp (List.mem_append_right _ here))

theorem intact (represents : Represents recency entries) :
    recency.Intact (entries.map Prod.fst) where
  forward := by
    rw [represents.ordered.newest]
    exact represents.ordered.linked.follows_older
  backward := by
    rw [represents.ordered.oldest]
    exact represents.ordered.linked.follows_newer
  nodup := represents.ordered.nodup
  inverse id listed other listed' :=
    ⟨fun link => (represents.newer_of_older listed link).2,
      fun link => (represents.older_of_newer listed' link).2⟩
  in_use id := by
    constructor
    · intro listed
      obtain ⟨⟨_, key⟩, member, rfl⟩ := List.mem_map.mp listed
      exact ⟨key, (represents.indexed key _).mpr member⟩
    · rintro ⟨key, found⟩
      exact List.mem_map.mpr ⟨(id, key), (represents.indexed key id).mp found, rfl⟩
  own_slot key id := by
    rw [represents.indexed]
    constructor
    · intro member
      obtain ⟨front, back, rfl⟩ := List.append_of_mem member
      exact ⟨List.mem_map.mpr ⟨(id, key), member, rfl⟩, by
        rw [represents.ordered.slot_between]
        rfl⟩
    · rintro ⟨listed, held⟩
      obtain ⟨front, own, back, rfl, here⟩ := represents.exists_between listed
      rw [here] at held
      cases held
      exact List.mem_append_right front List.mem_cons_self
  vacant_nodup :=
    (List.nodup_append'.mp (represents.slots_perm.nodup_iff.mpr List.nodup_range)).2.1
  vacant_iff id := by
    have slots := represents.slots_perm
    obtain ⟨-, -, apart⟩ := List.nodup_append'.mp (slots.nodup_iff.mpr List.nodup_range)
    rw [← List.mem_range, ← slots.mem_iff, List.mem_append]
    constructor
    · exact fun vacant => ⟨.inr vacant, fun listed => apart listed vacant⟩
    · rintro ⟨listed | vacant, unlisted⟩
      · exact absurd listed unlisted
      · exact vacant
  in_range id := represents.in_range

/-- Each use of the keys leaves the slots in order. -/
theorem step (represents : Represents recency entries) (step : Step recency changed) :
    ∃ entries, Represents changed entries := by
  cases step with
  | @touch key touched found =>
    by_cases present : key ∈ entries.map Prod.snd
    · obtain ⟨⟨id, _⟩, member, rfl⟩ := List.mem_map.mp present
      obtain ⟨front, back, rfl⟩ := List.append_of_mem member
      obtain ⟨moved, same, after⟩ := represents.touch_present
      cases same.symm.trans found
      exact ⟨_, after⟩
    · rw [represents.touch_absent present] at found
      cases found
  | @push key absent =>
    have unlisted : key ∉ entries.map Prod.snd := by
      rw [← represents.contains_iff, absent]
      exact Bool.false_ne_true
    obtain ⟨id, after⟩ := represents.push unlisted
    exact ⟨_, after⟩
  | dropOldest =>
    have shrunk := represents.dropOldestMany 1
    exact ⟨_, shrunk⟩
  | clear => exact ⟨[], .empty⟩

end Represents

theorem represents_of_steps {recency : Recency}
    (steps : Relation.ReflTransGen Step empty recency) : ∃ entries, Represents recency entries := by
  induction steps with
  | refl => exact ⟨[], .empty⟩
  | tail _ last ih =>
    obtain ⟨entries, represents⟩ := ih
    exact represents.step last

section Room

variable (recency : Recency)

@[simp] theorem size_slots_dropOldest : recency.dropOldest.slots.size = recency.slots.size := by
  unfold dropOldest
  split
  · rfl
  · split
    · rfl
    · exact size_slots_unlink ..

@[simp] theorem size_slots_dropOldestMany (count : Nat) :
    (recency.dropOldestMany count).slots.size = recency.slots.size := by
  induction count generalizing recency with
  | zero => rfl
  | succ count ih => rw [dropOldestMany, ih, size_slots_dropOldest]

@[simp] theorem size_slots_shrinkTo (limit : Nat) :
    (recency.shrinkTo limit).slots.size = recency.slots.size :=
  size_slots_dropOldestMany ..

variable {recency}

theorem size_slots_touch {key : Text} {touched : Recency}
    (found : recency.touch? key = some touched) : touched.slots.size = recency.slots.size := by
  obtain ⟨id, -, rfl⟩ := Option.map_eq_some_iff.mp found
  split
  · rfl
  · rw [size_slots_linkNewest, size_slots_unlink]

/-- A slot is only added when all slots are in use. -/
theorem Represents.size_slots_push {entries : List (Nat × Text)} {limit : Nat}
    (represents : Represents recency entries) (before : recency.slots.size ≤ limit)
    (room : entries.length < limit) (key : Text) : (recency.push key).slots.size ≤ limit := by
  have all := represents.slots_perm.length_eq
  rw [List.length_append, List.length_map, List.length_range] at all
  cases vacant : recency.vacant with
  | nil =>
    rw [vacant, List.length_nil] at all
    simp only [Recency.push, vacant, size_slots_linkNewest, Array.size_push]
    omega
  | cons id others =>
    simp only [Recency.push, vacant, size_slots_linkNewest, Array.size_setIfInBounds]
    exact before

end Room

end Recency

section Bound

variable {cache : Cache} {list : UseList} {limit : Nat}

theorem Cache.Refines.size_slots_check (refines : cache.Refines list)
    (before : cache.accepted.slots.size ≤ limit) (bound : cache.settings.maxSize ≤ limit)
    (text : Text) : (cache.check text).2.accepted.slots.size ≤ limit := by
  unfold Cache.check
  split
  · rename_i touched found
    split at found
    · rw [Recency.size_slots_touch found]
      exact before
    · cases found
  · split
    · exact before
    · dsimp only
      split
      · unfold Cache.store
        split
        · exact before
        · rename_i room
          obtain ⟨entries, represents, -⟩ := refines.keys
          refine (represents.shrinkTo _).size_slots_push ?_ ?_ text
          · rw [Recency.size_slots_shrinkTo]
            exact before
          · rw [List.length_take]
            omega
      · exact before

/-- A request leaves as many slots as there were, if there is no need for one more. -/
theorem Cache.Refines.size_slots_serve (refines : cache.Refines list)
    (before : cache.accepted.slots.size ≤ limit) (bound : cache.settings.maxSize ≤ limit)
    (request : Request) : (cache.serve request).accepted.slots.size ≤ limit := by
  cases request with
  | check text => exact refines.size_slots_check before bound text
  | clear => exact Nat.zero_le limit
  | setCaching caching => exact before
  | setMaxSize value =>
    simp only [Cache.serve, Cache.setMaxSize]
    split
    · exact before
    · rw [Recency.size_slots_shrinkTo]
      exact before
  | setMaxLength value =>
    simp only [Cache.serve, Cache.setMaxLength]
    split
    · exact before
    · split
      · exact before
      · exact Nat.zero_le limit

theorem Cache.Refines.size_slots_serveAll (refines : cache.Refines list)
    (before : cache.accepted.slots.size ≤ limit) (requests : List Request)
    (bound : ∀ front, front <+: requests → (cache.serveAll front).settings.maxSize ≤ limit) :
    (cache.serveAll requests).accepted.slots.size ≤ limit := by
  induction requests generalizing cache list with
  | nil => exact before
  | cons request rest ih =>
    have now : cache.settings.maxSize ≤ limit := bound [] List.nil_prefix
    refine ih (refines.serve request) (refines.size_slots_serve before now request) ?_
    exact fun front leading => bound (request :: front) (List.cons_prefix_cons.mpr ⟨rfl, leading⟩)

end Bound

/-- Whatever is done with an empty set of keys, its slots stay in order; and a cache that never
was allowed more than `limit` expressions has no more slots than that. -/
theorem slots_intact :
    (∀ recency, Relation.ReflTransGen Recency.Step .empty recency →
      ∃ order, recency.Intact order) ∧
    ∀ (settings : Settings) (validator : Validator) (requests : List Request) (limit : Nat),
      (∀ front, front <+: requests →
        (Cache.serveAll { settings, validator } front).settings.maxSize ≤ limit) →
      (Cache.serveAll { settings, validator } requests).accepted.slots.size ≤ limit ∧
        ∃ order, (Cache.serveAll { settings, validator } requests).accepted.Intact order := by
  refine ⟨fun recency steps => ?_, fun settings validator requests limit bound => ⟨?_, ?_⟩⟩
  · obtain ⟨entries, represents⟩ := Recency.represents_of_steps steps
    exact ⟨_, represents.intact⟩
  · have start : Cache.Refines { settings, validator } { settings, validator } :=
      ⟨rfl, rfl, [], .empty, rfl⟩
    exact start.size_slots_serveAll (Nat.zero_le limit) requests bound
  · obtain ⟨entries, represents, -⟩ := (refines_serveAll settings validator requests).keys
    exact ⟨_, represents.intact⟩

/-- A key in the slot of one that was dropped, and a cache of two places that is asked for more. -/
theorem slots_intact_reused :
    let recency := (Recency.empty.push "a".toList).dropOldest.push "b".toList
    let settings : Settings := { maxSize := 2 }
    let requests : List Request :=
      [.check "//a".toList, .check "//b".toList, .check "//c".toList, .setMaxSize 1]
    (Relation.ReflTransGen Recency.Step .empty recency ∧ ∃ order, recency.Intact order) ∧
      (∀ front, front <+: requests →
        (Cache.serveAll { settings, validator := {} } front).settings.maxSize ≤ 2) ∧
      (Cache.serveAll { settings, validator := {} } requests).accepted.slots.size ≤ 2 := by
  intro recency settings requests
  have pushed : ∃ id, (Recency.empty.push "a".toList).Represents ([] ++ [(id, "a".toList)]) :=
    Recency.Represents.empty.push List.not_mem_nil
  obtain ⟨id, pushed⟩ := pushed
  have dropped := pushed.dropOldest
  have absent : (Recency.empty.push "a".toList).dropOldest.contains "b".toList = false := by
    rw [Bool.eq_false_iff]
    exact fun found => List.not_mem_nil ((dropped.contains_iff _).mp found)
  have steps : Relation.ReflTransGen Recency.Step .empty recency :=
    .tail (.tail (.single (.push (by simp [Recency.contains, Recency.empty]))) .dropOldest)
      (.push absent)
  have bound : ∀ front, front <+: requests →
      (Cache.serveAll { settings, validator := {} } front).settings.maxSize ≤ 2 := by
    intro front leading
    rw [(refines_serveAll settings {} front).settings]
    have all : ∀ front ∈ requests.inits,
        (UseList.serveAll { settings, validator := {} } front).settings.maxSize ≤ 2 := by
      decide +kernel
    exact all front ((List.mem_inits ..).mpr leading)
  exact ⟨⟨steps, slots_intact.1 recency steps⟩, bound,
    (slots_intact.2 settings {} requests 2 bound).1⟩

end XmlSelect.Gate
