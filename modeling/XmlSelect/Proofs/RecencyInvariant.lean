import Mathlib.Data.List.Nodup
import Mathlib.Data.List.Perm.Basic
import XmlSelect.Gate.Recency

/-! The slots of a `Recency` against a plain list of slots and keys, newest first: what each
operation does to the links, the index and the vacant slots is said once, as a change of that
list. -/
namespace XmlSelect.Gate.Recency

/-- The slot of the first entry; without an entry it is the one behind them. -/
def firstSlot (older : Option Nat) : List (Nat × Text) → Option Nat
  | [] => older
  | (id, _) :: _ => some id

/-- The slot of the last entry; without an entry it is the one in front of them. -/
def lastSlot : (newer : Option Nat) → List (Nat × Text) → Option Nat
  | newer, [] => newer
  | _, (id, _) :: rest => lastSlot (some id) rest

/-- Each slot holds its key and leads to its neighbours in both directions. Beyond the ends stand
the slots `newer` and `older`. -/
def Linked (slots : Array Slot) (older : Option Nat) :
    (newer : Option Nat) → List (Nat × Text) → Prop
  | _, [] => True
  | newer, (id, key) :: rest =>
    slots[id]? = some ⟨key, newer, firstSlot older rest⟩ ∧ Linked slots older (some id) rest

@[simp] theorem firstSlot_append (older : Option Nat) (front back : List (Nat × Text)) :
    firstSlot older (front ++ back) = firstSlot (firstSlot older back) front := by
  cases front <;> rfl

@[simp] theorem lastSlot_append (newer : Option Nat) (front back : List (Nat × Text)) :
    lastSlot newer (front ++ back) = lastSlot (lastSlot newer front) back := by
  induction front generalizing newer with
  | nil => rfl
  | cons entry rest ih => exact ih (some entry.1)

theorem linked_append (slots : Array Slot) (older newer : Option Nat)
    (front back : List (Nat × Text)) :
    Linked slots older newer (front ++ back) ↔
      Linked slots (firstSlot older back) newer front ∧
        Linked slots older (lastSlot newer front) back := by
  induction front generalizing newer with
  | nil => simp [Linked, lastSlot]
  | cons entry rest ih => simp [Linked, lastSlot, ih, and_assoc]

/-- Links depend on the slots of the entries alone. -/
theorem Linked.frame {slots changed : Array Slot} {older newer : Option Nat}
    {entries : List (Nat × Text)} (linked : Linked slots older newer entries)
    (same : ∀ entry ∈ entries, changed[entry.1]? = slots[entry.1]?) :
    Linked changed older newer entries := by
  induction entries generalizing newer with
  | nil => trivial
  | cons entry rest ih =>
    obtain ⟨here, further⟩ := linked
    refine ⟨?_, ih further fun other member => same other (List.mem_cons_of_mem entry member)⟩
    rw [same entry List.mem_cons_self]
    exact here

section Links

variable (recency : Recency)

@[simp] theorem index_setOlder (id older : Option Nat) :
    (recency.setOlder id older).index = recency.index := by cases id <;> rfl

@[simp] theorem index_setNewer (id newer : Option Nat) :
    (recency.setNewer id newer).index = recency.index := by cases id <;> rfl

@[simp] theorem vacant_setOlder (id older : Option Nat) :
    (recency.setOlder id older).vacant = recency.vacant := by cases id <;> rfl

@[simp] theorem vacant_setNewer (id newer : Option Nat) :
    (recency.setNewer id newer).vacant = recency.vacant := by cases id <;> rfl

@[simp] theorem size_slots_setOlder (id older : Option Nat) :
    (recency.setOlder id older).slots.size = recency.slots.size := by
  cases id <;> simp [setOlder]

@[simp] theorem size_slots_setNewer (id newer : Option Nat) :
    (recency.setNewer id newer).slots.size = recency.slots.size := by
  cases id <;> simp [setNewer]

@[simp] theorem oldest_setOlder (id older : Option Nat) :
    (recency.setOlder id older).oldest = recency.oldest := by cases id <;> rfl

@[simp] theorem newest_setNewer (id newer : Option Nat) :
    (recency.setNewer id newer).newest = recency.newest := by cases id <;> rfl

@[simp] theorem newest_setOlder_some (id : Nat) (older : Option Nat) :
    (recency.setOlder (some id) older).newest = recency.newest := rfl

@[simp] theorem oldest_setNewer_some (id : Nat) (newer : Option Nat) :
    (recency.setNewer (some id) newer).oldest = recency.oldest := rfl

theorem slots_setOlder_of_ne {id : Option Nat} {other : Nat} (different : id ≠ some other)
    (older : Option Nat) : (recency.setOlder id older).slots[other]? = recency.slots[other]? := by
  cases id with
  | none => rfl
  | some id => simp_all [setOlder, Array.getElem?_modify]

theorem slots_setNewer_of_ne {id : Option Nat} {other : Nat} (different : id ≠ some other)
    (newer : Option Nat) : (recency.setNewer id newer).slots[other]? = recency.slots[other]? := by
  cases id with
  | none => rfl
  | some id => simp_all [setNewer, Array.getElem?_modify]

theorem slots_setOlder_self (id : Nat) (older : Option Nat) :
    (recency.setOlder (some id) older).slots[id]? =
      recency.slots[id]?.map ({ · with older := older }) := by
  simp [setOlder, Array.getElem?_modify]

theorem slots_setNewer_self (id : Nat) (newer : Option Nat) :
    (recency.setNewer (some id) newer).slots[id]? =
      recency.slots[id]?.map ({ · with newer := newer }) := by
  simp [setNewer, Array.getElem?_modify]

end Links

/-- The slots of two runs of entries are apart. -/
private theorem slot_ne_of_nodup {front back : List (Nat × Text)}
    (nodup : ((front ++ back).map Prod.fst).Nodup) {left right : Nat × Text}
    (first : left ∈ front) (second : right ∈ back) : left.1 ≠ right.1 := by
  rw [List.map_append, List.nodup_append'] at nodup
  intro same
  exact nodup.2.2 (List.mem_map_of_mem first) (same ▸ List.mem_map_of_mem second)

private theorem firstSlot_ne_of_nodup {front back : List (Nat × Text)}
    (nodup : ((front ++ back).map Prod.fst).Nodup) {entry : Nat × Text} (member : entry ∈ front) :
    firstSlot none back ≠ some entry.1 := by
  intro same
  cases back with
  | nil => cases same
  | cons other rest =>
    exact slot_ne_of_nodup nodup member List.mem_cons_self (Option.some.inj same).symm

private theorem lastSlot_ne_of_nodup {front back : List (Nat × Text)}
    (nodup : ((front ++ back).map Prod.fst).Nodup) {entry : Nat × Text} (member : entry ∈ back) :
    lastSlot none front ≠ some entry.1 := by
  intro same
  rcases List.eq_nil_or_concat' front with rfl | ⟨start, other, rfl⟩
  · cases same
  · rw [lastSlot_append] at same
    exact slot_ne_of_nodup nodup (List.mem_append_right start (List.mem_singleton_self other))
      member (Option.some.inj same)

/-- Where the last entry leads to is changed; all other links stay. -/
theorem Linked.setOlder {recency : Recency} {older : Option Nat} {entries : List (Nat × Text)}
    (linked : Linked recency.slots older none entries) (nodup : (entries.map Prod.fst).Nodup)
    (target : Option Nat) :
    Linked (recency.setOlder (lastSlot none entries) target).slots target none entries := by
  rcases List.eq_nil_or_concat' entries with rfl | ⟨front, ⟨id, key⟩, rfl⟩
  · trivial
  · rw [linked_append] at linked ⊢
    obtain ⟨before, here, -⟩ := linked
    refine ⟨before.frame fun entry member => slots_setOlder_of_ne recency ?_ target, ?_, trivial⟩
    · rw [lastSlot_append]
      intro same
      exact slot_ne_of_nodup nodup member (List.mem_singleton_self (id, key))
        (Option.some.inj same).symm
    · rw [lastSlot_append, lastSlot, lastSlot, slots_setOlder_self, here]
      rfl

/-- Where the first entry leads back to is changed; all other links stay. -/
theorem Linked.setNewer {recency : Recency} {newer : Option Nat} {entries : List (Nat × Text)}
    (linked : Linked recency.slots none newer entries) (nodup : (entries.map Prod.fst).Nodup)
    (target : Option Nat) :
    Linked (recency.setNewer (firstSlot none entries) target).slots none target entries := by
  cases entries with
  | nil => trivial
  | cons entry rest =>
    obtain ⟨here, further⟩ := linked
    refine ⟨?_, further.frame fun other member => slots_setNewer_of_ne recency ?_ target⟩
    · rw [firstSlot, slots_setNewer_self, here]
      rfl
    · intro same
      have whole : (([entry] ++ rest).map Prod.fst).Nodup := nodup
      exact slot_ne_of_nodup whole (List.mem_singleton_self entry) member (Option.some.inj same)

theorem newest_setOlder {recency : Recency} {older : Option Nat} {entries : List (Nat × Text)}
    (newest : recency.newest = firstSlot older entries) (target : Option Nat) :
    (recency.setOlder (lastSlot none entries) target).newest = firstSlot target entries := by
  rcases List.eq_nil_or_concat' entries with rfl | ⟨front, entry, rfl⟩
  · rfl
  · rw [lastSlot_append, lastSlot, lastSlot, newest_setOlder_some, newest, firstSlot_append,
      firstSlot_append]
    rfl

theorem oldest_setNewer {recency : Recency} {newer : Option Nat} {entries : List (Nat × Text)}
    (oldest : recency.oldest = lastSlot newer entries) (target : Option Nat) :
    (recency.setNewer (firstSlot none entries) target).oldest = lastSlot target entries := by
  cases entries with
  | nil => rfl
  | cons entry rest => exact oldest

/-- The order of use: links in both directions between both ends. -/
structure Ordered (recency : Recency) (entries : List (Nat × Text)) : Prop where
  linked : Linked recency.slots none none entries
  newest : recency.newest = firstSlot none entries
  oldest : recency.oldest = lastSlot none entries
  nodup : (entries.map Prod.fst).Nodup

/-- The order stays as long as its slots and both ends do. -/
theorem Ordered.frame {recency changed : Recency} {entries : List (Nat × Text)}
    (ordered : Ordered recency entries)
    (same : ∀ entry ∈ entries, changed.slots[entry.1]? = recency.slots[entry.1]?)
    (newest : changed.newest = recency.newest) (oldest : changed.oldest = recency.oldest) :
    Ordered changed entries :=
  ⟨ordered.linked.frame same, newest.trans ordered.newest, oldest.trans ordered.oldest,
    ordered.nodup⟩

section Unlink

variable {recency : Recency} {front back : List (Nat × Text)} {id : Nat} {key : Text}

/-- What the slot of an entry between two runs of entries holds. -/
theorem Ordered.slot_between (ordered : Ordered recency (front ++ (id, key) :: back)) :
    recency.slots[id]? = some ⟨key, lastSlot none front, firstSlot none back⟩ := by
  obtain ⟨-, here, -⟩ := (linked_append ..).mp ordered.linked
  exact here

theorem Ordered.apart (ordered : Ordered recency (front ++ (id, key) :: back)) :
    ((front ++ back).map Prod.fst).Nodup ∧ ∀ entry ∈ front ++ back, id ≠ entry.1 := by
  have nodup := ordered.nodup
  rw [List.map_append, List.map_cons, List.nodup_middle, ← List.map_append,
    List.nodup_cons] at nodup
  refine ⟨nodup.2, fun entry member same => nodup.1 ?_⟩
  exact List.mem_map.mpr ⟨entry, member, same.symm⟩

/-- The runs on both sides of an entry, with their ends linked to each other. -/
theorem Ordered.close (ordered : Ordered recency (front ++ (id, key) :: back)) :
    Ordered ((recency.setOlder (lastSlot none front) (firstSlot none back)).setNewer
      (firstSlot none back) (lastSlot none front)) (front ++ back) := by
  obtain ⟨before, -, behind⟩ := (linked_append ..).mp ordered.linked
  obtain ⟨nodup, -⟩ := ordered.apart
  have frontNodup := nodup.sublist ((List.sublist_append_left front back).map _)
  have backNodup := nodup.sublist ((List.sublist_append_right front back).map _)
  refine ⟨(linked_append ..).mpr ⟨?_, ?_⟩, ?_, ?_, nodup⟩
  · exact (before.setOlder frontNodup _).frame fun entry member =>
      slots_setNewer_of_ne _ (firstSlot_ne_of_nodup nodup member) _
  · refine Linked.setNewer (behind.frame fun entry member => ?_) backNodup _
    exact slots_setOlder_of_ne recency (lastSlot_ne_of_nodup nodup member) _
  · have newest := ordered.newest
    rw [firstSlot_append] at newest
    rw [newest_setNewer, newest_setOlder newest, firstSlot_append]
  · have oldest := ordered.oldest
    rw [lastSlot_append, lastSlot] at oldest
    rw [oldest_setNewer ((oldest_setOlder ..).trans oldest), lastSlot_append]

/-- A slot taken out leaves the other entries in their order. -/
theorem Ordered.unlink (ordered : Ordered recency (front ++ (id, key) :: back)) :
    Ordered (recency.unlink id) (front ++ back) := by
  obtain ⟨-, apart⟩ := ordered.apart
  rw [Recency.unlink, ordered.slot_between]
  refine ordered.close.frame (fun entry member => ?_) rfl rfl
  have different : some id ≠ some entry.1 := fun same => apart entry member (Option.some.inj same)
  rw [slots_setOlder_of_ne _ different, slots_setNewer_of_ne _ different]

end Unlink

/-- A slot that is in no place of the order becomes the newest. -/
theorem Ordered.linkNewest {recency : Recency} {entries : List (Nat × Text)} {id : Nat}
    {key : Text} (ordered : Ordered recency entries)
    (held : recency.slots[id]?.map (·.key) = some key) (fresh : ∀ entry ∈ entries, id ≠ entry.1) :
    Ordered (recency.linkNewest id) ((id, key) :: entries) := by
  let placed := (recency.setNewer (some id) none).setOlder (some id) (firstSlot none entries)
  have different : ∀ entry ∈ entries, some id ≠ some entry.1 :=
    fun entry member same => fresh entry member (Option.some.inj same)
  have kept : Ordered placed entries := ordered.frame (fun entry member => by
    rw [slots_setOlder_of_ne _ (different entry member),
      slots_setNewer_of_ne _ (different entry member)]) rfl rfl
  have linked := kept.linked.setNewer ordered.nodup (some id)
  have outside : firstSlot none entries ≠ some id := by
    cases entries with
    | nil => exact nofun
    | cons entry rest =>
      exact fun same => fresh entry List.mem_cons_self (Option.some.inj same).symm
  have unfolded : recency.linkNewest id =
      { placed.setNewer (firstSlot none entries) (some id) with newest := some id } := by
    rw [Recency.linkNewest, ordered.newest]
  rw [unfolded]
  refine ⟨⟨?_, linked⟩, rfl, oldest_setNewer kept.oldest (some id), ?_⟩
  · rw [slots_setNewer_of_ne _ outside, slots_setOlder_self, slots_setNewer_self]
    cases found : recency.slots[id]? with
    | none => simp [found] at held
    | some slot => simp_all
  · rw [List.map_cons, List.nodup_cons]
    refine ⟨fun member => ?_, ordered.nodup⟩
    obtain ⟨entry, present, same⟩ := List.mem_map.mp member
    exact fresh entry present same.symm

section Frame

variable (recency : Recency) (id : Nat)

@[simp] theorem key_setOlder (target older : Option Nat) :
    (recency.setOlder target older).slots[id]?.map (·.key) =
      recency.slots[id]?.map (·.key) := by
  cases target with
  | none => rfl
  | some other =>
    by_cases same : other = id <;> simp [setOlder, Array.getElem?_modify, same, Function.comp_def]

@[simp] theorem key_setNewer (target newer : Option Nat) :
    (recency.setNewer target newer).slots[id]?.map (·.key) =
      recency.slots[id]?.map (·.key) := by
  cases target with
  | none => rfl
  | some other =>
    by_cases same : other = id <;> simp [setNewer, Array.getElem?_modify, same, Function.comp_def]

@[simp] theorem key_unlink (other : Nat) :
    (recency.unlink other).slots[id]?.map (·.key) = recency.slots[id]?.map (·.key) := by
  unfold unlink
  split <;> simp

@[simp] theorem index_unlink : (recency.unlink id).index = recency.index := by
  unfold unlink
  split <;> simp

@[simp] theorem vacant_unlink : (recency.unlink id).vacant = recency.vacant := by
  unfold unlink
  split <;> simp

@[simp] theorem size_slots_unlink : (recency.unlink id).slots.size = recency.slots.size := by
  unfold unlink
  split <;> simp

@[simp] theorem index_linkNewest : (recency.linkNewest id).index = recency.index := by
  simp [linkNewest]

@[simp] theorem vacant_linkNewest : (recency.linkNewest id).vacant = recency.vacant := by
  simp [linkNewest]

@[simp] theorem size_slots_linkNewest :
    (recency.linkNewest id).slots.size = recency.slots.size := by
  simp [linkNewest]

end Frame

/-- A set of keys in the order of `entries`: the links give the order, the index leads from each
key to its slot, and each slot is in one place of the order or vacant. -/
structure Represents (recency : Recency) (entries : List (Nat × Text)) : Prop where
  ordered : Ordered recency entries
  indexed : ∀ key id, recency.index[key]? = some id ↔ (id, key) ∈ entries
  keys_nodup : (entries.map Prod.snd).Nodup
  slots_perm : (entries.map Prod.fst ++ recency.vacant).Perm (List.range recency.slots.size)

namespace Represents

variable {recency : Recency} {entries : List (Nat × Text)}

theorem empty : Represents empty [] :=
  ⟨⟨trivial, rfl, rfl, List.nodup_nil⟩, by simp [Recency.empty], List.nodup_nil, by
    simp [Recency.empty]⟩

theorem contains_iff (represents : Represents recency entries) (key : Text) :
    recency.contains key = true ↔ key ∈ entries.map Prod.snd := by
  rw [Recency.contains, Std.HashMap.contains_eq_isSome_getElem?, Option.isSome_iff_exists]
  constructor
  · rintro ⟨id, found⟩
    exact List.mem_map.mpr ⟨(id, key), (represents.indexed key id).mp found, rfl⟩
  · intro member
    obtain ⟨⟨id, _⟩, present, rfl⟩ := List.mem_map.mp member
    exact ⟨id, (represents.indexed _ id).mpr present⟩

/-- The index holds the keys of the order and no others. -/
theorem size_eq (represents : Represents recency entries) : recency.size = entries.length := by
  have same : recency.index.keys.Perm (entries.map Prod.snd) := by
    apply (List.perm_ext_iff_of_nodup Std.HashMap.nodup_keys represents.keys_nodup).mpr
    intro key
    rw [Std.HashMap.mem_keys, ← represents.contains_iff, Recency.contains,
      Std.HashMap.mem_iff_contains]
  rw [size, ← Std.HashMap.length_keys, same.length_eq, List.length_map]

theorem length_le (represents : Represents recency entries) :
    entries.length ≤ recency.slots.size := by
  have same := represents.slots_perm.length_eq
  rw [List.length_append, List.length_map, List.length_range] at same
  omega

end Represents

theorem keysFrom_eq {recency : Recency} {newer : Option Nat} {entries : List (Nat × Text)}
    (linked : Linked recency.slots none newer entries) (count : Nat)
    (enough : entries.length ≤ count) :
    recency.keysFrom count (firstSlot none entries) = entries.map Prod.snd := by
  induction entries generalizing newer count with
  | nil => cases count <;> rfl
  | cons entry rest ih =>
    obtain ⟨here, further⟩ := linked
    cases count with
    | zero => simp at enough
    | succ count =>
      rw [firstSlot, keysFrom, here, List.map_cons]
      exact congrArg (entry.2 :: ·) (ih further count (Nat.le_of_succ_le_succ enough))

/-- Following the links from the newest key gives all keys, each once. -/
theorem Represents.toList_eq {recency : Recency} {entries : List (Nat × Text)}
    (represents : Represents recency entries) : recency.toList = entries.map Prod.snd := by
  rw [toList, represents.ordered.newest]
  exact keysFrom_eq represents.ordered.linked _ represents.length_le

namespace Represents

variable {recency : Recency} {entries front back : List (Nat × Text)} {id : Nat} {key : Text}

theorem touch_absent (represents : Represents recency entries)
    (absent : key ∉ entries.map Prod.snd) : recency.touch? key = none := by
  rw [touch?, Option.map_eq_none_iff, Option.eq_none_iff_forall_ne_some]
  intro id found
  exact absent (List.mem_map.mpr ⟨(id, key), (represents.indexed key id).mp found, rfl⟩)

/-- A key that is there goes to the front; the others keep their order. -/
theorem touch_present (represents : Represents recency (front ++ (id, key) :: back)) :
    ∃ touched, recency.touch? key = some touched ∧
      Represents touched ((id, key) :: (front ++ back)) := by
  have found : recency.index[key]? = some id :=
    (represents.indexed key id).mpr (List.mem_append_right front List.mem_cons_self)
  have moved : (front ++ (id, key) :: back).Perm ((id, key) :: (front ++ back)) :=
    List.perm_middle
  refine ⟨_, by rw [touch?, found, Option.map_some], ?_⟩
  split
  · rename_i newest
    cases front with
    | nil => exact represents
    | cons entry rest =>
      -- Two entries would share the newest slot.
      rw [represents.ordered.newest] at newest
      obtain ⟨-, apart⟩ := represents.ordered.apart
      exact absurd (Option.some.inj newest).symm (apart entry List.mem_cons_self)
  · obtain ⟨-, apart⟩ := represents.ordered.apart
    have held : (recency.unlink id).slots[id]?.map (·.key) = some key := by
      rw [key_unlink, represents.ordered.slot_between]
      rfl
    refine ⟨represents.ordered.unlink.linkNewest held apart, fun other slot => ?_, ?_, ?_⟩
    · rw [index_linkNewest, index_unlink, represents.indexed]
      exact moved.mem_iff
    · exact (moved.map _).nodup_iff.mp represents.keys_nodup
    · rw [vacant_linkNewest, vacant_unlink, size_slots_linkNewest, size_slots_unlink]
      exact ((moved.map _).symm.append_right _).trans represents.slots_perm

/-- The oldest key leaves, and its slot becomes vacant. -/
theorem dropOldest (represents : Represents recency (front ++ [(id, key)])) :
    Represents recency.dropOldest front := by
  have oldest : recency.oldest = some id := by
    rw [represents.ordered.oldest, lastSlot_append]
    rfl
  have unfolded : recency.dropOldest =
      { recency.unlink id with
        index := (recency.unlink id).index.erase key
        vacant := id :: (recency.unlink id).vacant } := by
    rw [Recency.dropOldest, oldest]
    simp only [represents.ordered.slot_between]
  have keys := represents.keys_nodup
  have slots := represents.slots_perm
  rw [List.map_append, List.nodup_append'] at keys
  have ordered := represents.ordered.unlink
  rw [List.append_nil] at ordered
  rw [unfolded]
  refine ⟨ordered.frame (fun _ _ => rfl) rfl rfl, fun other slot => ?_, keys.1, ?_⟩
  · have apart : key ∉ front.map Prod.snd :=
      fun member => keys.2.2 member (List.mem_singleton_self key)
    rw [index_unlink, Std.HashMap.getElem?_erase]
    by_cases same : key = other
    · subst other
      have missing : (slot, key) ∉ front :=
        fun member => apart (List.mem_map.mpr ⟨(slot, key), member, rfl⟩)
      simp [missing]
    · simp [same, represents.indexed, Ne.symm same]
  · simpa using slots

theorem dropOldestMany (represents : Represents recency entries) (count : Nat) :
    Represents (recency.dropOldestMany count) (entries.take (entries.length - count)) := by
  induction count generalizing recency entries with
  | zero => simpa [Recency.dropOldestMany] using represents
  | succ count ih =>
    rcases List.eq_nil_or_concat' entries with rfl | ⟨front, ⟨id, key⟩, rfl⟩
    · have none : recency.dropOldest = recency := by
        rw [Recency.dropOldest, represents.ordered.oldest]
        rfl
      rw [Recency.dropOldestMany, none]
      simpa using ih represents
    · have shorter : (front ++ [(id, key)]).length - (count + 1) = front.length - count := by
        simp
      rw [Recency.dropOldestMany, shorter, List.take_append_of_le_length (by omega)]
      exact ih represents.dropOldest

/-- The oldest keys leave until the limit holds. -/
theorem shrinkTo (represents : Represents recency entries) (limit : Nat) :
    Represents (recency.shrinkTo limit) (entries.take limit) := by
  rw [Recency.shrinkTo, represents.size_eq]
  have shrunk := represents.dropOldestMany (entries.length - limit)
  by_cases fits : entries.length ≤ limit
  · rw [List.take_of_length_le fits]
    rwa [List.take_of_length_le (by omega)] at shrunk
  · rwa [show entries.length - (entries.length - limit) = limit by omega] at shrunk

/-- A slot for a new key: a vacant one, or one more behind the others. -/
private theorem place (represents : Represents recency entries) (key : Text) :
    ∃ (id : Nat) (placed : Recency),
      recency.push key =
        { placed.linkNewest id with index := (placed.linkNewest id).index.insert key id } ∧
      Ordered placed entries ∧ placed.slots[id]?.map (·.key) = some key ∧
      (∀ entry ∈ entries, id ≠ entry.1) ∧ placed.index = recency.index ∧
      (id :: (entries.map Prod.fst ++ placed.vacant)).Perm (List.range placed.slots.size) := by
  have slots := represents.slots_perm
  cases vacant : recency.vacant with
  | nil =>
    rw [vacant, List.append_nil] at slots
    have within : ∀ entry ∈ entries, entry.1 < recency.slots.size := fun entry member =>
      List.mem_range.mp (slots.mem_iff.mp (List.mem_map_of_mem member))
    refine ⟨recency.slots.size, { recency with slots := recency.slots.push ⟨key, none, none⟩ },
      by simp only [push, vacant],
      represents.ordered.frame (fun entry member => ?_) rfl rfl, by simp, ?_, rfl, ?_⟩
    · have := within entry member
      simp [Array.getElem?_push, Nat.ne_of_lt this]
    · exact fun entry member same => absurd (within entry member) (by omega)
    · rw [Array.size_push, List.range_succ, vacant, List.append_nil]
      exact (slots.cons _).trans (List.perm_append_singleton _ _).symm
  | cons id vacant' =>
    rw [vacant] at slots
    have moved := List.perm_middle.symm.trans slots
    have within : id < recency.slots.size :=
      List.mem_range.mp (moved.mem_iff.mp List.mem_cons_self)
    have fresh : ∀ entry ∈ entries, id ≠ entry.1 := by
      intro entry member same
      have nodup := moved.nodup_iff.mpr List.nodup_range
      rw [List.nodup_cons, List.mem_append] at nodup
      exact nodup.1 (.inl (List.mem_map.mpr ⟨entry, member, same.symm⟩))
    refine ⟨id, { recency with
        slots := recency.slots.setIfInBounds id ⟨key, none, none⟩, vacant := vacant' },
      by simp only [push, vacant],
      represents.ordered.frame (fun entry member => ?_) rfl rfl, ?_, fresh, rfl, ?_⟩
    · simp [fresh entry member]
    · simp [within]
    · simpa using moved

/-- A new key goes to the front. -/
theorem push (represents : Represents recency entries) (absent : key ∉ entries.map Prod.snd) :
    ∃ id, Represents (recency.push key) ((id, key) :: entries) := by
  obtain ⟨id, placed, pushed, ordered, held, fresh, index, slots⟩ := represents.place key
  have linked := ordered.linkNewest held fresh
  refine ⟨id, ?_⟩
  rw [pushed]
  refine ⟨linked.frame (fun _ _ => rfl) rfl rfl, fun other slot => ?_,
    List.nodup_cons.mpr ⟨absent, represents.keys_nodup⟩, by simpa using slots⟩
  rw [index_linkNewest, index, Std.HashMap.getElem?_insert]
  by_cases same : key = other
  · subst other
    have missing : (slot, key) ∉ entries :=
      fun member => absent (List.mem_map.mpr ⟨(slot, key), member, rfl⟩)
    simp [missing, eq_comm]
  · simp [same, represents.indexed, Ne.symm same]

end Represents

end XmlSelect.Gate.Recency
