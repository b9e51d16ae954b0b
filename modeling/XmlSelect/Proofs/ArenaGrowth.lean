import Mathlib.Data.List.Basic
import XmlSelect.Proofs.NumberingInvariant
import XmlSelect.Tree.Arena

/-! What appending nodes to an arena leaves behind. Siblings that are appended one by one, each with
all that is inside before the next one, take the numbers from the next free one on and are linked in
both directions; of the nodes before them only the one above and its last child so far change. -/
namespace XmlSelect

namespace Slot

/-- The slot of a node behind whose children so far others are put. -/
def adopt (starts : List Nat) (slot : Slot) : Slot :=
  { slot with
    firstChild := slot.firstChild.or starts.head?
    lastChild := starts.getLast?.or slot.lastChild }

/-- The slot of a node behind which siblings are put. -/
def precede (starts : List Nat) (slot : Slot) : Slot :=
  { slot with nextSibling := starts.head?.or slot.nextSibling }

@[simp] theorem adopt_nil : adopt [] = id := by
  funext slot
  simp [adopt]

theorem adopt_adopt (first second : List Nat) (slot : Slot) :
    (slot.adopt first).adopt second = slot.adopt (first ++ second) := by
  simp [adopt, Option.or_assoc, List.head?_append, List.getLast?_append]

@[simp] theorem precede_nil : precede [] = id := rfl

end Slot

namespace Arena

variable {arena before after : Arena} {parent id : Nat}

section Primitives

@[simp] theorem next_create (arena : Arena) (kind : SlotKind) :
    (arena.create kind).next = arena.next + 1 := by
  simp [create, next]

@[simp] theorem next_modify (arena : Arena) (id : Nat) (change : Slot → Slot) :
    (arena.modify id change).next = arena.next := by
  simp [modify, next]

theorem slot?_create (positive : 0 < arena.next) (kind : SlotKind) (id : Nat) :
    (arena.create kind).slot? id = if id = arena.next then some { kind := kind }
      else arena.slot? id := by
  rw [next] at positive
  rw [slot?, slot?, create, next, Array.getElem?_push]
  by_cases fresh : id = arena.slots.size
  · simp [fresh, Nat.ne_of_gt positive]
  · simp [fresh]

theorem slot?_modify (arena : Arena) (id : Nat) (change : Slot → Slot) (other : Nat) :
    (arena.modify id change).slot? other =
      if other = id then (arena.slot? other).map change else arena.slot? other := by
  rw [slot?, slot?, modify, Array.getElem?_modify]
  by_cases zero : other = 0
  · simp [zero]
  · simp [zero, eq_comm]

theorem slot?_eq_none {id : Nat} (unknown : arena.next ≤ id) : arena.slot? id = none := by
  rw [next] at unknown
  simp [slot?, unknown]

theorem bounds_of_slot? {slot : Slot} (found : arena.slot? id = some slot) :
    0 < id ∧ id < arena.next := by
  constructor
  · refine Nat.pos_of_ne_zero fun zero => ?_
    simp [slot?, zero] at found
  · by_contra unknown
    simp [slot?_eq_none (Nat.not_lt.mp unknown)] at found

theorem exists_slot? (positive : 0 < id) (known : id < arena.next) :
    ∃ slot, arena.slot? id = some slot := by
  rw [next] at known
  exact ⟨arena.slots[id], by simp [slot?, Nat.ne_of_gt positive, known]⟩

end Primitives

/-- A node that others can be appended to: its last child so far is known, and it has a first child
if it has a last one. -/
structure Open (arena : Arena) (parent : Nat) : Prop where
  positive : 0 < parent
  known : parent < arena.next
  last : ∀ last, arena.lastChild? parent = some last → parent < last ∧ last < arena.next
  ends : ∀ slot, arena.slot? parent = some slot →
    slot.firstChild.isSome = slot.lastChild.isSome

/-- Siblings from `starts` on are put behind the children of a node: what changes of the nodes that
were there. -/
structure Extends (before after : Arena) (parent : Nat) (starts : List Nat) : Prop where
  above : after.slot? parent = (before.slot? parent).map (Slot.adopt starts)
  last : ∀ last, before.lastChild? parent = some last →
    after.slot? last = (before.slot? last).map (Slot.precede starts)
  other : ∀ id < before.next, id ≠ parent → before.lastChild? parent ≠ some id →
    after.slot? id = before.slot? id

theorem next_append (arena : Arena) (parent child : Nat) :
    (arena.append parent child).next = arena.next := by
  rw [append]
  dsimp only
  split <;> simp

/-- A new node behind the children of another one. -/
def appendNew (arena : Arena) (parent : Nat) (kind : SlotKind) : Arena :=
  (arena.create kind).append parent arena.next

@[simp] theorem next_appendNew (arena : Arena) (parent : Nat) (kind : SlotKind) :
    (arena.appendNew parent kind).next = arena.next + 1 := by
  rw [appendNew, next_append, next_create]

/-- The slots of an arena to which a new node was appended, one by one. -/
theorem slot?_appendNew (ready : arena.Open parent) (kind : SlotKind) (id : Nat) :
    (arena.appendNew parent kind).slot? id =
      if id = arena.next then
        some { kind, parent := some parent, previousSibling := arena.lastChild? parent }
      else if id = parent then (arena.slot? id).map (Slot.adopt [arena.next])
      else if arena.lastChild? parent = some id then
        (arena.slot? id).map (Slot.precede [arena.next])
      else arena.slot? id := by
  have positive : 0 < arena.next := by have := ready.known; omega
  have above : parent ≠ arena.next := Nat.ne_of_lt ready.known
  have created : ∀ id, ((arena.create kind).modify arena.next
      fun slot => { slot with parent := some parent }).slot? id =
      if id = arena.next then some { kind, parent := some parent } else arena.slot? id := by
    intro id
    rw [slot?_modify, slot?_create positive]
    split <;> rfl
  have same : ((arena.create kind).modify arena.next
      fun slot => { slot with parent := some parent }).lastChild? parent =
      arena.lastChild? parent := by
    rw [lastChild?, created, if_neg above, lastChild?]
  rw [appendNew, append]
  dsimp only
  rw [same]
  cases found : arena.lastChild? parent with
  | none =>
    simp only [slot?_modify, created, reduceCtorEq, if_false]
    by_cases fresh : id = arena.next
    · simp [fresh, Ne.symm above]
    · by_cases own : id = parent
      · simp only [own, above, if_true, if_false, Option.map_map]
        refine Option.map_congr fun slot here => ?_
        have bare : slot.lastChild = none := by
          rwa [lastChild?, here] at found
        have first : slot.firstChild = none := by
          have := ready.ends slot here
          simpa [bare] using this
        simp [Slot.adopt, bare, first]
      · simp [fresh, own]
  | some last =>
    obtain ⟨below, inside⟩ := ready.last last found
    have fresh : last ≠ arena.next := Nat.ne_of_lt inside
    simp only [slot?_modify, created, Option.some.injEq]
    by_cases isNew : id = arena.next
    · simp [isNew, Ne.symm above, Ne.symm fresh]
    · by_cases own : id = parent
      · subst own
        have other : id ≠ last := Nat.ne_of_lt below
        simp only [isNew, other, if_true, if_false]
        refine Option.map_congr fun slot here => ?_
        have first : slot.firstChild.isSome = true := by
          rw [lastChild?, here] at found
          rw [ready.ends slot here, show slot.lastChild = some last from found]
          rfl
        obtain ⟨start, found⟩ := Option.isSome_iff_exists.mp first
        simp [Slot.adopt, found]
      · by_cases previous : id = last
        · subst previous
          simp only [isNew, own, if_true, if_false]
          rfl
        · simp [isNew, own, previous, Ne.symm previous]

theorem extends_appendNew (ready : arena.Open parent) (kind : SlotKind) :
    arena.Extends (arena.appendNew parent kind) parent [arena.next] where
  above := by
    rw [slot?_appendNew ready, if_neg (Nat.ne_of_lt ready.known), if_pos rfl]
  last last found := by
    obtain ⟨below, inside⟩ := ready.last last found
    rw [slot?_appendNew ready, if_neg (Nat.ne_of_lt inside), if_neg (Nat.ne_of_gt below),
      if_pos found]
  other id known different previous := by
    rw [slot?_appendNew ready, if_neg (Nat.ne_of_lt known), if_neg different, if_neg previous]

/-- Some attributes of an element, one after another. -/
def addAttributes (arena : Arena) (element : Nat) (attributes : List Attribute) : Arena :=
  attributes.foldl (fun arena self => arena.addAttribute element self) arena

/-- A new element with its attributes behind the children of another node. -/
def appendElement (arena : Arena) (parent : Nat) (name : Text) (attributes : List Attribute) :
    Arena :=
  (arena.appendNew parent (.element name [])).addAttributes arena.next attributes

@[simp] theorem next_addAttribute (arena : Arena) (element : Nat) (self : Attribute) :
    (arena.addAttribute element self).next = arena.next + 1 := by
  simp [addAttribute]

@[simp] theorem next_addAttributes (arena : Arena) (element : Nat) (attributes : List Attribute) :
    (arena.addAttributes element attributes).next = arena.next + attributes.length := by
  induction attributes generalizing arena with
  | nil => rfl
  | cons self rest ih =>
    rw [addAttributes, List.foldl_cons, ← addAttributes, ih, next_addAttribute, List.length_cons]
    omega

@[simp] theorem next_appendElement (arena : Arena) (parent : Nat) (name : Text)
    (attributes : List Attribute) :
    (arena.appendElement parent name attributes).next = arena.next + 1 + attributes.length := by
  rw [appendElement, next_addAttributes, next_appendNew]

theorem slot?_addAttribute {element : Nat} (known : element < arena.next) (self : Attribute)
    (id : Nat) :
    (arena.addAttribute element self).slot? id =
      if id = arena.next then some { kind := .attr self, parent := some element }
      else if id = element then
        (arena.slot? id).map fun slot => { slot with kind := slot.kind.addAttribute arena.next }
      else arena.slot? id := by
  have positive : 0 < arena.next := by omega
  have other : element ≠ arena.next := Nat.ne_of_lt known
  rw [addAttribute]
  simp only [slot?_modify, slot?_create positive]
  by_cases fresh : id = arena.next
  · simp [fresh, Ne.symm other]
  · by_cases own : id = element
    · simp [own, other]
    · simp [fresh, own]

/-- The slots of an arena in which an element got some attributes. -/
theorem slot?_addAttributes {element : Nat} {name : Text} {listed : List Nat} {slot : Slot}
    (found : arena.slot? element = some slot) (isElement : slot.kind = .element name listed)
    (attributes : List Attribute) (id : Nat) :
    (arena.addAttributes element attributes).slot? id =
      if id < arena.next then
        if id = element then
          some { slot with
            kind := .element name (listed ++ List.range' arena.next attributes.length) }
        else arena.slot? id
      else attributes[id - arena.next]?.map fun self =>
        { kind := .attr self, parent := some element } := by
  induction attributes generalizing arena slot listed with
  | nil =>
    by_cases own : id = element
    · simp [addAttributes, own, found, (bounds_of_slot? found).2, ← isElement]
    · by_cases known : id < arena.next
      · simp [addAttributes, own, known]
      · simp [addAttributes, known, slot?_eq_none (Nat.not_lt.mp known)]
  | cons self rest ih =>
    have known := (bounds_of_slot? found).2
    have step := slot?_addAttribute known self
    have here := step element
    rw [if_neg (Nat.ne_of_lt known), if_pos rfl, found, Option.map_some] at here
    have further := ih here (by rw [isElement, SlotKind.addAttribute])
    rw [addAttributes, List.foldl_cons, ← addAttributes, further, next_addAttribute, step]
    rcases Nat.lt_trichotomy id arena.next with before | rfl | behind
    · rw [if_pos before, if_pos (by omega), if_neg (Nat.ne_of_lt before)]
      by_cases own : id = element
      · simp [own, List.range'_succ]
      · simp [own]
    · simp [Nat.ne_of_gt known]
    · obtain ⟨index, rfl⟩ := Nat.exists_eq_add_of_lt behind
      rw [if_neg (by omega), if_neg (by omega),
        show arena.next + index + 1 - (arena.next + 1) = index by omega,
        show arena.next + index + 1 - arena.next = index + 1 by omega, List.getElem?_cons_succ]

/-- Siblings behind the children of a node, each with all that is inside it. -/
def appendForest : (arena : Arena) → (parent : Nat) → Forest → Arena
  | arena, _, .nil => arena
  | arena, parent, .leaf first rest =>
    (arena.appendNew parent (.leaf first)).appendForest parent rest
  | arena, parent, .element name attributes content rest =>
    ((arena.appendElement parent name attributes).appendForest arena.next content).appendForest
      parent rest

theorem appendForest_append (arena : Arena) (parent : Nat) (first later : Forest) :
    arena.appendForest parent (first ++ later) =
      (arena.appendForest parent first).appendForest parent later := by
  induction first generalizing arena with
  | nil => rfl
  | leaf self rest ih => exact ih _
  | element name attributes content rest _ ih => exact ih _

theorem next_appendForest (arena : Arena) (parent : Nat) (forest : Forest) :
    (arena.appendForest parent forest).next = arena.next + forest.size := by
  induction forest generalizing arena parent with
  | nil => rfl
  | leaf first rest ih =>
    rw [appendForest, ih, next_appendNew, Forest.size]
    omega
  | element name attributes content rest inner outer =>
    rw [appendForest, outer, inner, next_appendElement, Forest.size]
    omega

/-- The slots from `next` on are those of siblings below `parent`, linked in both directions, with
all that is inside; `previous` is the sibling in front of them. -/
def Holds (arena : Arena) (parent : Nat) : (next : Nat) → (previous : Option Nat) → Forest → Prop
  | _, _, .nil => True
  | next, previous, .leaf first rest =>
    arena.slot? next = some
        { kind := .leaf first, parent := some parent,
          nextSibling := (rest.starts (next + 1)).head?, previousSibling := previous } ∧
      arena.Holds parent (next + 1) (some next) rest
  | next, previous, .element name attributes content rest =>
    let inside := next + 1 + attributes.length
    let behind := inside + content.size
    arena.slot? next = some
        { kind := .element name (List.range' (next + 1) attributes.length), parent := some parent,
          firstChild := (content.starts inside).head?,
          lastChild := (content.starts inside).getLast?,
          nextSibling := (rest.starts behind).head?, previousSibling := previous } ∧
      (∀ index self, attributes[index]? = some self →
        arena.slot? (next + 1 + index) = some { kind := .attr self, parent := some next }) ∧
      arena.Holds next inside none content ∧
      arena.Holds parent behind (some next) rest

/-- Where the slots of placed siblings stay as they are, these stay placed. -/
theorem Holds.congr {next : Nat} {previous : Option Nat} {forest : Forest}
    (holds : before.Holds parent next previous forest)
    (same : ∀ id, next ≤ id → id < next + forest.size → after.slot? id = before.slot? id) :
    after.Holds parent next previous forest := by
  induction forest generalizing parent next previous with
  | nil => trivial
  | leaf first rest ih =>
    simp only [Forest.size] at same
    obtain ⟨here, further⟩ := holds
    exact ⟨(same _ (Nat.le_refl _) (by omega)).trans here,
      ih further fun id low high => same id (by omega) (by omega)⟩
  | element name attributes content rest inner outer =>
    simp only [Forest.size] at same
    obtain ⟨here, own, inside, further⟩ := holds
    refine ⟨(same _ (Nat.le_refl _) (by omega)).trans here, fun index self listed => ?_,
      inner inside fun id low high => same id (by omega) (by omega),
      outer further fun id low high => same id (by omega) (by omega)⟩
    obtain ⟨within, -⟩ := List.getElem?_eq_some_iff.mp listed
    exact (same _ (by omega) (by omega)).trans (own index self listed)

section Growth

variable {middle : Arena} {later : List Nat}

theorem Extends.congr {starts : List Nat} (extended : before.Extends middle parent starts)
    (ready : before.Open parent)
    (same : ∀ id < before.next, after.slot? id = middle.slot? id) :
    before.Extends after parent starts where
  above := (same _ ready.known).trans extended.above
  last last found := (same _ (ready.last last found).2).trans (extended.last last found)
  other id known different previous :=
    (same _ known).trans (extended.other id known different previous)

section One

variable (extended : before.Extends middle parent [before.next]) (ready : before.Open parent)

include extended ready

theorem Extends.lastChild?_eq : middle.lastChild? parent = some before.next := by
  have known := ready.known
  rw [lastChild?, extended.above]
  obtain ⟨slot, found⟩ := exists_slot? ready.positive known
  rw [found]
  rfl

theorem Extends.open (further : before.next < middle.next) : middle.Open parent where
  positive := ready.positive
  known := Nat.lt_trans ready.known further
  last last found := by
    rw [extended.lastChild?_eq ready] at found
    cases found
    exact ⟨ready.known, further⟩
  ends slot found := by
    rw [extended.above] at found
    obtain ⟨old, -, rfl⟩ := Option.map_eq_some_iff.mp found
    simp [Slot.adopt]

/-- Behind one node more siblings are put. -/
theorem Extends.trans (next : middle.Extends after parent later)
    (further : before.next < middle.next) :
    before.Extends after parent (before.next :: later) where
  above := by
    rw [next.above, extended.above, Option.map_map]
    congr 1
    funext slot
    exact Slot.adopt_adopt _ _ slot
  last last found := by
    obtain ⟨below, inside⟩ := ready.last last found
    rw [next.other last (by omega) (Nat.ne_of_gt below) ?_, extended.last last found]
    · rfl
    · rw [extended.lastChild?_eq ready]
      simp [Nat.ne_of_gt inside]
  other id known different previous := by
    rw [next.other id (by omega) different ?_, extended.other id known different previous]
    rw [extended.lastChild?_eq ready]
    simp [Nat.ne_of_gt known]

end One

/-- Siblings are appended below a node: they are placed, and of the nodes that were there only those
they are linked to change. -/
structure Grown (before after : Arena) (parent : Nat) (forest : Forest) : Prop extends
    Extends before after parent (forest.starts before.next) where
  holds : after.Holds parent before.next (before.lastChild? parent) forest

theorem slot?_appendElement (ready : arena.Open parent) (name : Text)
    (attributes : List Attribute) (id : Nat) :
    (arena.appendElement parent name attributes).slot? id =
      if id = arena.next then
        some { kind := .element name (List.range' (arena.next + 1) attributes.length),
               parent := some parent, previousSibling := arena.lastChild? parent }
      else if id < arena.next then (arena.appendNew parent (.element name [])).slot? id
      else attributes[id - (arena.next + 1)]?.map fun self =>
        { kind := .attr self, parent := some arena.next } := by
  have here := slot?_appendNew ready (.element name []) arena.next
  rw [if_pos rfl] at here
  rw [appendElement, slot?_addAttributes here rfl, next_appendNew]
  rcases Nat.lt_trichotomy id arena.next with old | rfl | fresh
  · simp [old, Nat.ne_of_lt old, Nat.lt_succ_of_lt old]
  · simp
  · simp [Nat.ne_of_gt fresh, Nat.not_lt.mpr (Nat.le_of_lt fresh), Nat.not_lt.mpr fresh]

theorem grown_appendForest {arena : Arena} {parent : Nat} (ready : arena.Open parent)
    (forest : Forest) : arena.Grown (arena.appendForest parent forest) parent forest := by
  induction forest generalizing arena parent with
  | nil =>
    refine ⟨⟨?_, fun last _ => ?_, fun _ _ _ _ => rfl⟩, trivial⟩
    · simp [appendForest, Forest.starts]
    · simp [appendForest, Forest.starts]
  | leaf first rest ih =>
    have one := extends_appendNew ready (.leaf first)
    have further : arena.next < (arena.appendNew parent (.leaf first)).next := by simp
    obtain ⟨more, holds⟩ := ih (one.open ready further)
    rw [next_appendNew] at more holds
    rw [one.lastChild?_eq ready] at holds
    refine ⟨one.trans ready more further, ?_, holds⟩
    rw [appendForest, more.last _ (one.lastChild?_eq ready), slot?_appendNew ready, if_pos rfl]
    simp [Slot.precede]
  | element name attributes content rest inner outer =>
    have one : arena.Extends (arena.appendElement parent name attributes) parent [arena.next] := by
      refine (extends_appendNew ready (.element name [])).congr ready fun id known => ?_
      rw [slot?_appendElement ready, if_neg (Nat.ne_of_lt known), if_pos known]
    have here := slot?_appendElement ready name attributes arena.next
    rw [if_pos rfl] at here
    have childless : (arena.appendElement parent name attributes).lastChild? arena.next = none := by
      rw [lastChild?, here]
      rfl
    have inside : (arena.appendElement parent name attributes).Open arena.next :=
      ⟨Nat.zero_lt_of_lt ready.known, by simp; omega, by simp [childless], by simp [here]⟩
    obtain ⟨within, held⟩ := inner inside
    rw [next_appendElement] at within held
    rw [childless] at held
    generalize grown : (arena.appendElement parent name attributes).appendForest arena.next
      content = middle at within held
    have size : middle.next = arena.next + 1 + attributes.length + content.size := by
      rw [← grown, next_appendForest, next_appendElement]
    -- What is inside the element leaves the nodes before it as they are.
    have two : arena.Extends middle parent [arena.next] := by
      refine one.congr ready fun id known => within.other id ?_ (Nat.ne_of_lt known) ?_
      · rw [next_appendElement]
        omega
      · simp [childless]
    have further : arena.next < middle.next := by omega
    have last := two.lastChild?_eq ready
    obtain ⟨more, holds⟩ := outer (two.open ready further)
    rw [size] at more holds
    rw [last] at holds
    rw [appendForest, grown]
    have kept : ∀ id, arena.next < id → id < middle.next →
        (middle.appendForest parent rest).slot? id = middle.slot? id := fun id low high => by
      refine more.other id high (by have := ready.known; omega) ?_
      rw [last]
      simp [Nat.ne_of_lt low]
    refine ⟨two.trans ready more further, ?_, fun index self listed => ?_, ?_, holds⟩
    · rw [more.last _ last, within.above, here]
      simp [Slot.precede, Slot.adopt]
    · obtain ⟨listedWithin, -⟩ := List.getElem?_eq_some_iff.mp listed
      rw [kept _ (by omega) (by omega),
        within.other _ (by rw [next_appendElement]; omega) (by omega) (by simp [childless]),
        slot?_appendElement ready, if_neg (by omega), if_neg (by omega)]
      simp [listed]
    · exact held.congr fun id low high => kept id (by omega) (by omega)

end Growth

end Arena

end XmlSelect
