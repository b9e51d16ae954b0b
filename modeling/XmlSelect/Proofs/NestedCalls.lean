import Mathlib.Data.Finset.Card
import Mathlib.Order.WellFounded
import XmlSelect.Proofs.EntitySubstitution

/-! The calls that the expansion of references makes of itself. What is being expanded is on a
stack, and an entity on the stack is a fault and not expanded again: with each entity that is put
there fewer are left, whatever text comes in its place, and in one replacement text what is left of
it gets shorter. So the calls come to an end, and are nested no deeper than the declared entities
allow, without any limit on their number. -/
namespace XmlSelect.Markup

theorem length_marked (name : Text) : (marked name).length = name.length + 2 := by simp [marked]

/-- A call of the expansion: of a reference, by what stands between its marks, or of what is left of
a replacement text. The stack has the entities that are being expanded, the innermost first. -/
inductive Call
  | entity (stack : List Text) (name : Text)
  | text (stack : List Text) (left : Text)
deriving DecidableEq

namespace Call

def stack : Call → List Text
  | entity stack _ => stack
  | text stack _ => stack

/-- The length of what is left to be expanded. -/
def length : Call → Nat
  | entity _ name => name.length
  | text _ left => left.length

/-- The name that a call is to expand. -/
def name? : Call → Option Text
  | entity _ name => some name
  | text _ _ => none

end Call

namespace EntityTable

variable {table : EntityTable}

/-- The names that have a declaration. -/
def names (table : EntityTable) : Finset Text := (table.map Prod.fst).toFinset

/-- The declared entities that are not being expanded. -/
def free (table : EntityTable) (stack : List Text) : Finset Text := table.names \ stack.toFinset

/-- How much is left to a call: the number of entities that are free counts first, and then the
length of what is left of the text. -/
def rank (table : EntityTable) (call : Call) : Nat × Nat :=
  ((table.free call.stack).card, call.length)

/-- A call ranks below another one: fewer entities are free, or as many, and the text is shorter. -/
def Below (table : EntityTable) (callee caller : Call) : Prop :=
  Prod.Lex (· < ·) (· < ·) (table.rank callee) (table.rank caller)

/-- The calls that a call may make: whatever texts the entities have or come back for them, and
however many were expanded before. -/
inductive Invokes (table : EntityTable) : Call → Call → Prop
  | replacement {stack : List Text} {name : Text} (declared : name ∈ table.names)
      (fresh : name ∉ stack) (text : Text) :
      Invokes table (.entity stack name) (.text (name :: stack) text)
  | reference (stack : List Text) (before name later : Text) :
      Invokes table (.text stack (before ++ (marked name ++ later))) (.entity stack name)
  | further (stack : List Text) (before name later : Text) :
      Invokes table (.text stack (before ++ (marked name ++ later))) (.text stack later)

theorem mem_names_of_find? {name : Text} {entity : Entity}
    (found : table.find? name = some entity) : name ∈ table.names :=
  List.mem_toFinset.mpr (List.mem_map_of_mem (mem_of_lookup found))

/-- An entity that is put on the stack is free no more. -/
theorem card_free_cons_lt {stack : List Text} {name : Text} (declared : name ∈ table.names)
    (fresh : name ∉ stack) : (table.free (name :: stack)).card < (table.free stack).card := by
  have free : name ∈ table.free stack := by simp [EntityTable.free, declared, fresh]
  have fewer : table.free (name :: stack) = (table.free stack).erase name := by
    rw [EntityTable.free, EntityTable.free, List.toFinset_cons, Finset.sdiff_insert]
  rw [fewer]
  exact Finset.card_erase_lt_of_mem free

theorem Invokes.below {caller callee : Call} (invokes : table.Invokes caller callee) :
    table.Below callee caller := by
  cases invokes with
  | replacement declared fresh text => exact .left _ _ (card_free_cons_lt declared fresh)
  | reference stack before name later =>
    refine .right _ ?_
    simp only [Call.length, List.length_append, length_marked]
    omega
  | further stack before name later =>
    refine .right _ ?_
    simp only [Call.length, List.length_append, length_marked]
    omega

/-- A declared entity that is not on the stack makes a call of whatever text is in its place. -/
theorem invokes_of_find? {stack : List Text} {name : Text} {entity : Entity}
    (found : table.find? name = some entity) (other : ¬stack.contains name) (text : Text) :
    table.Invokes (.entity stack name) (.text (name :: stack) text) :=
  .replacement (mem_names_of_find? found) (List.contains_iff_mem.not.mp other) text

/-- A text from which a reference was taken makes calls of the reference and of what is behind. -/
theorem invokes_of_breakOn? (table : EntityTable) (stack : List Text)
    {text before behind name later : Text}
    (opened : Text.breakOn? ['&'] text = some (before, behind))
    (closed : Text.breakOn? [';'] behind = some (name, later)) :
    table.Invokes (.text stack text) (.entity stack name) ∧
      table.Invokes (.text stack text) (.text stack later) := by
  rw [parts_of_breakOn? opened closed]
  exact ⟨.reference stack before name later, .further stack before name later⟩

theorem wellFounded_below (table : EntityTable) : WellFounded table.Below :=
  InvImage.wf table.rank (WellFounded.prod_lex Nat.lt_wfRel.wf Nat.lt_wfRel.wf)

/-- No call leads to calls without an end. -/
theorem wellFounded_invokes (table : EntityTable) :
    WellFounded fun callee caller => table.Invokes caller callee :=
  Subrelation.wf Invokes.below table.wellFounded_below

/-- On the stack there are declared entities, no two the same. -/
structure Stacked (table : EntityTable) (stack : List Text) : Prop where
  distinct : stack.Nodup
  declared : ∀ name ∈ stack, name ∈ table.names

theorem Stacked.length_le {stack : List Text} (stacked : table.Stacked stack) :
    stack.length ≤ table.names.card := by
  rw [← List.toFinset_card_of_nodup stacked.distinct]
  exact Finset.card_le_card fun name member => stacked.declared name (List.mem_toFinset.mp member)

/-- No entity is put on the stack that is there already, or that has no declaration. -/
theorem Invokes.stacked {caller callee : Call} (invokes : table.Invokes caller callee)
    (before : table.Stacked caller.stack) : table.Stacked callee.stack := by
  cases invokes with
  | replacement declared fresh text =>
    exact ⟨List.nodup_cons.mpr ⟨fresh, before.distinct⟩,
      List.forall_mem_cons.mpr ⟨declared, before.declared⟩⟩
  | reference => exact before
  | further => exact before

/-- A call that is made with other ones in progress, the innermost first: the outermost of all is of
a reference in the document, where nothing is being expanded. -/
inductive InProgress (table : EntityTable) : List Call → Call → Prop
  | start (name : Text) : InProgress table [] (.entity [] name)
  | call {callers : List Call} {caller callee : Call} (before : InProgress table callers caller)
      (invokes : table.Invokes caller callee) : InProgress table (caller :: callers) callee

namespace InProgress

variable {callers : List Call} {call : Call}

/-- On the stack are the entities that the calls in progress are to expand. -/
theorem stack_eq (running : table.InProgress callers call) :
    call.stack = callers.filterMap Call.name? := by
  induction running with
  | start name => rfl
  | call before invokes ih =>
    cases invokes with
    | replacement => exact congrArg (_ :: ·) ih
    | reference => exact ih
    | further => exact ih

theorem stacked (running : table.InProgress callers call) : table.Stacked call.stack := by
  induction running with
  | start name => exact ⟨.nil, List.forall_mem_nil _⟩
  | call before invokes ih => exact invokes.stacked ih

theorem isChain (running : table.InProgress callers call) :
    (call :: callers).IsChain fun callee caller => table.Invokes caller callee := by
  induction running with
  | start name => exact .singleton _
  | call before invokes ih => exact .cons_cons invokes ih

/-- The innermost call for an entity is the only one whose name may not be on the stack. -/
theorem length_le (running : table.InProgress callers call) :
    ((call :: callers).filterMap Call.name?).length ≤ table.names.card + 1 := by
  have onStack := running.stacked.length_le
  rw [running.stack_eq] at onStack
  cases call with
  | entity stack name => exact Nat.succ_le_succ onStack
  | text stack left => exact Nat.le_succ_of_le onStack

end InProgress

end EntityTable

end XmlSelect.Markup
