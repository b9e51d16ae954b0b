import XmlSelect.Proofs.NestedCalls

/-! The expansion of references as it goes about with a stack of the entities that are being
expanded, each call on record with those in progress around it. Without the record it is expansion
itself; the record, which a fault does not cut off, says what is on the stack at each call and how
deep the calls are nested. -/
namespace XmlSelect.Markup

/-- A call that was made, and those in progress then, the innermost first. -/
structure Entry where
  callers : List Call
  call : Call

/-- A result, and the calls that were made on the way, also if there is no result in the end. -/
structure Recorded (α : Type) where
  result : Except Failure α
  entries : List Entry

namespace Recorded

variable {α β : Type}

instance : Monad Recorded where
  pure value := ⟨.ok value, []⟩
  bind first next :=
    match first.result with
    | .error failure => ⟨.error failure, first.entries⟩
    | .ok value => ⟨(next value).result, first.entries ++ (next value).entries⟩

/-- A result that takes no call. -/
def ofResult (result : Except Failure α) : Recorded α := ⟨result, []⟩

/-- A call is put on record as it is made. -/
def entered (callers : List Call) (call : Call) (recorded : Recorded α) : Recorded α :=
  ⟨recorded.result, ⟨callers, call⟩ :: recorded.entries⟩

/-- Each call on record was one that a call in progress may make. -/
def Regular (table : EntityTable) (recorded : Recorded α) : Prop :=
  ∀ entry ∈ recorded.entries, table.InProgress entry.callers entry.call

theorem subset_bind (first : Recorded α) {next : α → Recorded β} :
    first.entries ⊆ (first >>= next).entries := by
  obtain ⟨result, entries⟩ := first
  cases result with
  | error failure => exact List.Subset.refl _
  | ok value => exact List.subset_append_left _ _

variable {table : EntityTable}

theorem Regular.pure (value : α) : (Pure.pure value : Recorded α).Regular table := nofun

theorem Regular.ofResult (result : Except Failure α) : (ofResult result).Regular table := nofun

theorem Regular.entered {callers : List Call} {call : Call} {recorded : Recorded α}
    (running : table.InProgress callers call) (regular : recorded.Regular table) :
    (entered callers call recorded).Regular table :=
  List.forall_mem_cons.mpr ⟨running, regular⟩

theorem Regular.bind {first : Recorded α} {next : α → Recorded β} (regular : first.Regular table)
    (further : ∀ value, (next value).Regular table) : (first >>= next).Regular table := by
  obtain ⟨result, entries⟩ := first
  cases result with
  | error failure => exact regular
  | ok value => exact List.forall_mem_append.mpr ⟨regular, further value⟩

end Recorded

/-- What a call comes back with: the text, the ledger, and the stack as it was before. -/
structure Returned (stack : List Text) where
  text : Text
  ledger : Ledger
  after : List Text
  restored : after = stack

/-- What is in front of a reference, what came back for the reference, and what for the rest. -/
def Returned.followed {stack : List Text} (before : Text) (here : Returned stack)
    (further : Returned here.after) : Returned stack :=
  ⟨before ++ here.text ++ further.text, further.ledger, further.after,
    further.restored.trans here.restored⟩

/-- The text and the ledger that come out in the end. -/
def Recorded.outcome {stack : List Text} (recorded : Recorded (Returned stack)) :
    Except Failure (Text × Ledger) :=
  recorded.result.map fun returned => (returned.text, returned.ledger)

section Outcomes

variable {stack inner : List Text}

theorem Recorded.outcome_entered (callers : List Call) (call : Call)
    (recorded : Recorded (Returned stack)) :
    (entered callers call recorded).outcome = recorded.outcome := rfl

theorem Recorded.outcome_ofResult_bind {α : Type} (result : Except Failure α)
    (next : α → Recorded (Returned stack)) :
    (ofResult result >>= next).outcome = result >>= fun value => (next value).outcome := by
  cases result <;> rfl

theorem Recorded.outcome_bind {first : Recorded (Returned inner)}
    {next : Returned inner → Recorded (Returned stack)}
    {further : Text × Ledger → Except Failure (Text × Ledger)}
    (same : ∀ returned, (next returned).outcome = further (returned.text, returned.ledger)) :
    (first >>= next).outcome = first.outcome >>= further := by
  obtain ⟨result, entries⟩ := first
  cases result with
  | error failure => rfl
  | ok returned => exact same returned

theorem Recorded.outcome_followed (before : Text)
    {next : (here : Returned stack) → Recorded (Returned here.after)}
    (further : Ledger → Except Failure (Text × Ledger))
    (same : ∀ here, (next here).outcome = further here.ledger)
    (first : Recorded (Returned stack)) :
    (first >>= fun here => next here >>= fun rest => pure (here.followed before rest)).outcome =
      first.outcome >>= fun here => further here.2 >>= fun rest =>
        .ok (before ++ here.1 ++ rest.1, rest.2) := by
  refine outcome_bind fun here => ?_
  rw [← same here]
  exact outcome_bind fun rest => rfl

end Outcomes

namespace Expansion

mutual

/-- The text that a named reference stands for. The name of a declared entity is put on the stack
while its text is expanded, and taken off behind it. -/
def namedOn (expansion : Expansion) (callers : List Call) (stack : List Text) (ledger : Ledger)
    (name : Text) : Recorded (Returned stack) :=
  .entered callers (.entity stack name) <|
    match predefined? name with
    | some c => return ⟨[c], ledger, stack, rfl⟩
    | none =>
      match _found : expansion.table.find? name with
      | none => .ofResult (expansion.fail ledger (.undefinedEntity name))
      | some entity =>
        if _repeated : stack.contains name then
          .ofResult (expansion.fail ledger (.recursiveEntity name))
        else do
          let counted ← .ofResult (expansion.count ledger)
          match ← .ofResult (expansion.replacement counted name entity) with
          | (none, after) => return ⟨[], after, stack, rfl⟩
          | (some text, after) =>
            let inside ←
              expansion.replacedOn (.entity stack name :: callers) (name :: stack) after text
            -- The stack came back as it was, and so it is the name that is taken off.
            return ⟨inside.text, inside.ledger, inside.after.tail,
              congrArg List.tail inside.restored⟩
termination_by expansion.table.rank (.entity stack name)
decreasing_by exact (EntityTable.invokes_of_find? _found _repeated text).below

/-- A replacement text with its own references expanded, each with the stack that the one before it
has left. -/
def replacedOn (expansion : Expansion) (callers : List Call) (stack : List Text) (ledger : Ledger)
    (text : Text) : Recorded (Returned stack) :=
  .entered callers (.text stack text) <|
    match _opened : Text.breakOn? ['&'] text with
    | none => return ⟨expansion.place.normalize text, ledger, stack, rfl⟩
    | some (before, behind) =>
      match _closed : Text.breakOn? [';'] behind with
      | none => .ofResult (expansion.fail ledger .unterminatedReference)
      | some (reference, later) => do
        let here ← match reference with
          | '#' :: number =>
            match numericReference? number with
            | some c => pure ⟨[c], ledger, stack, rfl⟩
            | none => .ofResult (expansion.fail ledger (.invalidReference reference))
          | _ => expansion.namedOn (.text stack text :: callers) stack ledger reference
        let further ←
          expansion.replacedOn (.text stack text :: callers) here.after here.ledger later
        return here.followed (expansion.place.normalize before) further
termination_by expansion.table.rank (.text stack text)
decreasing_by
  · rw [here.restored]
    exact (expansion.table.invokes_of_breakOn? stack _opened _closed).2.below
  · exact (expansion.table.invokes_of_breakOn? stack _opened _closed).1.below

end

variable {expansion : Expansion}

mutual

/-- Without the record, what is on the stack is what is not available. -/
theorem outcome_namedOn (callers : List Call) (stack : List Text) (ledger : Ledger)
    (name : Text) :
    (expansion.namedOn callers stack ledger name).outcome =
      expansion.named (expansion.table.beside stack) ledger name := by
  have available := expansion.table.find?_beside stack name
  rw [namedOn, Recorded.outcome_entered]
  cases known : predefined? name with
  | some c =>
    rw [named_of_predefined known]
    rfl
  | none =>
    dsimp only
    split
    · rename_i absent
      rw [absent, ite_self] at available
      rw [named_of_unavailable known available, absent]
      rfl
    · rename_i entity found
      split
      · -- A declared entity that is on the stack is not available, which is a fault of its own.
        rename_i repeated
        rw [if_pos (List.contains_iff_mem.mp repeated)] at available
        rw [named_of_unavailable known available, found]
        rfl
      · rename_i other
        rw [if_neg (List.contains_iff_mem.not.mp other), found] at available
        have invokes := EntityTable.invokes_of_find? found other
        rw [named_of_declared known available]
        refine (Recorded.outcome_ofResult_bind _ _).trans (bind_congr fun counted => ?_)
        refine (Recorded.outcome_ofResult_bind _ _).trans (bind_congr fun replaced => ?_)
        obtain ⟨_ | text, after⟩ := replaced
        · rfl
        · dsimp only
          rw [← EntityTable.beside_cons,
            ← outcome_replacedOn (.entity stack name :: callers) (name :: stack) after text]
          exact (Recorded.outcome_bind fun _ => rfl).trans (bind_pure _)
termination_by expansion.table.rank (.entity stack name)
decreasing_by exact (invokes text).below

theorem outcome_replacedOn (callers : List Call) (stack : List Text) (ledger : Ledger)
    (text : Text) :
    (expansion.replacedOn callers stack ledger text).outcome =
      expansion.replaced (expansion.table.beside stack) ledger text := by
  rw [replacedOn, Recorded.outcome_entered]
  split
  · rename_i unmarked
    rw [replaced_of_unmarked unmarked]
    rfl
  · rename_i before behind opened
    split
    · rename_i unclosed
      rw [replaced_of_open opened unclosed]
      rfl
    · rename_i reference later closed
      have invokes := expansion.table.invokes_of_breakOn? stack opened closed
      -- The rest finds the stack that the reference has left, which is the one that it was given.
      have further (here : Returned stack) :
          (expansion.replacedOn (.text stack text :: callers) here.after here.ledger
              later).outcome =
            expansion.replaced (expansion.table.beside stack) here.ledger later := by
        rw [outcome_replacedOn _ here.after here.ledger later, here.restored]
      have followed := Recorded.outcome_followed (expansion.place.normalize before)
        (expansion.replaced (expansion.table.beside stack) · later) further
      rw [replaced_of_marked opened closed]
      dsimp only
      split
      · rename_i number
        rw [referred_number]
        cases numericReference? number with
        | some c => exact followed (pure _)
        | none => exact followed (.ofResult _)
      · rename_i other
        rw [referred_of_name fun number same => other number same,
          ← outcome_namedOn (.text stack text :: callers) stack ledger reference]
        exact followed _
termination_by expansion.table.rank (.text stack text)
decreasing_by
  · rw [here.restored]
    exact invokes.2.below
  · exact invokes.1.below

end

mutual

/-- Whatever is called in the course of an expansion may be called by what is in progress. -/
theorem regular_namedOn {callers : List Call} {stack : List Text} {name : Text} (ledger : Ledger)
    (running : expansion.table.InProgress callers (.entity stack name)) :
    (expansion.namedOn callers stack ledger name).Regular expansion.table := by
  rw [namedOn]
  refine .entered running ?_
  split
  · exact .pure _
  · split
    · exact .ofResult _
    · rename_i found
      split
      · exact .ofResult _
      · rename_i other
        have invokes := EntityTable.invokes_of_find? found other
        refine .bind (.ofResult _) fun counted => .bind (.ofResult _) fun replaced => ?_
        obtain ⟨_ | text, after⟩ := replaced
        · exact .pure _
        · exact .bind (regular_replacedOn after (running.call (invokes text))) fun _ => .pure _
termination_by expansion.table.rank (.entity stack name)
decreasing_by exact (invokes text).below

theorem regular_replacedOn {callers : List Call} {stack : List Text} {text : Text}
    (ledger : Ledger) (running : expansion.table.InProgress callers (.text stack text)) :
    (expansion.replacedOn callers stack ledger text).Regular expansion.table := by
  rw [replacedOn]
  refine .entered running ?_
  split
  · exact .pure _
  · rename_i before behind opened
    split
    · exact .ofResult _
    · rename_i reference later closed
      have invokes := expansion.table.invokes_of_breakOn? stack opened closed
      have further (here : Returned stack) :
          (expansion.replacedOn (.text stack text :: callers) here.after here.ledger
              later).Regular expansion.table := by
        refine regular_replacedOn here.ledger ?_
        rw [here.restored]
        exact running.call invokes.2
      have followed (here : Returned stack) := (further here).bind fun rest =>
        .pure (here.followed (expansion.place.normalize before) rest)
      dsimp only
      split
      · split
        · exact .bind (.pure _) followed
        · exact .bind (.ofResult _) followed
      · exact .bind (regular_namedOn ledger (running.call invokes.1)) followed
termination_by expansion.table.rank (.text stack text)
decreasing_by
  · rw [here.restored]
    exact invokes.2.below
  · exact invokes.1.below

end

section Entries

variable {callers : List Call} {stack : List Text} {ledger : Ledger}

theorem mem_entries_namedOn (name : Text) :
    ⟨callers, .entity stack name⟩ ∈ (expansion.namedOn callers stack ledger name).entries := by
  rw [namedOn]
  exact List.mem_cons_self

/-- The calls for the text of an entity are on record where the entity is called for. -/
theorem entries_replacedOn_subset {name value : Text} (unknown : predefined? name = none)
    (found : expansion.table.find? name = some (.internal value)) (fresh : ¬stack.contains name)
    (few : ledger.expansions < expansion.options.maxExpansions) :
    (expansion.replacedOn (.entity stack name :: callers) (name :: stack)
        { ledger with expansions := ledger.expansions + 1 } value).entries ⊆
      (expansion.namedOn callers stack ledger name).entries := by
  have count : expansion.count ledger = .ok { ledger with expansions := ledger.expansions + 1 } :=
    if_pos few
  rw [namedOn, unknown]
  dsimp only
  split
  · rename_i absent
    cases absent.symm.trans found
  · rename_i here
    cases here.symm.trans found
    rw [dif_neg fresh, count]
    exact List.subset_cons_of_subset _ (Recorded.subset_bind _)

/-- The calls for a reference are on record where the text around it is expanded. -/
theorem entries_namedOn_subset {text before behind name later : Text}
    (opened : Text.breakOn? ['&'] text = some (before, behind))
    (closed : Text.breakOn? [';'] behind = some (name, later))
    (named : name.head? ≠ some '#') :
    (expansion.namedOn (.text stack text :: callers) stack ledger name).entries ⊆
      (expansion.replacedOn callers stack ledger text).entries := by
  rw [replacedOn]
  split
  · rename_i unmarked
    cases unmarked.symm.trans opened
  · rename_i here
    cases here.symm.trans opened
    split
    · rename_i unclosed
      cases unclosed.symm.trans closed
    · rename_i here
      cases here.symm.trans closed
      dsimp only
      split
      · exact absurd rfl named
      · exact List.subset_cons_of_subset _ (Recorded.subset_bind _)

end Entries

/-- A reference in a document is expanded with nothing on the stack. Whenever a call is made, the
entities around it are on the stack, no two the same and all of them declared, so that the calls for
entities are nested at most one deeper than there are declared ones. Each call ranks below the one
that makes it, whatever the limit, the texts and what comes back for external entities. -/
theorem nesting_bounded (expansion : Expansion) (ledger : Ledger) (name : Text) :
    let recorded := expansion.namedOn [] [] ledger name
    recorded.outcome = expansion.named expansion.table ledger name ∧
      ⟨[], .entity [] name⟩ ∈ recorded.entries ∧
      (∀ entry ∈ recorded.entries,
        entry.call.stack = entry.callers.filterMap Call.name? ∧ entry.call.stack.Nodup ∧
          (∀ other ∈ entry.call.stack, other ∈ expansion.table.names) ∧
          ((entry.call :: entry.callers).filterMap Call.name?).length ≤
            expansion.table.names.card + 1 ∧
          (entry.call :: entry.callers).IsChain fun callee caller =>
            expansion.table.Invokes caller callee) ∧
      (∀ caller callee, expansion.table.Invokes caller callee →
        expansion.table.Below callee caller) ∧
      WellFounded fun callee caller => expansion.table.Invokes caller callee := by
  intro recorded
  refine ⟨outcome_namedOn [] [] ledger name, ?_, ?_, fun _ _ => EntityTable.Invokes.below,
    expansion.table.wellFounded_invokes⟩
  · rw [show recorded = _ from namedOn.eq_def ..]
    exact List.mem_cons_self
  · intro entry member
    have running := regular_namedOn ledger (.start name) entry member
    exact ⟨running.stack_eq, running.stacked.distinct, running.stacked.declared,
      running.length_le, running.isChain⟩

/-- Two entities that refer to each other: the bound is reached where the first one is called for
inside of the second. -/
theorem nesting_bounded_cycle :
    let table : EntityTable := [("a".toList, .internal "&b;".toList),
      ("b".toList, .internal "&a;".toList)]
    ∃ entry ∈ (namedOn ⟨{}, table, .content, []⟩ [] [] {} "a".toList).entries,
      entry.call = .entity ["b".toList, "a".toList] "a".toList ∧ entry.call.stack.Nodup ∧
        (∀ other ∈ entry.call.stack, other ∈ table.names) ∧
        ((entry.call :: entry.callers).filterMap Call.name?).length = table.names.card + 1 := by
  intro table
  have member : ⟨[.text ["b".toList, "a".toList] "&a;".toList, .entity ["a".toList] "b".toList,
        .text ["a".toList] "&b;".toList, .entity [] "a".toList],
      .entity ["b".toList, "a".toList] "a".toList⟩ ∈
      (namedOn ⟨{}, table, .content, []⟩ [] [] {} "a".toList).entries := by
    refine entries_replacedOn_subset rfl rfl (by decide) (by decide) ?_
    refine entries_namedOn_subset rfl rfl (by decide) ?_
    refine entries_replacedOn_subset rfl rfl (by decide) (by decide) ?_
    exact entries_namedOn_subset rfl rfl (by decide) (mem_entries_namedOn _)
  obtain ⟨-, distinct, declared, -, -⟩ :=
    (nesting_bounded ⟨{}, table, .content, []⟩ {} "a".toList).2.2.1 _ member
  have two : table.names.card = 2 := by decide
  refine ⟨_, member, rfl, distinct, declared, ?_⟩
  rw [two]
  rfl

end Expansion

end XmlSelect.Markup
