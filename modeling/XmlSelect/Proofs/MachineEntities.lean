import XmlSelect.Proofs.LineEndReferences
import XmlSelect.Proofs.MachineLexemes

/-! The machine expands references as the expansion of entities does. It keeps a list of the entities
that are being expanded where the expansion keeps those that are not. -/
namespace XmlSelect.Machine

open Markup

section Expansions

variable {source : Text} {expansion : Expansion} {state : State} {ledger : Ledger}

/-- An expansion leaves a text and a ledger behind, and the cursor where it was. -/
def expanded {α : Type} (source rest : Text) (state : State) (result : α × Ledger) : α × State :=
  (result.1, state.at source rest result.2)

theorem run_countExpansion :
    run (countExpansion expansion.options) (state.at source expansion.rest ledger) =
      answer source (fun counted => ((), state.at source expansion.rest counted))
        (expansion.count ledger) := by
  rw [countExpansion, run_modify_bind, run_get_bind, Expansion.count]
  by_cases within : ledger.expansions < expansion.options.maxExpansions
  · rw [if_pos within, if_neg]
    · rfl
    · exact Nat.not_lt.mpr within
  · rw [if_neg within, if_pos]
    · rfl
    · exact Nat.lt_succ_of_le (Nat.not_lt.mp within)

theorem run_replacement (name : Text) (entity : Entity) :
    run (replacement expansion.options name expansion.place entity)
        (state.at source expansion.rest ledger) =
      answer source (expanded source expansion.rest state)
        (expansion.replacement ledger name entity) := by
  cases entity with
  | internal value => rfl
  | external systemId publicId =>
    rw [replacement, Expansion.replacement, resolveExternal]
    split
    · rfl
    · split
      · rw [run_bind_of_ok (run_warn _)]
        rfl
      · cases expansion.options.resolver with
        | none => rfl
        | some resolve =>
          dsimp only
          rw [run_modify_bind]
          cases resolve ⟨name, systemId, publicId⟩ <;> rfl

mutual

theorem run_expandEntity {ledger : Ledger} (expanding : List Text) (name : Text) :
    run (expandEntity expansion.options expansion.table expanding expansion.place name)
        (state.at source expansion.rest ledger) =
      answer source (expanded source expansion.rest state)
        (expansion.named (expansion.table.beside expanding) ledger name) := by
  rw [expandEntity]
  cases known : predefined? name with
  | some c =>
    rw [Expansion.named_of_predefined known]
    rfl
  | none =>
    have left := expansion.table.find?_beside expanding name
    dsimp only
    split
    · rename_i undeclared
      rw [undeclared, ite_self] at left
      rw [Expansion.named_of_unavailable known left, undeclared]
      rfl
    · rename_i entity declared
      split
      · rename_i inside
        rw [if_pos (List.contains_iff_mem.mp inside)] at left
        rw [Expansion.named_of_unavailable known left, declared]
        rfl
      · rename_i fresh
        have fewer := EntityTable.length_beside_cons declared fresh
        rw [if_neg (List.contains_iff_mem.not.mp fresh), declared] at left
        rw [Expansion.named_of_declared known left]
        refine run_bind_answer run_countExpansion fun counted _ => ?_
        refine run_bind_answer (run_replacement name entity) fun result _ => ?_
        obtain ⟨replaced, after⟩ := result
        cases replaced with
        | none => rfl
        | some text => exact run_expandText (name :: expanding) text
termination_by ((expansion.table.beside expanding).length, 0)
decreasing_by exact Prod.Lex.left _ _ fewer

theorem run_expandReference {ledger : Ledger} (expanding : List Text) (reference : Text) :
    run (expandReference expansion.options expansion.table expanding expansion.place reference)
        (state.at source expansion.rest ledger) =
      answer source (expanded source expansion.rest state)
        (expansion.referred (expansion.table.beside expanding) ledger reference) := by
  rw [expandReference.eq_def]
  split
  · rename_i number
    rw [Expansion.referred_number]
    cases numericReference? number <;> rfl
  · rename_i other
    rw [Expansion.referred_of_name fun number same => other number same]
    exact run_expandEntity expanding reference
termination_by ((expansion.table.beside expanding).length, 1)

theorem run_expandText {ledger : Ledger} (expanding : List Text) (text : Text) :
    run (expandText expansion.options expansion.table expanding expansion.place text)
        (state.at source expansion.rest ledger) =
      answer source (expanded source expansion.rest state)
        (expansion.replaced (expansion.table.beside expanding) ledger text) := by
  rw [expandText]
  split
  · rename_i unmarked
    rw [Expansion.replaced_of_unmarked unmarked]
    rfl
  · rename_i before behind opened
    split
    · rename_i open_
      rw [Expansion.replaced_of_open opened open_]
      rfl
    · rename_i reference later closed
      have shorter : later.length + 2 < text.length + 2 := by
        rw [Text.append_of_breakOn? opened, Text.append_of_breakOn? closed]
        simp only [List.length_append, List.length_cons, List.length_nil]
        omega
      rw [Expansion.replaced_of_marked opened closed]
      refine run_bind_answer (run_expandReference expanding reference) fun here _ => ?_
      exact run_bind_answer (run_expandText expanding later) fun further _ => rfl
termination_by ((expansion.table.beside expanding).length, text.length + 2)
decreasing_by
  · exact Prod.Lex.right _ (by omega)
  · exact Prod.Lex.right _ shorter

end

theorem run_reference {setting : Setting} {rest : Text} (place : Place)
    (within : '&' :: rest <:+ source) (entities : state.table = setting.table) :
    run (reference setting.options place) (state.at source ('&' :: rest) ledger) =
      answer source (fun read => (read.value.1, state.at source read.rest read.value.2))
        (Markup.reference setting place ledger rest) := by
  have inner := (List.suffix_cons _ _).trans within
  rw [reference, run_expect_here_bind List.singleton_append.symm within]
  by_cases numeric : ∃ number, rest = '#' :: number
  · obtain ⟨number, rfl⟩ := numeric
    have behind := (List.suffix_cons _ _).trans inner
    rw [run_eat_here_bind List.singleton_append.symm inner]
    exact (charReference_reads behind).run_bind fun read _ => rfl
  · have unmarked : ∀ number, rest ≠ '#' :: number := fun number same => numeric ⟨number, same⟩
    rw [run_eat_other_bind inner unmarked, reference_of_name unmarked]
    refine (name_reads inner).run_bind fun entity _ => ?_
    have afterName := entity.suffix.trans inner
    refine (expect_reads afterName _).run_bind fun semicolon _ => ?_
    have table : (state.at source semicolon.rest ledger).table = setting.table := entities
    let expansion : Expansion := ⟨setting.options, setting.table, place, semicolon.rest⟩
    have expanded := @run_expandEntity source expansion state ledger [] entity.value
    rw [run_get_bind, table, ← bind_pure (expandEntity _ _ _ _ _)]
    exact run_bind_answer expanded fun _ _ => rfl

end Expansions

end XmlSelect.Machine
