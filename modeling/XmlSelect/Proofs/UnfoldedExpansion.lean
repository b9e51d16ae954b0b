import XmlSelect.Proofs.EntityExpansion
import XmlSelect.Proofs.UnfoldedText

/-! Expansion and unfolding. A text is expanded, with whatever entities are available and wherever it
stands, to what it unfolds to; the expansions are counted, and that is all that the ledger and the
limit have to do with it. -/
namespace XmlSelect.Markup

namespace Expansion

variable {expansion : Expansion} {available : EntityTable} {ledger after : Ledger}
  {text value name : Text} {count : Nat}

/-- The setting in which an expansion takes place. -/
def setting (expansion : Expansion) : Setting := ⟨expansion.options, expansion.table⟩

section Replacements

theorem replacement?_of_replacement {entity : Entity} {given : Option Text}
    (replaced : expansion.replacement ledger name entity = .ok (given, after)) :
    entity.replacement? expansion.options expansion.place name = some given ∧
      after.expansions = ledger.expansions := by
  cases entity with
  | internal value =>
    cases replaced
    exact ⟨rfl, rfl⟩
  | external systemId publicId =>
    rw [replacement] at replaced
    rw [Entity.replacement?]
    split at replaced
    · cases replaced
    · rename_i content
      rw [if_neg content]
      split at replaced
      · rename_i forbidden
        rw [if_pos forbidden]
        cases replaced
        exact ⟨rfl, rfl⟩
      · rename_i allowed
        rw [if_neg allowed]
        split at replaced
        · cases replaced
        · rename_i resolver
          rw [resolver]
          dsimp only at replaced
          split at replaced
          · rename_i resolved
            cases replaced
            simp [resolved, Ledger.request]
          · cases replaced

theorem replacement_of_replacement? {entity : Entity} {given : Option Text}
    (found : entity.replacement? expansion.options expansion.place name = some given)
    (ledger : Ledger) :
    ∃ after, expansion.replacement ledger name entity = .ok (given, after) ∧
      after.expansions = ledger.expansions := by
  cases entity with
  | internal value =>
    cases found
    exact ⟨ledger, rfl, rfl⟩
  | external systemId publicId =>
    rw [Entity.replacement?] at found
    rw [replacement]
    split at found
    · cases found
    · rename_i content
      rw [if_neg content]
      split at found
      · rename_i forbidden
        rw [if_pos forbidden]
        cases found
        exact ⟨_, rfl, rfl⟩
      · rename_i allowed
        rw [if_neg allowed]
        obtain ⟨resolve, resolver, answered⟩ := Option.bind_eq_some_iff.mp found
        obtain ⟨text, resolved, rfl⟩ := Option.map_eq_some_iff.mp answered
        rw [resolver]
        dsimp only
        rw [resolved]
        exact ⟨_, rfl, rfl⟩

end Replacements

section Completeness

theorem replaced_cons {c : Char} (other : c ≠ '&')
    (read : expansion.replaced available ledger text = .ok (value, after)) :
    expansion.replaced available ledger (c :: text) =
      .ok (expansion.place.normalize [c] ++ value, after) := by
  have start : Text.dropPrefix? ['&'] (c :: text) = none := if_neg other.symm
  obtain ⟨unmarked, same⟩ | ⟨before, behind, reference, later, here, counted, rest, _, opened, closed,
    stands, further, same⟩ := replaced_eq_ok_iff.mp read
  · cases same
    refine replaced_eq_ok_iff.mpr (.inl ⟨by simp [Text.breakOn?, start, unmarked], ?_⟩)
    rw [← Place.normalize_append, List.singleton_append]
  · cases same
    refine replaced_eq_ok_iff.mpr (.inr ⟨c :: before, behind, reference, later, here, counted, rest,
      after, by simp [Text.breakOn?, start, opened], closed, stands, further, ?_⟩)
    have split := Place.normalize_append expansion.place [c] before
    rw [List.singleton_append] at split
    rw [split]
    simp only [List.append_assoc]

/-- Whatever entity the text may have in it is available: an entity that is not unfolds in more
expansions than there are left to count. -/
def Covers (expansion : Expansion) (available : EntityTable) (count : Nat) : Prop :=
  ∀ name entity, expansion.setting.Declares name entity → available.find? name = some entity ∨
    ∃ text value spent, entity.replacement? expansion.options expansion.place name = some (some text) ∧
      expansion.setting.Unfolds expansion.place text value spent ∧ count ≤ spent

theorem covers_table (expansion : Expansion) (count : Nat) :
    expansion.Covers expansion.table count :=
  fun _ _ declares => .inl declares.found

theorem Covers.mono {more : Nat} (covers : expansion.Covers available more) (fewer : count ≤ more) :
    expansion.Covers available count :=
  fun name entity declares => (covers name entity declares).imp_right
    fun ⟨text, value, spent, replaces, unfolds, few⟩ =>
      ⟨text, value, spent, replaces, unfolds, fewer.trans few⟩

theorem Covers.find? {entity : Entity} {given : Option Text}
    (covers : expansion.Covers available count) (declares : expansion.setting.Declares name entity)
    (replaces : entity.replacement? expansion.options expansion.place name = some given)
    (few : ∀ text value spent, given = some text →
      expansion.setting.Unfolds expansion.place text value spent → spent < count) :
    available.find? name = some entity := by
  refine (covers name entity declares).resolve_right ?_
  rintro ⟨text, value, spent, replaces', unfolds, more⟩
  have := few text value spent (Option.some.inj (replaces.symm.trans replaces')) unfolds
  omega

theorem Covers.without {entity : Entity} {nested more : Nat} (covers : expansion.Covers available more)
    (declares : expansion.setting.Declares name entity)
    (replaces : entity.replacement? expansion.options expansion.place name = some (some text))
    (inside : expansion.setting.Unfolds expansion.place text value nested) (fewer : nested ≤ more) :
    expansion.Covers (available.without name) nested := by
  intro other entity' declares'
  by_cases same : other = name
  · subst same
    obtain rfl := Option.some.inj (declares.found.symm.trans declares'.found)
    exact .inr ⟨text, value, nested, replaces, inside, Nat.le_refl nested⟩
  · rw [EntityTable.find?_without available same]
    exact (covers.mono fewer) other entity' declares'

theorem replaced_marked_of_named {later rest here : Text} {counted : Ledger} (valid : IsName name)
    (named : expansion.named available ledger name = .ok (here, counted))
    (further : expansion.replaced available counted later = .ok (rest, after)) :
    expansion.replaced available ledger (marked name ++ later) = .ok (here ++ rest, after) := by
  have nothing : '&' ∉ ([] : Text) := List.not_mem_nil
  have read := replaced_marked nothing valid.semicolon
    (.inr ⟨valid.not_number, named⟩) further
  rwa [List.nil_append, Place.normalize_nil, List.nil_append] at read

/-- A text that unfolds is expanded, if the limit allows it. -/
theorem replaced_of_unfolds
    (unfolds : expansion.setting.Unfolds expansion.place text value count)
    (covers : expansion.Covers available count) (fits : count ≤ expansion.left ledger) :
    ∃ after, expansion.replaced available ledger text = .ok (value, after) ∧
      after.expansions = ledger.expansions + count := by
  induction unfolds generalizing available ledger with
  | nil =>
    refine ⟨ledger, ?_, rfl⟩
    rw [replaced_plain List.not_mem_nil, Place.normalize_nil]
  | ordinary other _ ih =>
    obtain ⟨after, read, spent⟩ := ih covers fits
    exact ⟨after, replaced_cons other read, spent⟩
  | @character reference later rest c count semicolon isCharacter _ ih =>
    obtain ⟨after, read, spent⟩ := ih covers fits
    refine ⟨after, ?_, spent⟩
    have here : (∃ number d, reference = '#' :: number ∧ numericReference? number = some d ∧
        [c] = [d] ∧ ledger = ledger) ∨ (∀ number, reference ≠ '#' :: number) ∧
          expansion.named available ledger reference = .ok ([c], ledger) := by
      rcases isCharacter with ⟨number, same, found⟩ | known
      · exact .inl ⟨number, c, same, found, rfl, rfl⟩
      · refine .inr ⟨?_, named_of_predefined known⟩
        rintro number rfl
        cases known
    have nothing : '&' ∉ ([] : Text) := List.not_mem_nil
    have read := replaced_marked nothing semicolon here read
    rwa [List.nil_append, Place.normalize_nil, List.nil_append] at read
  | @skipped name later rest entity count declares passed _ ih =>
    have found := covers.find? declares passed nofun
    unfold left at fits
    obtain ⟨counted, replaced, same⟩ := replacement_of_replacement? passed (ledger.spend 1)
    rw [Ledger.expansions_spend] at same
    have further : count ≤ expansion.left counted := by unfold left; omega
    have named : expansion.named available ledger name = .ok ([], counted) :=
      named_eq_ok_iff.mpr (.inr ⟨entity, _, _, counted, declares.unknown, found,
        count_eq (by unfold left; omega), replaced, rfl⟩)
    obtain ⟨after, read, spent⟩ := ih (covers.mono (by omega)) further
    exact ⟨after, replaced_marked_of_named declares.valid named read, by omega⟩
  | @entity name text value later rest entity nested count declares replaces inside _ inner outer =>
    have found := covers.find? declares replaces fun text' value' spent same unfolds => by
      cases same
      have := (inside.unique unfolds).2
      omega
    unfold left at fits
    obtain ⟨counted, replaced, same⟩ := replacement_of_replacement? replaces (ledger.spend 1)
    rw [Ledger.expansions_spend] at same
    have nestedFits : nested ≤ expansion.left counted := by unfold left; omega
    obtain ⟨between, within, spent⟩ :=
      inner (covers.without declares replaces inside (by omega)) nestedFits
    have further : count ≤ expansion.left between := by unfold left; omega
    have named : expansion.named available ledger name = .ok (value, between) :=
      named_eq_ok_iff.mpr (.inr ⟨entity, _, _, counted, declares.unknown, found,
        count_eq (by unfold left; omega), replaced, within⟩)
    obtain ⟨after, read, spent'⟩ := outer (covers.mono (by omega)) further
    exact ⟨after, replaced_marked_of_named declares.valid named read, by omega⟩

/-- A name that stands for something is expanded to it, if the limit allows it. -/
theorem named_of_stands (valid : IsName name)
    (stands : expansion.setting.Stands expansion.place name value count)
    (fits : count ≤ expansion.left ledger) :
    ∃ after, expansion.named expansion.table ledger name = .ok (value, after) ∧
      after.expansions = ledger.expansions + count := by
  cases stands with
  | @character c isCharacter =>
    rcases isCharacter with ⟨number, same, -⟩ | known
    · exact absurd same (valid.not_number number)
    · exact ⟨ledger, named_of_predefined known, rfl⟩
  | skipped declares passed =>
    obtain ⟨after, replaced, same⟩ := replacement_of_replacement? passed (ledger.spend 1)
    exact ⟨after, named_eq_ok_iff.mpr (.inr ⟨_, _, _, _, declares.unknown, declares.found,
      count_eq fits, replaced, rfl⟩), same⟩
  | @entity text _ _ nested declares replaces inside =>
    obtain ⟨counted, replaced, same⟩ := replacement_of_replacement? replaces (ledger.spend 1)
    rw [Ledger.expansions_spend] at same
    unfold left at fits
    have nestedFits : nested ≤ expansion.left counted := by unfold left; omega
    obtain ⟨after, within, spent⟩ := replaced_of_unfolds inside
      ((covers_table expansion _).without declares replaces inside (Nat.le_refl _)) nestedFits
    exact ⟨after, named_eq_ok_iff.mpr (.inr ⟨_, _, _, _, declares.unknown, declares.found,
      count_eq (by unfold left; omega), replaced, within⟩), by omega⟩

end Completeness

section Soundness

theorem declares_of_find? {entity : Entity} (names : ∀ entry ∈ expansion.table, IsName entry.1)
    (unknown : predefined? name = none)
    (found : expansion.table.find? name = some entity) : expansion.setting.Declares name entity :=
  ⟨names _ (mem_of_lookup found), unknown, found⟩

mutual

/-- A reference that is expanded stands for the text it is expanded to. -/
theorem stands_of_named (names : ∀ entry ∈ expansion.table, IsName entry.1)
    {available : EntityTable} {ledger after : Ledger} {name value : Text}
    (within : available.Within expansion.table)
    (read : expansion.named available ledger name = .ok (value, after)) :
    ∃ count, expansion.setting.Stands expansion.place name value count ∧
      after.expansions = ledger.expansions + count ∧ count ≤ expansion.left ledger := by
  obtain ⟨c, known, same⟩ |
    ⟨entity, counted, given, spent, unknown, found, count, replaced, read⟩ :=
      named_eq_ok_iff.mp read
  · cases same
    exact ⟨0, .character (.inr known), rfl, Nat.zero_le _⟩
  · have declares := declares_of_find? names unknown (within name entity found)
    obtain ⟨below, rfl⟩ := expansions_of_count count
    obtain ⟨replaces, same⟩ := replacement?_of_replacement replaced
    rw [Ledger.expansions_spend] at same
    cases given with
    | none =>
      cases read
      exact ⟨1, .skipped declares replaces, same, by unfold left; omega⟩
    | some text =>
      obtain ⟨nested, inside, more, few⟩ := unfolds_of_replaced names (within.without name) read
      unfold left at few ⊢
      exact ⟨nested + 1, .entity declares replaces inside, by omega, by omega⟩
termination_by (available.length, 0)
decreasing_by exact Prod.Lex.left _ _ (EntityTable.length_without found)

/-- A text that is expanded unfolds to what it is expanded to. -/
theorem unfolds_of_replaced (names : ∀ entry ∈ expansion.table, IsName entry.1)
    {available : EntityTable} {ledger after : Ledger} {text value : Text}
    (within : available.Within expansion.table)
    (read : expansion.replaced available ledger text = .ok (value, after)) :
    ∃ count, expansion.setting.Unfolds expansion.place text value count ∧
      after.expansions = ledger.expansions + count ∧ count ≤ expansion.left ledger := by
  obtain ⟨unmarked, same⟩ | ⟨before, behind, reference, later, here, counted, rest, last, opened,
    closed, stands, further, same⟩ := replaced_eq_ok_iff.mp read
  · cases same
    have nothing : expansion.setting.Unfolds expansion.place [] [] 0 := .nil
    have unfolds := nothing.behind (Text.notMem_of_breakOn?_eq_none unmarked)
    rw [List.append_nil, List.append_nil] at unfolds
    exact ⟨0, unfolds, rfl, Nat.zero_le _⟩
  · cases same
    have unmarked := Text.notMem_of_breakOn?_singleton opened
    have semicolon := Text.notMem_of_breakOn?_singleton closed
    have first : ∃ count, expansion.setting.Stands expansion.place reference here count ∧
        counted.expansions = ledger.expansions + count ∧ count ≤ expansion.left ledger := by
      rcases stands with ⟨number, c, same, found, rfl, rfl⟩ | ⟨-, named⟩
      · exact ⟨0, .character (.inl ⟨number, same, found⟩), rfl, Nat.zero_le _⟩
      · exact stands_of_named names within named
    obtain ⟨spent, stands, counts, few⟩ := first
    obtain ⟨count, unfolds, counts', few'⟩ := unfolds_of_replaced names within further
    unfold left at few few' ⊢
    refine ⟨spent + count, ?_, by omega, by omega⟩
    have parts := Text.append_of_breakOn? opened
    rw [Text.append_of_breakOn? closed] at parts
    have text : text = before ++ (marked reference ++ later) := by simpa [marked] using parts
    rw [text, List.append_assoc]
    exact ((Setting.unfolds_marked_iff semicolon).mpr
      ⟨here, rest, spent, count, rfl, rfl, stands, unfolds⟩).behind unmarked
termination_by (available.length, text.length + 1)
decreasing_by
  · exact Prod.Lex.right _ (Nat.succ_pos _)
  · have opening := congrArg List.length (Text.append_of_breakOn? opened)
    have closing := congrArg List.length (Text.append_of_breakOn? closed)
    simp only [List.length_append, List.length_cons, List.length_nil] at opening closing
    exact Prod.Lex.right _ (by omega)

end

end Soundness

end Expansion

end XmlSelect.Markup
