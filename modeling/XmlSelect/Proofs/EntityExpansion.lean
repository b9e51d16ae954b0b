import XmlSelect.Proofs.EntitySubstitution
import XmlSelect.Proofs.PrintedMarkup

/-! Expanding references to internal entities in content. The expansion gives the text that the
reference stands for and counts one for each replacement; it comes to its end just if there is such
a text and the replacements do not go beyond the limit. -/
namespace XmlSelect.Markup

namespace Expansion

variable {expansion : Expansion} {table available : EntityTable} {ledger after : Ledger}
  {name text result : Text} {count : Nat}

/-- How many more expansions the limit allows. -/
def left (expansion : Expansion) (ledger : Ledger) : Nat :=
  expansion.options.maxExpansions - ledger.expansions

theorem count_eq (fits : 0 < expansion.left ledger) :
    expansion.count ledger = .ok (ledger.spend 1) := by
  rw [count, if_pos (by unfold left at fits; omega)]
  rfl

section Completeness

/-- An entity that is available is expanded by its value. -/
theorem named_of_replaced {value replacement : Text} {nested : Nat}
    (expands : table.Expands name value) (found : available.find? name = some (.internal value))
    (fits : 0 < expansion.left ledger)
    (inside : expansion.replaced (available.without name) (ledger.spend 1) value =
      .ok (replacement, (ledger.spend 1).spend nested)) :
    expansion.named available ledger name = .ok (replacement, ledger.spend (nested + 1)) := by
  rw [Ledger.spend_spend, Nat.add_comm] at inside
  exact named_eq_ok_iff.mpr
    (.inr ⟨_, _, some value, _, expands.1, found, count_eq fits, rfl, inside⟩)

theorem replaced_plain (unmarked : '&' ∉ text) :
    expansion.replaced available ledger text = .ok (expansion.place.normalize text, ledger) := by
  refine replaced_eq_ok_iff.mpr (.inl ⟨?_, rfl⟩)
  refine Option.eq_none_iff_forall_ne_some.mpr fun parts opened => unmarked ?_
  simp [Text.append_of_breakOn? opened]

/-- A text is expanded reference by reference. -/
theorem replaced_marked {before reference later value rest : Text} {counted : Ledger}
    (unmarked : '&' ∉ before) (semicolon : ';' ∉ reference)
    (here : (∃ number c, reference = '#' :: number ∧ numericReference? number = some c ∧
        value = [c] ∧ counted = ledger) ∨
      (∀ number, reference ≠ '#' :: number) ∧
        expansion.named available ledger reference = .ok (value, counted))
    (further : expansion.replaced available counted later = .ok (rest, after)) :
    expansion.replaced available ledger (before ++ (marked reference ++ later)) =
      .ok (expansion.place.normalize before ++ value ++ rest, after) := by
  refine replaced_eq_ok_iff.mpr (.inr ⟨before, reference ++ ';' :: later, reference, later, value,
    counted, rest, after, ?_, Text.breakOn?_singleton semicolon later, here, further, rfl⟩)
  simpa [marked] using Text.breakOn?_singleton unmarked (reference ++ ';' :: later)

/-- Where a text stands for another one and the limit allows it, expansion comes to its end. -/
theorem replaced_of_substitutes (content : expansion.place = .content) (stored : table.Stored)
    (substitutes : table.Substitutes text result count)
    (covers : ∀ name, Mentions text name → table.Covers available name)
    (fits : count ≤ expansion.left ledger) :
    expansion.replaced available ledger text = .ok (result, ledger.spend count) := by
  have place (text : Text) : expansion.place.normalize text = text := by rw [content]; rfl
  induction substitutes generalizing available ledger with
  | plain unmarked => rw [replaced_plain unmarked, place, Ledger.spend_zero]
  | @character before reference later rest c count unmarked denotes behind ih =>
    have further := ih (fun name mentions => covers name
      (mentions.of_infix ⟨before ++ marked reference, [], by simp⟩)) fits
    have here : (∃ number d, reference = '#' :: number ∧ numericReference? number = some d ∧
        [c] = [d] ∧ ledger = ledger) ∨ (∀ number, reference ≠ '#' :: number) ∧
          expansion.named available ledger reference = .ok ([c], ledger) := by
      rcases denotes.found with ⟨number, same, found⟩ | known
      · exact .inl ⟨number, c, same, found, rfl, rfl⟩
      · refine .inr ⟨?_, named_of_predefined known⟩
        rintro number rfl
        cases known
    rw [replaced_marked unmarked denotes.unmarked.2 here further, place]
    simp
  | @entity before name later value replacement rest nested count unmarked expands inside behind
      insideIh behindIh =>
    have semicolon := (expands.unmarked stored).2
    have covered := covers name (mentions_first semicolon)
    have acyclic := (EntityTable.Substitutes.entity unmarked expands inside behind).acyclic stored
      (mentions_first semicolon)
    unfold left at fits insideIh behindIh
    have here : expansion.named available ledger name =
        .ok (replacement, ledger.spend (nested + 1)) :=
      named_of_replaced expands (covered name value .refl expands) (by unfold left; omega) <|
        insideIh (fun other mentions => covered.step acyclic ⟨value, expands, mentions⟩)
          (by simp; omega)
    have further : expansion.replaced available (ledger.spend (nested + 1)) later =
        .ok (rest, (ledger.spend (nested + 1)).spend count) :=
      behindIh (fun other mentions => covers other
        (mentions.of_infix ⟨before ++ marked name, [], by simp⟩)) (by simp; omega)
    rw [Ledger.spend_spend] at further
    have named : ∀ number, name ≠ '#' :: number := by
      rintro number rfl
      exact absurd (stored.named _ expands.member).1 (by decide)
    rw [replaced_marked unmarked semicolon (.inr ⟨named, here⟩) further, place, List.append_assoc]

end Completeness

section Soundness

mutual

/-- What a reference is expanded to is what it stands for. -/
theorem named_substitutes (content : expansion.place = .content) (stored : table.Stored)
    {available : EntityTable} {ledger after : Ledger} {name result : Text}
    (within : available.Within table)
    (read : expansion.named available ledger name = .ok (result, after)) :
    (∃ c, predefined? name = some c ∧ result = [c] ∧ after = ledger) ∨
      ∃ value count, table.Expands name value ∧ table.Substitutes value result count ∧
        after = ledger.spend (count + 1) ∧ count + 1 ≤ expansion.left ledger := by
  obtain ⟨c, known, same⟩ |
    ⟨entity, counted, replacement, spent, unknown, found, count, replaced, read⟩ :=
      named_eq_ok_iff.mp read
  · cases same
    exact .inl ⟨c, known, rfl, rfl⟩
  · obtain ⟨value, rfl, numeric⟩ := stored.internal _ (mem_of_lookup (within name entity found))
    obtain ⟨fits, rfl⟩ := expansions_of_count count
    cases replaced
    have expands : table.Expands name value := ⟨unknown, within name _ found⟩
    obtain ⟨count, substitutes, rfl, fits'⟩ := replaced_substitutes content stored
      (within.without name) numeric read
    refine .inr ⟨value, count, expands, substitutes, ?_, ?_⟩
    · rw [Ledger.spend_spend, Nat.add_comm]
    · unfold left at fits' ⊢
      simp only [Ledger.expansions_spend] at fits'
      omega
termination_by (available.length, 0)
decreasing_by exact Prod.Lex.left _ _ (EntityTable.length_without found)

/-- What a text is expanded to is what it stands for. -/
theorem replaced_substitutes (content : expansion.place = .content) (stored : table.Stored)
    {available : EntityTable} {ledger after : Ledger} {text result : Text}
    (within : available.Within table)
    (numeric : Numeric text)
    (read : expansion.replaced available ledger text = .ok (result, after)) :
    ∃ count, table.Substitutes text result count ∧ after = ledger.spend count ∧
      count ≤ expansion.left ledger := by
  have place (text : Text) : expansion.place.normalize text = text := by rw [content]; rfl
  obtain ⟨unmarked, same⟩ | ⟨before, behind, reference, later, value, counted, rest, spent, opened,
    closed, here, further, same⟩ := replaced_eq_ok_iff.mp read
  · cases same
    rw [place]
    exact ⟨0, .plain (Text.notMem_of_breakOn?_eq_none unmarked), rfl, Nat.zero_le _⟩
  · cases same
    have unmarked := Text.notMem_of_breakOn?_singleton opened
    have semicolon := Text.notMem_of_breakOn?_singleton closed
    have parts := parts_of_breakOn? opened closed
    have shorter : later.length < text.length := by
      rw [parts]
      simp [marked]
      omega
    rw [parts] at numeric ⊢
    rw [place]
    have numeric' : Numeric later := fun number mentions =>
      numeric number (mentions.of_infix ⟨before ++ marked reference, [], by simp⟩)
    obtain ⟨count, behind, rfl, fits⟩ :=
      replaced_substitutes content stored within numeric' further
    obtain ⟨number, c, rfl, known, rfl, rfl⟩ | ⟨-, here⟩ := here
    · have denotes := Denotes.of_numericReference? known (numeric number (mentions_first semicolon))
      exact ⟨count, by simpa using .character unmarked denotes behind, rfl, fits⟩
    · obtain ⟨c, known, rfl, rfl⟩ | ⟨value, nested, expands, inside, rfl, fits'⟩ :=
        named_substitutes content stored within here
      · exact ⟨count, by simpa using .character unmarked (.predefined known) behind, rfl, fits⟩
      · refine ⟨nested + 1 + count, by simpa using .entity unmarked expands inside behind, ?_, ?_⟩
        · rw [Ledger.spend_spend]
        · unfold left at fits fits' ⊢
          simp only [Ledger.expansions_spend] at fits
          omega
termination_by (available.length, text.length + 1)
decreasing_by
  · exact Prod.Lex.right _ (Nat.succ_lt_succ shorter)
  · exact Prod.Lex.right _ (Nat.succ_pos _)

end

end Soundness

section Alone

variable (content : expansion.place = .content) (stored : table.Stored)

include content stored

theorem substitutes_of_named (read : expansion.named table ledger name = .ok (result, after)) :
    ∃ count, table.Substitutes (marked name) result count ∧ after = ledger.spend count ∧
      count ≤ expansion.left ledger := by
  obtain ⟨c, known, rfl, rfl⟩ | ⟨value, count, expands, inside, rfl, fits⟩ :=
    named_substitutes content stored (fun _ _ => id) read
  · exact ⟨0, .character_alone (.predefined known), rfl, Nat.zero_le _⟩
  · exact ⟨count + 1, .entity_alone expands inside, rfl, fits⟩

/-- A reference whose graph of references has no cycle and no unknown one is expanded, if the limit
allows it. -/
theorem exists_named (valid : IsName name) (acyclic : table.Acyclic name)
    (resolves : table.Resolves name)
    (fits : ∀ text count, table.Substitutes (marked name) text count →
      count ≤ expansion.left ledger) :
    ∃ result, expansion.named table ledger name = .ok result := by
  have covers : table.Covers table name := fun _ _ _ expands => expands.2
  rcases (resolves name .refl).1.cases stored with ⟨c, denotes⟩ | ⟨value, expands⟩
  · rcases denotes.found with ⟨number, rfl, -⟩ | known
    · exact absurd valid.1 (by decide)
    · exact ⟨_, named_of_predefined known⟩
  · obtain ⟨replacement, nested, inside⟩ :=
      EntityTable.exists_substitutes stored expands acyclic resolves covers
    have enough := fits _ _ (.entity_alone expands inside)
    refine ⟨_, named_of_replaced expands expands.2 (by omega) (replaced_of_substitutes content
      stored inside (fun other mentions => covers.step acyclic ⟨value, expands, mentions⟩) ?_)⟩
    unfold left at enough ⊢
    simp only [Ledger.expansions_spend]
    omega

end Alone

end Expansion

/-- A reference in content is expanded just if the references met on the way form no cycle and are
known ones, closed each by its semicolon, and the limit allows all replacements. What it is expanded
to is what it stands for, and each replacement counts once. -/
theorem reference_substituted (setting : Setting) (stored : setting.table.Stored) {name : Text}
    (valid : IsName name) (ledger : Ledger) (behind : Text) :
    ((∃ read, reference setting .content ledger (name ++ ';' :: behind) = .ok read) ↔
      setting.table.Acyclic name ∧ setting.table.Resolves name ∧
        ∀ text count, setting.table.Substitutes (marked name) text count →
          count ≤ setting.options.maxExpansions - ledger.expansions) ∧
    ∀ read, reference setting .content ledger (name ++ ';' :: behind) = .ok read →
      read.rest = behind ∧ ∃ count, setting.table.Substitutes (marked name) read.value.1 count ∧
        read.value.2 = ledger.spend count := by
  obtain ⟨suffix, expanded⟩ := reference_named valid setting .content ledger behind _ rfl
  have mentions : Mentions (marked name) name := mentions_alone valid
  rw [expanded]
  refine ⟨⟨?_, ?_⟩, ?_⟩
  · rintro ⟨read, done⟩
    obtain ⟨⟨text, after⟩, named, -⟩ := map_ok done
    obtain ⟨count, substitutes, -, fits⟩ := Expansion.substitutes_of_named rfl stored named
    refine ⟨substitutes.acyclic stored mentions, substitutes.resolves stored mentions, ?_⟩
    intro text' count' substitutes'
    rwa [← (substitutes.unique stored substitutes').2]
  · rintro ⟨acyclic, resolves, fits⟩
    have ended : ∃ result, Expansion.named ⟨setting.options, setting.table, .content, behind⟩
        setting.table ledger name = .ok result :=
      Expansion.exists_named rfl stored valid acyclic resolves fits
    obtain ⟨result, named⟩ := ended
    rw [named]
    exact ⟨_, rfl⟩
  · intro read done
    obtain ⟨⟨text, after⟩, named, rfl⟩ := map_ok done
    obtain ⟨count, substitutes, same, -⟩ := Expansion.substitutes_of_named rfl stored named
    exact ⟨rfl, count, substitutes, same⟩

/-- Two references to one entity are no cycle, and count twice. -/
theorem reference_substituted_shared :
    let table : EntityTable := [("e".toList, .internal "&f;-&f;&#65;".toList),
      ("f".toList, .internal "&lt;x".toList)]
    table.Stored ∧ IsName "e".toList ∧ table.Acyclic "e".toList ∧
      table.Substitutes (marked "e".toList) "<x-<xA".toList 3 := by
  intro table
  have f : Numeric "&lt;x".toList := by
    have parts : "&lt;x".toList = [] ++ (marked "lt".toList ++ ['x']) := rfl
    rintro number mentions
    rw [parts] at mentions
    rcases mentions.cases (by decide) (by decide) (by decide) with same | mentions
    · cases same
    · exact absurd (mentions.2.subset (by simp [marked])) (by decide : '&' ∉ ['x'])
  have e : Numeric "&f;-&f;&#65;".toList := by
    have parts : "&f;-&f;&#65;".toList = [] ++ (marked "f".toList ++ (['-'] ++ (marked "f".toList ++
        ([] ++ (marked "#65".toList ++ []))))) := rfl
    rintro number mentions
    rw [parts] at mentions
    rcases mentions.cases (by decide) (by decide) (by decide) with same | mentions
    · cases same
    rcases mentions.cases (by decide) (by decide) (by decide) with same | mentions
    · cases same
    rcases mentions.cases (by decide) (by decide) (by decide) with same | mentions
    · cases same
      exact .inl (List.all_eq_true.mp rfl)
    · exact absurd (mentions.2.subset (by simp [marked])) (by decide : '&' ∉ [])
  have stored : table.Stored := ⟨by decide, List.forall_mem_cons.mpr ⟨⟨_, rfl, e⟩,
    List.forall_mem_singleton.mpr ⟨_, rfl, f⟩⟩⟩
  have valid : IsName "e".toList := by decide
  let expansion : Expansion := ⟨{ maxExpansions := 8 }, table, .content, []⟩
  have count (spent : Nat) (few : spent < 8) : expansion.count { expansions := spent } =
      .ok { expansions := spent + 1 } := if_pos few
  have inner (spent : Nat) (few : spent < 8) :
      expansion.referred (table.without "e".toList) { expansions := spent } "f".toList =
        .ok ("<x".toList, { expansions := spent + 1 }) := by
    have predefined : expansion.referred ((table.without "e".toList).without "f".toList)
        { expansions := spent + 1 } "lt".toList = .ok (['<'], { expansions := spent + 1 }) :=
      Expansion.named_of_predefined rfl
    refine (Expansion.named_of_declared rfl rfl).trans (bind_of_ok (count spent few) ?_)
    refine (Expansion.replaced_of_marked rfl rfl).trans (bind_of_ok predefined ?_)
    exact bind_of_ok (Expansion.replaced_of_unmarked rfl) rfl
  have outer : expansion.named table { expansions := 5 } "e".toList =
      .ok ("<x-<xA".toList, { expansions := 8 }) := by
    have numeric : expansion.replaced (table.without "e".toList) { expansions := 8 }
        "&#65;".toList = .ok (['A'], { expansions := 8 }) :=
      (Expansion.replaced_of_marked rfl rfl).trans
        (bind_of_ok rfl (bind_of_ok (Expansion.replaced_of_unmarked rfl) rfl))
    have second : expansion.replaced (table.without "e".toList) { expansions := 7 }
        "-&f;&#65;".toList = .ok ("-<xA".toList, { expansions := 8 }) :=
      (Expansion.replaced_of_marked rfl rfl).trans
        (bind_of_ok (inner 7 (by decide)) (bind_of_ok numeric rfl))
    refine (Expansion.named_of_declared rfl rfl).trans (bind_of_ok (count 5 (by decide)) ?_)
    exact (Expansion.replaced_of_marked rfl rfl).trans
      (bind_of_ok (inner 6 (by decide)) (bind_of_ok second rfl))
  obtain ⟨suffix, read⟩ := reference_named valid ⟨{ maxExpansions := 8 }, table⟩ .content
    { expansions := 5 } [] _ rfl
  replace read := read.trans (congrArg _ outer)
  obtain ⟨expanded, substituted⟩ := reference_substituted ⟨{ maxExpansions := 8 }, table⟩ stored
    valid { expansions := 5 } []
  obtain ⟨acyclic, -⟩ := expanded.mp ⟨_, read⟩
  obtain ⟨-, count, substitutes, spent⟩ := substituted _ read
  have three : 8 = 5 + count := congrArg Ledger.expansions spent
  obtain rfl : count = 3 := by omega
  exact ⟨stored, valid, acyclic, substitutes⟩

end XmlSelect.Markup
