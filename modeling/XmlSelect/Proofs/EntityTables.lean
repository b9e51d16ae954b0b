import XmlSelect.Proofs.MarkupText

/-! The tables of declared entities. A table has names in it, and for the texts of its internal
entities literals of the document type declaration. -/
namespace XmlSelect.Markup

section Tables

variable {table : EntityTable}

/-- The texts of the internal entities are all of one kind. -/
def EntityTable.Values (holds : Text → Prop) (table : EntityTable) : Prop :=
  ∀ entry ∈ table, ∀ value, entry.2 = .internal value → holds value

theorem EntityTable.values_nil {holds : Text → Prop} : EntityTable.Values holds [] := nofun

theorem EntityTable.Values.without {holds : Text → Prop} (each : table.Values holds)
    (name : Text) : (table.without name).Values holds :=
  fun entry member => each entry (List.mem_filter.mp member).1

/-- The entities have names, and the internal ones have text that documents may hold. -/
structure EntityTable.Plain (table : EntityTable) : Prop where
  named : ∀ entry ∈ table, IsName entry.1
  values : table.Values XmlText

theorem EntityTable.plain_nil : EntityTable.Plain [] := ⟨nofun, EntityTable.values_nil⟩

theorem EntityTable.Plain.without (plain : table.Plain) (name : Text) :
    (table.without name).Plain :=
  ⟨fun entry member => plain.named entry (List.mem_filter.mp member).1,
    plain.values.without name⟩

end Tables

section Declarations

variable {table : EntityTable} {source whole : Text}

/-- An entity that is declared somewhere in a text: it has a name, and if it is internal, the value
of a literal there. -/
structure WrittenIn (whole : Text) (entry : Text × Entity) : Prop where
  named : IsName entry.1
  literal : ∀ value, entry.2 = .internal value → ∃ (part : Text) (literal : Read part Text),
    part <:+ whole ∧ quoted part = .ok literal ∧ literal.value = value

theorem EntityTable.declare_written {name : Text} {entity : Entity}
    (each : ∀ entry ∈ table, WrittenIn whole entry) (written : WrittenIn whole (name, entity)) :
    ∀ entry ∈ table.declare name entity, WrittenIn whole entry := by
  unfold EntityTable.declare
  split
  · exact each
  · exact List.forall_mem_append.mpr ⟨each, List.forall_mem_singleton.mpr written⟩

theorem entityDefinition_internal {declared : Text} {result : Read source Entity}
    (read : entityDefinition declared source = .ok result) (value : Text)
    (internal : result.value = .internal value) :
    ∃ literal, quoted source = .ok literal ∧ literal.value = value := by
  unfold entityDefinition at read
  split at read
  · obtain ⟨literal, taken, read⟩ := bind_ok read
    cases read
    cases internal
    exact ⟨literal, taken, rfl⟩
  · obtain ⟨identifiers, -, read⟩ := bind_ok read
    dsimp only at read
    split at read
    · cases read
    · split at read
      · cases read
        cases internal
      · obtain ⟨_, -, read⟩ := bind_ok read
        obtain ⟨_, -, read⟩ := bind_ok read
        cases read
        cases internal

theorem entityDeclaration_written {result : Read source EntityTable}
    (read : entityDeclaration table source = .ok result) (here : source <:+ whole)
    (each : ∀ entry ∈ table, WrittenIn whole entry) :
    ∀ entry ∈ result.value, WrittenIn whole entry := by
  obtain ⟨first, -, read⟩ := bind_ok read
  obtain ⟨parameter, -, read⟩ := bind_ok read
  obtain ⟨declared, named, read⟩ := bind_ok read
  obtain ⟨second, -, read⟩ := bind_ok read
  obtain ⟨entity, defined, read⟩ := bind_ok read
  obtain ⟨_, -, read⟩ := bind_ok read
  cases read
  dsimp only
  split
  · exact each
  · refine EntityTable.declare_written each ⟨(name_ok named).1, fun value internal => ?_⟩
    obtain ⟨literal, taken, same⟩ := entityDefinition_internal defined value internal
    have before : declared.rest <:+ source :=
      declared.suffix.trans (parameter.suffix.trans first.suffix)
    exact ⟨_, literal, second.suffix.trans (before.trans here), taken, same⟩

theorem subsetItem_written {opening : Text} {result : Read source EntityTable}
    (read : subsetItem table opening source = .ok result) (here : source <:+ whole)
    (each : ∀ entry ∈ table, WrittenIn whole entry) :
    ∀ entry ∈ result.value, WrittenIn whole entry := by
  unfold subsetItem at read
  split at read
  · rename_i opened _
    obtain ⟨inner, declared, rfl⟩ := map_ok read
    exact (entityDeclaration_written declared (opened.trans here) each :)
  · split at read
    · obtain ⟨_, -, read⟩ := bind_ok read
      cases read
      exact each
    · obtain ⟨_, -, read⟩ := bind_ok read
      cases read
      exact each
    · obtain ⟨_, -, read⟩ := bind_ok read
      cases read
      exact each
    · cases read

theorem internalSubset_written {inside : Text} {ledger : Ledger} {within : source <:+ inside}
    {result : Read inside (EntityTable × Ledger)}
    (read : internalSubset inside table ledger source within = .ok result)
    (here : inside <:+ whole) (each : ∀ entry ∈ table, WrittenIn whole entry) :
    ∀ entry ∈ result.value.1, WrittenIn whole entry := by
  fun_induction internalSubset with
  | case1 => cases read
  | case2 =>
    cases read
    exact each
  | case3 =>
    rename_i ih
    obtain ⟨entity, -, read⟩ := bind_ok read
    obtain ⟨semicolon, -, read⟩ := bind_ok read
    exact ih _ _ entity.suffix _ semicolon.suffix _ (List.dropWhile_suffix _) read each
  | case4 =>
    rename_i within ih
    obtain ⟨declared, item, read⟩ := bind_ok read
    have behind := (List.suffix_cons _ _).trans (within.trans here)
    exact ih _ _ declared.suffix _ (List.dropWhile_suffix _) read
      (subsetItem_written (mapError_ok item) behind each)
  | case5 => cases read

theorem optionalSubset_written {ledger : Ledger} {result : Read source (EntityTable × Ledger)}
    (read : optionalSubset ledger source = .ok result) (here : source <:+ whole) :
    ∀ entry ∈ result.value.1, WrittenIn whole entry := by
  unfold optionalSubset at read
  split at read
  · obtain ⟨inner, listed, read⟩ := bind_ok read
    cases read
    exact (internalSubset_written listed here nofun :)
  · cases read
    exact nofun

/-- What a document type declaration declares is written in it. -/
theorem doctype_written {ledger : Ledger} {result : Read source Doctype}
    (read : doctype ledger source = .ok result) (here : source <:+ whole) :
    ∀ entry ∈ result.value.table, WrittenIn whole entry := by
  obtain ⟨blanks, -, read⟩ := bind_ok read
  obtain ⟨declared, -, read⟩ := bind_ok read
  obtain ⟨identifiers, -, read⟩ := bind_ok read
  obtain ⟨subset, optional, read⟩ := bind_ok read
  obtain ⟨_, -, read⟩ := bind_ok read
  cases read
  have before : identifiers.rest <:+ source := identifiers.suffix.trans
    ((List.dropWhile_suffix _).trans (declared.suffix.trans blanks.suffix))
  exact optionalSubset_written optional (((List.dropWhile_suffix _).trans before).trans here)

/-- The internal entities have literals of the document type declaration for their texts. -/
theorem doctype_values {holds : Text → Prop} (literals : ∀ {part : Text}
    {literal : Read part Text}, part <:+ whole → quoted part = .ok literal → holds literal.value)
    {ledger : Ledger} {result : Read source Doctype}
    (read : doctype ledger source = .ok result) (here : source <:+ whole) :
    result.value.table.Values holds := by
  intro entry member value internal
  obtain ⟨part, literal, inside, taken, rfl⟩ :=
    (doctype_written read here entry member).literal value internal
  exact literals inside taken

theorem doctype_plain {ledger : Ledger} {result : Read source Doctype}
    (read : doctype ledger source = .ok result) : result.value.table.Plain :=
  ⟨fun entry member => (doctype_written read (List.suffix_refl _) entry member).named,
    doctype_values (fun _ taken => quoted_xml taken) read (List.suffix_refl _)⟩

end Declarations

end XmlSelect.Markup
