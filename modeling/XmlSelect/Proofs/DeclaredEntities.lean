import XmlSelect.Proofs.LedgerInvariant

/-! The general entities that a document declares, all of them in the order of their declarations,
and the table that reading makes of them: for each name it has the first. -/
namespace XmlSelect.Markup

/-- The general entities that the rest of an internal subset declares, with no blanks in front. An
item on its own declares one at most. -/
def subsetEntities? (source : Text) : Option (List (Text × Entity)) :=
  match source with
  | ']' :: _ => some []
  | '%' :: rest => do
    let named ← (name rest).toOption
    let closed ← (expect [';'] named.rest).toOption
    have suffix := (skipBlanks closed.rest).suffix.trans (closed.suffix.trans named.suffix)
    have := suffix.length_le
    subsetEntities? (skipBlanks closed.rest).rest
  | '<' :: rest => do
    let item ← (subsetItem [] ('<' :: rest) rest).toOption
    have := ((skipBlanks item.rest).suffix.trans item.suffix).length_le
    let others ← subsetEntities? (skipBlanks item.rest).rest
    return item.value ++ others
  | _ => none
termination_by source.length

/-- The general entities that an internal subset in its brackets declares, if one is next. -/
def optionalEntities? (source : Text) : Option (List (Text × Entity)) :=
  match source with
  | '[' :: rest => subsetEntities? (skipBlanks rest).rest
  | _ => some []

/-- The general entities of a document type declaration, from behind `<!DOCTYPE` on. -/
def doctypeEntities? (source : Text) : Option (List (Text × Entity)) := do
  let blank ← (requireBlank source).toOption
  let named ← (name blank.rest).toOption
  let identified ← (externalId (skipBlanks named.rest).rest).toOption
  optionalEntities? (skipBlanks identified.rest).rest

/-- The general entities that are declared in front of the element at the top of a document, of
which the beginning has been read; no blanks are in front. -/
def topEntities? (source : Text) : Option (List (Text × Entity)) :=
  match source with
  | '<' :: rest =>
    match commentOrInstruction? rest with
    | some result => do
      let leaf ← result.toOption
      have := ((skipBlanks leaf.rest).suffix.trans leaf.suffix).length_le
      topEntities? (skipBlanks leaf.rest).rest
    | none => do
      let word ← take? "!DOCTYPE".toList rest
      doctypeEntities? word.rest
  | _ => none
termination_by source.length

/-- The general entities that a document declares. -/
def documentEntities? (source : Text) : Option (List (Text × Entity)) := do
  let declared ← (optionalDeclaration source).toOption
  topEntities? (skipBlanks declared.rest).rest

/-- Declares entities one after another. -/
def EntityTable.declareAll (table : EntityTable) (entities : List (Text × Entity)) : EntityTable :=
  entities.foldl (fun table entry => table.declare entry.1 entry.2) table

section Tables

variable (table : EntityTable) (name other : Text)

theorem EntityTable.find?_declare (entity : Entity) :
    (table.declare name entity).find? other =
      (table.find? other).or (List.lookup other [(name, entity)]) := by
  unfold declare
  split
  · rename_i declared
    by_cases same : other = name
    · subst same
      obtain ⟨earlier, found⟩ := Option.isSome_iff_exists.mp declared
      simp [found]
    · have differ : (other == name) = false := by simpa using same
      simp [List.lookup_cons, differ]
  · exact List.lookup_append

/-- A name stands for what it was declared first, in the table or behind it. -/
theorem EntityTable.find?_declareAll (entities : List (Text × Entity)) :
    (table.declareAll entities).find? name = (table.find? name).or (entities.lookup name) := by
  induction entities generalizing table with
  | nil => simp [declareAll]
  | cons entry entities ih =>
    rw [declareAll, List.foldl_cons, ← declareAll, ih, find?_declare, Option.or_assoc,
      ← List.lookup_append]
    rfl

end Tables

section Declarations

variable {table : EntityTable} {source : Text}

theorem entityDeclaration_declares {read : Read source EntityTable}
    (declared : entityDeclaration table source = .ok read) :
    ∃ own, entityDeclaration [] source = .ok own ∧ own.rest = read.rest ∧
      read.value = table.declareAll own.value := by
  unfold entityDeclaration at declared ⊢
  obtain ⟨blank, read₁, declared⟩ := bind_ok declared
  obtain ⟨parameter, read₂, declared⟩ := bind_ok declared
  obtain ⟨named, read₃, declared⟩ := bind_ok declared
  obtain ⟨gap, read₄, declared⟩ := bind_ok declared
  obtain ⟨entity, read₅, declared⟩ := bind_ok declared
  obtain ⟨closed, read₆, declared⟩ := bind_ok declared
  cases declared
  have last : expect ['>'] (skipBlanks entity.rest).rest = .ok closed := read₆
  simp only [read₁, read₂, read₃, read₄, read₅, last, bind, Except.bind]
  refine ⟨_, rfl, rfl, ?_⟩
  dsimp only
  split
  · rfl
  · rfl

theorem subsetItem_declares {opening : Text} {read : Read source EntityTable}
    (item : subsetItem table opening source = .ok read) :
    ∃ own, subsetItem [] opening source = .ok own ∧ own.rest = read.rest ∧
      read.value = table.declareAll own.value := by
  unfold subsetItem at item ⊢
  split at item
  · obtain ⟨inner, declared, rfl⟩ := map_ok item
    obtain ⟨own, declared, same, entities⟩ := entityDeclaration_declares declared
    rw [declared]
    exact ⟨_, rfl, same, entities⟩
  · split at item
    · obtain ⟨content, taken, item⟩ := bind_ok item
      cases item
      simp only [taken, bind, Except.bind]
      exact ⟨_, rfl, rfl, rfl⟩
    · obtain ⟨content, taken, item⟩ := bind_ok item
      cases item
      simp only [taken, bind, Except.bind]
      exact ⟨_, rfl, rfl, rfl⟩
    · obtain ⟨content, taken, item⟩ := bind_ok item
      cases item
      simp only [taken, bind, Except.bind]
      exact ⟨_, rfl, rfl, rfl⟩
    · cases item

theorem internalSubset_declares {whole : Text} {ledger : Ledger} {within : source <:+ whole}
    {read : Read whole (EntityTable × Ledger)}
    (listed : internalSubset whole table ledger source within = .ok read) :
    ∃ entities, subsetEntities? source = some entities ∧
      read.value.1 = table.declareAll entities := by
  fun_induction internalSubset with
  | case1 => cases listed
  | case2 =>
    rename_i closing _
    obtain rfl := eq_of_beq closing
    cases listed
    exact ⟨[], by rw [subsetEntities?], rfl⟩
  | case3 =>
    rename_i percent _ ih
    obtain rfl := eq_of_beq percent
    obtain ⟨named, read₁, listed⟩ := bind_ok listed
    obtain ⟨closed, read₂, listed⟩ := bind_ok listed
    obtain ⟨entities, further, same⟩ :=
      ih _ _ named.suffix _ closed.suffix _ (List.dropWhile_suffix _) listed
    refine ⟨entities, ?_, same⟩
    rw [subsetEntities?, mapError_ok read₁]
    simp only [Except.toOption, mapError_ok read₂, bind, Option.bind]
    exact further
  | case4 =>
    rename_i opening _ ih
    obtain rfl := eq_of_beq opening
    obtain ⟨item, read₁, listed⟩ := bind_ok listed
    obtain ⟨entities, further, same⟩ :=
      ih _ _ item.suffix _ (List.dropWhile_suffix _) listed
    obtain ⟨own, declared, rest, added⟩ := subsetItem_declares (mapError_ok read₁)
    refine ⟨own.value ++ entities, ?_, ?_⟩
    · rw [← rest] at further
      rw [subsetEntities?, declared]
      simp only [Except.toOption, bind, Option.bind]
      simp only [skipBlanks, Read.skip, further]
      rfl
    · rw [same, added, EntityTable.declareAll, EntityTable.declareAll, EntityTable.declareAll,
        List.foldl_append]
  | case5 => cases listed

theorem optionalSubset_declares {ledger : Ledger} {read : Read source (EntityTable × Ledger)}
    (listed : optionalSubset ledger source = .ok read) :
    ∃ entities, optionalEntities? source = some entities ∧
      read.value.1 = EntityTable.declareAll [] entities := by
  unfold optionalSubset at listed
  split at listed
  · obtain ⟨inner, inside, listed⟩ := bind_ok listed
    cases listed
    exact (internalSubset_declares inside :)
  · rename_i other
    cases listed
    refine ⟨[], ?_, rfl⟩
    unfold optionalEntities?
    split
    · exact absurd rfl (other _)
    · rfl

/-- The table of a document type declaration has the first declaration of each name. -/
theorem doctype_declares {ledger : Ledger} {read : Read source Doctype}
    (declared : doctype ledger source = .ok read) (name : Text) :
    (doctypeEntities? source).bind (·.lookup name) = read.value.table.find? name := by
  obtain ⟨blank, read₁, declared⟩ := bind_ok declared
  obtain ⟨named, read₂, declared⟩ := bind_ok declared
  obtain ⟨identified, read₃, declared⟩ := bind_ok declared
  obtain ⟨subset, read₄, declared⟩ := bind_ok declared
  obtain ⟨closed, -, declared⟩ := bind_ok declared
  cases declared
  obtain ⟨entities, found, same⟩ := optionalSubset_declares read₄
  have listed : doctypeEntities? source = some entities := by
    have read₃' : externalId (skipBlanks named.rest).rest = .ok identified := mapError_ok read₃
    rw [doctypeEntities?]
    simp only [Except.toOption, mapError_ok read₁, mapError_ok read₂, read₃', bind, Option.bind]
    exact found
  rw [listed, same, EntityTable.find?_declareAll]
  rfl

end Declarations

section Documents

variable {options : Options} {known : Text → Option Entity} {holds : Ledger → Prop}

/-- Where the element at the top can still come, the entities that it can refer to are the known
ones: they are in the table already, or the declarations are ahead. -/
def Progress.Foresees (known : Text → Option Entity) (progress : Progress) (source : Text) : Prop :=
  progress.seenRoot = false →
    (progress.seenDoctype = true → ∀ name, progress.table.find? name = known name) ∧
    (progress.seenDoctype = false → progress.table = [] ∧
      ∀ name, (topEntities? source).bind (·.lookup name) = known name)

namespace Progress.Foresees

theorem of_seenRoot {progress : Progress} (seen : progress.seenRoot = true) (source : Text) :
    progress.Foresees known source :=
  fun unseen => absurd (seen.symm.trans unseen) (by decide)

variable {progress : Progress} {rest next : Text}
  (foresees : progress.Foresees known ('<' :: rest))
include foresees

theorem leaf {leaf : Read rest Leaf} (found : commentOrInstruction? rest = some (.ok leaf)) :
    { progress with before := .leaf leaf.value progress.before }.Foresees known
      (skipBlanks leaf.rest).rest := by
  refine fun unseen => ⟨(foresees unseen).1, fun first => ?_⟩
  refine ⟨((foresees unseen).2 first).1, fun name => ?_⟩
  rw [← ((foresees unseen).2 first).2 name, topEntities?, found]
  rfl

theorem doctype {opened : Read rest Unit} {declared : Read opened.rest Doctype}
    (noLeaf : commentOrInstruction? rest = none)
    (found : take? "!DOCTYPE".toList rest = some opened)
    (first : progress.seenDoctype = false)
    (read : Markup.doctype progress.ledger opened.rest = .ok declared) :
    { progress with
      before := .leaf declared.value.leaf progress.before, table := declared.value.table
      seenDoctype := true, ledger := declared.value.ledger }.Foresees known next := by
  refine fun unseen => ⟨fun _ name => ?_, nofun⟩
  rw [← doctype_declares read, ← ((foresees unseen).2 first).2 name, topEntities?, noLeaf, found]
  rfl

/-- In front of the element at the top, the table has all that it can refer to. -/
theorem find?_eq (noLeaf : commentOrInstruction? rest = none)
    (noDoctype : take? "!DOCTYPE".toList rest = none) (unseen : progress.seenRoot = false)
    (name : Text) : progress.table.find? name = known name := by
  cases first : progress.seenDoctype with
  | true => exact (foresees unseen).1 first name
  | false =>
    obtain ⟨empty, ahead⟩ := (foresees unseen).2 first
    rw [empty, ← ahead, topEntities?, noLeaf, noDoctype]
    rfl

end Progress.Foresees

/-- Behind the declaration, all that the document declares is ahead. -/
theorem Progress.Foresees.start {source : Text} {declared : Read source (Option Declaration)}
    (read : optionalDeclaration source = .ok declared) :
    Progress.Foresees (fun name => (documentEntities? source).bind (·.lookup name)) {}
      (skipBlanks declared.rest).rest := by
  refine fun _ => ⟨nofun, fun _ => ⟨rfl, fun name => ?_⟩⟩
  rw [documentEntities?, read]
  rfl

theorem topLevel_kept
    (warns : ∀ before warning rest, holds before → holds (before.warn warning rest))
    (keeps : ∀ table place, (∀ name, table.find? name = known name) →
      Setting.Keeps ⟨options, table⟩ place holds)
    (progress : Progress) (source : Text) (start : holds progress.ledger)
    (foresees : progress.Foresees known source) :
    Kept holds (·.ledger) (topLevel options progress source) := by
  fun_induction topLevel with
  | case1 => exact start
  | case2 => exact start
  | case3 =>
    rename_i found ih
    refine .bind (kept_withLedger start _) fun leaf read _ => ?_
    rw [mapError_ok read] at found
    exact ih _ _ leaf.suffix _ (List.dropWhile_suffix _) start (foresees.leaf found)
  | case4 => exact start
  | case5 =>
    rename_i noLeaf _ _ _ doctypeNext _ misplaced ih
    rw [Bool.or_eq_true, not_or, Bool.not_eq_true, Bool.not_eq_true] at misplaced
    refine .bind (doctype_kept warns start _) fun declared read kept => ?_
    exact ih _ _ declared.suffix _ (List.dropWhile_suffix _) kept
      (foresees.doctype noLeaf doctypeNext misplaced.1 read)
  | case6 => exact start
  | case7 =>
    rename_i noLeaf noDoctype _ unseen ih
    have table := foresees.find?_eq noLeaf noDoctype (Bool.not_eq_true _ ▸ unseen)
    refine .bind (rootElement_kept (keeps _ _ table) (keeps _ _ table) start _)
      fun element _ kept => ?_
    exact ih _ _ _ element.suffix _ (List.dropWhile_suffix _) kept (.of_seenRoot rfl _)
  | case8 => exact start

end Documents

end XmlSelect.Markup
