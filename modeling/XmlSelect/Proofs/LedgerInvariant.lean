import XmlSelect.Markup.Parse

/-! What reading does to the ledger, also where it ends in a fault. All that is asked of external
entities goes through the replacement of one declared entity; whatever that keeps up, the whole
expansion of references keeps up, and with it the reading of tags and of content. -/
namespace XmlSelect.Markup

/-- The ledger has the property when reading comes to its end, and when it comes to a fault. -/
def Kept {α : Type} (holds : Ledger → Prop) (ledger : α → Ledger) : Except Failure α → Prop
  | .ok result => holds (ledger result)
  | .error failure => holds failure.ledger

section Outcomes

variable {α β : Type} {holds : Ledger → Prop} {ledger : α → Ledger} {ledger' : β → Ledger}

theorem Kept.of_ok {outcome : Except Failure α} {result : α} (kept : Kept holds ledger outcome)
    (read : outcome = .ok result) : holds (ledger result) := by
  subst read
  exact kept

theorem Kept.bind {first : Except Failure α} {next : α → Except Failure β}
    (before : Kept holds ledger first)
    (after : ∀ result, first = .ok result → holds (ledger result) →
      Kept holds ledger' (next result)) : Kept holds ledger' (first >>= next) := by
  cases first with
  | error failure => exact before
  | ok result => exact after result rfl before

theorem kept_withLedger {before : Ledger} (start : holds before) (result : Except Stop α) :
    Kept holds (fun _ => before) (withLedger before result) := by
  cases result <;> exact start

end Outcomes

/-- Whatever is put in the place of one entity that the table has, the ledger keeps the property. -/
def Expansion.Keeps (expansion : Expansion) (holds : Ledger → Prop) : Prop :=
  ∀ ledger counted name entity, holds ledger → expansion.count ledger = .ok counted →
    expansion.table.find? name = some entity →
      Kept holds (·.2) (expansion.replacement counted name entity)

section Counting

/-- The ledger after some more expansions. -/
def Ledger.spend (ledger : Ledger) (count : Nat) : Ledger :=
  { ledger with expansions := ledger.expansions + count }

@[simp] theorem Ledger.expansions_spend (ledger : Ledger) (count : Nat) :
    (ledger.spend count).expansions = ledger.expansions + count := rfl

@[simp] theorem Ledger.spend_zero (ledger : Ledger) : ledger.spend 0 = ledger := rfl

theorem Ledger.spend_spend (ledger : Ledger) (first second : Nat) :
    (ledger.spend first).spend second = ledger.spend (first + second) := by
  simp [Ledger.spend, Nat.add_assoc]

variable {holds : Ledger → Prop}

theorem expansions_of_count {expansion : Expansion} {ledger counted : Ledger}
    (count : expansion.count ledger = .ok counted) :
    ledger.expansions < expansion.options.maxExpansions ∧
      counted = ledger.spend 1 := by
  unfold Expansion.count at count
  split at count
  · rename_i within
    exact ⟨within, (Except.ok.inj count).symm⟩
  · cases count

/-- An external entity is passed over with a warning, or asked for; the latter only where external
entities are allowed, and in content. -/
theorem replacement_kept {expansion : Expansion} {ledger : Ledger} {name : Text} {entity : Entity}
    (start : holds ledger) (warned : ∀ warning, holds (ledger.warn warning expansion.rest))
    (asked : ∀ systemId publicId, entity = .external systemId publicId →
      expansion.place ≠ .attributeValue → expansion.options.allowExternal = true →
        holds (ledger.request ⟨name, systemId, publicId⟩)) :
    Kept holds (·.2) (expansion.replacement ledger name entity) := by
  cases entity with
  | internal value => exact start
  | external systemId publicId =>
    rw [Expansion.replacement]
    by_cases inValue : expansion.place = .attributeValue
    · rw [if_pos inValue]
      exact start
    · rw [if_neg inValue]
      cases allowed : expansion.options.allowExternal with
      | false => exact warned _
      | true =>
        have requested := asked systemId publicId rfl inValue allowed
        cases expansion.options.resolver with
        | none => exact start
        | some resolve =>
          simp only [Bool.not_true, Bool.false_eq_true, if_false]
          cases resolve ⟨name, systemId, publicId⟩ with
          | none => exact requested
          | some text => exact requested

end Counting

/-- The entities of a table are some of those of another one. -/
def EntityTable.Within (available table : EntityTable) : Prop :=
  ∀ name entity, available.find? name = some entity → table.find? name = some entity

theorem EntityTable.Within.without {available table : EntityTable}
    (within : available.Within table) (name : Text) : (available.without name).Within table := by
  intro other entity found
  refine within other entity ?_
  have differ : other ≠ name := by
    rintro rfl
    cases (available.find?_without_self other).symm.trans found
  rwa [find?_without available differ] at found

namespace Expansion

variable {expansion : Expansion} {holds : Ledger → Prop}

/-- An expansion that the limit does not allow leaves the ledger as it is. -/
theorem ledger_of_count {ledger : Ledger} {failure : Failure}
    (stuck : expansion.count ledger = .error failure) : failure.ledger = ledger := by
  unfold count at stuck
  split at stuck
  · cases stuck
  · cases stuck
    rfl

theorem named_kept_of (keeps : expansion.Keeps holds) {available : EntityTable} {ledger : Ledger}
    {name : Text} (within : available.Within expansion.table) (start : holds ledger)
    (inner : ∀ entity after text, available.find? name = some entity → holds after →
      Kept holds (·.2) (expansion.replaced (available.without name) after text)) :
    Kept holds (·.2) (expansion.named available ledger name) := by
  unfold named
  split
  · exact start
  · split
    · split <;> exact start
    · rename_i entity found
      cases counted : expansion.count ledger with
      | error failure =>
        rw [← ledger_of_count counted] at start
        exact start
      | ok counted' =>
        show Kept holds _ (expansion.replacement counted' name entity >>= _)
        refine .bind (keeps ledger _ name entity start counted (within name entity found)) ?_
        rintro ⟨replacement, after⟩ - kept
        cases replacement with
        | none => exact kept
        | some text => exact inner entity after text found kept

theorem replaced_kept_of {available : EntityTable} {ledger : Ledger} {text : Text}
    (start : holds ledger)
    (inner : ∀ before name, holds before →
      Kept holds (·.2) (expansion.named available before name)) :
    Kept holds (·.2) (expansion.replaced available ledger text) := by
  induction size : text.length using Nat.strongRecOn generalizing text ledger with
  | ind length ih =>
    rw [replaced_eq]
    split
    · exact start
    · rename_i before behind opened
      split
      · exact start
      · rename_i reference later closed
        have opening := congrArg List.length (Text.append_of_breakOn? opened)
        have closing := congrArg List.length (Text.append_of_breakOn? closed)
        simp only [List.length_append, List.length_cons, List.length_nil] at opening closing
        have further (after : Ledger) (kept : holds after) (value : Text) : Kept holds (·.2)
            (expansion.replaced available after later >>= fun read =>
              return (expansion.place.normalize before ++ value ++ read.1, read.2)) :=
          .bind (ih later.length (by omega) kept rfl) fun _ _ kept => kept
        split
        · split
          · exact further ledger start _
          · exact start
        · exact .bind (inner ledger _ start) fun read _ kept => further read.2 kept read.1

/-- However deep the entities are nested, each of them is one that the table has. -/
theorem named_kept (keeps : expansion.Keeps holds) {available : EntityTable} {ledger : Ledger}
    (name : Text) (within : available.Within expansion.table) (start : holds ledger) :
    Kept holds (·.2) (expansion.named available ledger name) := by
  induction size : available.length using Nat.strongRecOn generalizing available ledger name with
  | ind length ih =>
    refine named_kept_of keeps within start fun entity after text found kept => ?_
    have fewer : (available.without name).length < length := by
      rw [← size]
      exact EntityTable.length_without found
    exact replaced_kept_of kept fun before inner kept =>
      ih _ fewer inner (within.without name) kept rfl

end Expansion

/-- At a kind of place, whatever stands behind the reference, expansions keep the property. -/
def Setting.Keeps (setting : Setting) (place : Place) (holds : Ledger → Prop) : Prop :=
  ∀ rest, Expansion.Keeps ⟨setting.options, setting.table, place, rest⟩ holds

/-- In an attribute value an external entity is a fault, before it is asked for. -/
theorem requests_keeps {options : Options} (table : EntityTable) (before : List EntityRequest) :
    Setting.Keeps ⟨options, table⟩ .attributeValue (·.requests = before) := by
  intro rest ledger counted name entity same count found
  obtain ⟨-, rfl⟩ := expansions_of_count count
  exact replacement_kept same (fun _ => same) fun _ _ _ content _ => absurd rfl content

section Tags

variable {setting : Setting} {holds : Ledger → Prop} {ledger : Ledger}

theorem reference_kept {place : Place} (keeps : setting.Keeps place holds) (start : holds ledger)
    (source : Text) : Kept holds (·.value.2) (reference setting place ledger source) := by
  unfold reference
  split
  · exact .bind (kept_withLedger start _) fun _ _ kept => kept
  · refine .bind (kept_withLedger start _) fun entity _ _ => ?_
    refine .bind (kept_withLedger start _) fun semicolon _ _ => ?_
    refine .bind (Expansion.named_kept (keeps _) _ (fun _ _ => id) start) ?_
    exact fun _ _ kept => kept

theorem attributeText_kept (keeps : setting.Keeps .attributeValue holds) (quote : Char)
    (whole : Text) (start : holds ledger) (done source : Text) (within : source <:+ whole) :
    Kept holds (·.value.2) (attributeText setting quote whole ledger done source within) := by
  fun_induction attributeText with
  | case1 => exact start
  | case2 => exact start
  | case3 => exact start
  | case4 =>
    rename_i ih
    exact .bind (reference_kept keeps start _) fun value _ kept => ih _ _ _ value.suffix kept
  | case5 =>
    rename_i ih
    exact .bind (kept_withLedger start _) fun next _ _ => ih _ _ next.suffix start

theorem attributeValue_kept (keeps : setting.Keeps .attributeValue holds) (start : holds ledger)
    (source : Text) : Kept holds (·.value.2) (attributeValue setting ledger source) := by
  unfold attributeValue
  split
  · exact start
  · split
    · exact attributeText_kept keeps _ _ start _ _ _
    · exact start

theorem attributeList_kept (keeps : setting.Keeps .attributeValue holds) (element whole : Text)
    (start : holds ledger) (done : List Attribute) (spaced : Bool) (source : Text)
    (within : source <:+ whole) :
    Kept holds (·.value.2)
      (attributeList setting element whole ledger done spaced source within) := by
  fun_induction attributeList with
  | case1 => exact start
  | case2 => exact start
  | case3 => exact start
  | case4 => exact start
  | case5 =>
    rename_i ih
    refine .bind (kept_withLedger start _) fun key _ _ => ?_
    refine .bind (kept_withLedger start _) fun sign _ _ => ?_
    refine .bind (attributeValue_kept keeps start _) ?_
    rintro ⟨⟨value, expanded⟩, after, valued⟩ - kept
    dsimp only
    split
    · exact kept
    · exact ih _ _ key.suffix _ (List.dropWhile_suffix _) _ sign.suffix _
        (List.dropWhile_suffix _) _ _ _ valued _ _ (List.dropWhile_suffix _) kept

theorem startTag_kept (keeps : setting.Keeps .attributeValue holds) (depth : Nat)
    (start : holds ledger) (source : Text) :
    Kept holds (·.value.2) (startTag setting depth ledger source) := by
  refine .bind (kept_withLedger start _) fun element _ _ => ?_
  dsimp only
  split
  · exact start
  · exact attributeList_kept keeps _ _ start _ _ _ _

end Tags

section Content

variable {setting : Setting} {holds : Ledger → Prop} {ledger : Ledger}

theorem content_kept (attributes : setting.Keeps .attributeValue holds)
    (text : setting.Keeps .content holds) (whole : Text) (inner : OpenElement)
    (outer : List OpenElement) (pending : Text) (start : holds ledger) (source : Text)
    (within : source <:+ whole) :
    Kept holds (·.value.2) (content setting whole inner outer pending ledger source within) := by
  fun_induction content with
  | case1 => exact start
  | case2 =>
    rename_i ih
    refine .bind (kept_withLedger start _) fun closed _ _ => ?_
    dsimp only
    split
    · exact start
    · exact ih _ closed.suffix _ _ start
  | case3 =>
    rename_i ih
    exact .bind (kept_withLedger start _) fun leaf _ _ => ih _ _ leaf.suffix start
  | case4 =>
    rename_i closed opened
    refine .bind (startTag_kept attributes _ start _) fun tag _ kept => ?_
    dsimp only
    split
    · rename_i ended
      exact closed _ _ _ tag.suffix kept
    · exact opened _ _ _ tag.suffix kept
  | case5 =>
    rename_i ih
    exact .bind (reference_kept text start _) fun value _ kept => ih _ _ _ value.suffix kept
  | case6 => exact start
  | case7 =>
    rename_i ih
    exact .bind (kept_withLedger start _) fun next _ _ => ih _ _ next.suffix start

theorem rootElement_kept (attributes : setting.Keeps .attributeValue holds)
    (text : setting.Keeps .content holds) (start : holds ledger) (source : Text) :
    Kept holds (·.value.2) (rootElement setting ledger source) := by
  refine .bind (startTag_kept attributes _ start _) fun tag _ kept => ?_
  dsimp only
  split
  · exact kept
  · exact content_kept attributes text _ _ _ _ kept _ _

end Content

section Doctype

variable {holds : Ledger → Prop} {ledger : Ledger}

theorem internalSubset_kept (warns : ∀ before warning rest, holds before →
    holds (before.warn warning rest)) (whole : Text) (table : EntityTable) (start : holds ledger)
    (source : Text) (within : source <:+ whole) :
    Kept holds (·.value.2) (internalSubset whole table ledger source within) := by
  fun_induction internalSubset with
  | case1 => exact start
  | case2 => exact start
  | case3 =>
    rename_i ih
    refine .bind (kept_withLedger start _) fun entity _ _ => ?_
    refine .bind (kept_withLedger start _) fun semicolon _ _ => ?_
    exact ih _ _ entity.suffix _ semicolon.suffix _ (List.dropWhile_suffix _) (warns _ _ _ start)
  | case4 =>
    rename_i ih
    refine .bind (kept_withLedger start _) fun declared _ _ => ?_
    exact ih _ _ declared.suffix _ (List.dropWhile_suffix _) start
  | case5 => exact start

/-- A document type declaration only adds warnings to the ledger. -/
theorem doctype_kept (warns : ∀ before warning rest, holds before →
    holds (before.warn warning rest)) (start : holds ledger) (source : Text) :
    Kept holds (·.value.ledger) (doctype ledger source) := by
  refine .bind (kept_withLedger start _) fun _ _ _ => ?_
  refine .bind (kept_withLedger start _) fun _ _ _ => ?_
  refine .bind (kept_withLedger start _) fun _ _ _ => ?_
  have subset (source : Text) : Kept holds (·.value.2) (optionalSubset ledger source) := by
    unfold optionalSubset
    split
    · exact .bind (internalSubset_kept warns _ _ start _ _) fun _ _ kept => kept
    · exact start
  refine .bind (subset _) fun _ _ kept => ?_
  exact .bind (kept_withLedger kept _) fun _ _ kept => kept

end Doctype

end XmlSelect.Markup
