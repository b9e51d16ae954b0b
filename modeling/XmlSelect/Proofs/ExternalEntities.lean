import XmlSelect.Proofs.DeclaredEntities
import XmlSelect.Proofs.ReadingSteps

/-! External entities are confined. Where they are not allowed, none is asked for and the resolver
makes no difference; where they are, each request is for the first declaration of its name, there
are no more of them than expansions, and none comes out of an attribute value. -/
namespace XmlSelect.Markup

/-- What the internal subset of a document declares a general entity to be first. -/
def firstDeclared? (source : Text) (name : Text) : Option Entity :=
  (documentEntities? (withoutMark source)).bind (·.lookup name)

/-- What was asked for while a document was read, to its end or up to a fault. -/
def requestsOf (outcome : Except ParseError Reading) : List EntityRequest :=
  match outcome with
  | .ok reading => reading.requests
  | .error error => error.requests

/-- What every expansion keeps holds of the ledger in the end, with the requests that are told. -/
theorem parseText_kept (options : Options) (source : Text) (holds : Ledger → Prop)
    (start : holds {})
    (warns : ∀ before warning rest, holds before → holds (before.warn warning rest))
    (keeps : ∀ table place, (∀ name, table.find? name = firstDeclared? source name) →
      Setting.Keeps ⟨options, table⟩ place holds) :
    ∃ ledger, holds ledger ∧ requestsOf (parseText options source) = ledger.requests := by
  rw [parseText_eq]
  unfold firstDeclared? at keeps
  generalize withoutMark source = source at keeps ⊢
  unfold parse
  dsimp only
  generalize read : withLedger {} (optionalDeclaration source) >>= _ = outcome
  have kept : Kept holds (·.2.ledger) outcome := by
    rw [← read]
    refine .bind (kept_withLedger start _) fun declared read _ => ?_
    exact .bind (topLevel_kept warns keeps {} _ start (.start (mapError_ok read)))
      fun _ _ kept => kept
  split
  · exact ⟨_, kept, rfl⟩
  · exact ⟨_, kept, rfl⟩

section Requests

variable {options : Options} {holds : Ledger → Prop}

/-- What the requests of a ledger have in common: the entities are declared so, and each of them
was counted within the limit. -/
structure Ledger.Confined (limit : Nat) (known : Text → Option Entity) (ledger : Ledger) :
    Prop where
  declared : ∀ request ∈ ledger.requests,
    known request.name = some (.external request.systemId request.publicId)
  counted : ledger.requests.length ≤ ledger.expansions
  limited : ledger.expansions ≤ limit

/-- An entity that is counted can be asked for, and is the first of its name. -/
theorem confined_keeps {known : Text → Option Entity} {table : EntityTable} (place : Place)
    (same : ∀ name, table.find? name = known name) :
    Setting.Keeps ⟨options, table⟩ place (Ledger.Confined options.maxExpansions known) := by
  intro rest ledger counted name entity confined count found
  obtain ⟨below, rfl⟩ := expansions_of_count count
  obtain ⟨declared, fewer, -⟩ := confined
  have more := Nat.le_succ_of_le fewer
  refine replacement_kept ⟨declared, more, below⟩ (fun _ => ⟨declared, more, below⟩) ?_
  rintro systemId publicId rfl - -
  refine ⟨List.forall_mem_append.mpr ⟨declared, List.forall_mem_singleton.mpr ?_⟩, ?_, below⟩
  · exact (same name).symm.trans found
  · simpa [Ledger.request, Ledger.spend] using fewer

/-- Where external entities are not allowed, they are passed over. -/
theorem forbidden_keeps (forbidden : options.allowExternal = false) (table : EntityTable)
    (place : Place) : Setting.Keeps ⟨options, table⟩ place (·.requests = []) := by
  intro rest ledger counted name entity none count found
  obtain ⟨-, rfl⟩ := expansions_of_count count
  refine replacement_kept none (fun _ => none) fun _ _ _ _ allowed => ?_
  exact absurd (forbidden.symm.trans allowed) Bool.false_ne_true

end Requests

section Resolvers

/-- What would come after a fault makes no difference. -/
theorem throw_bind_congr {α β : Type} (failure : Failure) (first second : α → Except Failure β) :
    (throw failure >>= first) = (throw failure >>= second) := rfl

variable {options : Options} (forbidden : options.allowExternal = false)
  (resolver : Option (EntityRequest → Option Text))

theorem replaced_resolver_of (table : EntityTable) (place : Place) (rest : Text)
    (available : EntityTable)
    (inner : ∀ ledger name,
      Expansion.named ⟨{ options with resolver := resolver }, table, place, rest⟩ available ledger
          name =
        Expansion.named ⟨options, table, place, rest⟩ available ledger name)
    (ledger : Ledger) (text : Text) :
    Expansion.replaced ⟨{ options with resolver := resolver }, table, place, rest⟩ available ledger
        text =
      Expansion.replaced ⟨options, table, place, rest⟩ available ledger text := by
  induction size : text.length using Nat.strongRecOn generalizing text ledger with
  | ind length ih =>
    rw [Expansion.replaced_eq, Expansion.replaced_eq]
    split
    · rfl
    · rename_i before behind opened
      split
      · rfl
      · rename_i reference later closed
        have opening := congrArg List.length (Text.append_of_breakOn? opened)
        have closing := congrArg List.length (Text.append_of_breakOn? closed)
        simp only [List.length_append, List.length_cons, List.length_nil] at opening closing
        simp only [inner, ih later.length (by omega) _ _ rfl]
        rfl

include forbidden

/-- Where external entities are not allowed, none is looked up. -/
theorem replacement_resolver (table : EntityTable) (place : Place) (rest : Text) (ledger : Ledger)
    (name : Text) (entity : Entity) :
    Expansion.replacement ⟨{ options with resolver := resolver }, table, place, rest⟩ ledger name
        entity =
      Expansion.replacement ⟨options, table, place, rest⟩ ledger name entity := by
  cases entity with
  | internal value => rfl
  | external systemId publicId =>
    simp only [Expansion.replacement, forbidden, Bool.not_false, if_true]
    rfl

/-- Where external entities are not allowed, the resolver makes no difference. -/
theorem named_resolver (table : EntityTable) (place : Place) (rest : Text)
    (available : EntityTable) (ledger : Ledger) (name : Text) :
    Expansion.named ⟨{ options with resolver := resolver }, table, place, rest⟩ available ledger
        name =
      Expansion.named ⟨options, table, place, rest⟩ available ledger name := by
  induction size : available.length using Nat.strongRecOn generalizing available ledger name with
  | ind length ih =>
    unfold Expansion.named
    simp only [replacement_resolver forbidden]
    split
    · rfl
    · split
      · rfl
      · rename_i entity found
        have fewer : (available.without name).length < length := by
          rw [← size]
          exact EntityTable.length_without found
        have inside := replaced_resolver_of resolver table place rest (available.without name)
          fun ledger name => ih _ fewer _ ledger name rfl
        simp only [Expansion.replaced] at inside
        simp only [inside]
        rfl

variable (table : EntityTable)

theorem reference_resolver (place : Place) (ledger : Ledger) (source : Text) :
    reference ⟨{ options with resolver := resolver }, table⟩ place ledger source =
      reference ⟨options, table⟩ place ledger source := by
  unfold reference
  split
  · rfl
  · simp only [named_resolver forbidden]

theorem attributeText_resolver (quote : Char) (whole : Text) (ledger : Ledger) (done source : Text)
    (within : source <:+ whole) :
    attributeText ⟨{ options with resolver := resolver }, table⟩ quote whole ledger done source
        within =
      attributeText ⟨options, table⟩ quote whole ledger done source within := by
  induction size : source.length using Nat.strongRecOn generalizing ledger done source with
  | ind length ih =>
    unfold attributeText
    split
    · rfl
    · rename_i c rest within
      have again {after : Text} (suffix : after <:+ rest) (ledger : Ledger) (done : Text) :=
        ih after.length (size ▸ Nat.lt_succ_of_le suffix.length_le) ledger done after
          (suffix.trans ((List.suffix_cons c rest).trans within)) rfl
      rw [reference_resolver forbidden]
      split
      · rfl
      · split
        · rfl
        · split
          · exact bind_congr fun value => again value.suffix _ _
          · exact bind_congr fun next => again next.suffix _ _

theorem attributeValue_resolver (ledger : Ledger) (source : Text) :
    attributeValue ⟨{ options with resolver := resolver }, table⟩ ledger source =
      attributeValue ⟨options, table⟩ ledger source := by
  unfold attributeValue
  split
  · rfl
  · simp only [attributeText_resolver forbidden]

theorem attributeList_resolver (element whole : Text) (ledger : Ledger) (done : List Attribute)
    (spaced : Bool) (source : Text) (within : source <:+ whole) :
    attributeList ⟨{ options with resolver := resolver }, table⟩ element whole ledger done spaced
        source within =
      attributeList ⟨options, table⟩ element whole ledger done spaced source within := by
  induction size : source.length using Nat.strongRecOn
    generalizing ledger done spaced source with
  | ind length ih =>
    unfold attributeList
    split
    · rfl
    · split
      · rfl
      · split
        · rfl
        · rename_i first others within _ _ _ _
          have again {after : Text} (suffix : after <:+ others) (ledger : Ledger)
              (done : List Attribute) (spaced : Bool) :=
            ih after.length (size ▸ Nat.lt_succ_of_le suffix.length_le) ledger done spaced after
              (suffix.trans ((List.suffix_cons first others).trans within)) rfl
          simp only [attributeValue_resolver forbidden]
          split
          · rfl
          · refine bind_congr fun key => bind_congr fun sign => bind_congr fun value => ?_
            split
            · rfl
            · exact again ((skipBlanks value.rest).suffix.trans (value.suffix.trans
                ((skipBlanks sign.rest).suffix.trans (sign.suffix.trans
                  ((skipBlanks key.rest).suffix.trans key.suffix))))) _ _ _

theorem startTag_resolver (depth : Nat) (ledger : Ledger) (source : Text) :
    startTag ⟨{ options with resolver := resolver }, table⟩ depth ledger source =
      startTag ⟨options, table⟩ depth ledger source := by
  unfold startTag
  simp only [attributeList_resolver forbidden]

theorem content_resolver (whole : Text) (inner : OpenElement) (outer : List OpenElement)
    (pending : Text) (ledger : Ledger) (source : Text) (within : source <:+ whole) :
    content ⟨{ options with resolver := resolver }, table⟩ whole inner outer pending ledger source
        within =
      content ⟨options, table⟩ whole inner outer pending ledger source within := by
  induction size : source.length using Nat.strongRecOn
    generalizing inner outer pending ledger source with
  | ind length ih =>
    unfold content
    split
    · rfl
    · rename_i c rest within
      have again {after : Text} (suffix : after <:+ rest) (inner : OpenElement)
          (outer : List OpenElement) (pending : Text) (ledger : Ledger) :=
        ih after.length (size ▸ Nat.lt_succ_of_le suffix.length_le) inner outer pending ledger after
          (suffix.trans ((List.suffix_cons c rest).trans within)) rfl
      simp only [startTag_resolver forbidden, reference_resolver forbidden]
      split
      · split
        · rename_i slash _
          refine bind_congr fun closed => ?_
          split
          · rfl
          · exact again (closed.suffix.trans slash) _ _ _ _
        · split
          · exact bind_congr fun leaf => again leaf.suffix _ _ _ _
          · refine bind_congr fun tag => ?_
            split
            · exact again tag.suffix _ _ _ _
            · exact again tag.suffix _ _ _ _
      · split
        · exact bind_congr fun value => again value.suffix _ _ _ _
        · split
          · rfl
          · exact bind_congr fun next => again next.suffix _ _ _ _

theorem rootElement_resolver (ledger : Ledger) (source : Text) :
    rootElement ⟨{ options with resolver := resolver }, table⟩ ledger source =
      rootElement ⟨options, table⟩ ledger source := by
  unfold rootElement
  simp only [startTag_resolver forbidden, content_resolver forbidden]

omit table

theorem topLevel_resolver (progress : Progress) (source : Text) :
    topLevel { options with resolver := resolver } progress source =
      topLevel options progress source := by
  induction size : source.length using Nat.strongRecOn generalizing progress source with
  | ind length ih =>
    unfold topLevel
    split
    · rfl
    · rename_i rest
      have again {after : Text} (suffix : after <:+ rest) (progress : Progress) :=
        ih after.length (size ▸ Nat.lt_succ_of_le suffix.length_le) progress after rfl
      split
      · exact bind_congr fun leaf => again ((skipBlanks leaf.rest).suffix.trans leaf.suffix) _
      · split
        · rename_i word _
          dsimp only
          split
          · exact throw_bind_congr _ _ _
          · exact bind_congr fun declared =>
              again ((skipBlanks declared.rest).suffix.trans (declared.suffix.trans word)) _
        · simp only [rootElement_resolver forbidden]
          split
          · exact throw_bind_congr _ _ _
          · exact bind_congr fun element =>
              again ((skipBlanks element.rest).suffix.trans element.suffix) _
    · rfl

theorem parseText_resolver (source : Text) :
    parseText { options with resolver := resolver } source = parseText options source := by
  rw [parseText_eq, parseText_eq]
  unfold parse
  simp only [topLevel_resolver forbidden]

end Resolvers

/-- Without leave nothing is asked for, and it does not matter who would be asked. Whatever is asked
for is the first declaration of its name, no attribute value asks for anything, however deep its
entities are nested, and there are no more requests than expansions are allowed. -/
theorem externalEntities_confined (options : Options) (source : Text) :
    (options.allowExternal = false →
      requestsOf (parseText options source) = [] ∧
      ∀ first second, parseText { options with resolver := first } source =
        parseText { options with resolver := second } source) ∧
    (∀ request ∈ requestsOf (parseText options source),
      firstDeclared? source request.name =
        some (.external request.systemId request.publicId)) ∧
    (∀ table ledger value, Kept (·.requests = ledger.requests) (·.value.2)
      (attributeValue ⟨options, table⟩ ledger value)) ∧
    (requestsOf (parseText options source)).length ≤ options.maxExpansions := by
  obtain ⟨ledger, confined, requests⟩ := parseText_kept options source
    (Ledger.Confined options.maxExpansions (firstDeclared? source))
    ⟨List.forall_mem_nil _, Nat.le_refl _, Nat.zero_le _⟩
    (fun _ _ _ kept => ⟨kept.declared, kept.counted, kept.limited⟩)
    (fun _ place => confined_keeps place)
  rw [requests]
  refine ⟨fun forbidden => ⟨?_, fun first second => ?_⟩, confined.declared, ?_, ?_⟩
  · obtain ⟨silent, none, same⟩ := parseText_kept options source (·.requests = []) rfl
      (fun _ _ _ => id) (fun table place _ => forbidden_keeps forbidden table place)
    rw [← requests, same, none]
  · rw [parseText_resolver forbidden first, parseText_resolver forbidden second]
  · intro table ledger value
    exact attributeValue_kept (requests_keeps table _) rfl value
  · exact Nat.le_trans confined.counted confined.limited

/-- The second declaration of a name counts for nothing. -/
theorem externalEntities_confined_redeclared :
    requestsOf (parseText {} "<!DOCTYPE a [<!ENTITY e SYSTEM 's'>]><a>&e;</a>".toList) = [] ∧
    requestsOf (parseText { allowExternal := true, resolver := some fun _ => some "text".toList }
        "<!DOCTYPE a [<!ENTITY e SYSTEM 's'><!ENTITY e PUBLIC 'p' 't'>]><a>&e;</a>".toList) =
      [⟨"e".toList, "s".toList, none⟩] ∧
    firstDeclared?
        "<!DOCTYPE a [<!ENTITY e SYSTEM 's'><!ENTITY e PUBLIC 'p' 't'>]><a>&e;</a>".toList
        "e".toList =
      some (.external "s".toList none) := by
  have asked : requestsOf (parseText
      { allowExternal := true, resolver := some fun _ => some "text".toList }
      "<!DOCTYPE a [<!ENTITY e SYSTEM 's'><!ENTITY e PUBLIC 'p' 't'>]><a>&e;</a>".toList) =
        [⟨"e".toList, "s".toList, none⟩] := by decide +kernel
  refine ⟨((externalEntities_confined {} _).1 rfl).1, asked, ?_⟩
  have member : (⟨"e".toList, "s".toList, none⟩ : EntityRequest) ∈ requestsOf (parseText
      { allowExternal := true, resolver := some fun _ => some "text".toList }
      "<!DOCTYPE a [<!ENTITY e SYSTEM 's'><!ENTITY e PUBLIC 'p' 't'>]><a>&e;</a>".toList) := by
    rw [asked]
    exact List.mem_singleton_self _
  exact (externalEntities_confined _ _).2.1 _ member

end XmlSelect.Markup
