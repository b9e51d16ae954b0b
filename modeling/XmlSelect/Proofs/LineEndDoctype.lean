import XmlSelect.Proofs.DeclaredEntities
import XmlSelect.Proofs.LineEndContent

/-! Line ends in document type declarations. The names that are declared do not depend on the line
ends; identifiers and the texts of entities are quoted literals and keep the carriage returns that
stand alone. -/
namespace XmlSelect.Markup

section Declarations

variable {feed : Char → Char} {source source' : Text}

/-- The system and public identifiers, changed in their characters. -/
def fedIdentifiers (feed : Char → Char) :
    Option (Text × Option Text) → Option (Text × Option Text) :=
  Option.map (Prod.map (List.map feed) (Option.map (List.map feed)))

theorem EntityTable.Fed.nil : EntityTable.Fed feed [] [] := ⟨fun _ => .none, nofun⟩

theorem EntityTable.Fed.declare {table table' : EntityTable} (same : table.Fed feed table')
    {name : Text} (plain : Lineless name) {entity entity' : Entity}
    (fed : entity.Fed feed entity') :
    (table.declare name entity).Fed feed (table'.declare name entity') := by
  refine ⟨fun other => ?_, fun other found declared => ?_⟩
  · rw [find?_declare, find?_declare]
    have each := same.each other
    generalize table.find? other = first, table'.find? other = second at each
    cases each with
    | some earlier => exact .some earlier
    | none =>
      by_cases here : other = name
      · subst here
        simpa using Option.Rel.some fed
      · have differ : (other == name) = false := by simpa using here
        simp [List.lookup_cons, differ]
  · rw [find?_declare, Option.or_eq_some_iff] at declared
    obtain earlier | ⟨-, own⟩ := declared
    · exact same.named other _ earlier
    · obtain ⟨rfl, -⟩ := Prod.mk.inj (List.mem_singleton.mp (mem_of_lookup own))
      exact plain

variable (same : source' = foldLineEnds source) (feeds : Feeds feed source)
include same feeds

theorem externalId_agree :
    Agree (Abreast fun value value' => value' = fedIdentifiers feed value) (externalId source)
      (externalId source') := by
  unfold externalId
  obtain ⟨rest, word, _, found, found'⟩ | ⟨absent, absent'⟩ :=
    take?_cases same (by decide : Lineless "SYSTEM".toList)
  · rw [found, found']
    refine (requireBlank_agree rfl).read fun _ body blanks _ _ _ _ => ?_
    refine (quoted_agree rfl (feeds.of_suffix (blanks.trans word))).read ?_
    rintro system rest suffix system' suffix' - same
    subst same
    exact ⟨rfl, rfl⟩
  · rw [absent, absent']
    obtain ⟨rest, word, _, found, found'⟩ | ⟨absent, absent'⟩ :=
      take?_cases same (by decide : Lineless "PUBLIC".toList)
    · rw [found, found']
      refine (requireBlank_agree rfl).read fun _ body blanks _ _ _ _ => ?_
      have feeds := feeds.of_suffix (blanks.trans word)
      refine (quoted_agree rfl feeds).read ?_
      rintro publicId afterPublic first publicId' first' - same
      subst same
      refine (requireBlank_agree rfl).read fun _ next gap _ _ _ _ => ?_
      refine (quoted_agree rfl (feeds.of_suffix (gap.trans first))).read ?_
      rintro system rest suffix system' suffix' - same
      subst same
      exact ⟨rfl, rfl⟩
    · rw [absent, absent']
      exact ⟨rfl, same⟩

theorem entityDefinition_agree (declared : Text) :
    Agree (Abreast (Entity.Fed feed)) (entityDefinition declared source)
      (entityDefinition declared source') := by
  unfold entityDefinition
  rw [same, any_head?_foldLineEnds (by decide), ← same]
  split
  · refine (quoted_agree same feeds).read ?_
    rintro value rest suffix value' suffix' - same
    exact ⟨same, rfl⟩
  · refine (externalId_agree same feeds).read ?_
    rintro identifiers afterId first identifiers' first' - same
    subst same
    cases identifiers with
    | none => trivial
    | some identifiers =>
      obtain ⟨system, publicId⟩ := identifiers
      have body := (skipBlanks_agree (rfl : foldLineEnds afterId = _)).2
      dsimp only [fedIdentifiers, Option.map, Prod.map]
      obtain ⟨rest, suffix, suffix', found, found'⟩ | ⟨absent, absent'⟩ :=
        take?_cases body (by decide : Lineless "NDATA".toList)
      · rw [found, found']
        refine (requireBlank_agree rfl).read fun _ next gap _ _ _ _ => ?_
        refine (name_agree rfl).read fun _ rest suffix _ _ _ _ => ?_
        exact ⟨trivial, rfl⟩
      · rw [absent, absent']
        exact ⟨trivial, body⟩

omit feeds in
theorem parameterMark_agree :
    Agree (Abreast Eq) (parameterMark source) (parameterMark source') := by
  subst same
  obtain ⟨rest, rfl, folded⟩ | ⟨unmarked, unmarked'⟩ :=
    first_foldLineEnds (by decide : Lineless ['%']) source
  · rw [folded]
    refine (requireBlank_agree rfl).read fun _ body blanks _ _ _ _ => ?_
    exact ⟨rfl, rfl⟩
  · unfold parameterMark
    split
    · exact absurd rfl (unmarked _)
    · exact ⟨rfl, rfl⟩

theorem entityDeclaration_agree {table table' : EntityTable} (tables : table.Fed feed table') :
    Agree (Abreast (EntityTable.Fed feed)) (entityDeclaration table source)
      (entityDeclaration table' source') := by
  refine (requireBlank_agree same).read fun _ beforeMark first _ _ _ _ => ?_
  refine (parameterMark_agree rfl).read fun parameter beforeName mark _ _ _ same => ?_
  subst same
  refine (name_agree rfl).read fun declared afterName named _ _ read same => ?_
  subst same
  refine (requireBlank_agree rfl).read fun _ body blanks _ _ _ _ => ?_
  have here : body <:+ source := blanks.trans (named.trans (mark.trans first))
  refine (entityDefinition_agree rfl (feeds.of_suffix here) declared).read
    fun entity afterEntity _ entity' _ _ fed => ?_
  refine (expect_agree (skipBlanks_agree rfl).2 (by decide)).read fun _ rest closed _ _ _ _ => ?_
  refine ⟨?_, rfl⟩
  dsimp only
  split
  · exact tables
  · exact tables.declare (name_ok read).1.lineless fed

omit feeds in
theorem skipDeclaration_agree {whole whole' : Text} {within : source <:+ whole}
    {within' : source' <:+ whole'} :
    Agree (Abreast Eq) (skipDeclaration whole source within)
      (skipDeclaration whole' source' within') := by
  fun_induction skipDeclaration whole source within generalizing source' with
  | case1 =>
    rw [foldLineEnds_nil] at same
    subst same
    rw [skipDeclaration]
    trivial
  | case2 =>
    rename_i c rest _ closing _
    obtain rfl := eq_of_beq closing
    rw [foldLineEnds_cons_of_ne (by decide)] at same
    subst same
    rw [skipDeclaration, if_pos closing]
    exact ⟨rfl, rfl⟩
  | case3 =>
    rename_i c rest _ open_ quote _ ih
    have plain := lineless_of_isQuote quote
    rw [foldLineEnds_cons_of_ne plain.ne_return] at same
    subst same
    rw [skipDeclaration, if_neg open_, if_pos quote]
    refine (takeUntil_agree rfl (Feeds.asFeed rest) plain (List.cons_ne_nil _ _) _).read
      fun _ after suffix _ _ _ _ => ?_
    exact ih after suffix rfl
  | case4 =>
    rename_i c rest _ open_ unquoted _ ih
    obtain ⟨behind, folded, next⟩ := foldLineEnds_first c rest
    obtain rfl := same.trans folded
    rw [skipDeclaration, asFeed_turns.beq_eq (by decide), if_neg open_,
      asFeed_turns.apply (by decide : isQuote '\r' = isQuote '\n'), if_neg unquoted]
    refine (nextChar_agree folded next).read fun _ after suffix _ _ _ _ => ?_
    exact ih after suffix rfl

theorem subsetItem_agree {table table' : EntityTable} (tables : table.Fed feed table')
    (opening opening' : Text) :
    Agree (Abreast (EntityTable.Fed feed)) (subsetItem table opening source)
      (subsetItem table' opening' source') := by
  rw [subsetItem_eq, subsetItem_eq]
  obtain ⟨rest, word, _, found, found'⟩ | ⟨absent, absent'⟩ :=
    take?_cases same (by decide : Lineless "!ENTITY".toList)
  · rw [found, found']
    exact (entityDeclaration_agree rfl (feeds.of_suffix word) tables).within _ _
  rw [absent, absent']
  obtain ⟨rest, word, _, found, found'⟩ | ⟨absent, absent'⟩ :=
    take?_cases same (by decide : Lineless "!--".toList)
  · rw [found, found']
    refine (takeUntil_agree rfl (Feeds.asFeed rest) (by decide) (by decide) _).read
      fun _ _ _ _ _ _ _ => ?_
    exact ⟨tables, rfl⟩
  rw [absent, absent']
  obtain ⟨rest, word, _, found, found'⟩ | ⟨absent, absent'⟩ :=
    take?_cases same (by decide : Lineless ['?'])
  · rw [found, found']
    refine (takeUntil_agree rfl (Feeds.asFeed rest) (by decide) (by decide) _).read
      fun _ _ _ _ _ _ _ => ?_
    exact ⟨tables, rfl⟩
  rw [absent, absent']
  obtain ⟨rest, word, _, found, found'⟩ | ⟨absent, absent'⟩ :=
    take?_cases same (by decide : Lineless ['!'])
  · rw [found, found']
    exact (skipDeclaration_agree rfl).read fun _ _ _ _ _ _ _ => ⟨tables, rfl⟩
  · rw [absent, absent']
    trivial

/-- The same entities but for the characters of their texts, after as many expansions. -/
def Declared (feed : Char → Char) (first second : EntityTable × Ledger) : Prop :=
  first.1.Fed feed second.1 ∧ second.2.expansions = first.2.expansions

omit feeds in
theorem internalSubset_agree {whole whole' : Text} (feeds : Feeds feed whole)
    {table table' : EntityTable} (tables : table.Fed feed table') {ledger ledger' : Ledger}
    (spent : ledger'.expansions = ledger.expansions) {within : source <:+ whole}
    {within' : source' <:+ whole'} :
    Agree (Abreast (Declared feed)) (internalSubset whole table ledger source within)
      (internalSubset whole' table' ledger' source' within') := by
  fun_induction internalSubset whole table ledger source within
    generalizing source' table' ledger' with
  | case1 =>
    rw [foldLineEnds_nil] at same
    subst same
    rw [internalSubset]
    trivial
  | case2 =>
    rename_i c rest _ closing _
    obtain rfl := eq_of_beq closing
    rw [foldLineEnds_cons_of_ne (by decide)] at same
    subst same
    rw [internalSubset, if_pos closing]
    exact ⟨⟨tables, spent⟩, rfl⟩
  | case3 =>
    rename_i c rest _ open_ percent _ ih
    obtain rfl := eq_of_beq percent
    rw [foldLineEnds_cons_of_ne (by decide)] at same
    subst same
    rw [internalSubset, if_neg open_, if_pos percent]
    refine (name_agree rfl).withLedger.read fun entity _ named _ _ _ same => ?_
    subst same
    refine (expect_agree rfl (by decide)).withLedger.read fun _ after closed _ _ _ _ => ?_
    have spent : (ledger'.warn (.parameterEntityIgnored entity) (foldLineEnds after)).expansions =
        _ := spent
    exact ih entity _ named after closed _ (List.dropWhile_suffix _) (skipBlanks_agree rfl).2
      tables spent
  | case4 =>
    rename_i c rest _ open_ noPercent opening within ih
    obtain rfl := eq_of_beq opening
    rw [foldLineEnds_cons_of_ne (by decide)] at same
    subst same
    rw [internalSubset, if_neg open_, if_neg noPercent, if_pos opening]
    have behind := feeds.of_suffix ((List.suffix_cons _ _).trans within)
    refine (subsetItem_agree rfl behind tables _ _).withLedger.read
      fun declared after item declared' _ _ tables => ?_
    exact ih declared after item _ (List.dropWhile_suffix _) (skipBlanks_agree rfl).2 tables spent
  | case5 =>
    rename_i c rest _ open_ noPercent noTag _
    obtain ⟨behind, folded, -⟩ := foldLineEnds_first c rest
    obtain rfl := same.trans folded
    rw [internalSubset, asFeed_turns.beq_eq (by decide), asFeed_turns.beq_eq (by decide),
      asFeed_turns.beq_eq (by decide), if_neg open_, if_neg noPercent, if_neg noTag]
    trivial

theorem optionalSubset_agree {ledger ledger' : Ledger}
    (spent : ledger'.expansions = ledger.expansions) :
    Agree (Abreast (Declared feed)) (optionalSubset ledger source)
      (optionalSubset ledger' source') := by
  subst same
  obtain ⟨rest, rfl, folded⟩ | ⟨closed, closed'⟩ :=
    first_foldLineEnds (by decide : Lineless ['[']) source
  · rw [folded]
    refine (internalSubset_agree (skipBlanks_agree rfl).2 feeds .nil spent).read ?_
    rintro ⟨declared, warned⟩ after _ ⟨declared', warned'⟩ _ - same
    exact ⟨same, (skipBlanks_agree rfl).2⟩
  · unfold optionalSubset
    split
    · exact absurd rfl (closed _)
    · exact ⟨⟨.nil, spent⟩, rfl⟩

/-- The same document type declaration but for the characters of its literals. -/
structure Doctype.Fed (feed : Char → Char) (first second : Doctype) : Prop where
  leaf : second.leaf = first.leaf.fed feed
  table : first.table.Fed feed second.table
  expansions : second.ledger.expansions = first.ledger.expansions

theorem doctype_agree {ledger ledger' : Ledger}
    (spent : ledger'.expansions = ledger.expansions) :
    Agree (Abreast (Doctype.Fed feed)) (doctype ledger source) (doctype ledger' source') := by
  refine (requireBlank_agree same).withLedger.read fun _ beforeName first _ _ _ _ => ?_
  refine (name_agree rfl).withLedger.read fun declared afterName named _ _ _ same => ?_
  subst same
  have here := (skipBlanks afterName).suffix.trans (named.trans first)
  refine (externalId_agree (skipBlanks_agree rfl).2 (feeds.of_suffix here)).withLedger.read ?_
  rintro identifiers afterId identified identifiers' _ - same
  subst same
  have here := (skipBlanks afterId).suffix.trans (identified.trans here)
  refine (optionalSubset_agree (skipBlanks_agree rfl).2 (feeds.of_suffix here) spent).read ?_
  rintro ⟨table, warned⟩ _ _ ⟨table', warned'⟩ _ - ⟨tables, spent⟩
  refine (expect_agree rfl (by decide)).withLedger.read fun _ rest closed _ _ _ _ => ?_
  refine ⟨⟨?_, tables, spent⟩, rfl⟩
  cases identifiers <;> rfl

end Declarations

end XmlSelect.Markup
