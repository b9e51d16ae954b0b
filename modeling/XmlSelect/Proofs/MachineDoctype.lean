import XmlSelect.Proofs.MachineTags

/-! Document type declarations: the machine reads them as the readers of the rest of a text do, and
keeps the entities in its table. -/
namespace XmlSelect.Machine

open Markup

variable {source rest whole : Text} {state : State} {ledger : Ledger}

section Declarations

/-- The identifiers as a pair, the system identifier first. -/
def identifierPair (identifiers : Option (Text × Option Text)) : Option Text × Option Text :=
  (identifiers.map (·.1), identifiers.bind (·.2))

theorem run_externalId (within : rest <:+ source) :
    run externalId (state.at source rest ledger) =
      answer source (fun read => (identifierPair read.value, state.at source read.rest ledger))
        (withLedger ledger (Markup.externalId rest)) := by
  rw [externalId, run_eat_bind within, Markup.externalId]
  cases take? "SYSTEM".toList rest with
  | some word =>
    have afterWord := word.suffix.trans within
    dsimp only
    rw [if_pos rfl, withLedger_bind]
    refine (requireBlank_reads afterWord).run_bind fun blanks _ => ?_
    have body := blanks.suffix.trans afterWord
    rw [withLedger_bind]
    exact (quoted_reads body).run_bind fun system _ => rfl
  | none =>
    dsimp only
    rw [if_neg Bool.false_ne_true, run_eat_bind within]
    cases take? "PUBLIC".toList rest with
    | some word =>
      have afterWord := word.suffix.trans within
      dsimp only
      rw [if_pos rfl, withLedger_bind]
      refine (requireBlank_reads afterWord).run_bind fun blanks _ => ?_
      have body := blanks.suffix.trans afterWord
      rw [withLedger_bind]
      refine (quoted_reads body).run_bind fun publicId _ => ?_
      have afterPublic := publicId.suffix.trans body
      rw [withLedger_bind]
      refine (requireBlank_reads afterPublic).run_bind fun gap _ => ?_
      have next := gap.suffix.trans afterPublic
      rw [withLedger_bind]
      exact (quoted_reads next).run_bind fun system _ => rfl
    | none => rfl

theorem skipDeclaration_reads (reaches : whole <:+ source) (within : rest <:+ whole) {rounds : Nat}
    (enough : rest.length < rounds) :
    Reads source (skipDeclaration rounds) rest (Markup.skipDeclaration whole rest within) := by
  intro state ledger
  obtain ⟨rounds, rfl⟩ := exists_rounds enough
  fun_induction Markup.skipDeclaration whole rest within generalizing rounds with
  | case1 within =>
    rw [skipDeclaration, run_peek?_bind (within.trans reaches)]
    rfl
  | case2 c rest within closing =>
    have here := within.trans reaches
    rw [skipDeclaration, run_peek?_bind here]
    simp only [List.head?_cons, closing, if_true]
    have same : c = '>' := by simpa using closing
    subst same
    rw [← bind_pure (expect _), run_expect_here_bind List.singleton_append.symm here]
    rfl
  | case3 c rest within other opens _ ih =>
    have here := within.trans reaches
    rw [skipDeclaration, run_peek?_bind here]
    simp only [List.head?_cons, other, opens, if_true]
    rw [withLedger_bind]
    refine (quotedFrom_reads here opens).run_bind fun literal _ => ?_
    obtain ⟨rounds, rfl, left⟩ := rounds_behind enough literal.suffix
    exact ih literal.rest literal.suffix rounds left
  | case4 c rest within other plain _ ih =>
    have here := within.trans reaches
    rw [skipDeclaration, run_peek?_bind here]
    simp only [List.head?_cons, other, plain]
    rw [withLedger_bind]
    refine (nextChar_reads here).run_bind fun next _ => ?_
    obtain ⟨rounds, rfl, left⟩ := rounds_behind enough next.suffix
    exact ih next.rest next.suffix rounds left

theorem entityDefinition_reads (within : rest <:+ source) (declared : Text) :
    Reads source (entityDefinition declared) rest (Markup.entityDefinition declared rest) := by
  intro state ledger
  rw [entityDefinition, run_peek?_bind within, Markup.entityDefinition]
  split
  · rw [withLedger_bind]
    exact (quoted_reads within).run_bind fun value _ => rfl
  · rw [withLedger_bind]
    refine run_bind_answer (run_externalId within) fun identifiers _ => ?_
    have afterId := identifiers.suffix.trans within
    obtain ⟨value, afterIdentifiers, first⟩ := identifiers
    cases value with
    | none => rfl
    | some pair =>
      have body := (List.dropWhile_suffix isBlank).trans afterId
      dsimp only [identifierPair, Option.map_some]
      rw [run_skipBlanks_bind afterId, run_eat_bind body, Markup.skipBlanks, Read.skip]
      dsimp only
      cases take? "NDATA".toList (afterIdentifiers.dropWhile isBlank) with
      | none => rfl
      | some word =>
        have afterWord := word.suffix.trans body
        dsimp only
        rw [if_pos rfl, withLedger_bind]
        refine (requireBlank_reads afterWord).run_bind fun gap _ => ?_
        have next := gap.suffix.trans afterWord
        rw [withLedger_bind]
        exact (name_reads next).run_bind fun notation_ _ => rfl

/-- The state with another table of entities. -/
def State.declaring (state : State) (table : EntityTable) : State := { state with table := table }

theorem parameterMark_reads (within : rest <:+ source) :
    Reads source parameterMark rest (Markup.parameterMark rest) := by
  intro state ledger
  by_cases marked : ∃ after, rest = '%' :: after
  · obtain ⟨after, rfl⟩ := marked
    rw [parameterMark, run_eat_here_bind List.singleton_append.symm within]
    simp only [if_true]
    rw [Markup.parameterMark, withLedger_bind]
    exact (requireBlank_reads ((List.suffix_cons _ _).trans within)).run_bind fun blanks _ => rfl
  · have none : Markup.parameterMark rest = .ok ⟨false, rest, List.suffix_refl _⟩ := by
      unfold Markup.parameterMark
      split
      · exact absurd ⟨_, rfl⟩ marked
      · rfl
    rw [parameterMark, run_eat_other_bind within fun after same => marked ⟨after, same⟩, none]
    rfl

theorem run_entityDeclaration {start : Text} (split : start = "<!ENTITY".toList ++ rest)
    (within : start <:+ source) :
    run entityDeclaration (state.at source start ledger) =
      answer source (fun read => ((), (state.declaring read.value).at source read.rest ledger))
        (withLedger ledger (Markup.entityDeclaration state.table rest)) := by
  have inner : rest <:+ source := (List.suffix_append _ _).trans (split ▸ within)
  rw [entityDeclaration, run_expect_here_bind split within, Markup.entityDeclaration,
    withLedger_bind]
  refine (requireBlank_reads inner).run_bind fun first _ => ?_
  have beforeMark := first.suffix.trans inner
  rw [withLedger_bind]
  refine (parameterMark_reads beforeMark).run_bind fun parameter _ => ?_
  have beforeName := parameter.suffix.trans beforeMark
  rw [withLedger_bind]
  refine (name_reads beforeName).run_bind fun declared _ => ?_
  have afterName := declared.suffix.trans beforeName
  rw [withLedger_bind]
  refine (requireBlank_reads afterName).run_bind fun blanks _ => ?_
  have body := blanks.suffix.trans afterName
  rw [withLedger_bind]
  refine (entityDefinition_reads body declared.value).run_bind fun entity _ => ?_
  have afterEntity := entity.suffix.trans body
  have beforeEnd := (List.dropWhile_suffix isBlank).trans afterEntity
  rw [run_skipBlanks_bind afterEntity, withLedger_bind]
  refine (expect_reads beforeEnd _).run_bind fun closed _ => ?_
  cases parameter.value <;> rfl

end Declarations

section Subsets

/-- Either an item of the internal subset is read, or there is none and the cursor stays. -/
theorem run_subsetItem (within : '<' :: rest <:+ source) :
    run subsetItem (state.at source ('<' :: rest) ledger) =
        answer source (fun read => (true, (state.declaring read.value).at source read.rest ledger))
          (withLedger ledger (Markup.subsetItem state.table ('<' :: rest) rest)) ∨
      run subsetItem (state.at source ('<' :: rest) ledger) =
          some (.ok (false, state.at source ('<' :: rest) ledger)) ∧
        Markup.subsetItem state.table ('<' :: rest) rest =
          .error ⟨.unexpectedInSubset, '<' :: rest⟩ := by
  rw [subsetItem, run_lookingAt_bind within,
    show "<!ENTITY".toList = '<' :: "!ENTITY".toList from rfl, isSome_take?_cons, subsetItem_eq]
  cases opened : take? "!ENTITY".toList rest with
  | some word =>
    left
    have split := congrArg ('<' :: ·) (take?_eq_some opened)
    dsimp only
    rw [Option.isSome_some, if_pos rfl]
    rw [run_bind, run_entityDeclaration split within]
    cases Markup.entityDeclaration state.table word.rest <;> rfl
  | none =>
    dsimp only
    rw [Option.isSome_none, if_neg Bool.false_ne_true,
      show "<!--".toList = '<' :: "!--".toList from rfl, run_eat_cons_bind within]
    cases take? "!--".toList rest with
    | some word =>
      left
      have inner := word.suffix.trans ((List.suffix_cons _ _).trans within)
      dsimp only
      rw [if_pos rfl, withLedger_bind]
      exact (takeUntil_reads inner _ _).run_bind fun _ _ => rfl
    | none =>
      dsimp only
      rw [if_neg Bool.false_ne_true, show "<?".toList = ['<', '?'] from rfl,
        run_eat_cons_bind within]
      cases take? ['?'] rest with
      | some word =>
        left
        have inner := word.suffix.trans ((List.suffix_cons _ _).trans within)
        dsimp only
        rw [if_pos rfl, withLedger_bind]
        exact (takeUntil_reads inner _ _).run_bind fun _ _ => rfl
      | none =>
        dsimp only
        rw [if_neg Bool.false_ne_true, show "<!".toList = ['<', '!'] from rfl,
          run_eat_cons_bind within]
        cases take? ['!'] rest with
        | some word =>
          left
          have inner := (List.suffix_cons _ _).trans within
          dsimp only
          rw [if_pos rfl, run_rounds_bind (word.suffix.trans inner), withLedger_bind]
          exact (skipDeclaration_reads inner word.suffix (Nat.lt_succ_self _)).run_bind
            fun _ _ => rfl
        | none => exact .inr ⟨rfl, rfl⟩

theorem run_subsetItem_none {c : Char} (within : c :: rest <:+ source) (other : c ≠ '<') :
    run subsetItem (state.at source (c :: rest) ledger) =
      some (.ok (false, state.at source (c :: rest) ledger)) := by
  have apart (wanted : Text) : take? ('<' :: wanted) (c :: rest) = none :=
    take?_cons_of_ne other wanted rest
  rw [subsetItem, run_lookingAt_bind within,
    show "<!ENTITY".toList = '<' :: "!ENTITY".toList from rfl, apart, Option.isSome_none,
    if_neg Bool.false_ne_true, run_eat_bind within,
    show "<!--".toList = '<' :: "!--".toList from rfl, apart]
  dsimp only
  rw [if_neg Bool.false_ne_true, run_eat_bind within, show "<?".toList = ['<', '?'] from rfl, apart]
  dsimp only
  rw [if_neg Bool.false_ne_true, run_eat_bind within, show "<!".toList = ['<', '!'] from rfl, apart]
  rfl

theorem run_internalSubset_step {rounds : Nat} {blanks : Text} {c : Char}
    (start : blanks <:+ source) (behind : blanks.dropWhile isBlank = c :: rest)
    (open_ : ¬(c == ']') = true) :
    run (internalSubset (rounds + 1)) (state.at source blanks ledger) =
      run (subsetItem >>= fun found => if found then internalSubset rounds
          else parameterReference >>= fun found => if found then internalSubset rounds
            else fatal .unexpectedInSubset)
        (state.at source (c :: rest) ledger) := by
  have here : c :: rest <:+ source := behind ▸ (List.dropWhile_suffix _).trans start
  rw [internalSubset, run_skipBlanks_bind start, behind, run_eat_bind here,
    take?_cons_of_ne (by simpa using open_)]
  dsimp only
  rw [if_neg Bool.false_ne_true, run_atEnd_bind here, List.isEmpty_cons, if_neg Bool.false_ne_true]

/-- Where no item is next, it has to be a reference to a parameter entity. -/
theorem run_unexpected {rounds : Nat} {c : Char} (within : c :: rest <:+ source)
    (other : c ≠ '%') :
    run (parameterReference >>= fun found => if found then internalSubset rounds
        else fatal .unexpectedInSubset) (state.at source (c :: rest) ledger) =
      run (fatal .unexpectedInSubset) (state.at source (c :: rest) ledger) := by
  rw [parameterReference, bind_assoc, run_eat_bind within, take?_cons_of_ne other]
  rfl

/-- The machine goes over the blanks in front of an item when it reads this item, the reader when it
has read the one before. -/
theorem run_internalSubset {blanks : Text} (behind : blanks.dropWhile isBlank = rest)
    (start : blanks <:+ source) (reaches : whole <:+ source) (table : EntityTable)
    (within : rest <:+ whole) {rounds : Nat} (enough : blanks.length < rounds) :
    run (internalSubset rounds) ((state.declaring table).at source blanks ledger) =
      answer source (fun read : Read whole (EntityTable × Ledger) =>
          ((), (state.declaring read.value.1).at source read.rest read.value.2))
        (Markup.internalSubset whole table ledger rest within) := by
  obtain ⟨rounds, rfl⟩ := exists_rounds enough
  fun_induction Markup.internalSubset whole table ledger rest within
    generalizing blanks rounds with
  | case1 table ledger within =>
    have here := within.trans reaches
    have empty : take? [']'] [] = none := rfl
    rw [internalSubset, run_skipBlanks_bind start, behind, run_eat_bind here, empty]
    dsimp only
    rw [if_neg Bool.false_ne_true, run_atEnd_bind here]
    rfl
  | case2 table ledger c rest within closing =>
    have here := within.trans reaches
    have same : c = ']' := by simpa using closing
    subst same
    rw [internalSubset, run_skipBlanks_bind start, behind,
      run_eat_here_bind List.singleton_append.symm here]
    rfl
  | case3 table ledger c rest within open_ percent _ ih =>
    have here := within.trans reaches
    have same : c = '%' := by simpa using percent
    subst same
    rw [run_internalSubset_step start behind open_,
      run_bind_of_ok (run_subsetItem_none here (by decide)), if_neg Bool.false_ne_true,
      parameterReference, bind_assoc, run_eat_here_bind List.singleton_append.symm here, if_pos rfl]
    simp only [bind_assoc]
    have inner := (List.suffix_cons _ _).trans here
    refine (name_reads inner).run_bind fun entity _ => ?_
    have afterName := entity.suffix.trans inner
    refine (expect_reads afterName _).run_bind fun closed _ => ?_
    rw [run_bind_of_ok (run_warn _)]
    obtain ⟨rounds, rfl, left⟩ := rounds_behind (rounds_dropWhile enough behind) (closed.suffix.trans entity.suffix)
    exact ih entity.value entity.rest entity.suffix closed.rest closed.suffix _
      (List.dropWhile_suffix _) rfl (closed.suffix.trans afterName) rounds left
  | case4 table ledger c rest within open_ plain opening _ ih =>
    have here := within.trans reaches
    have same : c = '<' := by simpa using opening
    subst same
    rw [run_internalSubset_step start behind open_]
    rcases @run_subsetItem source rest (state.declaring table) ledger here with item | ⟨item, absent⟩
    · refine run_bind_answer item fun declared _ => ?_
      obtain ⟨rounds, rfl, left⟩ := rounds_behind (rounds_dropWhile enough behind) declared.suffix
      exact ih declared.value declared.rest declared.suffix _ (List.dropWhile_suffix _) rfl
        (declared.suffix.trans ((List.suffix_cons _ _).trans here)) rounds left
    · rw [run_bind_of_ok item, if_neg Bool.false_ne_true, run_unexpected here (by decide)]
      exact congrArg (fun outcome => answer source _ (withLedger ledger outcome >>= _)) absent.symm
  | case5 table ledger c rest within open_ plain other =>
    have here := within.trans reaches
    rw [run_internalSubset_step start behind open_,
      run_bind_of_ok (run_subsetItem_none here (by simpa using other)), if_neg Bool.false_ne_true,
      run_unexpected here (by simpa using plain)]
    rfl

theorem run_optionalSubset (fresh : state.table = []) (within : rest <:+ source) :
    run optionalSubset (state.at source rest ledger) =
      answer source (fun read : Read rest (EntityTable × Ledger) =>
          ((), (state.declaring read.value.1).at source read.rest read.value.2))
        (Markup.optionalSubset ledger rest) := by
  have start : state.declaring [] = state := by rw [State.declaring, ← fresh]
  by_cases opened : ∃ after, rest = '[' :: after
  · obtain ⟨after, rfl⟩ := opened
    have inner := (List.suffix_cons _ _).trans within
    have first := (List.dropWhile_suffix isBlank).trans (List.suffix_cons '[' after)
    have subset := @run_internalSubset source _ ('[' :: after) state ledger after rfl inner within []
      first _ (Nat.lt_succ_self _)
    rw [start] at subset
    rw [optionalSubset, run_eat_here_bind List.singleton_append.symm within, if_pos rfl,
      run_rounds_bind inner, Markup.optionalSubset]
    refine run_bind_answer subset fun declared _ => ?_
    rw [run_skipBlanks_bind (declared.suffix.trans within)]
    rfl
  · have none : Markup.optionalSubset ledger rest =
        .ok ⟨([], ledger), rest, List.suffix_refl _⟩ := by
      unfold Markup.optionalSubset
      split
      · exact absurd ⟨_, rfl⟩ opened
      · rfl
    rw [optionalSubset, run_eat_other_bind within fun after same => opened ⟨after, same⟩, none]
    dsimp only [answer]
    rw [start]
    rfl

theorem run_doctype (parent : Nat) (fresh : state.table = []) {start : Text}
    (split : start = "<!DOCTYPE".toList ++ rest) (within : start <:+ source) :
    run (doctype parent) (state.at source start ledger) =
      answer source (fun read => ((), ((state.declaring read.value.table).holding
          (state.arena.appendNew parent (.leaf read.value.leaf))).at source read.rest
            read.value.ledger))
        (Markup.doctype ledger rest) := by
  have inner : rest <:+ source := (List.suffix_append _ _).trans (split ▸ within)
  rw [doctype, run_expect_here_bind split within, Markup.doctype]
  refine (requireBlank_reads inner).run_bind fun first _ => ?_
  have beforeName := first.suffix.trans inner
  refine (name_reads beforeName).run_bind fun declared _ => ?_
  have afterName := declared.suffix.trans beforeName
  have beforeId := (List.dropWhile_suffix isBlank).trans afterName
  rw [run_skipBlanks_bind afterName]
  refine run_bind_answer (run_externalId beforeId) fun identifiers _ => ?_
  have afterId := identifiers.suffix.trans beforeId
  have beforeSubset := (List.dropWhile_suffix isBlank).trans afterId
  dsimp only
  rw [run_skipBlanks_bind afterId]
  refine run_bind_answer (run_optionalSubset fresh beforeSubset) fun subset _ => ?_
  have afterSubset := subset.suffix.trans beforeSubset
  exact (expect_reads afterSubset _).run_bind fun closed _ => rfl

end Subsets

end XmlSelect.Machine
