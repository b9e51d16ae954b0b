import XmlSelect.Proofs.ContentRoundTrip
import XmlSelect.Proofs.LackingParts

/-! Documents that lack a part in one place. Two texts that come to the same there make up documents
that come to the same. -/
namespace XmlSelect.Markup

/-- A text that opens a tag opens that of an element. -/
theorem Sealed.element {root : Text} (closed : Sealed ('<' :: root)) :
    commentOrInstruction? root = none ∧ take? "!DOCTYPE".toList root = none := by
  have starts : root.head?.any isNameStart = true := by
    cases closed with
    | quote isQuote => cases isQuote
    | tag start => exact start
  exact ⟨commentOrInstruction?_of_isNameStart starts, take?_of_isNameStart starts (by decide) _⟩

section Behind

variable {options : Options} {progress result : Progress} {source : Text}

/-- Behind the root, only comments and instructions are read, whatever came before. -/
theorem topLevel_behind (seen : progress.seenRoot = true)
    (read : topLevel options progress source = .ok result) (ledger : Ledger) :
    result.ledger = progress.ledger ∧
      topLevel options { progress with ledger := ledger } source =
        .ok { result with ledger := ledger } := by
  fun_induction topLevel with
  | case1 =>
    cases read
    exact ⟨rfl, by rw [topLevel, if_pos seen]⟩
  | case2 => cases read
  | case3 =>
    rename_i found ih
    obtain ⟨leaf, taken, read⟩ := bind_ok read
    obtain ⟨same, further⟩ := ih _ _ leaf.suffix _ (skipBlanks _).suffix seen read
    refine ⟨same, ?_⟩
    rw [topLevel, found, mapError_ok taken]
    exact further
  | case4 => cases read
  | case5 =>
    rename_i misplaced _
    rw [seen, Bool.or_true] at misplaced
    exact absurd rfl misplaced
  | case6 => cases read
  | case7 =>
    rename_i unseen _
    exact absurd seen unseen
  | case8 => cases read

theorem topLevel_settled (seen : progress.seenRoot = true) (source : Text) :
    Settled Failure.fault (topLevel options progress source) := by
  fun_induction topLevel with
  | case1 => trivial
  | case2 =>
    rename_i unseen
    exact absurd seen unseen
  | case3 =>
    rename_i found ih
    refine .bind ((commentOrInstruction?_settled found).withLedger _) fun leaf => ?_
    exact ih _ _ leaf.suffix _ (skipBlanks _).suffix seen
  | case4 => rfl
  | case5 =>
    rename_i misplaced _
    rw [seen, Bool.or_true] at misplaced
    exact absurd rfl misplaced
  | case6 => rfl
  | case7 =>
    rename_i unseen _
    exact absurd seen unseen
  | case8 =>
    rw [if_pos seen]
    rfl

/-- Where the root follows, the rest of the document does. -/
theorem topLevel_root_follows {less more : Nat} {root root' : Text} {ledger' ledger'' : Ledger}
    (opens : commentOrInstruction? root = none ∧ take? "!DOCTYPE".toList root = none)
    (opens' : commentOrInstruction? root' = none ∧ take? "!DOCTYPE".toList root' = none)
    (unseen : progress.seenRoot = false)
    (follows : Follows ⟨options, progress.table⟩ less more []
      (rootElement ⟨options, progress.table⟩ ledger' root)
      (rootElement ⟨options, progress.table⟩ ledger'' root'))
    (read : topLevel options { progress with ledger := ledger' } ('<' :: root) = .ok result)
    (room : result.ledger.expansions + more ≤ options.maxExpansions + less) :
    ∃ after, topLevel options { progress with ledger := ledger'' } ('<' :: root') =
        .ok { result with ledger := after } ∧ Shifted less more result.ledger after := by
  have unseen : ¬progress.seenRoot = true := by simp [unseen]
  rw [topLevel, opens.1] at read
  dsimp only at read
  rw [opens.2] at read
  dsimp only at read
  rw [if_neg unseen] at read
  obtain ⟨element, found, read⟩ := bind_ok read
  have counts : result.ledger = element.value.2 := (topLevel_behind rfl read {}).1
  rw [counts] at room ⊢
  obtain ⟨⟨⟨element', after⟩, rest, suffix⟩, found', same, left, shifted⟩ :=
    follows element found room
  dsimp only at same left shifted
  subst same left
  refine ⟨after, ?_, shifted⟩
  rw [topLevel, opens'.1]
  dsimp only
  rw [opens'.2]
  dsimp only
  rw [if_neg unseen]
  refine bind_of_ok found' ?_
  dsimp only
  rw [List.append_nil]
  exact (topLevel_behind rfl read after).2

end Behind

section Documents

variable {options : Options} {known : Text → Option Entity} {less more : Nat}
  {tail tail' : Text}

/-- At the end of the text, nothing is declared but what is in the table. -/
theorem Progress.Foresees.find?_nil {progress : Progress} (foresees : progress.Foresees known [])
    (unseen : progress.seenRoot = false) (name : Text) : progress.table.find? name = known name := by
  cases first : progress.seenDoctype with
  | true => exact (foresees unseen).1 first name
  | false =>
    obtain ⟨empty, ahead⟩ := (foresees unseen).2 first
    rw [empty, ← ahead, topEntities?]
    · rfl
    · intro rest same
      cases same

variable {failure : Failure} (closed : Sealed tail) (closed' : Sealed tail')
  (replaces : ∀ table : EntityTable, table.Plain → (∀ name, table.find? name = known name) →
    Setting.Replaces ⟨options, table⟩ less more tail tail' failure.fault)
include closed closed' replaces

theorem topLevel_continues {progress : Progress} {front : Text} {ledger' ledger'' : Ledger}
    (plain : progress.table.Plain) (foresees : progress.Foresees known front)
    (abreast : Setting.Abreast ⟨options, progress.table⟩ progress.ledger ledger' ledger'')
    (broken : topLevel options progress front = .error failure)
    (breaks : failure.fault.breaksOff = true) {result : Progress}
    (read : topLevel options { progress with ledger := ledger' } (front ++ tail) = .ok result)
    (room : result.ledger.expansions + more ≤ options.maxExpansions + less) :
    ∃ after, topLevel options { progress with ledger := ledger'' } (front ++ tail') =
        .ok { result with ledger := after } ∧ Shifted less more result.ledger after := by
  fun_induction topLevel options progress front generalizing ledger' ledger'' with
  | case1 => cases broken
  | case2 progress unseen =>
    cases broken
    have unseen := Bool.not_eq_true _ ▸ unseen
    obtain ⟨root, root', rfl, rfl, root_⟩ := replaces _ plain (foresees.find?_nil unseen)
    exact topLevel_root_follows closed.element closed'.element unseen
      (root_ _ _ abreast.apart) read room
  | case3 =>
    rename_i progress rest result found ih
    obtain ⟨leaf, taken, broken⟩ :=
      ((commentOrInstruction?_settled found).withLedger _).further broken breaks
    rw [mapError_ok taken] at found
    change topLevel options { progress with ledger := ledger' } ('<' :: (rest ++ tail)) = _ at read
    change ∃ after, topLevel options { progress with ledger := ledger'' } ('<' :: (rest ++ tail')) =
      _ ∧ _
    rw [topLevel, commentOrInstruction?_on closed found] at read
    rw [topLevel, commentOrInstruction?_on closed' found]
    dsimp only [Read.on, withLedger_ok, ok_bind] at read ⊢
    rw [skipBlanks_on closed] at read
    rw [skipBlanks_on closed']
    exact ih _ _ leaf.suffix _ (skipBlanks _).suffix plain (foresees.leaf found) abreast broken read
  | case4 =>
    cases broken
    cases breaks
  | case5 =>
    rename_i progress rest noLeaf _ afterWord word here _ misplaced ih
    obtain ⟨declared, found, broken⟩ := (doctype_settled _ _).further broken breaks
    obtain ⟨after', found', counts'⟩ := doctype_on closed found ledger'
    obtain ⟨after'', found'', counts''⟩ := doctype_on closed' found ledger''
    have first : progress.seenDoctype = false := by
      rw [Bool.or_eq_true, not_or, Bool.not_eq_true] at misplaced
      exact misplaced.1
    change topLevel options { progress with ledger := ledger' } ('<' :: (rest ++ tail)) = _ at read
    change ∃ after, topLevel options { progress with ledger := ledger'' } ('<' :: (rest ++ tail')) =
      _ ∧ _
    rw [topLevel, commentOrInstruction?_on_none closed noLeaf] at read
    rw [topLevel, commentOrInstruction?_on_none closed' noLeaf]
    dsimp only at read ⊢
    rw [take?_on here] at read
    rw [take?_on here]
    dsimp only [Read.on] at read ⊢
    rw [if_neg misplaced, found', ok_bind] at read
    rw [if_neg misplaced, found'', ok_bind]
    dsimp only at read ⊢
    rw [skipBlanks_on closed] at read
    rw [skipBlanks_on closed']
    have counts := doctype_expansions found
    have start : Setting.Abreast ⟨options, declared.value.table⟩ declared.value.ledger after'
        after'' := by
      refine ⟨counts.trans_le abreast.allowed, ?_, ?_⟩
      · exact counts'.trans (abreast.second.trans counts.symm)
      · exact counts''.trans (abreast.third.trans counts.symm)
    exact ih declared.value _ declared.suffix _ (skipBlanks _).suffix (doctype_plain found)
      (foresees.doctype noLeaf here first found) start broken read
  | case6 =>
    cases broken
    cases breaks
  | case7 =>
    rename_i progress rest noLeaf noDoctype _ unseen _
    have unseen' := Bool.not_eq_true _ ▸ unseen
    rcases bind_error broken with stuck | ⟨element, -, broken⟩
    · have replaced := replaces _ plain (foresees.find?_eq noLeaf noDoctype unseen')
      refine topLevel_root_follows ?_ ?_ unseen' ?_ read room
      · exact ⟨commentOrInstruction?_on_none closed noLeaf,
          take?_on_none closed noDoctype (by decide)⟩
      · exact ⟨commentOrInstruction?_on_none closed' noLeaf,
          take?_on_none closed' noDoctype (by decide)⟩
      · exact rootElement_continues closed closed' plain.named replaced abreast rest failure stuck rfl
    · have other := (topLevel_settled rfl _).not_error broken
      exact absurd (breaks.symm.trans other) (by decide)
  | case8 =>
    cases broken
    split at breaks
    · cases breaks
    · cases breaks

end Documents

section Texts

variable {options : Options} {less more : Nat} {front tail tail' : Text} {error : ParseError}

theorem Sealed.withoutMark (closed : Sealed tail) (front : Text) :
    withoutMark (front ++ tail) = withoutMark front ++ tail := by
  have kept {text : Text} (other : ∀ rest, text ≠ '\ufeff' :: rest) :
      Markup.withoutMark text = text := by
    unfold Markup.withoutMark
    split
    · exact absurd rfl (other _)
    · rfl
  by_cases mark : ∃ rest, front = '\ufeff' :: rest
  · obtain ⟨rest, rfl⟩ := mark
    rfl
  · have other : ∀ rest, front ≠ '\ufeff' :: rest := fun rest same => mark ⟨rest, same⟩
    rw [kept other, kept (closed.other (by decide) other)]

/-- A text that breaks off does so behind its declaration. -/
theorem topLevel_of_parse_error (broken : parse options front = .error error)
    (breaks : error.fault.breaksOff = true) :
    ∃ declared failure, optionalDeclaration front = .ok declared ∧
      topLevel options {} (skipBlanks declared.rest).rest = .error failure ∧
        failure.fault = error.fault := by
  unfold parse at broken
  dsimp only at broken
  split at broken
  · rename_i failure outcome
    cases broken
    obtain ⟨declared, start, outcome⟩ :=
      ((optionalDeclaration_settled front).withLedger _).further outcome breaks
    refine ⟨declared, failure, mapError_ok start, ?_, rfl⟩
    rcases bind_error outcome with stuck | ⟨progress, -, outcome⟩
    · exact stuck
    · cases outcome
  · cases broken

theorem parseText_continues (closed : Sealed tail) (closed' : Sealed tail')
    (broken : parseText options front = .error error) (breaks : error.fault.breaksOff = true)
    (replaces : ∀ table : EntityTable, table.Plain →
      (∀ name, table.find? name = (documentEntities? (withoutMark front)).bind (·.lookup name)) →
        Setting.Replaces ⟨options, table⟩ less more tail tail' error.fault)
    {reading : Reading} (read : parseText options (front ++ tail) = .ok reading)
    (room : reading.expansions + more ≤ options.maxExpansions + less) :
    ∃ reading', parseText options (front ++ tail') = .ok reading' ∧
      reading'.document = reading.document ∧
        reading'.expansions + less = reading.expansions + more := by
  rw [parseText_eq] at broken
  rw [parseText_eq, closed.withoutMark] at read
  rw [parseText_eq, closed'.withoutMark]
  obtain ⟨declared, failure, start, broken, same⟩ := topLevel_of_parse_error broken breaks
  obtain ⟨declared', progress, start', top, rfl⟩ := parse_eq_ok_iff.mp read
  rw [optionalDeclaration_on closed start] at start'
  cases start'
  rw [← same] at breaks replaces
  dsimp only [Read.on] at top
  rw [skipBlanks_on closed, Read.on] at top
  obtain ⟨after, top', shifted⟩ := topLevel_continues closed closed' replaces EntityTable.plain_nil
    (.start start) ⟨Nat.zero_le _, rfl, rfl⟩ broken breaks top room
  refine ⟨Progress.reading { progress with ledger := after } declared.value _,
    parse_eq_ok_iff.mpr ⟨_, _, optionalDeclaration_on closed' start, ?_, rfl⟩, rfl, shifted⟩
  dsimp only [Read.on]
  rw [skipBlanks_on closed', Read.on]
  exact top'

end Texts

end XmlSelect.Markup
