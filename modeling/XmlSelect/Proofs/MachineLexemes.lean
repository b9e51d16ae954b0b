import XmlSelect.Proofs.MachineSteps

/-! Names, literals and character references: the machine reads them as the readers of the rest of a
text do, from every state, and reports what is wrong with them at the same places. -/
namespace XmlSelect.Machine

open Markup

/-- A step of the machine does at the rest of a text what a reader does. -/
def Reads {α : Type} {whole : Text} (source : Text) (parser : Parser α) (rest : Text)
    (outcome : Except Stop (Read whole α)) : Prop :=
  ∀ (state : State) (ledger : Ledger), run parser (state.at source rest ledger) =
    answer source (fun read => (read.value, state.at source read.rest ledger))
      (withLedger ledger outcome)

section Outcomes

variable {α β γ δ : Type} {source rest whole whole' : Text} {parser : Parser α}
  {outcome : Except Stop (Read whole α)}

theorem withLedger_bind (ledger : Ledger) (first : Except Stop α) (next : α → Except Stop β) :
    withLedger ledger (first >>= next) =
      withLedger ledger first >>= fun result => withLedger ledger (next result) := by
  cases first <;> rfl

theorem reads_fatal (fault : Fault) :
    Reads source (fatal fault) rest (.error ⟨fault, rest⟩ : Except Stop (Read whole α)) :=
  fun _ _ => rfl

theorem reads_pure (value : α) (suffix : rest <:+ whole) :
    Reads source (pure value) rest (.ok ⟨value, rest, suffix⟩) :=
  fun _ _ => rfl

theorem Reads.map (reads : Reads source parser rest outcome) (suffix : whole <:+ whole') :
    Reads source parser rest (outcome.map (·.within suffix)) := by
  intro state ledger
  rw [reads]
  cases outcome <;> rfl

theorem Reads.bind {next : α → Parser β} {further : Read whole α → Except Stop (Read whole' β)}
    (first : Reads source parser rest outcome)
    (step : ∀ read, outcome = .ok read → Reads source (next read.value) read.rest (further read)) :
    Reads source (parser >>= next) rest (outcome >>= further) := by
  intro state ledger
  rw [withLedger_bind]
  refine run_bind_answer (first state ledger) fun read found => ?_
  cases outcome with
  | error stop => cases found
  | ok result =>
    cases found
    exact step _ rfl state ledger

/-- What is read in front of more that changes the ledger. -/
theorem Reads.run_bind {state : State} {ledger : Ledger} {next : α → Parser γ}
    {leave : β → γ × State} {further : Read whole α → Except Failure β}
    (first : Reads source parser rest outcome)
    (step : ∀ read, outcome = .ok read →
      run (next read.value) (state.at source read.rest ledger) =
        answer source leave (further read)) :
    run (parser >>= next) (state.at source rest ledger) =
      answer source leave (withLedger ledger outcome >>= further) := by
  refine run_bind_answer (first state ledger) fun read found => ?_
  cases outcome with
  | error stop => cases found
  | ok result =>
    cases found
    exact step _ rfl

end Outcomes

section Lexical

variable {source rest : Text}

theorem expect_reads (within : rest <:+ source) (wanted : Text) :
    Reads source (expect wanted) rest (Markup.expect wanted rest) := by
  intro state ledger
  rw [expect, run_eat_bind within, Markup.expect]
  cases take? wanted rest with
  | some read => rfl
  | none =>
    simp only [Bool.false_eq_true, if_false]
    rw [run_peek?_bind within]
    rfl

theorem skipBlanks_reads (within : rest <:+ source) :
    Reads source skipBlanks rest (.ok (Markup.skipBlanks rest)) := by
  intro state ledger
  rw [← bind_pure skipBlanks, run_skipBlanks_bind within]
  rfl

theorem requireBlank_reads (within : rest <:+ source) :
    Reads source requireBlank rest (Markup.requireBlank rest) := by
  intro state ledger
  rw [requireBlank, run_skipBlanks_bind within, Markup.requireBlank, Markup.skipBlanks, Read.skip]
  dsimp only
  split
  · rfl
  · rename_i unspaced
    -- Without blanks the cursor has stayed where it was.
    have same : rest.dropWhile isBlank = rest := by
      cases rest with
      | nil => rfl
      | cons c rest => exact List.dropWhile_cons_of_neg (by simpa using unspaced)
    rw [same]
    rfl

theorem takeUntil_reads (within : rest <:+ source) (delimiter : Text) (part : Part) :
    Reads source (takeUntil delimiter part) rest (Markup.takeUntil delimiter part rest) := by
  intro state ledger
  have here : (state.at source rest ledger).cursor.rest = rest := Cursor.rest_at within
  rw [takeUntil, run_get_bind, here]
  generalize outcome : Markup.takeUntil delimiter part rest = result
  rw [Markup.takeUntil] at outcome
  split at outcome
  · rename_i absent
    rw [absent, ← outcome]
    rfl
  · rename_i body after found
    rw [found]
    dsimp only
    cases invalid : body.find? (!isXmlChar ·) with
    | some c =>
      rw [invalid] at outcome
      rw [← outcome]
      rfl
    | none =>
      rw [invalid] at outcome
      rw [← outcome]
      have whole := Text.append_of_breakOn? found
      rw [List.append_assoc] at whole
      have start : body ++ (delimiter ++ after) <:+ source := whole ▸ within
      have passed : run (advanceOver body) (state.at source rest ledger) =
          some (.ok ((), state.at source (delimiter ++ after) ledger)) := by
        have advanced := @run_advanceOver source (delimiter ++ after) state ledger body start
        rwa [← whole] at advanced
      dsimp only
      rw [run_bind_of_ok passed,
        run_bind_of_ok (run_advanceOver ((List.suffix_append _ _).trans start))]
      rfl

theorem nextChar_reads {first : Char} {others : Text} (within : first :: others <:+ source) :
    Reads source nextChar (first :: others) (Markup.nextChar first others) := by
  intro state ledger
  have inner := (List.suffix_cons _ _).trans within
  rw [nextChar, run_peek?_bind within]
  simp only [List.head?_cons]
  cases legal : isXmlChar first with
  | false =>
    have bad : Markup.nextChar first others = .error ⟨.invalidChar first, first :: others⟩ := by
      unfold Markup.nextChar
      exact if_pos (by rw [legal]; rfl)
    rw [bad]
    rfl
  | true =>
    rw [if_neg (by simp), run_bind_of_ok (run_advance within)]
    by_cases return_ : first = '\r'
    · rw [if_pos (by simpa using return_), run_peek?_bind inner]
      by_cases lineFeed : ∃ rest, others = '\n' :: rest
      · obtain ⟨rest, rfl⟩ := lineFeed
        subst return_
        rw [if_pos (by simp), run_bind_of_ok (run_advance inner)]
        rfl
      · have other : ∀ rest, others ≠ '\n' :: rest := fun rest same => lineFeed ⟨rest, same⟩
        have last : ¬(others.head? == some '\n') = true := by
          cases others with
          | nil => simp
          | cons c rest =>
            rintro feed
            exact other rest (by simpa using feed)
        rw [if_neg last, nextChar_return return_ other]
        rfl
    · rw [if_neg (by simpa using return_), nextChar_eq legal return_]
      rfl

theorem nameFrom_reads {first : Char} {others : Text} (within : first :: others <:+ source) :
    Reads source name (first :: others) (Markup.nameFrom first others) := by
  intro state ledger
  have inner := (List.suffix_cons _ _).trans within
  rw [name, run_get_bind, run_peek?_bind within]
  simp only [List.head?_cons]
  rw [Markup.nameFrom]
  cases isNameStart first with
  | false => rfl
  | true =>
    have whole : (first :: others.takeWhile isNameChar) ++ others.dropWhile isNameChar =
        first :: others := by
      rw [List.cons_append, List.takeWhile_append_dropWhile]
    have taken := Cursor.since_at (whole ▸ within)
    rw [whole] at taken
    rw [if_neg (by simp), if_pos rfl, run_bind_of_ok (run_advance within),
      run_bind_of_ok (run_skipWhile inner _), run_get_bind]
    exact congrArg (fun value => some (Except.ok (value, _))) taken

theorem name_reads (within : rest <:+ source) : Reads source name rest (Markup.name rest) := by
  cases rest with
  | nil =>
    intro state ledger
    rw [name, run_get_bind, run_peek?_bind within]
    rfl
  | cons first others => exact (nameFrom_reads within).map _

theorem quotedFrom_reads {quote : Char} (within : quote :: rest <:+ source)
    (opens : isQuote quote = true) :
    Reads source quoted (quote :: rest) (Markup.takeUntil [quote] .literal rest) := by
  intro state ledger
  have passed := @run_advanceOver source rest state ledger [quote] within
  rw [List.singleton_append] at passed
  rw [quoted, run_peek?_bind within]
  simp only [List.head?_cons, opens, if_true]
  rw [run_bind_of_ok passed]
  exact takeUntil_reads ((List.suffix_cons _ _).trans within) _ _ state ledger

theorem quoted_reads (within : rest <:+ source) : Reads source quoted rest (Markup.quoted rest) := by
  cases rest with
  | nil =>
    intro state ledger
    rw [quoted, run_peek?_bind within]
    rfl
  | cons quote rest =>
    rw [Markup.quoted]
    split
    · rename_i opens
      exact (quotedFrom_reads within opens).map _
    · rename_i other
      intro state ledger
      rw [quoted, run_peek?_bind within]
      simp only [List.head?_cons, other]
      rfl

theorem pointReference_reads (within : rest <:+ source) (base : Nat) (isDigit : Char → Bool) :
    Reads source (pointReference base isDigit) rest (Markup.pointReference base isDigit rest) := by
  intro state ledger
  have inner : rest.dropWhile isDigit <:+ source := (List.dropWhile_suffix _).trans within
  have taken : run (takeWhile isDigit) (state.at source rest ledger) =
      some (.ok (rest.takeWhile isDigit, state.at source (rest.dropWhile isDigit) ledger)) := by
    have whole := List.takeWhile_append_dropWhile (p := isDigit) (l := rest)
    have since := Cursor.since_at (whole.symm ▸ within)
    rw [whole] at since
    rw [takeWhile, run_get_bind, run_bind_of_ok (run_skipWhile within _), run_get_bind, run_pure]
    exact congrArg (fun value => some (Except.ok (value, _))) since
  rw [pointReference, run_bind_of_ok taken, Markup.pointReference]
  split
  · rfl
  · refine (expect_reads inner _).bind (fun semicolon _ => ?_) state ledger
    dsimp only
    split
    · exact reads_fatal _
    · cases charOfPoint? (pointOfDigits base (rest.takeWhile isDigit)) with
      | none => exact reads_fatal _
      | some c => exact reads_pure _ _

theorem charReference_reads (within : rest <:+ source) :
    Reads source charReference rest (Markup.charReference rest) := by
  intro state ledger
  rw [charReference, run_eat_bind within]
  by_cases hexadecimal : ∃ digits, rest = 'x' :: digits
  · obtain ⟨digits, rfl⟩ := hexadecimal
    exact (pointReference_reads ((List.suffix_cons _ _).trans within) _ _).map _ state ledger
  · have absent : take? ['x'] rest = none :=
      take?_of_ne_append fun digits same => hexadecimal ⟨digits, same⟩
    have decimal : Markup.charReference rest = Markup.pointReference 10 Char.isDigit rest := by
      unfold Markup.charReference
      split
      · exact absurd ⟨_, rfl⟩ hexadecimal
      · rfl
    rw [absent, decimal]
    exact pointReference_reads within _ _ state ledger

end Lexical

end XmlSelect.Machine
