import XmlSelect.Machine.Parse
import XmlSelect.Proofs.MarkupText

/-! The primitives of the machine against the readers of the rest of a text. At every step the
counters of the cursor are those of the place at which the rest begins. -/
namespace XmlSelect

namespace Text

theorem byteLength_cons_pos (c : Char) (text : Text) : 0 < byteLength (c :: text) :=
  Nat.lt_of_lt_of_le c.utf8Size_pos (Nat.le_add_right _ _)

theorem dropBytes_append (front back : Text) :
    dropBytes (byteLength front) (front ++ back) = back := by
  induction front with
  | nil => rw [byteLength, List.nil_append, dropBytes]
  | cons c front ih =>
    obtain ⟨offset, size⟩ := Nat.exists_eq_succ_of_ne_zero
      (Nat.ne_of_gt (byteLength_cons_pos c front))
    rw [size, List.cons_append, dropBytes, ← Nat.succ_eq_add_one, ← size, byteLength_cons,
      Nat.add_sub_cancel_left, ih]

theorem takeBytes_append (front back : Text) :
    takeBytes (byteLength front) (front ++ back) = front := by
  induction front with
  | nil => rw [byteLength, List.nil_append, takeBytes]
  | cons c front ih =>
    obtain ⟨offset, size⟩ := Nat.exists_eq_succ_of_ne_zero
      (Nat.ne_of_gt (byteLength_cons_pos c front))
    rw [size, List.cons_append, takeBytes, ← Nat.succ_eq_add_one, ← size, byteLength_cons,
      Nat.add_sub_cancel_left, ih]

end Text

namespace Machine

open Markup

/-- The cursor at the rest of a text. -/
def Cursor.at (source rest : Text) : Cursor :=
  let place := Location.ofRest source rest
  ⟨source, place.offset, place.line, place.column⟩

namespace Cursor

variable {source rest : Text}

theorem place_at (source rest : Text) : (Cursor.at source rest).place = .ofRest source rest := rfl

theorem rest_at (within : rest <:+ source) : (Cursor.at source rest).rest = rest := by
  obtain ⟨before, rfl⟩ := within
  rw [Cursor.rest, Cursor.at, Location.ofRest_append, Location.offset_after]
  exact Text.dropBytes_append before rest

theorem atEnd_at (within : rest <:+ source) : (Cursor.at source rest).atEnd = rest.isEmpty := by
  obtain ⟨before, rfl⟩ := within
  rw [Cursor.atEnd, Cursor.at, Location.ofRest_append, Location.offset_after,
    Text.byteLength_append]
  cases rest with
  | nil => simp
  | cons c rest =>
    have some := Text.byteLength_cons_pos c rest
    simp only [List.isEmpty_cons, decide_eq_false_iff_not]
    omega

/-- Passing over a character moves all three counters to the next place. -/
theorem advance_at {c : Char} (within : c :: rest <:+ source) :
    (Cursor.at source (c :: rest)).advance c = Cursor.at source rest := by
  obtain ⟨before, rfl⟩ := within
  have next : Location.ofRest (before ++ c :: rest) rest = (Location.after before).advance c := by
    rw [List.append_cons, Location.ofRest_append, Location.after_append]
  rw [Cursor.at, Cursor.at, next, Location.ofRest_append, Cursor.advance, Location.advance]
  split <;> rfl

/-- The offset grows by the size of what is passed over. -/
theorem offset_at_append {front : Text} (within : front ++ rest <:+ source) :
    (Cursor.at source rest).offset =
      (Cursor.at source (front ++ rest)).offset + Text.byteLength front := by
  obtain ⟨before, rfl⟩ := within
  have there : Location.ofRest (before ++ (front ++ rest)) rest =
      Location.after (before ++ front) := by
    rw [← List.append_assoc, Location.ofRest_append]
  rw [Cursor.at, Cursor.at, there, Location.ofRest_append]
  simp only [Location.offset_after, Text.byteLength_append]

/-- What stands between two places is what was passed over. -/
theorem since_at {front : Text} (within : front ++ rest <:+ source) :
    (Cursor.at source rest).since (Cursor.at source (front ++ rest)).offset = front := by
  have start := rest_at within
  rw [Cursor.rest] at start
  rw [Cursor.since, offset_at_append within, Nat.add_sub_cancel_left]
  exact (congrArg _ start).trans (Text.takeBytes_append front rest)

end Cursor

/-- The state in which a reader is at the rest of a text, with what its ledger says. -/
def State.at (state : State) (source rest : Text) (ledger : Ledger) : State :=
  { state with
    cursor := .at source rest
    expansions := ledger.expansions
    diagnostics := ledger.diagnostics source
    requests := ledger.requests }

/-- What an outcome of a reader is for the machine; `leave` is the value and the state that it leaves
behind. -/
def answer {α β : Type} (source : Text) (leave : β → α × State) :
    Except Failure β → Option (Except ParseError (α × State))
  | .error failure => some (.error ⟨failure.fault, .ofRest source failure.rest,
      failure.ledger.diagnostics source, failure.ledger.requests⟩)
  | .ok result => some (.ok (leave result))

section Runs

variable {α β γ : Type} {source rest : Text} {state after : State} {ledger : Ledger}

@[simp] theorem run_pure (value : α) (state : State) :
    run (pure value) state = some (.ok (value, state)) := rfl

theorem run_bind (parser : Parser α) (next : α → Parser β) (state : State) :
    run (parser >>= next) state = match run parser state with
      | none => none
      | some (.error error) => some (.error error)
      | some (.ok (value, after)) => run (next value) after := by
  unfold run
  rw [StateT.run_bind, ExceptT.run_bind]
  cases (parser.run state).run with
  | none => rfl
  | some outcome => cases outcome <;> rfl

theorem run_bind_of_ok {parser : Parser α} {next : α → Parser β} {value : α}
    (first : run parser state = some (.ok (value, after))) :
    run (parser >>= next) state = run (next value) after := by
  rw [run_bind, first]

@[simp] theorem run_get_bind (next : State → Parser α) (state : State) :
    run (get >>= next) state = run (next state) state := rfl

@[simp] theorem run_modify (change : State → State) (state : State) :
    run (modify change) state = some (.ok ((), change state)) := rfl

@[simp] theorem run_modify_bind (change : State → State) (next : Unit → Parser α)
    (state : State) : run (modify change >>= next) state = run (next ()) (change state) := rfl

theorem run_fatal (fault : Fault) (leave : β → α × State) :
    run (fatal fault) (state.at source rest ledger) =
      answer source leave (.error ⟨fault, rest, ledger⟩) := rfl

theorem run_warn (warning : Warning) :
    run (warn warning) (state.at source rest ledger) =
      some (.ok ((), state.at source rest (ledger.warn warning rest))) := by
  have more : (ledger.warn warning rest).diagnostics source =
      ledger.diagnostics source ++ [⟨warning, .ofRest source rest⟩] := List.map_append
  rw [warn, run_modify, State.at, State.at, more]
  rfl

/-- The machine goes on where a reader does. -/
theorem run_bind_answer {parser : Parser α} {next : α → Parser γ} {leave : β → α × State}
    {outcome : Except Failure β} {δ : Type} {leave' : δ → γ × State}
    {further : β → Except Failure δ} (first : run parser state = answer source leave outcome)
    (step : ∀ result, outcome = .ok result →
      run (next (leave result).1) (leave result).2 = answer source leave' (further result)) :
    run (parser >>= next) state = answer source leave' (outcome >>= further) := by
  rw [run_bind, first]
  cases outcome with
  | error failure => rfl
  | ok result => exact step result rfl

/-- What the machine does behind a reader does not count for the reader. -/
theorem run_bind_answer_ok {parser : Parser α} {next : α → Parser γ} {leave : β → α × State}
    {leave' : β → γ × State} {outcome : Except Failure β}
    (first : run parser state = answer source leave outcome)
    (last : ∀ result, outcome = .ok result →
      run (next (leave result).1) (leave result).2 = some (.ok (leave' result))) :
    run (parser >>= next) state = answer source leave' outcome := by
  rw [← bind_pure outcome]
  exact run_bind_answer first last

end Runs

section Rounds

variable {rounds : Nat} {c : Char} {rest later blanks : Text}

theorem exists_rounds (enough : rest.length < rounds) : ∃ further, rounds = further + 1 :=
  Nat.exists_eq_succ_of_ne_zero (Nat.ne_zero_of_lt enough)

theorem rounds_dropWhile (enough : blanks.length < rounds)
    (behind : blanks.dropWhile isBlank = rest) : rest.length < rounds :=
  Nat.lt_of_le_of_lt (behind ▸ (List.dropWhile_suffix isBlank).length_le) enough

/-- Behind a character there are rounds enough for what is left of the text. -/
theorem rounds_behind (enough : (c :: rest).length < rounds + 1) (further : later <:+ rest) :
    ∃ left, rounds = left + 1 ∧ later.length < left + 1 := by
  have less : later.length < rounds :=
    Nat.lt_of_le_of_lt further.length_le (Nat.lt_of_succ_lt_succ enough)
  obtain ⟨left, rfl⟩ := exists_rounds less
  exact ⟨left, rfl, less⟩

end Rounds

section Primitives

variable {α : Type} {source rest : Text} {state : State} {ledger : Ledger}

theorem run_rounds_bind (within : rest <:+ source) (next : Nat → Parser α) :
    run (rounds >>= next) (state.at source rest ledger) =
      run (next (rest.length + 1)) (state.at source rest ledger) :=
  congrArg (fun rest : Text => run (next (rest.length + 1)) _) (Cursor.rest_at within)

theorem run_peek?_bind (within : rest <:+ source) (next : Option Char → Parser α) :
    run (peek? >>= next) (state.at source rest ledger) =
      run (next rest.head?) (state.at source rest ledger) :=
  congrArg (fun rest : Text => run (next rest.head?) _) (Cursor.rest_at within)

theorem run_atEnd_bind (within : rest <:+ source) (next : Bool → Parser α) :
    run (atEnd >>= next) (state.at source rest ledger) =
      run (next rest.isEmpty) (state.at source rest ledger) :=
  congrArg (fun ends => run (next ends) _) (Cursor.atEnd_at within)

theorem isPrefixOf_eq_isSome (wanted rest : Text) :
    wanted.isPrefixOf rest = (take? wanted rest).isSome := by
  cases found : take? wanted rest with
  | some read => simp [take?_eq_some found]
  | none =>
    rw [Option.isSome_none, Bool.eq_false_iff, Ne, List.isPrefixOf_iff_prefix]
    rintro ⟨after, rfl⟩
    rw [take?_append] at found
    cases found

theorem take?_cons (c : Char) (wanted rest : Text) :
    take? (c :: wanted) (c :: rest) =
      (take? wanted rest).map (·.within (List.suffix_cons c rest)) := by
  cases found : take? wanted rest with
  | some read =>
    obtain ⟨value, after, suffix⟩ := read
    have split : rest = wanted ++ after := take?_eq_some found
    subst split
    exact take?_append (c :: wanted) after
  | none =>
    refine take?_of_ne_append fun after same => ?_
    have split : rest = wanted ++ after := (List.cons.inj same).2
    rw [split, take?_append] at found
    cases found

theorem take?_cons_of_ne {c d : Char} (other : c ≠ d) (wanted rest : Text) :
    take? (d :: wanted) (c :: rest) = none :=
  take?_of_ne_append fun _ same => other (List.cons.inj same).1

theorem isSome_take?_cons (c : Char) (wanted rest : Text) :
    (take? (c :: wanted) (c :: rest)).isSome = (take? wanted rest).isSome := by
  rw [take?_cons, Option.isSome_map]

theorem run_lookingAt_bind (within : rest <:+ source) (wanted : Text) (next : Bool → Parser α) :
    run (lookingAt wanted >>= next) (state.at source rest ledger) =
      run (next (take? wanted rest).isSome) (state.at source rest ledger) := by
  have here : (state.at source rest ledger).cursor.rest = rest := Cursor.rest_at within
  rw [lookingAt, bind_assoc, run_get_bind, here, pure_bind, isPrefixOf_eq_isSome]

theorem run_advance {c : Char} (within : c :: rest <:+ source) :
    run (advance c) (state.at source (c :: rest) ledger) =
      some (.ok ((), state.at source rest ledger)) := by
  rw [advance, run_modify, State.at]
  dsimp only
  rw [Cursor.advance_at within]
  rfl

theorem run_advanceOver {text : Text} (within : text ++ rest <:+ source) :
    run (advanceOver text) (state.at source (text ++ rest) ledger) =
      some (.ok ((), state.at source rest ledger)) := by
  induction text with
  | nil => rfl
  | cons c text ih =>
    have inner : c :: (text ++ rest) <:+ source := within
    show run (advance c >>= fun _ => advanceOver text) (state.at source (c :: (text ++ rest)) _) = _
    rw [run_bind_of_ok (run_advance inner)]
    exact ih ((List.suffix_cons _ _).trans inner)

theorem run_lookingAt_mark_bind {c : Char} (within : c :: rest <:+ source) (mark : Char)
    (next : Bool → Parser α) :
    run (lookingAt [mark] >>= next) (state.at source (c :: rest) ledger) =
      run (next (c == mark)) (state.at source (c :: rest) ledger) := by
  rw [run_lookingAt_bind within, ← isPrefixOf_eq_isSome, BEq.comm]
  simp [List.isPrefixOf]

/-- A text that is next is passed over, and nothing else is. -/
theorem run_eat_bind (within : rest <:+ source) (wanted : Text) (next : Bool → Parser α) :
    run (eat wanted >>= next) (state.at source rest ledger) =
      match take? wanted rest with
      | some read => run (next true) (state.at source read.rest ledger)
      | none => run (next false) (state.at source rest ledger) := by
  rw [eat, bind_assoc, run_lookingAt_bind within]
  cases found : take? wanted rest with
  | some read =>
    have split := take?_eq_some found
    have whole : wanted ++ read.rest <:+ source := split ▸ within
    have passed : run (advanceOver wanted) (state.at source rest ledger) =
        some (.ok ((), state.at source read.rest ledger)) := by
      have advanced := @run_advanceOver source read.rest state ledger wanted whole
      rwa [← split] at advanced
    rw [Option.isSome_some, if_pos rfl, bind_assoc, run_bind_of_ok passed, pure_bind]
  | none => rw [Option.isSome_none, if_neg Bool.false_ne_true, pure_bind]

theorem run_eat_cons_bind {c : Char} (within : c :: rest <:+ source) (wanted : Text)
    (next : Bool → Parser α) :
    run (eat (c :: wanted) >>= next) (state.at source (c :: rest) ledger) =
      match take? wanted rest with
      | some read => run (next true) (state.at source read.rest ledger)
      | none => run (next false) (state.at source (c :: rest) ledger) := by
  rw [run_eat_bind within, take?_cons]
  cases take? wanted rest <;> rfl

theorem run_eat_here_bind {wanted whole : Text} (split : whole = wanted ++ rest)
    (within : whole <:+ source) (next : Bool → Parser α) :
    run (eat wanted >>= next) (state.at source whole ledger) =
      run (next true) (state.at source rest ledger) := by
  subst split
  rw [run_eat_bind within, take?_append]

theorem run_eat_other_bind {wanted : Text} (within : rest <:+ source)
    (other : ∀ after, rest ≠ wanted ++ after) (next : Bool → Parser α) :
    run (eat wanted >>= next) (state.at source rest ledger) =
      run (next false) (state.at source rest ledger) := by
  rw [run_eat_bind within, take?_of_ne_append other]

theorem run_expect_here_bind {wanted whole : Text} (split : whole = wanted ++ rest)
    (within : whole <:+ source) (next : Unit → Parser α) :
    run (expect wanted >>= next) (state.at source whole ledger) =
      run (next ()) (state.at source rest ledger) := by
  rw [expect, bind_assoc, run_eat_here_bind split within]
  rfl

theorem run_skipWhile (within : rest <:+ source) (drop : Char → Bool) :
    run (skipWhile drop) (state.at source rest ledger) =
      some (.ok ((), state.at source (rest.dropWhile drop) ledger)) := by
  have here : (state.at source rest ledger).cursor.rest = rest := Cursor.rest_at within
  have whole := List.takeWhile_append_dropWhile (p := drop) (l := rest)
  have passed := @run_advanceOver source (rest.dropWhile drop) state ledger (rest.takeWhile drop)
    (whole.symm ▸ within)
  rw [whole] at passed
  rw [skipWhile, run_get_bind, here, passed]

theorem run_skipBlanks_bind (within : rest <:+ source) (next : Bool → Parser α) :
    run (skipBlanks >>= next) (state.at source rest ledger) =
      run (next (rest.head?.any isBlank))
        (state.at source (rest.dropWhile isBlank) ledger) := by
  have whole : rest.takeWhile isBlank ++ rest.dropWhile isBlank <:+ source := by
    rwa [List.takeWhile_append_dropWhile]
  have further := Cursor.offset_at_append whole
  rw [List.takeWhile_append_dropWhile] at further
  have spaced : decide ((Cursor.at source rest).offset <
      (Cursor.at source (rest.dropWhile isBlank)).offset) = rest.head?.any isBlank := by
    rw [further]
    cases rest with
    | nil => simp
    | cons c rest =>
      cases blank : isBlank c with
      | false => simp [blank]
      | true =>
        have some := Text.byteLength_cons_pos c (rest.takeWhile isBlank)
        simpa [blank] using some
  rw [skipBlanks, bind_assoc, run_get_bind, bind_assoc, run_bind_of_ok (run_skipWhile within _),
    bind_assoc, run_get_bind, pure_bind, ← spaced]
  rfl

end Primitives

end Machine

end XmlSelect
