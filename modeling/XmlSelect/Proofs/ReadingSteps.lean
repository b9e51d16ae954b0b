import Mathlib.Logic.Relation
import XmlSelect.Markup.Parse

/-! Reading a document, step by step. What one step can do to the open elements, or to what has been
read at the top, is said here once; what all documents have in common is then what every step
preserves. -/
namespace XmlSelect.Markup

open Relation (ReflTransGen)

/-- What every step preserves holds at the end if it holds at the start. -/
theorem preserved {σ : Type} {step : σ → σ → Prop} {holds : σ → Prop} {first last : σ}
    (steps : ReflTransGen step first last)
    (preserves : ∀ before after, step before after → holds before → holds after)
    (start : holds first) : holds last := by
  induction steps with
  | refl => exact start
  | tail _ next ih => exact preserves _ _ next ih

/-- What no step brings about held at the start if it holds at the end. -/
theorem preserved_back {σ : Type} {step : σ → σ → Prop} {holds : σ → Prop} {first last : σ}
    (steps : ReflTransGen step first last)
    (preserves : ∀ before after, step before after → holds after → holds before)
    (reached : holds last) : holds first := by
  induction steps using ReflTransGen.head_induction_on with
  | refl => exact reached
  | head next _ ih => exact preserves _ _ next ih

/-- How far the content of elements has been read: the innermost open element, those around it, and
the text since the last markup, last character first. -/
structure ContentState where
  inner : OpenElement
  outer : List OpenElement
  pending : Text

namespace ContentState

/-- The innermost element when the text since the last markup is over. -/
def settled (state : ContentState) : OpenElement := state.inner.addText state.pending

end ContentState

/-- One step in the content of elements, somewhere in the text `whole`. -/
inductive ContentStep (setting : Setting) (whole : Text) : ContentState → ContentState → Prop
  | close {state : ContentState} {parent : OpenElement} {around : List OpenElement}
      (outer : state.outer = parent :: around) :
      ContentStep setting whole state ⟨parent.addElement state.settled, around, []⟩
  | leaf {state : ContentState} {source : Text} {leaf : Read source Leaf}
      (here : source <:+ whole) (found : contentLeaf? source = some (.ok leaf)) :
      ContentStep setting whole state ⟨state.settled.addLeaf leaf.value, state.outer, []⟩
  | closed {state : ContentState} {ledger : Ledger} {source : Text}
      {tag : Read source (StartTag × Ledger)}
      (found : startTag setting (state.outer.length + 1) ledger source = .ok tag)
      (closed : tag.value.1.closed = true) :
      ContentStep setting whole state
        ⟨state.settled.addElement (.ofTag tag.value.1), state.outer, []⟩
  | opened {state : ContentState} {ledger : Ledger} {source : Text}
      {tag : Read source (StartTag × Ledger)}
      (found : startTag setting (state.outer.length + 1) ledger source = .ok tag)
      (opened : tag.value.1.closed = false) :
      ContentStep setting whole state ⟨.ofTag tag.value.1, state.settled :: state.outer, []⟩
  | reference {state : ContentState} {ledger : Ledger} {source : Text}
      {value : Read source (Text × Ledger)}
      (found : reference setting .content ledger source = .ok value) :
      ContentStep setting whole state
        { state with pending := value.value.1.reverse ++ state.pending }
  | character {state : ContentState} {first : Char} {others : Text} {next : Read others Char}
      (found : nextChar first others = .ok next) :
      ContentStep setting whole state { state with pending := next.value :: state.pending }

/-- Content that was read was read in steps, and at the end of them one element was open. -/
theorem content_steps {setting : Setting} {whole : Text} {inner : OpenElement}
    {outer : List OpenElement} {pending : Text} {ledger : Ledger} {source : Text}
    {within : source <:+ whole} {result : Read whole (OpenElement × Ledger)}
    (read : content setting whole inner outer pending ledger source within = .ok result) :
    ∃ last : ContentState,
      ReflTransGen (ContentStep setting whole) ⟨inner, outer, pending⟩ last ∧
        last.outer = [] ∧ result.value.1 = last.settled := by
  fun_induction content with
  | case1 => cases read
  | case2 =>
    rename_i ih
    obtain ⟨closed, -, read⟩ := bind_ok read
    dsimp only at read
    split at read
    · cases read
      exact ⟨_, .refl, rfl, rfl⟩
    · obtain ⟨last, further, reached⟩ := ih _ closed.suffix _ _ read
      exact ⟨last, .head (.close rfl) further, reached⟩
  | case3 =>
    rename_i found here ih
    obtain ⟨leaf, taken, read⟩ := bind_ok read
    obtain ⟨last, further, reached⟩ := ih _ _ leaf.suffix read
    rw [mapError_ok taken] at found
    exact ⟨last, .head (.leaf ((List.suffix_cons _ _).trans here) found) further, reached⟩
  | case4 =>
    rename_i closed opened
    obtain ⟨tag, tagged, read⟩ := bind_ok read
    dsimp only at read
    split at read
    · rename_i ended
      obtain ⟨last, further, reached⟩ := closed _ _ _ tag.suffix read
      exact ⟨last, .head (.closed tagged ended) further, reached⟩
    · rename_i ended
      obtain ⟨last, further, reached⟩ := opened _ _ _ tag.suffix read
      exact ⟨last, .head (.opened tagged (by simpa using ended)) further, reached⟩
  | case5 =>
    rename_i ih
    obtain ⟨value, referred, read⟩ := bind_ok read
    obtain ⟨last, further, reached⟩ := ih _ _ _ value.suffix read
    exact ⟨last, .head (.reference referred) further, reached⟩
  | case6 => cases read
  | case7 =>
    rename_i ih
    obtain ⟨next, taken, read⟩ := bind_ok read
    obtain ⟨last, further, reached⟩ := ih _ _ next.suffix read
    exact ⟨last, .head (.character (mapError_ok taken)) further, reached⟩

/-- The element at the top has a start tag, and if that does not end it, content. -/
theorem rootElement_steps {setting : Setting} {ledger : Ledger} {source : Text}
    {result : Read source (OpenElement × Ledger)}
    (read : rootElement setting ledger source = .ok result) :
    ∃ tag : Read source (StartTag × Ledger), startTag setting 0 ledger source = .ok tag ∧
      (result.value.1 = .ofTag tag.value.1 ∨ ∃ last : ContentState,
        ReflTransGen (ContentStep setting source) ⟨.ofTag tag.value.1, [], []⟩ last ∧
          last.outer = [] ∧ result.value.1 = last.settled) := by
  obtain ⟨tag, tagged, read⟩ := bind_ok read
  refine ⟨tag, tagged, ?_⟩
  dsimp only at read
  split at read
  · cases read
    exact .inl rfl
  · exact .inr (content_steps read)

/-- One step at the top of a document, somewhere in the text `whole`. -/
inductive TopStep (options : Options) (whole : Text) : Progress → Progress → Prop
  | leaf {progress : Progress} {source : Text} {leaf : Read source Leaf} (here : source <:+ whole)
      (found : commentOrInstruction? source = some (.ok leaf)) :
      TopStep options whole progress
        { progress with before := .leaf leaf.value progress.before }
  | doctype {progress : Progress} {source : Text} {declared : Read source Doctype}
      (first : progress.seenDoctype = false) (above : progress.seenRoot = false)
      (found : doctype progress.ledger source = .ok declared) :
      TopStep options whole progress
        { progress with
          before := .leaf declared.value.leaf progress.before, table := declared.value.table
          seenDoctype := true, ledger := declared.value.ledger }
  | root {progress : Progress} {source : Text} {element : Read source (OpenElement × Ledger)}
      (here : source <:+ whole) (first : progress.seenRoot = false)
      (found : rootElement ⟨options, progress.table⟩ progress.ledger source = .ok element) :
      TopStep options whole progress
        { progress with
          before := .element element.value.1.name element.value.1.attributes
            element.value.1.before.reverse progress.before
          seenRoot := true, ledger := element.value.2 }

/-- A document that was read was read in steps, and one of them read the element at its top. -/
theorem topLevel_steps {options : Options} {progress result : Progress} {source whole : Text}
    (read : topLevel options progress source = .ok result) (within : source <:+ whole) :
    ReflTransGen (TopStep options whole) progress result ∧ result.seenRoot = true := by
  fun_induction topLevel with
  | case1 =>
    rename_i seen
    cases read
    exact ⟨.refl, seen⟩
  | case2 => cases read
  | case3 =>
    rename_i found ih
    obtain ⟨leaf, taken, read⟩ := bind_ok read
    have behind := (List.suffix_cons _ _).trans within
    rw [mapError_ok taken] at found
    have ⟨further, seen⟩ := ih _ _ leaf.suffix _ (List.dropWhile_suffix _) read
      (((List.dropWhile_suffix _).trans leaf.suffix).trans behind)
    exact ⟨.head (.leaf behind found) further, seen⟩
  | case4 => cases read
  | case5 =>
    rename_i word _ _ misplaced ih
    obtain ⟨declared, found, read⟩ := bind_ok read
    have ⟨further, seen⟩ := ih _ _ declared.suffix _ (List.dropWhile_suffix _) read
      ((((List.dropWhile_suffix _).trans declared.suffix).trans word).trans
        ((List.suffix_cons _ _).trans within))
    rw [Bool.or_eq_true, not_or, Bool.not_eq_true, Bool.not_eq_true] at misplaced
    exact ⟨.head (.doctype misplaced.1 misplaced.2 found) further, seen⟩
  | case6 => cases read
  | case7 =>
    rename_i unseen ih
    obtain ⟨element, found, read⟩ := bind_ok read
    have behind := (List.suffix_cons _ _).trans within
    have ⟨further, seen⟩ := ih _ _ _ element.suffix _ (List.dropWhile_suffix _) read
      (((List.dropWhile_suffix _).trans element.suffix).trans behind)
    exact ⟨.head (.root behind (by simpa using unseen) found) further, seen⟩
  | case8 => cases read

/-- The document that has been put together, and what happened on the way. -/
def Progress.reading (progress : Progress) (declared : Option Declaration) (source : Text) :
    Reading :=
  ⟨.ofForest declared progress.before.reverse, progress.ledger.diagnostics source,
    progress.ledger.requests, progress.ledger.expansions⟩

theorem parse_eq_ok_iff {options : Options} {source : Text} {reading : Reading} :
    parse options source = .ok reading ↔
      ∃ (declared : Read source (Option Declaration)) (progress : Progress),
        optionalDeclaration source = .ok declared ∧
          topLevel options {} (skipBlanks declared.rest).rest = .ok progress ∧
            progress.reading declared.value source = reading := by
  unfold parse
  constructor
  · intro read
    dsimp only at read
    split at read
    · cases read
    · rename_i outcome
      obtain ⟨declared, start, outcome⟩ := bind_ok outcome
      obtain ⟨progress, top, outcome⟩ := bind_ok outcome
      cases outcome
      cases read
      exact ⟨declared, _, mapError_ok start, top, rfl⟩
  · rintro ⟨declared, progress, start, top, rfl⟩
    rw [start, withLedger_ok, ok_bind]
    dsimp only
    rw [top]
    rfl

/-- A document that was read has what its steps have put together. -/
theorem parse_steps {options : Options} {source : Text} {reading : Reading}
    (read : parse options source = .ok reading) :
    ∃ progress, ReflTransGen (TopStep options source) {} progress ∧ progress.seenRoot = true ∧
      reading.document.content = progress.before.reverse := by
  obtain ⟨declared, _, -, top, rfl⟩ := parse_eq_ok_iff.mp read
  have ⟨steps, seen⟩ := topLevel_steps top ((List.dropWhile_suffix _).trans declared.suffix)
  exact ⟨_, steps, seen, rfl⟩

/-- The text behind a byte order mark, if there is one. -/
def withoutMark (source : Text) : Text :=
  match source with
  | '\ufeff' :: rest => rest
  | source => source

theorem withoutMark_suffix (source : Text) : withoutMark source <:+ source := by
  unfold withoutMark
  split
  · exact List.suffix_cons _ _
  · exact List.suffix_refl _

theorem parseText_eq (options : Options) (source : Text) :
    parseText options source = parse options (withoutMark source) := by
  unfold parseText
  split
  · rfl
  · rename_i other
    unfold withoutMark
    split
    · exact absurd rfl (other _)
    · rfl

end XmlSelect.Markup
