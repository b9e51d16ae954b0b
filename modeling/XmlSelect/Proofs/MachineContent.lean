import Mathlib.Data.List.Forall2
import XmlSelect.Proofs.MachineTags

/-! The content of elements. The machine goes down into an element and comes back to the one around
it, where the reader keeps a stack of the open elements. The arena holds what the stack holds. -/
namespace XmlSelect.Machine

open Markup

/-- A node of an arena behind whose children others are put. -/
structure Site where
  arena : Arena
  self : Nat

/-- The innermost of some open elements, in the arena that holds them all; `start` is the node behind
whose children the outermost one was put. -/
def Site.inside (start : Site) : List OpenElement → Site
  | [] => start
  | inner :: outer =>
    let around := start.inside outer
    ⟨(around.arena.appendElement around.self inner.name inner.attributes).appendForest
      around.arena.next inner.content, around.arena.next⟩

namespace Site

variable {start : Site} {inner around : OpenElement} {outer : List OpenElement}

@[simp] theorem inside_addLeaf (leaf : Leaf) :
    start.inside (inner.addLeaf leaf :: outer) =
      ⟨(start.inside (inner :: outer)).arena.appendNew (start.inside (inner :: outer)).self
        (.leaf leaf), (start.inside (inner :: outer)).self⟩ := by
  rw [inside, OpenElement.content_addLeaf, Arena.appendForest_append]
  rfl

/-- Closing an element changes no node. -/
@[simp] theorem inside_addElement :
    start.inside (around.addElement inner :: outer) =
      ⟨(start.inside (inner :: around :: outer)).arena, (start.inside (around :: outer)).self⟩ := by
  rw [inside, OpenElement.content_addElement, Arena.appendForest_append]
  rfl

end Site

variable {source rest whole : Text} {state : State} {ledger : Ledger} {setting : Setting}
  {parent : Nat} {inner around : OpenElement} {outer : List OpenElement}

namespace State

/-- The state in which some elements are open behind the children of a node. -/
def among (state : State) (parent : Nat) (stack : List OpenElement) : State :=
  { state with
    depth := state.depth + stack.length
    arena := (Site.inside ⟨state.arena, parent⟩ stack).arena }

/-- The number of the innermost of the open elements. -/
def innermost (state : State) (parent : Nat) (stack : List OpenElement) : Nat :=
  (Site.inside ⟨state.arena, parent⟩ stack).self

theorem among_addLeaf (leaf : Leaf) :
    state.among parent (inner.addLeaf leaf :: outer) =
      (state.among parent (inner :: outer)).holding
        ((state.among parent (inner :: outer)).arena.appendNew
          (state.innermost parent (inner :: outer)) (.leaf leaf)) := by
  rw [among, Site.inside_addLeaf]
  rfl

theorem among_addElement :
    state.among parent (around.addElement inner :: outer) =
      { state.among parent (inner :: around :: outer) with
        depth := (state.among parent (inner :: around :: outer)).depth - 1 } := by
  rw [among, Site.inside_addElement]
  rfl

end State

section Steps

theorem run_flushText (pending : Text) :
    run (flushText (state.innermost parent (inner :: outer)) pending.reverse)
        ((state.among parent (inner :: outer)).at source rest ledger) =
      some (.ok ((),
        (state.among parent (inner.addText pending :: outer)).at source rest ledger)) := by
  rw [flushText, List.isEmpty_reverse, OpenElement.addText]
  split
  · rfl
  · rw [run_appendLeaf, State.among_addLeaf]
    rfl

/-- What the machine does behind the content of an element: it goes on in those around it, each with
the rounds that it has left. -/
def leave (options : Options) (state : State) (parent : Nat) :
    List OpenElement → List Nat → Parser Unit
  | around :: outer, rounds :: waiting => do
    decrementDepth
    content options (state.innermost parent (around :: outer)) around.name rounds []
    leave options state parent outer waiting
  | _, _ => decrementDepth

/-- All that wait have rounds enough for the rest of the text. -/
def Lasting (rest : Text) : List OpenElement → List Nat → Prop :=
  List.Forall₂ fun _ rounds => rest.length < rounds

theorem Lasting.suffix {waiting : List Nat} {later : Text} (lasting : Lasting rest outer waiting)
    (further : later <:+ rest) : Lasting later outer waiting :=
  List.Forall₂.imp (fun _ _ enough => Nat.lt_of_le_of_lt further.length_le enough) lasting

theorem name_addText (pending : Text) : (inner.addText pending).name = inner.name := by
  rw [OpenElement.addText]
  split <;> rfl

/-- At markup the text in front becomes a node, before an end tag is looked for. -/
theorem run_content_markup {α : Type} {options : Options} {tag : Text} {next : Unit → Parser α}
    {rounds : Nat} (within : '<' :: rest <:+ source) (pending : Text) :
    let self := state.innermost parent (inner :: outer)
    let settled := state.among parent (inner.addText pending :: outer)
    run (content options self tag (rounds + 1) pending.reverse >>= next)
        ((state.among parent (inner :: outer)).at source ('<' :: rest) ledger) =
      match take? ['/'] rest with
      | some slash => run (endTag tag >>= next) (settled.at source slash.rest ledger)
      | none => run (contentLeaf self >>= fun found =>
          (if found then content options self tag rounds []
            else do
              element options self rounds
              content options self tag rounds []) >>= next)
          (settled.at source ('<' :: rest) ledger) := by
  dsimp only
  rw [content, bind_assoc, run_atEnd_bind within]
  simp only [List.isEmpty_cons, Bool.false_eq_true, if_false]
  rw [bind_assoc, run_lookingAt_mark_bind within, beq_self_eq_true, if_pos rfl]
  rw [bind_assoc, run_bind_of_ok (run_flushText pending), bind_assoc]
  rw [show "</".toList = ['<', '/'] from rfl, run_eat_cons_bind within]
  cases take? ['/'] rest with
  | some slash => rfl
  | none =>
    simp only [Bool.false_eq_true, if_false]
    rw [bind_assoc]

/-- Where there is no markup, a reference or a character adds to the text. -/
theorem run_content_text {α : Type} {options : Options} {self : Nat} {tag text : Text}
    {next : Unit → Parser α} {rounds : Nat} {c : Char} (within : c :: rest <:+ source)
    (other : ¬(c == '<') = true) :
    run (content options self tag (rounds + 1) text >>= next) (state.at source (c :: rest) ledger) =
      if c == '&' then
        run (reference options .content >>= fun value =>
            content options self tag rounds (text ++ value) >>= next)
          (state.at source (c :: rest) ledger)
      else if (take? "]]>".toList (c :: rest)).isSome then
        run (fatal .sectionEndInText >>= next) (state.at source (c :: rest) ledger)
      else
        run (nextChar >>= fun c => content options self tag rounds (text ++ [c]) >>= next)
          (state.at source (c :: rest) ledger) := by
  rw [content, bind_assoc, run_atEnd_bind within, List.isEmpty_cons, if_neg Bool.false_ne_true,
    bind_assoc, run_lookingAt_mark_bind within, if_neg other, bind_assoc,
    run_lookingAt_mark_bind within]
  split
  · rw [bind_assoc]
  · rw [bind_assoc, run_lookingAt_bind within]
    split
    · rfl
    · rw [bind_assoc]

theorem run_content (entities : state.table = setting.table) (level : state.depth = 0)
    (pending : Text) (reaches : whole <:+ source) (within : rest <:+ whole) {rounds : Nat}
    {waiting : List Nat} (enough : rest.length < rounds) (lasting : Lasting rest outer waiting) :
    run (content setting.options (state.innermost parent (inner :: outer)) inner.name rounds
          pending.reverse >>= fun _ => leave setting.options state parent outer waiting)
        ((state.among parent (inner :: outer)).at source rest ledger) =
      answer source (fun read : Read whole (OpenElement × Ledger) => ((),
          (state.holding (state.among parent [read.value.1]).arena).at source read.rest read.value.2))
        (Markup.content setting whole inner outer pending ledger rest within) := by
  obtain ⟨rounds, rfl⟩ := exists_rounds enough
  fun_induction Markup.content setting whole inner outer pending ledger rest within
    generalizing rounds waiting with
  | case1 inner outer pending ledger within =>
    rw [content, bind_assoc, run_atEnd_bind (within.trans reaches)]
    rfl
  | case2 inner outer pending ledger c rest within opening settled value afterSlash slash ended =>
    rename_i ih
    have here := within.trans reaches
    have same : c = '<' := by simpa using opening
    subst same
    rw [run_content_markup here, ended, ← name_addText pending]
    have behind := slash.trans ((List.suffix_cons _ _).trans here)
    refine (endTag_reads behind _).run_bind fun closed _ => ?_
    dsimp only
    cases lasting with
    | nil => rfl
    | @cons around left outer waiting more lasting =>
      have shorter := (closed.suffix.trans slash).trans (List.suffix_cons '<' rest)
      obtain ⟨left, rfl⟩ := exists_rounds more
      have further := ih closed.rest closed.suffix around outer (Lasting.suffix lasting shorter) left
        (Nat.lt_of_le_of_lt shorter.length_le more)
      rw [State.among_addElement] at further
      exact further
  | case3 inner outer pending ledger c rest within opening settled open_ result found =>
    rename_i ih
    have here := within.trans reaches
    have same : c = '<' := by simpa using opening
    subst same
    rw [run_content_markup here, open_, ← name_addText pending]
    have first := contentLeaf_puts (state.innermost parent (inner :: outer)) here
      (state.among parent (settled :: outer)) ledger
    rw [found] at first
    refine run_bind_answer first fun leaf _ => ?_
    obtain ⟨rounds, rfl, left⟩ := rounds_behind enough leaf.suffix
    have further := ih leaf.value leaf.rest leaf.suffix
      (lasting.suffix (leaf.suffix.trans (List.suffix_cons _ _))) rounds left
    rw [State.among_addLeaf] at further
    exact further
  | case4 inner outer pending ledger c rest within opening settled open_ none_ =>
    rename_i closed opened
    have here := within.trans reaches
    have same : c = '<' := by simpa using opening
    subst same
    rw [run_content_markup here, open_, ← name_addText pending]
    have first := contentLeaf_puts (state.innermost parent (inner :: outer)) here
      (state.among parent (settled :: outer)) ledger
    rw [none_] at first
    dsimp only
    rw [run_bind_of_ok first]
    simp only [Bool.false_eq_true, if_false]
    have depth : (state.among parent (settled :: outer)).depth = outer.length + 1 := by
      rw [State.among, level, Nat.zero_add, List.length_cons]
    have tagged := @run_startTag source rest (state.among parent (settled :: outer)) ledger setting
      (state.innermost parent (inner :: outer)) entities here
    rw [depth] at tagged
    rw [element, bind_assoc, bind_assoc]
    refine run_bind_answer tagged fun tag _ => ?_
    obtain ⟨rounds, rfl, left⟩ := rounds_behind enough tag.suffix
    have around := lasting.suffix (tag.suffix.trans (List.suffix_cons _ _))
    dsimp only
    split
    · have further := closed tag.value.1 tag.value.2 tag.rest tag.suffix around rounds left
      rw [State.among_addElement] at further
      exact further
    · rw [bind_assoc]
      exact opened tag.value.1 tag.value.2 tag.rest tag.suffix (.cons left around) rounds left
  | case5 inner outer pending ledger c rest within other ampersand _ ih =>
    have here := within.trans reaches
    have same : c = '&' := by simpa using ampersand
    subst same
    rw [run_content_text here other, if_pos ampersand]
    refine run_bind_answer (run_reference .content here entities) fun value _ => ?_
    obtain ⟨rounds, rfl, left⟩ := rounds_behind enough value.suffix
    have further := ih value.value.1 value.value.2 value.rest value.suffix
      (lasting.suffix (value.suffix.trans (List.suffix_cons _ _))) rounds left
    rw [List.reverse_append, List.reverse_reverse] at further
    exact further
  | case6 inner outer pending ledger c rest within other plain section_ =>
    rw [run_content_text (within.trans reaches) other, if_neg plain, if_pos section_]
    rfl
  | case7 inner outer pending ledger c rest within other plain section_ _ ih =>
    have here := within.trans reaches
    rw [run_content_text here other, if_neg plain, if_neg section_]
    refine (nextChar_reads here).run_bind fun next _ => ?_
    obtain ⟨rounds, rfl, left⟩ := rounds_behind enough next.suffix
    have further := ih next.value next.rest next.suffix
      (lasting.suffix (next.suffix.trans (List.suffix_cons _ _))) rounds left
    rw [List.reverse_cons] at further
    exact further

/-- An element of the document is read as the reader of the rest of a text reads it. -/
theorem run_element (entities : state.table = setting.table) (level : state.depth = 0)
    (within : '<' :: rest <:+ source) {rounds : Nat} (enough : rest.length < rounds) :
    run (element setting.options parent rounds) (state.at source ('<' :: rest) ledger) =
      answer source (fun read : Read rest (OpenElement × Ledger) => ((),
          (state.holding (state.among parent [read.value.1]).arena).at source read.rest read.value.2))
        (rootElement setting ledger rest) := by
  have tagged := @run_startTag source rest state ledger setting parent entities within
  rw [level] at tagged
  rw [element, rootElement]
  refine run_bind_answer tagged fun tag _ => ?_
  dsimp only
  split
  · rfl
  · exact @run_content source tag.rest rest state tag.value.2 setting parent (.ofTag tag.value.1) []
      entities level [] ((List.suffix_cons _ _).trans within) tag.suffix rounds []
      (Nat.lt_of_le_of_lt tag.suffix.length_le enough) .nil

end Steps

end XmlSelect.Machine
