import XmlSelect.Proofs.ArenaLinks
import XmlSelect.Proofs.MachineContent
import XmlSelect.Proofs.MachineDoctype

/-! Whole documents: the machine reads what the readers of the rest of a text read, with the nodes of
the document in its arena, and stops where they stop. -/
namespace XmlSelect.Machine

open Markup

variable {source rest whole : Text} {state : State} {ledger : Ledger} {options : Options}

section Declarations

/-- The state with other fields of the declaration. -/
def State.declared (state : State) (fields : DeclarationFields) : State :=
  { state with fields := fields }

/-- What a declaration says, as the fields that were read. -/
def fieldsOf (declaration : Declaration) : DeclarationFields :=
  ⟨some declaration.version, declaration.encoding, declaration.standalone⟩

theorem run_setField (fields : DeclarationFields) (key value : Text) :
    run (setField key value) ((state.declared fields).at source rest ledger) =
      answer source (fun fields => ((), (state.declared fields).at source rest ledger))
        (withLedger ledger (fields.set key value rest)) := by
  rw [setField, DeclarationFields.set]
  repeat' split
  all_goals rfl

theorem run_declarationFields_step {α : Type} {next : Unit → Parser α} {spaced : Bool}
    {rounds : Nat} {blanks : Text} (start : blanks <:+ source)
    (some : blanks.head?.any isBlank = spaced) (behind : blanks.dropWhile isBlank = rest) :
    run (declarationFields (rounds + 1) >>= next) (state.at source blanks ledger) =
      match take? "?>".toList rest with
      | .some read => run (next ()) (state.at source read.rest ledger)
      | none =>
        if !spaced then
          run (fatal .blankRequiredInDeclaration >>= next) (state.at source rest ledger)
        else run (declarationField >>= fun _ => declarationFields rounds >>= next)
          (state.at source rest ledger) := by
  have here : rest <:+ source := behind ▸ (List.dropWhile_suffix _).trans start
  rw [declarationFields, bind_assoc, run_skipBlanks_bind start, some, behind, bind_assoc,
    run_eat_bind here]
  cases take? "?>".toList rest with
  | some read => rfl
  | none =>
    dsimp only
    rw [if_neg Bool.false_ne_true]
    split
    · rfl
    · rw [bind_assoc]

theorem run_requireVersion (fields : DeclarationFields) :
    run requireVersion ((state.declared fields).at source rest ledger) =
      match fields.version with
      | none => run (fatal .missingVersion) ((state.declared fields).at source rest ledger)
      | some _ => some (.ok ((), (state.declared fields).at source rest ledger)) := by
  rw [requireVersion, run_get_bind]
  show run (if fields.version.isNone then _ else _) _ = _
  cases fields.version <;> rfl

/-- The machine goes over the blanks in front of a field when it reads this field, the reader when it
has read the one before. -/
theorem run_declarationFields {spaced : Bool} {blanks : Text}
    (some : blanks.head?.any isBlank = spaced) (behind : blanks.dropWhile isBlank = rest)
    (start : blanks <:+ source) (reaches : whole <:+ source) (fields : DeclarationFields)
    (within : rest <:+ whole) {rounds : Nat} (enough : blanks.length < rounds) :
    run (declarationFields rounds >>= fun _ => requireVersion)
        ((state.declared fields).at source blanks ledger) =
      answer source (fun read : Read whole Declaration =>
          ((), (state.declared (fieldsOf read.value)).at source read.rest ledger))
        (withLedger ledger (Markup.declaration whole fields spaced rest within)) := by
  obtain ⟨rounds, rfl⟩ := exists_rounds enough
  fun_induction Markup.declaration whole fields spaced rest within generalizing blanks rounds with
  | case1 fields spaced rest within value after closed ended missing =>
    rw [run_declarationFields_step start some behind, ended]
    dsimp only
    rw [run_requireVersion, missing]
    rfl
  | case2 fields spaced rest within value after closed ended version found =>
    rw [run_declarationFields_step start some behind, ended]
    dsimp only
    rw [run_requireVersion, found]
    obtain ⟨_, encoding, standalone⟩ := fields
    cases found
    rfl
  | case3 fields spaced rest within open_ unspaced =>
    rw [run_declarationFields_step start some behind, open_]
    dsimp only
    rw [if_pos unspaced]
    rfl
  | case4 fields spaced apart within _ open_ =>
    rw [run_declarationFields_step start some behind, open_]
    dsimp only
    rw [if_neg apart, declarationField, bind_assoc]
    have nameless := name_reads (within.trans reaches) (state.declared fields) ledger
    rw [run_bind, nameless]
    rfl
  | case5 fields spaced apart first others within _ open_ =>
    rename_i ih
    have here := within.trans reaches
    rw [run_declarationFields_step start some behind, open_]
    dsimp only
    rw [if_neg apart]
    simp only [declarationField, bind_assoc]
    rw [withLedger_bind]
    refine (nameFrom_reads here).run_bind fun key _ => ?_
    have afterName := key.suffix.trans ((List.suffix_cons _ _).trans here)
    have beforeSign := (List.dropWhile_suffix isBlank).trans afterName
    rw [run_skipBlanks_bind afterName, withLedger_bind]
    refine (expect_reads beforeSign _).run_bind fun sign _ => ?_
    have afterSign := sign.suffix.trans beforeSign
    have beforeValue := (List.dropWhile_suffix isBlank).trans afterSign
    rw [run_skipBlanks_bind afterSign, withLedger_bind]
    refine (quoted_reads beforeValue).run_bind fun value _ => ?_
    have afterValue := value.suffix.trans beforeValue
    rw [withLedger_bind]
    refine run_bind_answer (run_setField _ _ _) fun fields _ => ?_
    have shorter := (value.suffix.trans ((List.dropWhile_suffix _).trans sign.suffix)).trans
      ((List.dropWhile_suffix _).trans key.suffix)
    obtain ⟨rounds, rfl, left⟩ := rounds_behind (rounds_dropWhile enough behind) shorter
    exact ih key.rest key.suffix _ (List.dropWhile_suffix _) sign.rest sign.suffix _
      (List.dropWhile_suffix _) value.rest value.suffix fields _ _ (List.dropWhile_suffix _) rfl rfl
      afterValue rounds left

theorem run_charAfter_bind {α : Type} (within : rest <:+ source) (offset : Nat)
    (next : Option Char → Parser α) :
    run (charAfter offset >>= next) (state.at source rest ledger) =
      run (next (Text.dropBytes offset rest).head?) (state.at source rest ledger) :=
  congrArg (fun rest : Text => run (next (Text.dropBytes offset rest).head?) _)
    (Cursor.rest_at within)

theorem run_optionalDeclaration (bare : state.fields = {}) (within : rest <:+ source) :
    run optionalDeclaration (state.at source rest ledger) =
      answer source (fun read => ((), (state.declared ((read.value.map fieldsOf).getD {})).at source
          read.rest ledger))
        (withLedger ledger (Markup.optionalDeclaration rest)) := by
  have start : state.declared {} = state := by rw [State.declared, ← bare]
  have nothing : answer source (fun read : Read rest (Option Declaration) =>
        ((), (state.declared ((read.value.map fieldsOf).getD {})).at source read.rest ledger))
      (.ok ⟨none, rest, List.suffix_refl _⟩) = some (.ok ((), state.at source rest ledger)) := by
    rw [← start]
    rfl
  rw [optionalDeclaration, run_lookingAt_bind within, Markup.optionalDeclaration]
  cases opened : take? "<?xml".toList rest with
  | none => exact nothing.symm
  | some word =>
    obtain ⟨value, after, suffix⟩ := word
    have split : rest = "<?xml".toList ++ after := take?_eq_some opened
    have ahead : Text.dropBytes 5 rest = after := split ▸ Text.dropBytes_append "<?xml".toList after
    dsimp only
    rw [Option.isSome_some, if_pos rfl, run_charAfter_bind within, ahead]
    split
    · have inner := suffix.trans within
      have body := (List.dropWhile_suffix isBlank).trans suffix
      rw [declaration, run_expect_here_bind split within, run_rounds_bind inner, withLedger_bind]
      have fields := @run_declarationFields source _ rest state ledger _ after rfl rfl inner within {}
        body _ (Nat.lt_succ_self _)
      rw [start] at fields
      refine fields.trans ?_
      rw [Markup.skipBlanks, Read.skip]
      dsimp only
      cases Markup.declaration rest {} (after.head?.any isBlank) (after.dropWhile isBlank) body <;> rfl
    · exact nothing.symm

end Declarations

section Documents

/-- The state in which some nodes have been read at the top of a document. -/
def State.reading (state : State) (progress : Progress) : State :=
  { state with
    table := progress.table
    arena := state.arena.appendForest Arena.root progress.before.reverse }

theorem run_commentOrInstruction_none {parent : Nat} {c : Char} (within : c :: rest <:+ source)
    (other : c ≠ '<') :
    run (commentOrInstruction parent) (state.at source (c :: rest) ledger) =
      some (.ok (false, state.at source (c :: rest) ledger)) := by
  rw [commentOrInstruction, run_lookingAt_bind within,
    show "<!--".toList = '<' :: "!--".toList from rfl, take?_cons_of_ne other, Option.isSome_none,
    if_neg Bool.false_ne_true, run_lookingAt_bind within,
    show "<?".toList = '<' :: "?".toList from rfl, take?_cons_of_ne other]
  rfl

theorem run_topLevel_cons {seen : Seen} {rounds : Nat} {blanks : Text} {c : Char}
    (start : blanks <:+ source) (behind : blanks.dropWhile isBlank = c :: rest) :
    run (topLevel options (rounds + 1) seen) (state.at source blanks ledger) =
      run (topLevelNode options seen >>= topLevel options rounds)
        (state.at source (c :: rest) ledger) := by
  have here : c :: rest <:+ source := behind ▸ (List.dropWhile_suffix _).trans start
  rw [topLevel, run_skipBlanks_bind start, behind, run_atEnd_bind here, List.isEmpty_cons,
    if_neg Bool.false_ne_true]

/-- A document type declaration and the element are looked for behind comments and instructions. -/
theorem run_topLevelNode {α : Type} {seen : Seen} {next : Seen → Parser α}
    (within : '<' :: rest <:+ source) (none_ : Markup.commentOrInstruction? rest = none) :
    run (topLevelNode options seen >>= next) (state.at source ('<' :: rest) ledger) =
      if (take? "!DOCTYPE".toList rest).isSome then
        if seen.doctype || seen.root then
          run (fatal .misplacedDoctype >>= next) (state.at source ('<' :: rest) ledger)
        else
          run (doctype Arena.root >>= fun _ => next { seen with doctype := true })
            (state.at source ('<' :: rest) ledger)
      else if seen.root then
        run (fatal .contentAfterRoot >>= next) (state.at source ('<' :: rest) ledger)
      else
        run (element options Arena.root (rest.length + 2) >>= fun _ =>
          next { seen with root := true }) (state.at source ('<' :: rest) ledger) := by
  have first := commentOrInstruction_puts Arena.root within state ledger
  rw [none_] at first
  rw [topLevelNode, bind_assoc, run_bind_of_ok first, if_neg Bool.false_ne_true, bind_assoc,
    run_lookingAt_bind within, show "<!DOCTYPE".toList = '<' :: "!DOCTYPE".toList from rfl,
    isSome_take?_cons]
  cases (take? "!DOCTYPE".toList rest).isSome with
  | true =>
    rw [if_pos rfl, if_pos rfl]
    split
    · rfl
    · rw [bind_assoc]
      rfl
  | false =>
    rw [if_neg Bool.false_ne_true, if_neg Bool.false_ne_true, bind_assoc,
      run_lookingAt_mark_bind within, beq_self_eq_true, if_pos rfl]
    split
    · rfl
    · rw [bind_assoc, run_rounds_bind within, bind_assoc]
      rfl

/-- The machine goes over the blanks in front of a node when it reads this node, the reader when it
has read the one before. -/
theorem run_topLevel {blanks : Text} (behind : blanks.dropWhile isBlank = rest)
    (start : blanks <:+ source) (level : state.depth = 0) (progress : Progress)
    (undeclared : progress.seenDoctype = false → progress.table = []) {rounds : Nat}
    (enough : blanks.length < rounds) :
    run (topLevel options rounds ⟨progress.seenDoctype, progress.seenRoot⟩)
        ((state.reading progress).at source blanks progress.ledger) =
      answer source (fun progress => ((), (state.reading progress).at source [] progress.ledger))
        (Markup.topLevel options progress rest) := by
  have here : rest <:+ source := behind ▸ (List.dropWhile_suffix _).trans start
  obtain ⟨rounds, rfl⟩ := exists_rounds enough
  fun_induction Markup.topLevel options progress rest generalizing blanks rounds with
  | case1 progress complete =>
    rw [topLevel, run_skipBlanks_bind start, behind, run_atEnd_bind here, List.isEmpty_nil,
      if_pos rfl, if_pos complete]
    rfl
  | case2 progress missing =>
    rw [topLevel, run_skipBlanks_bind start, behind, run_atEnd_bind here, List.isEmpty_nil,
      if_pos rfl, if_neg missing]
    rfl
  | case3 progress rest outcome found ih =>
    have first := commentOrInstruction_puts Arena.root here (state.reading progress) progress.ledger
    rw [found] at first
    rw [run_topLevel_cons start behind, topLevelNode, bind_assoc]
    refine run_bind_answer first fun leaf _ => ?_
    have afterLeaf := leaf.suffix.trans ((List.suffix_cons _ _).trans here)
    obtain ⟨rounds, rfl, left⟩ := rounds_behind (rounds_dropWhile enough behind) leaf.suffix
    have further := ih leaf.value leaf.rest leaf.suffix _ (List.dropWhile_suffix _) rfl afterLeaf
      undeclared ((List.dropWhile_suffix _).trans afterLeaf) rounds left
    rw [State.reading, Forest.reverse_leaf, Arena.appendForest_append] at further
    exact further
  | case4 progress rest none_ value afterWord word opened _ misplaced =>
    rw [run_topLevel_cons start behind, run_topLevelNode here none_, opened, Option.isSome_some,
      if_pos rfl, if_pos misplaced]
    rfl
  | case5 progress rest none_ value afterWord word opened _ placed =>
    rename_i ih
    rw [run_topLevel_cons start behind, run_topLevelNode here none_, opened, Option.isSome_some,
      if_pos rfl, if_neg placed]
    have split := congrArg ('<' :: ·) (take?_eq_some opened)
    have fresh : progress.seenDoctype = false ∧ progress.seenRoot = false := by simpa using placed
    refine run_bind_answer (@run_doctype source afterWord (state.reading progress) _ Arena.root
      (undeclared fresh.1) _ split here) fun declared _ => ?_
    have shorter := declared.suffix.trans word
    have afterDoctype := shorter.trans ((List.suffix_cons _ _).trans here)
    obtain ⟨rounds, rfl, left⟩ := rounds_behind (rounds_dropWhile enough behind) shorter
    have further := ih declared.value declared.rest declared.suffix _ (List.dropWhile_suffix _) rfl
      afterDoctype (fun unseen => Bool.noConfusion (show true = false from unseen))
      ((List.dropWhile_suffix _).trans afterDoctype) rounds left
    rw [State.reading, Forest.reverse_leaf, Arena.appendForest_append] at further
    exact further
  | case6 progress rest none_ opened _ complete =>
    rw [run_topLevel_cons start behind, run_topLevelNode here none_, opened, Option.isSome_none,
      if_neg Bool.false_ne_true, if_pos complete]
    rfl
  | case7 progress rest none_ opened _ missing =>
    rename_i ih
    rw [run_topLevel_cons start behind, run_topLevelNode here none_, opened, Option.isSome_none,
      if_neg Bool.false_ne_true, if_neg missing]
    let setting : Setting := ⟨options, progress.table⟩
    have first := @run_element source rest (state.reading progress) progress.ledger setting Arena.root
      rfl level here (rest.length + 2) (Nat.lt_add_of_pos_right Nat.two_pos)
    refine run_bind_answer first fun element _ => ?_
    have afterElement := element.suffix.trans ((List.suffix_cons _ _).trans here)
    obtain ⟨rounds, rfl, left⟩ := rounds_behind (rounds_dropWhile enough behind) element.suffix
    have further := ih element.value.1 element.value.2 element.rest element.suffix _
      (List.dropWhile_suffix _) rfl afterElement undeclared
      ((List.dropWhile_suffix _).trans afterElement) rounds left
    rw [State.reading, Forest.reverse_element, Arena.appendForest_append] at further
    exact further
  | case8 progress c rest other =>
    rw [run_topLevel_cons start behind, topLevelNode, bind_assoc,
      run_bind_of_ok (run_commentOrInstruction_none here other), if_neg Bool.false_ne_true, bind_assoc,
      run_lookingAt_bind here, show "<!DOCTYPE".toList = '<' :: "!DOCTYPE".toList from rfl,
      take?_cons_of_ne other, Option.isSome_none, if_neg Bool.false_ne_true, bind_assoc,
      run_lookingAt_mark_bind here, if_neg (by simpa using other)]
    rfl

theorem at_source (source : Text) : Cursor.at source source = { input := source } := by
  have start : Location.ofRest source source = Location.after [] := Location.ofRest_append [] source
  rw [Cursor.at, start]
  rfl

theorem run_document (source : Text) :
    run (document options) { cursor := { input := source } } =
      answer source (fun read : Option Declaration × Progress =>
          ((), (State.reading
            { cursor := { input := source }, fields := (read.1.map fieldsOf).getD {} } read.2).at
              source [] read.2.ledger))
        (withLedger {} (Markup.optionalDeclaration source) >>= fun read =>
          Markup.topLevel options {} (Markup.skipBlanks read.rest).rest >>= fun progress =>
            .ok (read.value, progress)) := by
  let state : State := { cursor := { input := source } }
  have start : state.at source source {} = state := by
    rw [State.at, at_source]
    rfl
  have first := @run_optionalDeclaration source source state {} rfl (List.suffix_refl source)
  rw [start] at first
  rw [document]
  refine run_bind_answer first fun read _ => ?_
  refine (@run_rounds_bind _ source read.rest (state.declared ((read.value.map fieldsOf).getD {})) {}
    read.suffix _).trans ?_
  let declared : State := state.declared ((read.value.map fieldsOf).getD {})
  have body := (List.dropWhile_suffix isBlank).trans read.suffix
  have nodes := @run_topLevel source _ declared options read.rest rfl read.suffix rfl {}
    (fun _ => rfl) _ (Nat.lt_succ_self _)
  refine nodes.trans ?_
  rw [Markup.skipBlanks, Read.skip]
  dsimp only
  cases Markup.topLevel options {} (read.rest.dropWhile isBlank) <;> rfl

end Documents

/-- What the machine gives for a document that was read. -/
def Built.ofReading (reading : Reading) : Built where
  fields := (reading.document.declaration.map fieldsOf).getD {}
  arena := reading.document.arena
  diagnostics := reading.diagnostics
  requests := reading.requests
  expansions := reading.expansions

/-- The machine always comes to an end, with the document that is read of the text, or with the same
error. -/
theorem parse_eq (options : Options) (source : Text) :
    parse options source = some ((Markup.parse options source).map Built.ofReading) := by
  have outcome := @run_document options source
  rw [parse, outcome, Markup.parse]
  dsimp only [pure, Except.pure]
  cases withLedger {} (Markup.optionalDeclaration source) >>= fun read =>
      Markup.topLevel options {} (Markup.skipBlanks read.rest).rest >>= fun progress =>
        Except.ok (read.value, progress) with
  | error failure => rfl
  | ok result => rfl

theorem parseText_eq (options : Options) (source : Text) :
    parseText options source = some ((Markup.parseText options source).map Built.ofReading) := by
  fun_cases Markup.parseText options source with
  | case1 rest => exact parse_eq options rest
  | case2 source unmarked => rw [parseText.eq_2 options source unmarked, parse_eq]

end XmlSelect.Machine
