import XmlSelect.Proofs.ArenaGrowth
import XmlSelect.Proofs.MachineEntities

/-! Comments, CDATA sections, instructions, start tags and end tags: the machine reads them as the
readers of the rest of a text do, and appends the nodes to its arena. -/
namespace XmlSelect.Machine

open Markup

variable {source rest whole : Text} {state : State} {ledger : Ledger}

/-- The state with another arena. -/
def State.holding (state : State) (arena : Arena) : State := { state with arena := arena }

theorem State.holding_at (arena : Arena) :
    (state.at source rest ledger).holding arena = (state.holding arena).at source rest ledger := rfl

section Leaves

theorem run_createNode_bind {α : Type} (kind : SlotKind) (next : Nat → Parser α) (state : State) :
    run (createNode kind >>= next) state =
      run (next state.arena.next) (state.holding (state.arena.create kind)) := rfl

theorem run_appendChild_bind {α : Type} (parent child : Nat) (next : Unit → Parser α)
    (state : State) : run (appendChild parent child >>= next) state =
      run (next ()) (state.holding (state.arena.append parent child)) := rfl

theorem run_appendLeaf (parent : Nat) (leaf : Leaf) (state : State) :
    run (appendLeaf parent leaf) state =
      some (.ok ((), state.holding (state.arena.appendNew parent (.leaf leaf)))) := rfl

/-- A step puts the leaf that a reader finds behind the children of a node. -/
def Puts (source : Text) (parser : Parser Unit) (parent : Nat) (start : Text)
    (outcome : Except Stop (Read whole Leaf)) : Prop :=
  ∀ (state : State) (ledger : Ledger), run parser (state.at source start ledger) =
    answer source (fun read => ((),
        (state.holding (state.arena.appendNew parent (.leaf read.value))).at source read.rest ledger))
      (withLedger ledger outcome)

theorem Puts.map {parser : Parser Unit} {parent : Nat} {start whole' : Text}
    {outcome : Except Stop (Read whole Leaf)} (puts : Puts source parser parent start outcome)
    (suffix : whole <:+ whole') :
    Puts source parser parent start (outcome.map (·.within suffix)) := by
  intro state ledger
  rw [puts]
  cases outcome <;> rfl

theorem comment_puts (parent : Nat) {start : Text} (split : start = "<!--".toList ++ rest)
    (within : start <:+ source) :
    Puts source (comment parent) parent start (Markup.comment rest) := by
  intro state ledger
  have inner : rest <:+ source := (List.suffix_append _ _).trans (split ▸ within)
  rw [comment, run_expect_here_bind split within, Markup.comment, withLedger_bind]
  refine (takeUntil_reads inner _ _).run_bind fun content _ => ?_
  dsimp only
  cases Text.includes "--".toList content.value || Text.endsWith ['-'] content.value <;> rfl

theorem cdataSection_puts (parent : Nat) {start : Text}
    (split : start = "<![CDATA[".toList ++ rest) (within : start <:+ source) :
    Puts source (cdataSection parent) parent start (Markup.cdataSection rest) := by
  intro state ledger
  have inner : rest <:+ source := (List.suffix_append _ _).trans (split ▸ within)
  rw [cdataSection, run_expect_here_bind split within, Markup.cdataSection, withLedger_bind]
  exact (takeUntil_reads inner _ _).run_bind fun content _ => rfl

theorem instruction_puts (parent : Nat) {start : Text} (split : start = "<?".toList ++ rest)
    (within : start <:+ source) :
    Puts source (instruction parent) parent start (Markup.instruction rest) := by
  intro state ledger
  have inner : rest <:+ source := (List.suffix_append _ _).trans (split ▸ within)
  rw [instruction, run_expect_here_bind split within, Markup.instruction, withLedger_bind]
  refine (name_reads inner).run_bind fun target _ => ?_
  have afterTarget := target.suffix.trans inner
  dsimp only
  split
  · rfl
  · rw [run_eat_bind afterTarget]
    cases take? "?>".toList target.rest with
    | some closed => rfl
    | none =>
      rw [withLedger_bind]
      refine (requireBlank_reads afterTarget).run_bind fun blanks _ => ?_
      have body := blanks.suffix.trans afterTarget
      rw [withLedger_bind]
      exact (takeUntil_reads body _ _).run_bind fun data _ => rfl

/-- A step puts a leaf behind the children of a node if one is next, and tells whether it did. -/
def PutsIfNext (source : Text) (parser : Parser Bool) (parent : Nat) (start : Text)
    (outcome? : Option (Except Stop (Read whole Leaf))) : Prop :=
  ∀ (state : State) (ledger : Ledger), run parser (state.at source start ledger) =
    match outcome? with
    | some outcome => answer source (fun read => (true,
        (state.holding (state.arena.appendNew parent (.leaf read.value))).at source read.rest ledger))
      (withLedger ledger outcome)
    | none => some (.ok (false, state.at source start ledger))

theorem Puts.bind_true {parser : Parser Unit} {parent : Nat} {start : Text}
    {outcome : Except Stop (Read whole Leaf)} (puts : Puts source parser parent start outcome) :
    PutsIfNext source (parser >>= fun _ => pure true) parent start (some outcome) :=
  fun state ledger => run_bind_answer_ok (puts state ledger) fun _ _ => rfl

theorem commentOrInstruction_puts (parent : Nat) (within : '<' :: rest <:+ source) :
    PutsIfNext source (commentOrInstruction parent) parent ('<' :: rest)
      (Markup.commentOrInstruction? rest) := by
  intro state ledger
  rw [commentOrInstruction, run_lookingAt_bind within, Markup.commentOrInstruction?_eq,
    show "<!--".toList = '<' :: "!--".toList from rfl, isSome_take?_cons]
  cases opened : take? "!--".toList rest with
  | some read =>
    have split := congrArg ('<' :: ·) (take?_eq_some opened)
    exact ((comment_puts parent split within).map read.suffix).bind_true state ledger
  | none =>
    simp only [Option.isSome_none, Bool.false_eq_true, if_false]
    rw [run_lookingAt_bind within, show "<?".toList = '<' :: "?".toList from rfl, isSome_take?_cons]
    cases opened : take? "?".toList rest with
    | some read =>
      have split := congrArg ('<' :: ·) (take?_eq_some opened)
      exact ((instruction_puts parent split within).map read.suffix).bind_true state ledger
    | none => rfl

theorem contentLeaf_puts (parent : Nat) (within : '<' :: rest <:+ source) :
    PutsIfNext source (contentLeaf parent) parent ('<' :: rest) (Markup.contentLeaf? rest) := by
  intro state ledger
  have first := commentOrInstruction_puts parent within state ledger
  rw [contentLeaf, Markup.contentLeaf?]
  cases found : commentOrInstruction? rest with
  | some outcome =>
    rw [found] at first
    exact run_bind_answer_ok first fun _ _ => rfl
  | none =>
    rw [found] at first
    rw [run_bind_of_ok first]
    simp only [Bool.false_eq_true, if_false]
    rw [run_lookingAt_bind within, show "<![CDATA[".toList = '<' :: "![CDATA[".toList from rfl,
      isSome_take?_cons]
    cases opened : take? "![CDATA[".toList rest with
    | some read =>
      have split := congrArg ('<' :: ·) (take?_eq_some opened)
      exact ((cdataSection_puts parent split within).map read.suffix).bind_true state ledger
    | none => rfl

end Leaves

section Attributes

variable {setting : Setting}

/-- A value and a ledger are left behind. -/
def valued (source : Text) (state : State) (read : Read whole (Text × Ledger)) : Text × State :=
  (read.value.1, state.at source read.rest read.value.2)

theorem run_attributeText (entities : state.table = setting.table) (quote : Char)
    (reaches : whole <:+ source) (done : Text) (within : rest <:+ whole) {rounds : Nat}
    (enough : rest.length < rounds) :
    run (attributeText setting.options quote rounds done.reverse) (state.at source rest ledger) =
      answer source (valued source state)
        (Markup.attributeText setting quote whole ledger done rest within) := by
  obtain ⟨rounds, rfl⟩ := exists_rounds enough
  fun_induction Markup.attributeText setting quote whole ledger done rest within
    generalizing rounds with
  | case1 ledger done within =>
    rw [attributeText, run_peek?_bind (within.trans reaches)]
    rfl
  | case2 ledger done c rest within closing =>
    have here := within.trans reaches
    rw [attributeText, run_peek?_bind here]
    simp only [List.head?_cons, closing, if_true]
    rw [run_bind_of_ok (run_advance here)]
    rfl
  | case3 ledger done c rest within other opening =>
    have here := within.trans reaches
    rw [attributeText, run_peek?_bind here]
    simp only [List.head?_cons, other, opening, if_true]
    rfl
  | case4 ledger done c rest within other plain ampersand _ ih =>
    have here := within.trans reaches
    rw [attributeText, run_peek?_bind here]
    simp only [List.head?_cons, other, plain, ampersand, if_true]
    have same : c = '&' := by simpa using ampersand
    subst same
    refine run_bind_answer (run_reference .attributeValue here entities) fun value _ => ?_
    obtain ⟨rounds, rfl, left⟩ := rounds_behind enough value.suffix
    have further := ih value.value.1 value.value.2 value.rest value.suffix rounds left
    rw [List.reverse_append, List.reverse_reverse] at further
    exact further
  | case5 ledger done c rest within other plain literal _ ih =>
    have here := within.trans reaches
    rw [attributeText, run_peek?_bind here]
    simp only [List.head?_cons, other, plain, literal]
    refine (nextChar_reads here).run_bind fun next _ => ?_
    obtain ⟨rounds, rfl, left⟩ := rounds_behind enough next.suffix
    have further := ih next.value next.rest next.suffix rounds left
    rw [List.reverse_append] at further
    exact further

theorem run_attributeValue (entities : state.table = setting.table) (within : rest <:+ source) :
    run (attributeValue setting.options) (state.at source rest ledger) =
      answer source (valued source state) (Markup.attributeValue setting ledger rest) := by
  rw [attributeValue, run_peek?_bind within]
  cases rest with
  | nil => rfl
  | cons quote rest =>
    simp only [List.head?_cons]
    rw [Markup.attributeValue]
    split
    · rw [run_bind_of_ok (run_advance within), run_rounds_bind ((List.suffix_cons _ _).trans within)]
      exact run_attributeText entities quote within [] _ (Nat.lt_succ_self _)
    · rfl

/-- A start tag has been read: its element stands behind the children of a node. -/
def tagged (source : Text) (state : State) (before : Arena) (parent : Nat)
    (read : Read whole (StartTag × Ledger)) : Bool × State :=
  (read.value.1.closed,
    (state.holding (before.appendElement parent read.value.1.name read.value.1.attributes)).at source
      read.rest read.value.2)

theorem appendElement_concat (arena : Arena) (parent : Nat) (name : Text)
    (attributes : List Attribute) (last : Attribute) :
    arena.appendElement parent name (attributes ++ [last]) =
      (arena.appendElement parent name attributes).addAttribute arena.next last :=
  List.foldl_append

/-- The end of a start tag is looked for behind blanks. -/
theorem run_attributeList_step {options : Options} {self : Nat} {tag : Text} {seen : List Text}
    {rounds : Nat} {blanks : Text} (start : blanks <:+ source) {spaced : Bool}
    (some : blanks.head?.any isBlank = spaced) (behind : blanks.dropWhile isBlank = rest) :
    run (attributeList options self tag (rounds + 1) seen) (state.at source blanks ledger) =
      match take? "/>".toList rest with
      | .some read => .some (.ok (true, state.at source read.rest ledger))
      | none => match take? ['>'] rest with
        | .some read => .some (.ok (false, state.at source read.rest ledger))
        | none => run (if rest.isEmpty then fatal (.unterminatedStartTag tag)
            else if !spaced then fatal .blankRequiredBetweenAttributes
            else do
              let next ← newAttribute options tag seen
              addAttribute self next
              attributeList options self tag rounds (next.name :: seen))
              (state.at source rest ledger) := by
  have here : rest <:+ source := behind ▸ (List.dropWhile_suffix _).trans start
  rw [attributeList, run_skipBlanks_bind start, some, behind, run_eat_bind here]
  cases take? "/>".toList rest with
  | some read => rfl
  | none =>
    simp only [Bool.false_eq_true, if_false]
    rw [run_eat_bind here]
    cases take? ['>'] rest with
    | some read => rfl
    | none =>
      simp only [Bool.false_eq_true, if_false]
      rw [run_atEnd_bind here]

/-- The machine goes over the blanks in front of an attribute when it reads this attribute, the
reader when it has read the one before. -/
theorem run_attributeList (entities : state.table = setting.table) (before : Arena) (parent : Nat)
    (tag : Text) (done : List Attribute) {spaced : Bool} {blanks : Text}
    (some : blanks.head?.any isBlank = spaced) (behind : blanks.dropWhile isBlank = rest)
    (start : blanks <:+ source) (reaches : whole <:+ source) (within : rest <:+ whole)
    {rounds : Nat} (enough : blanks.length < rounds) :
    run (attributeList setting.options before.next tag rounds (done.map (·.name)))
        ((state.holding (before.appendElement parent tag done.reverse)).at source blanks ledger) =
      answer source (tagged source state before parent)
        (Markup.attributeList setting tag whole ledger done spaced rest within) := by
  obtain ⟨rounds, rfl⟩ := exists_rounds enough
  fun_induction Markup.attributeList setting tag whole ledger done spaced rest within
    generalizing blanks rounds with
  | case1 ledger done spaced rest within value after closed ended =>
    rw [run_attributeList_step start some behind, ended]
    rfl
  | case2 ledger done spaced rest within open_ value after closed ended =>
    rw [run_attributeList_step start some behind, open_, ended]
    rfl
  | case3 ledger done spaced within _ open_ unfinished =>
    rw [run_attributeList_step start some behind, open_, unfinished]
    rfl
  | case4 ledger done spaced c rest within _ unspaced _ open_ unfinished =>
    rw [run_attributeList_step start some behind, open_, unfinished, List.isEmpty_cons,
      if_neg Bool.false_ne_true, if_pos unspaced]
    rfl
  | case5 ledger done spaced c rest within _ apart _ open_ unfinished =>
    rename_i ih
    have here := within.trans reaches
    rw [run_attributeList_step start some behind, open_, unfinished, List.isEmpty_cons,
      if_neg Bool.false_ne_true, if_neg apart]
    simp only [newAttribute, bind_assoc]
    refine (nameFrom_reads here).run_bind fun key _ => ?_
    have afterName := key.suffix.trans ((List.suffix_cons _ _).trans here)
    rw [run_skipBlanks_bind afterName]
    have beforeSign := (List.dropWhile_suffix isBlank).trans afterName
    refine (expect_reads beforeSign _).run_bind fun sign _ => ?_
    have afterSign := sign.suffix.trans beforeSign
    rw [run_skipBlanks_bind afterSign]
    have beforeValue := (List.dropWhile_suffix isBlank).trans afterSign
    refine run_bind_answer (run_attributeValue entities beforeValue) fun value _ => ?_
    have afterValue := value.suffix.trans beforeValue
    have shorter := (value.suffix.trans ((List.dropWhile_suffix _).trans sign.suffix)).trans
      ((List.dropWhile_suffix _).trans key.suffix)
    obtain ⟨rounds, rfl, left⟩ := rounds_behind (rounds_dropWhile enough behind) shorter
    have names : (done.map (·.name)).any (· == key.value) = done.any (·.name == key.value) :=
      List.any_map
    dsimp only [valued]
    rw [names]
    by_cases seen : done.any (·.name == key.value) = true
    · rw [dif_pos seen, if_pos seen]
      rfl
    · rw [dif_neg seen, if_neg seen, pure_bind]
      have further := ih key.value key.rest key.suffix _ (List.dropWhile_suffix _) sign.rest
        sign.suffix _ (List.dropWhile_suffix _) value.value.1 value.value.2 value.rest
        value.suffix _ _ (List.dropWhile_suffix _) rfl rfl afterValue rounds left
      rw [List.reverse_cons, appendElement_concat] at further
      exact further

/-- The element of a start tag has the name with which it begins. -/
theorem name_of_attributeList {tag : Text} {done : List Attribute} {spaced : Bool}
    {within : rest <:+ whole} {result : Read whole (StartTag × Ledger)}
    (read : Markup.attributeList setting tag whole ledger done spaced rest within = .ok result) :
    result.value.1.name = tag := by
  fun_induction Markup.attributeList setting tag whole ledger done spaced rest within with
  | case1 =>
    cases read
    rfl
  | case2 =>
    cases read
    rfl
  | case3 => cases read
  | case4 => cases read
  | case5 =>
    rename_i ih
    obtain ⟨key, -, read⟩ := bind_ok read
    obtain ⟨sign, -, read⟩ := bind_ok read
    obtain ⟨value, -, read⟩ := bind_ok read
    dsimp only at read
    split at read
    · cases read
    · exact ih _ _ key.suffix _ (List.dropWhile_suffix _) _ sign.suffix _
        (List.dropWhile_suffix _) _ _ _ value.suffix _ _ (List.dropWhile_suffix _) read

end Attributes

section Elements

variable {setting : Setting}

theorem endTag_reads (within : rest <:+ source) (tag : Text) :
    Reads source (endTag tag) rest (Markup.endTag tag rest) := by
  intro state ledger
  rw [endTag, Markup.endTag, withLedger_bind]
  refine (name_reads within).run_bind fun found _ => ?_
  have afterName := found.suffix.trans within
  dsimp only
  split
  · rfl
  · rw [run_skipBlanks_bind afterName]
    have beforeEnd := (List.dropWhile_suffix isBlank).trans afterName
    rw [withLedger_bind, ← bind_pure (expect _)]
    exact (expect_reads beforeEnd _).run_bind fun _ _ => rfl

theorem run_incrementDepth (options : Options) :
    run (incrementDepth options) (state.at source rest ledger) =
      if options.maxDepth ≤ state.depth then
        run (fatal (.tooDeep options.maxDepth)) (state.at source rest ledger)
      else some (.ok ((), { state with depth := state.depth + 1 }.at source rest ledger)) := by
  rw [incrementDepth, run_modify_bind, run_get_bind]
  by_cases deep : options.maxDepth ≤ state.depth
  · rw [if_pos deep, if_pos]
    · rfl
    · exact Nat.lt_succ_of_le deep
  · rw [if_neg deep, if_neg]
    · rfl
    · exact fun deeper => deep (Nat.le_of_lt_succ deeper)

/-- The state in which an element is open behind the children of a node. -/
def State.opened (state : State) (parent : Nat) (tag : StartTag) : State :=
  { state with
    depth := state.depth + 1
    arena := state.arena.appendElement parent tag.name tag.attributes }

theorem run_startTag (parent : Nat) (entities : state.table = setting.table)
    (within : '<' :: rest <:+ source) :
    run (startTag setting.options parent) (state.at source ('<' :: rest) ledger) =
      answer source (fun read : Read rest (StartTag × Ledger) =>
          ((state.arena.next, read.value.1.name, read.value.1.closed),
            (state.opened parent read.value.1).at source read.rest read.value.2))
        (Markup.startTag setting state.depth ledger rest) := by
  have inner := (List.suffix_cons _ _).trans within
  rw [startTag, run_expect_here_bind List.singleton_append.symm within]
  refine (name_reads inner).run_bind fun tag _ => ?_
  have afterName := tag.suffix.trans inner
  let deeper : State := { state with depth := state.depth + 1 }
  have counted := @run_incrementDepth source tag.rest state ledger setting.options
  dsimp only
  by_cases deep : setting.options.maxDepth ≤ state.depth
  · rw [if_pos deep] at counted ⊢
    rw [run_bind, counted]
    rfl
  · rw [if_neg deep] at counted ⊢
    rw [run_bind_of_ok counted]
    have body := (List.dropWhile_suffix isBlank).trans tag.suffix
    rw [run_createNode_bind, run_appendChild_bind, State.holding_at, State.holding_at,
      run_rounds_bind afterName]
    have entities : deeper.table = setting.table := entities
    refine run_bind_answer_ok (run_attributeList entities state.arena parent tag.value [] rfl rfl
      afterName inner body (Nat.lt_succ_self _)) fun read found => ?_
    rw [← name_of_attributeList found]
    rfl

end Elements

end XmlSelect.Machine
