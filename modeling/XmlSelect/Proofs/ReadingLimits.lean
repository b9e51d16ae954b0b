import XmlSelect.Proofs.LedgerInvariant
import XmlSelect.Proofs.RootElement

/-! The two limits of reading. Nothing depends on them but whether reading goes on: with any other
limits that the nesting of the elements and the number of expansions keep to, a document is read the
same way, and with all others it is not read. -/
namespace XmlSelect.Markup

/-- The same options with other limits. -/
def Options.limited (options : Options) (depth expansions : Nat) : Options :=
  { options with maxDepth := depth, maxExpansions := expansions }

theorem Options.limited_limited (options : Options) (depth expansions depth' expansions' : Nat) :
    (options.limited depth expansions).limited depth' expansions' =
      options.limited depth' expansions' := rfl

def Setting.limited (setting : Setting) (depth expansions : Nat) : Setting :=
  { setting with options := setting.options.limited depth expansions }

def Expansion.limited (expansion : Expansion) (depth expansions : Nat) : Expansion :=
  { expansion with options := expansion.options.limited depth expansions }

section Growth

/-- Expansions are never taken back. -/
theorem grows_keeps (setting : Setting) (place : Place) (least : Nat) :
    setting.Keeps place (least ≤ ·.expansions) := by
  intro rest ledger counted name entity start count found
  obtain ⟨-, rfl⟩ := expansions_of_count count
  have more : least ≤ ledger.expansions + 1 := Nat.le_succ_of_le start
  exact replacement_kept more (fun _ => more) fun _ _ _ _ _ => more

/-- There are never more expansions than the limit allows. -/
theorem limit_keeps (setting : Setting) (place : Place) :
    setting.Keeps place (·.expansions ≤ setting.options.maxExpansions) := by
  intro rest ledger counted name entity start count found
  obtain ⟨below, rfl⟩ := expansions_of_count count
  exact replacement_kept below (fun _ => below) fun _ _ _ _ _ => below

/-- Nothing is expanded in a document type declaration. -/
theorem doctype_expansions {ledger : Ledger} {source : Text} {declared : Read source Doctype}
    (found : doctype ledger source = .ok declared) :
    declared.value.ledger.expansions = ledger.expansions := by
  have kept : Kept (·.expansions = ledger.expansions) (·.value.ledger) (doctype ledger source) :=
    doctype_kept (fun _ _ _ => id) (Eq.refl ledger.expansions) source
  exact kept.of_ok found

end Growth

namespace Expansion

variable {expansion : Expansion} {depth expansions : Nat}

theorem count_limited {ledger counted : Ledger} (count : expansion.count ledger = .ok counted)
    (few : counted.expansions ≤ expansions) :
    (expansion.limited depth expansions).count ledger = .ok counted := by
  obtain ⟨-, rfl⟩ := expansions_of_count count
  exact if_pos few

theorem replacement_limited (ledger : Ledger) (name : Text) (entity : Entity) :
    (expansion.limited depth expansions).replacement ledger name entity =
      expansion.replacement ledger name entity := by
  cases entity <;> rfl

theorem replacement_grows {ledger after : Ledger} {name : Text} {entity : Entity}
    {replacement : Option Text}
    (replaced : expansion.replacement ledger name entity = .ok (replacement, after)) :
    ledger.expansions ≤ after.expansions := by
  have kept : Kept (ledger.expansions ≤ ·.expansions) (·.2)
      (expansion.replacement ledger name entity) :=
    replacement_kept (Nat.le_refl _) (fun _ => Nat.le_refl _) fun _ _ _ _ _ => Nat.le_refl _
  exact kept.of_ok replaced

theorem replaced_grows {available : EntityTable} (within : available.Within expansion.table)
    {ledger : Ledger} {text : Text} {result : Text × Ledger}
    (read : expansion.replaced available ledger text = .ok result) :
    ledger.expansions ≤ result.2.expansions := by
  have keeps : expansion.Keeps (ledger.expansions ≤ ·.expansions) :=
    grows_keeps ⟨expansion.options, expansion.table⟩ expansion.place _ expansion.rest
  have kept : Kept (ledger.expansions ≤ ·.expansions) (·.2)
      (expansion.replaced available ledger text) :=
    replaced_kept_of (Nat.le_refl _) fun before name more => named_kept keeps name within more
  exact kept.of_ok read

mutual

theorem named_limited {available : EntityTable} (within : available.Within expansion.table)
    {ledger : Ledger} {name : Text} {result : Text × Ledger}
    (read : expansion.named available ledger name = .ok result)
    (few : result.2.expansions ≤ expansions) :
    (expansion.limited depth expansions).named available ledger name = .ok result := by
  refine named_eq_ok_iff.mpr ((named_eq_ok_iff.mp read).imp id ?_)
  rintro ⟨entity, counted, replacement, after, unknown, found, count, replaced, read⟩
  have more := replacement_grows replaced
  rw [← replacement_limited] at replaced
  cases replacement with
  | none =>
    subst read
    exact ⟨entity, counted, none, after, unknown, found, count_limited count (more.trans few),
      replaced, rfl⟩
  | some text =>
    have later := replaced_grows (within.without name) read
    exact ⟨entity, counted, some text, after, unknown, found,
      count_limited count ((more.trans later).trans few), replaced,
      replaced_limited (within.without name) read few⟩
termination_by (available.length, 0)
decreasing_by exact Prod.Lex.left _ _ (EntityTable.length_without found)

theorem replaced_limited {available : EntityTable} (within : available.Within expansion.table)
    {ledger : Ledger} {text : Text} {result : Text × Ledger}
    (read : expansion.replaced available ledger text = .ok result)
    (few : result.2.expansions ≤ expansions) :
    (expansion.limited depth expansions).replaced available ledger text = .ok result := by
  refine replaced_eq_ok_iff.mpr ((replaced_eq_ok_iff.mp read).imp id ?_)
  rintro ⟨before, behind, reference, later, value, counted, rest, after, opened, closed, here,
    further, rfl⟩
  have more := replaced_grows within further
  refine ⟨before, behind, reference, later, value, counted, rest, after, opened, closed,
    here.imp id fun ⟨other, named⟩ => ⟨other, named_limited within named (more.trans few)⟩,
    replaced_limited within further few, rfl⟩
termination_by (available.length, text.length + 1)
decreasing_by
  · exact Prod.Lex.right _ (Nat.succ_pos _)
  · have opening := congrArg List.length (Text.append_of_breakOn? opened)
    have closing := congrArg List.length (Text.append_of_breakOn? closed)
    simp only [List.length_append, List.length_cons, List.length_nil] at opening closing
    exact Prod.Lex.right _ (by omega)

end

end Expansion

section Tags

variable {setting : Setting} {depth expansions : Nat} {ledger : Ledger}

theorem reference_limited {place : Place} {source : Text} {result : Read source (Text × Ledger)}
    (read : reference setting place ledger source = .ok result)
    (few : result.value.2.expansions ≤ expansions) :
    reference (setting.limited depth expansions) place ledger source = .ok result := by
  unfold reference at read ⊢
  split at read
  · exact read
  · obtain ⟨entity, read₁, read⟩ := bind_ok read
    obtain ⟨semicolon, read₂, read⟩ := bind_ok read
    obtain ⟨expanded, read₃, read⟩ := bind_ok read
    cases read
    exact bind_of_ok read₁ (bind_of_ok read₂
      (bind_of_ok (Expansion.named_limited (fun _ _ => id) read₃ few) rfl))

theorem attributeText_limited {quote : Char} {whole done source : Text} {within : source <:+ whole}
    {result : Read whole (Text × Ledger)}
    (read : attributeText setting quote whole ledger done source within = .ok result)
    (few : result.value.2.expansions ≤ expansions) :
    attributeText (setting.limited depth expansions) quote whole ledger done source within =
      .ok result := by
  fun_induction attributeText setting quote whole ledger done source within with
  | case1 => cases read
  | case2 =>
    rename_i closing _
    rw [attributeText, if_pos closing]
    exact read
  | case3 => cases read
  | case4 =>
    rename_i other less ampersand _ ih
    obtain ⟨value, referred, read⟩ := bind_ok read
    have more := (attributeText_kept (grows_keeps _ _ _) _ _ (Nat.le_refl _) _ _ _).of_ok read
    rw [attributeText, if_neg other, if_neg less, if_pos ampersand]
    exact bind_of_ok (reference_limited referred (more.trans few)) (ih _ _ _ value.suffix read)
  | case5 =>
    rename_i other less ampersand _ ih
    obtain ⟨next, taken, read⟩ := bind_ok read
    rw [attributeText, if_neg other, if_neg less, if_neg ampersand]
    exact bind_of_ok taken (ih _ _ next.suffix read)

theorem attributeValue_limited {source : Text} {result : Read source (Text × Ledger)}
    (read : attributeValue setting ledger source = .ok result)
    (few : result.value.2.expansions ≤ expansions) :
    attributeValue (setting.limited depth expansions) ledger source = .ok result := by
  unfold attributeValue at read ⊢
  split at read
  · cases read
  · split at read
    · rename_i quoted
      rw [if_pos quoted]
      exact attributeText_limited read few
    · cases read

theorem attributeList_limited {element whole source : Text} {done : List Attribute} {spaced : Bool}
    {within : source <:+ whole} {result : Read whole (StartTag × Ledger)}
    (read : attributeList setting element whole ledger done spaced source within = .ok result)
    (few : result.value.2.expansions ≤ expansions) :
    attributeList (setting.limited depth expansions) element whole ledger done spaced source
      within = .ok result := by
  fun_induction attributeList setting element whole ledger done spaced source within with
  | case1 =>
    rename_i ended
    rw [attributeList.eq_def, ended]
    exact read
  | case2 =>
    rename_i open_ _ _ _ ended
    rw [attributeList.eq_def, open_]
    dsimp only
    rw [ended]
    exact read
  | case3 => cases read
  | case4 => cases read
  | case5 =>
    rename_i blank _ open_ unclosed ih
    obtain ⟨key, named, read⟩ := bind_ok read
    obtain ⟨sign, signed, read⟩ := bind_ok read
    obtain ⟨⟨⟨value, expanded⟩, after, valued⟩, given, read⟩ := bind_ok read
    dsimp only at read
    split at read
    · cases read
    · rename_i fresh
      have more := (attributeList_kept (grows_keeps _ _ _) _ _ (Nat.le_refl _) _ _ _ _).of_ok read
      rw [attributeList.eq_def, open_]
      dsimp only
      rw [unclosed]
      dsimp only
      rw [if_neg blank]
      refine bind_of_ok named (bind_of_ok signed ?_)
      refine bind_of_ok (attributeValue_limited given (more.trans few)) ?_
      dsimp only
      rw [if_neg fresh]
      exact ih _ _ key.suffix _ (List.dropWhile_suffix _) _ sign.suffix _
        (List.dropWhile_suffix _) _ _ _ valued _ _ (List.dropWhile_suffix _) read

theorem startTag_limited {opened : Nat} {source : Text} {result : Read source (StartTag × Ledger)}
    (read : startTag setting opened ledger source = .ok result) (room : opened < depth)
    (few : result.value.2.expansions ≤ expansions) :
    startTag (setting.limited depth expansions) opened ledger source = .ok result := by
  obtain ⟨element, named, read⟩ := bind_ok read
  dsimp only at read
  split at read
  · cases read
  · unfold startTag
    have shallow : ¬(setting.limited depth expansions).options.maxDepth ≤ opened :=
      Nat.not_le.mpr room
    refine bind_of_ok named ?_
    dsimp only
    rw [if_neg shallow]
    exact attributeList_limited read few

end Tags

section Nesting

variable {setting : Setting} {whole : Text} {depth : Nat}

/-- Nothing that is open becomes less nested: it is shut with all that is inside it. -/
theorem ContentStep.fits_before {before after : ContentState}
    (step : ContentStep setting whole before after) (fits : after.Fits depth) :
    before.Fits depth := by
  obtain ⟨inner, around⟩ := fits
  unfold ContentState.Fits Fit
  rw [← before.height_settled]
  cases step with
  | close outer =>
    rw [OpenElement.content_addElement, Forest.height_append] at inner
    rw [outer]
    simp only [Forest.height, Fit, List.length_cons] at inner around ⊢
    exact ⟨by omega, by omega, around⟩
  | leaf =>
    rw [OpenElement.content_addLeaf, Forest.height_append] at inner
    dsimp only at inner
    exact ⟨by omega, around⟩
  | closed =>
    rw [OpenElement.content_addElement, Forest.height_append] at inner
    dsimp only at inner
    exact ⟨by omega, around⟩
  | opened => exact around
  | reference => exact ⟨before.height_settled ▸ inner, around⟩
  | character => exact ⟨before.height_settled ▸ inner, around⟩

theorem content_fits {inner : OpenElement} {outer : List OpenElement} {pending : Text}
    {ledger : Ledger} {source : Text} {within : source <:+ whole}
    {result : Read whole (OpenElement × Ledger)}
    (read : content setting whole inner outer pending ledger source within = .ok result)
    (height : result.value.1.content.height < depth) : Fit depth (inner :: outer) := by
  obtain ⟨last, steps, alone, reached⟩ := content_steps read
  rw [reached, last.height_settled] at height
  have fits : last.Fits depth := ⟨by rwa [alone], alone ▸ trivial⟩
  have start : ContentState.Fits depth ⟨inner, outer, pending⟩ :=
    preserved_back steps (fun _ _ => ContentStep.fits_before) fits
  exact start

end Nesting

section Content

variable {setting : Setting} {depth expansions : Nat} {ledger : Ledger}

theorem content_limited {whole : Text} {inner : OpenElement} {outer : List OpenElement}
    {pending source : Text} {within : source <:+ whole}
    {result : Read whole (OpenElement × Ledger)}
    (read : content setting whole inner outer pending ledger source within = .ok result)
    (height : result.value.1.content.height < depth)
    (few : result.value.2.expansions ≤ expansions) :
    content (setting.limited depth expansions) whole inner outer pending ledger source within =
      .ok result := by
  have more {inner : OpenElement} {outer : List OpenElement} {pending : Text} {ledger : Ledger}
      {source : Text} {within : source <:+ whole}
      (read : content setting whole inner outer pending ledger source within = .ok result) :
      ledger.expansions ≤ expansions :=
    ((content_kept (grows_keeps _ _ _) (grows_keeps _ _ _) _ _ _ _ (Nat.le_refl _) _ _).of_ok
      read).trans few
  fun_induction content setting whole inner outer pending ledger source within with
  | case1 => cases read
  | case2 =>
    rename_i opening _ _ _ _ slash _ ih
    obtain ⟨closed, ended, read⟩ := bind_ok read
    rw [content, if_pos opening, slash]
    refine bind_of_ok ended ?_
    dsimp only at read ⊢
    split at read
    · exact read
    · exact ih _ closed.suffix _ _ read
  | case3 =>
    rename_i opening _ open_ _ found _ ih
    obtain ⟨leaf, taken, read⟩ := bind_ok read
    rw [content, if_pos opening, open_]
    dsimp only
    rw [found]
    exact bind_of_ok taken (ih _ _ leaf.suffix read)
  | case4 =>
    rename_i opening inner open_ other _ closed opened
    obtain ⟨tag, tagged, read⟩ := bind_ok read
    rw [content, if_pos opening, open_]
    dsimp only
    rw [other]
    dsimp only at read ⊢
    split at read
    · rename_i ended
      have room := (content_fits read height).1
      rw [OpenElement.content_addElement, Forest.height_append, Forest.height] at room
      refine bind_of_ok (startTag_limited tagged (by omega) (more read)) ?_
      rw [if_pos ended]
      exact closed _ _ _ tag.suffix read
    · rename_i ended
      have room := (content_fits read height).1
      rw [List.length_cons] at room
      refine bind_of_ok (startTag_limited tagged (by omega) (more read)) ?_
      rw [if_neg ended]
      exact opened _ _ _ tag.suffix read
  | case5 =>
    rename_i other ampersand _ ih
    obtain ⟨value, referred, read⟩ := bind_ok read
    rw [content, if_neg other, if_pos ampersand]
    exact bind_of_ok (reference_limited referred (more read)) (ih _ _ _ value.suffix read)
  | case6 => cases read
  | case7 =>
    rename_i other ampersand unended _ ih
    obtain ⟨next, taken, read⟩ := bind_ok read
    rw [content, if_neg other, if_neg ampersand, if_neg unended]
    exact bind_of_ok taken (ih _ _ next.suffix read)

theorem rootElement_limited {source : Text} {result : Read source (OpenElement × Ledger)}
    (read : rootElement setting ledger source = .ok result)
    (height : result.value.1.content.height < depth)
    (few : result.value.2.expansions ≤ expansions) :
    rootElement (setting.limited depth expansions) ledger source = .ok result := by
  obtain ⟨tag, tagged, read⟩ := bind_ok read
  have room : 0 < depth := Nat.zero_lt_of_lt height
  dsimp only at read
  split at read
  · rename_i ended
    cases read
    refine bind_of_ok (startTag_limited tagged room few) ?_
    dsimp only
    rw [if_pos ended]
    rfl
  · rename_i ended
    have more := (content_kept (grows_keeps _ _ _) (grows_keeps _ _ _) _ _ _ _ (Nat.le_refl _) _
      _).of_ok read
    refine bind_of_ok (startTag_limited tagged room (more.trans few)) ?_
    dsimp only
    rw [if_neg ended]
    exact content_limited read height few

end Content

section Documents

variable {options : Options} {depth expansions : Nat}

/-- What has been read at the top is nested no deeper, and took no more expansions. -/
def Progress.Limited (depth expansions : Nat) (progress : Progress) : Prop :=
  progress.before.height ≤ depth ∧ progress.ledger.expansions ≤ expansions

theorem TopStep.limited {whole : Text} {before after : Progress}
    (step : TopStep options whole before after)
    (within : before.Limited options.maxDepth options.maxExpansions) :
    after.Limited options.maxDepth options.maxExpansions := by
  cases step with
  | leaf => exact within
  | doctype _ _ found =>
    exact ⟨within.1, (doctype_expansions found).trans_le within.2⟩
  | root _ _ found =>
    exact ⟨Nat.max_le.mpr ⟨rootElement_height found, within.1⟩,
      (rootElement_kept (limit_keeps _ _) (limit_keeps _ _) within.2 _).of_ok found⟩

theorem TopStep.limited_before {whole : Text} {before after : Progress}
    (step : TopStep options whole before after) (within : after.Limited depth expansions) :
    before.Limited depth expansions := by
  cases step with
  | leaf => exact within
  | doctype _ _ found =>
    exact ⟨within.1, (doctype_expansions found).ge.trans within.2⟩
  | root _ _ found =>
    have more := (rootElement_kept (grows_keeps _ _ _) (grows_keeps _ _ _) (Nat.le_refl _)
      _).of_ok found
    exact ⟨(Nat.max_le.mp within.1).2, more.trans within.2⟩

theorem topLevel_limited {progress result : Progress} {source : Text}
    (read : topLevel options progress source = .ok result)
    (within : result.Limited depth expansions) :
    topLevel (options.limited depth expansions) progress source = .ok result := by
  have before {progress : Progress} {source : Text}
      (read : topLevel options progress source = .ok result) : progress.Limited depth expansions :=
    preserved_back (topLevel_steps read (List.suffix_refl _)).1
      (fun _ _ => TopStep.limited_before) within
  fun_induction topLevel options progress source with
  | case1 =>
    rename_i seen
    cases read
    rw [topLevel, if_pos seen]
  | case2 => cases read
  | case3 =>
    rename_i found ih
    obtain ⟨leaf, taken, read⟩ := bind_ok read
    rw [topLevel, found]
    exact bind_of_ok taken (ih _ _ leaf.suffix _ (List.dropWhile_suffix _) read)
  | case4 => cases read
  | case5 =>
    rename_i other _ _ _ word _ misplaced ih
    obtain ⟨declared, found, read⟩ := bind_ok read
    rw [topLevel, other]
    dsimp only
    rw [word]
    dsimp only
    rw [if_neg misplaced]
    exact bind_of_ok found (ih _ _ declared.suffix _ (List.dropWhile_suffix _) read)
  | case6 => cases read
  | case7 =>
    rename_i other ordinary _ unseen ih
    obtain ⟨element, found, read⟩ := bind_ok read
    have limited := before read
    rw [topLevel, other]
    dsimp only
    rw [ordinary]
    dsimp only
    rw [if_neg unseen]
    refine bind_of_ok (rootElement_limited found (Nat.max_le.mp limited.1).1 limited.2) ?_
    exact ih _ _ _ element.suffix _ (List.dropWhile_suffix _) read
  | case8 => cases read

theorem parse_limited {source : Text} {reading : Reading}
    (read : parse options source = .ok reading)
    (height : reading.document.content.height ≤ depth) (few : reading.expansions ≤ expansions) :
    parse (options.limited depth expansions) source = .ok reading := by
  obtain ⟨declared, progress, start, top, rfl⟩ := parse_eq_ok_iff.mp read
  have within : progress.Limited depth expansions :=
    ⟨(Forest.height_reverse progress.before).ge.trans height, few⟩
  exact parse_eq_ok_iff.mpr ⟨declared, progress, start, topLevel_limited top within, rfl⟩

/-- What was read keeps to the limits it was read with. -/
theorem parse_within {source : Text} {reading : Reading}
    (read : parse options source = .ok reading) :
    reading.document.content.height ≤ options.maxDepth ∧
      reading.expansions ≤ options.maxExpansions := by
  obtain ⟨declared, progress, start, top, rfl⟩ := parse_eq_ok_iff.mp read
  have within : progress.Limited options.maxDepth options.maxExpansions :=
    preserved (topLevel_steps top (List.suffix_refl _)).1 (fun _ _ => TopStep.limited)
      ⟨Nat.zero_le _, Nat.zero_le _⟩
  exact ⟨(Forest.height_reverse progress.before).le.trans within.1, within.2⟩

/-- Whatever the limits are under which a document is read, the reading is the same: both are that
under limits wide enough for both. -/
theorem parse_limited_unique {source : Text} {reading other : Reading}
    (read : parse options source = .ok reading)
    (readOther : parse (options.limited depth expansions) source = .ok other) :
    other = reading := by
  have within := parse_within read
  have withinOther := parse_within readOther
  have first := parse_limited read (within.1.trans (Nat.le_max_left _ depth))
    (within.2.trans (Nat.le_max_left _ expansions))
  have second := parse_limited readOther (withinOther.1.trans (Nat.le_max_right options.maxDepth _))
    (withinOther.2.trans (Nat.le_max_right options.maxExpansions _))
  rw [Options.limited_limited] at second
  exact Except.ok.inj (second.symm.trans first)

/-- Both limits are exact, and neither depends on the other. A document that is read under one pair
of limits is read under another pair if and only if its elements are nested no deeper than the one
allows and no more entities are expanded than the other allows; and the reading is the same. -/
theorem parseText_limits {source : Text} {reading : Reading}
    (read : parseText options source = .ok reading) (depth expansions : Nat) :
    ((∃ other, parseText (options.limited depth expansions) source = .ok other) ↔
        reading.document.content.height ≤ depth ∧ reading.expansions ≤ expansions) ∧
      ∀ other, parseText (options.limited depth expansions) source = .ok other →
        other = reading := by
  rw [parseText_eq] at read ⊢
  have unique {other : Reading}
      (again : parse (options.limited depth expansions) (withoutMark source) = .ok other) :
      other = reading := parse_limited_unique read again
  refine ⟨⟨fun ⟨other, again⟩ => ?_, fun ⟨height, few⟩ => ?_⟩, fun _ => unique⟩
  · exact unique again ▸ parse_within again
  · exact ⟨reading, parse_limited read height few⟩

/-- An element in another one, and an entity that refers to another one: with two levels and two
expansions, but not with one of either. -/
theorem parseText_limits_nested :
    let source := "<!DOCTYPE a [<!ENTITY e '&f;'><!ENTITY f 'x'>]><a><b>&e;</b></a>".toList
    ∃ reading, parseText {} source = .ok reading ∧
      (∃ other, parseText (Options.limited {} 2 2) source = .ok other) ∧
      (¬∃ other, parseText (Options.limited {} 1 2) source = .ok other) ∧
      ¬∃ other, parseText (Options.limited {} 2 1) source = .ok other := by
  have measured : (parseText {}
      "<!DOCTYPE a [<!ENTITY e '&f;'><!ENTITY f 'x'>]><a><b>&e;</b></a>".toList).toOption.map
        (fun reading => (reading.document.content.height, reading.expansions)) = some (2, 2) := by
    decide +kernel
  generalize "<!DOCTYPE a [<!ENTITY e '&f;'><!ENTITY f 'x'>]><a><b>&e;</b></a>".toList = source
    at measured ⊢
  dsimp only
  cases read : parseText {} source with
  | error _ => rw [read] at measured; cases measured
  | ok reading =>
    rw [read] at measured
    obtain ⟨height, expansions⟩ := Prod.mk.inj (Option.some.inj measured)
    have limits (depth count : Nat) := (parseText_limits read depth count).1
    simp only [height, expansions] at limits
    exact ⟨reading, rfl, (limits 2 2).mpr (by decide), mt (limits 1 2).mp (by decide),
      mt (limits 2 1).mp (by decide)⟩

end Documents

end XmlSelect.Markup
