import Mathlib.Data.List.Induction
import XmlSelect.Proofs.LedgerInvariant
import XmlSelect.Proofs.StoppingPlaces

/-! The places that are reported. Warnings and the fault that ends reading are each placed at the
rest of the text that was left; what is left only gets shorter, so that the places come in the order
of the text, and each is the one behind what stands in front of that rest. -/
namespace XmlSelect

namespace Location

/-- The place is one of a text, behind one of its beginnings: the offset is the size of this one in
bytes, the line is one more than the line feeds in it, and the column is one more than the
characters behind the last of them. -/
structure In (source : Text) (place : Location) : Prop where
  within : place.offset ≤ Text.byteLength source
  behind : ∃ before, before <+: source ∧ place.offset = Text.byteLength before ∧
    place.line = 1 + before.count '\n' ∧
    place.column = 1 + (before.reverse.takeWhile (· != '\n')).length

/-- The column is one more than the characters behind the last line feed. -/
theorem column_after (text : Text) :
    (after text).column = 1 + (text.reverse.takeWhile (· != '\n')).length := by
  induction text using List.reverseRecOn with
  | nil => rfl
  | append_singleton text c ih =>
    rw [after_append, advance, List.reverse_append, List.reverse_singleton, List.singleton_append]
    by_cases feed : c = '\n'
    · simp [feed]
    · simp [feed, ih]
      omega

theorem offset_ofRest {source rest : Text} (suffix : rest <:+ source) :
    (ofRest source rest).offset + Text.byteLength rest = Text.byteLength source := by
  obtain ⟨before, rfl⟩ := suffix
  rw [ofRest_append, offset_after, Text.byteLength_append]

theorem in_ofRest {source rest : Text} (suffix : rest <:+ source) :
    (ofRest source rest).In source := by
  have total := offset_ofRest suffix
  obtain ⟨before, rfl⟩ := suffix
  refine ⟨by omega, before, List.prefix_append _ _, ?_⟩
  rw [ofRest_append]
  exact ⟨offset_after before, line_after before, column_after before⟩

/-- The less of a text is left, the greater is the offset. -/
theorem offset_ofRest_le {source earlier later : Text} (suffix : earlier <:+ source)
    (behind : later <:+ earlier) :
    (ofRest source earlier).offset ≤ (ofRest source later).offset := by
  have here := offset_ofRest suffix
  have there := offset_ofRest (behind.trans suffix)
  obtain ⟨between, rfl⟩ := behind
  rw [Text.byteLength_append] at here
  omega

end Location

namespace Markup

section Ledgers

variable {text rest further : Text} {ledger : Ledger}

/-- The warnings so far are placed in the order of a text, and none behind the rest of it. -/
structure Ledger.Upto (ledger : Ledger) (text rest : Text) : Prop where
  ordered : ledger.warnings.Pairwise fun earlier later => later.2 <:+ earlier.2
  placed : ∀ warning ∈ ledger.warnings, warning.2 <:+ text ∧ rest <:+ warning.2
  here : rest <:+ text

theorem Ledger.Upto.start (text : Text) : ({} : Ledger).Upto text text :=
  ⟨.nil, nofun, List.suffix_refl text⟩

theorem Ledger.Upto.advance (upto : ledger.Upto text rest) (behind : further <:+ rest) :
    ledger.Upto text further :=
  ⟨upto.ordered, fun warning member => (upto.placed warning member).imp_right behind.trans,
    behind.trans upto.here⟩

theorem Ledger.Upto.congr (upto : ledger.Upto text rest) {other : Ledger}
    (same : other.warnings = ledger.warnings) : other.Upto text rest :=
  ⟨same ▸ upto.ordered, same ▸ upto.placed, upto.here⟩

theorem Ledger.Upto.warn (upto : ledger.Upto text rest) (warning : Warning) :
    (ledger.warn warning rest).Upto text rest := by
  refine ⟨?_, ?_, upto.here⟩
  · refine List.pairwise_append.mpr ⟨upto.ordered, List.pairwise_singleton .., ?_⟩
    exact fun earlier member later last =>
      List.mem_singleton.mp last ▸ (upto.placed earlier member).2
  · refine List.forall_mem_append.mpr ⟨upto.placed, List.forall_mem_singleton.mpr ?_⟩
    exact ⟨upto.here, List.suffix_refl rest⟩

end Ledgers

/-- At its end or at a fault, reading has placed its warnings in the order of the text. -/
def Orderly {α : Type} (text : Text) (ledger : α → Ledger) (rest : α → Text) :
    Except Failure α → Prop
  | .ok result => (ledger result).Upto text (rest result)
  | .error failure => failure.ledger.Upto text failure.rest

section Outcomes

variable {α β : Type} {text source : Text} {ledger : α → Ledger} {rest : α → Text}
  {ledger' : β → Ledger} {rest' : β → Text}

theorem Orderly.bind {outcome : Except Failure α} {next : α → Except Failure β}
    (first : Orderly text ledger rest outcome)
    (further : ∀ result, outcome = .ok result → (ledger result).Upto text (rest result) →
      Orderly text ledger' rest' (next result)) :
    Orderly text ledger' rest' (outcome >>= next) := by
  cases outcome with
  | ok result => exact further result rfl first
  | error failure => exact first

theorem orderly_withLedger {before : Ledger} {whole : Text} (upto : before.Upto text source)
    {outcome : Except Stop (Read whole α)} (halts : Halts source outcome)
    (within : whole <:+ source) :
    Orderly text (fun _ => before) (·.rest) (withLedger before outcome) := by
  cases outcome with
  | ok result => exact upto.advance (result.suffix.trans within)
  | error stop => exact upto.advance halts

end Outcomes

section Expansions

variable {expansion : Expansion} {text : Text} {ledger : Ledger}

namespace Expansion

theorem rest_of_count {failure : Failure} (stuck : expansion.count ledger = .error failure) :
    failure.rest = expansion.rest := by
  unfold count at stuck
  split at stuck
  · cases stuck
  · cases stuck
    rfl

theorem rest_of_replacement {name : Text} {entity : Entity} {failure : Failure}
    (stuck : expansion.replacement ledger name entity = .error failure) :
    failure.rest = expansion.rest := by
  unfold replacement at stuck
  split at stuck
  · cases stuck
  · split at stuck
    · cases stuck
      rfl
    · split at stuck
      · cases stuck
      · split at stuck
        · cases stuck
          rfl
        · dsimp only at stuck
          split at stuck
          · cases stuck
          · cases stuck
            rfl

mutual

theorem rest_of_named {available : EntityTable} {ledger : Ledger} {name : Text}
    {failure : Failure}
    (stuck : expansion.named available ledger name = .error failure) :
    failure.rest = expansion.rest := by
  unfold named at stuck
  split at stuck
  · cases stuck
  · split at stuck
    · split at stuck <;> cases stuck <;> rfl
    · rename_i found
      have fewer := EntityTable.length_without found
      obtain count | ⟨counted, -, stuck⟩ := bind_error stuck
      · exact rest_of_count count
      · obtain replaced | ⟨⟨replacement, after⟩, -, stuck⟩ := bind_error stuck
        · exact rest_of_replacement replaced
        · cases replacement with
          | none => cases stuck
          | some text => exact rest_of_replaced stuck
termination_by (available.length, 0)
decreasing_by exact Prod.Lex.left _ _ fewer

theorem rest_of_replaced {available : EntityTable} {ledger : Ledger} {text : Text}
    {failure : Failure}
    (stuck : expansion.replaced available ledger text = .error failure) :
    failure.rest = expansion.rest := by
  rw [replaced_eq] at stuck
  split at stuck
  · cases stuck
  · rename_i opened
    split at stuck
    · cases stuck
      rfl
    · rename_i reference later closed
      have shorter : later.length + 1 < text.length + 1 := by
        rw [Text.append_of_breakOn? opened, Text.append_of_breakOn? closed]
        simp only [List.length_append, List.length_cons, List.length_nil]
        omega
      have behind {after : Ledger} {front : Text} {failure : Failure}
          (stuck : (expansion.replaced available after later >>= fun read =>
            return (front ++ read.1, read.2)) = .error failure) :
          failure.rest = expansion.rest := by
        obtain further | ⟨_, -, stuck⟩ := bind_error stuck
        · exact rest_of_replaced further
        · cases stuck
      split at stuck
      · split at stuck
        · exact behind stuck
        · cases stuck
          rfl
      · obtain here | ⟨_, -, stuck⟩ := bind_error stuck
        · exact rest_of_named here
        · exact behind stuck
termination_by (available.length, text.length + 1)
decreasing_by
  · exact Prod.Lex.right _ shorter
  · exact Prod.Lex.right _ (Nat.succ_pos _)

end

/-- Whatever an expansion does, it reports at the place behind the reference. -/
theorem named_orderly {available : EntityTable} {name : Text}
    (upto : ledger.Upto text expansion.rest) (within : available.Within expansion.table) :
    Orderly text (·.2) (fun _ => expansion.rest) (expansion.named available ledger name) := by
  have keeps : expansion.Keeps (·.Upto text expansion.rest) := by
    intro before counted name entity upto count _
    obtain ⟨-, rfl⟩ := expansions_of_count count
    have spent : (before.spend 1).Upto text expansion.rest := upto.congr rfl
    exact replacement_kept spent spent.warn fun _ _ _ _ _ => spent.congr rfl
  have kept := named_kept keeps name within upto
  cases read : expansion.named available ledger name with
  | ok result => exact kept.of_ok read
  | error failure =>
    rw [read] at kept
    rw [Orderly, rest_of_named read]
    exact kept

end Expansion

end Expansions

section Tags

variable {setting : Setting} {text source : Text} {ledger : Ledger}

theorem reference_orderly (place : Place) (upto : ledger.Upto text source) :
    Orderly text (·.value.2) (·.rest) (reference setting place ledger source) := by
  unfold reference
  split
  · have inner := upto.advance (List.suffix_cons '#' _)
    exact .bind (orderly_withLedger inner (charReference_halts _) (List.suffix_refl _))
      fun _ _ upto => upto
  · refine .bind (orderly_withLedger upto (name_halts _) (List.suffix_refl _))
      fun entity _ upto => ?_
    refine .bind (orderly_withLedger upto (expect_halts _ _) (List.suffix_refl _))
      fun semicolon _ upto => ?_
    exact .bind (Expansion.named_orderly upto fun _ _ => id) fun _ _ upto => upto

theorem attributeText_orderly (quote : Char) (whole : Text) (upto : ledger.Upto text source)
    (done : Text) (within : source <:+ whole) :
    Orderly text (·.value.2) (·.rest)
      (attributeText setting quote whole ledger done source within) := by
  fun_induction attributeText with
  | case1 => exact upto
  | case2 => exact upto.advance (List.suffix_cons _ _)
  | case3 => exact upto
  | case4 =>
    rename_i ih
    have inner := upto.advance (List.suffix_cons _ _)
    exact .bind (reference_orderly _ inner) fun value _ upto => ih _ _ _ value.suffix upto
  | case5 =>
    rename_i ih
    exact .bind (orderly_withLedger upto (nextChar_halts _ _) (List.suffix_cons _ _))
      fun next _ upto => ih _ _ next.suffix upto

theorem attributeValue_orderly (upto : ledger.Upto text source) :
    Orderly text (·.value.2) (·.rest) (attributeValue setting ledger source) := by
  unfold attributeValue
  split
  · exact upto
  · split
    · exact attributeText_orderly _ _ (upto.advance (List.suffix_cons _ _)) _ _
    · exact upto

theorem attributeList_orderly (element whole : Text) (upto : ledger.Upto text source)
    (done : List Attribute) (spaced : Bool) (within : source <:+ whole) :
    Orderly text (·.value.2) (·.rest)
      (attributeList setting element whole ledger done spaced source within) := by
  fun_induction attributeList with
  | case1 =>
    rename_i closed _
    exact upto.advance closed
  | case2 =>
    rename_i closed _
    exact upto.advance closed
  | case3 => exact upto
  | case4 => exact upto
  | case5 =>
    rename_i ih
    refine .bind (orderly_withLedger upto (nameFrom_halts _ _) (List.suffix_cons _ _))
      fun key _ upto => ?_
    refine .bind (orderly_withLedger (upto.advance (List.dropWhile_suffix isBlank))
      (expect_halts _ _) (List.suffix_refl _)) fun sign _ upto => ?_
    refine .bind (attributeValue_orderly (upto.advance (List.dropWhile_suffix isBlank))) ?_
    rintro ⟨⟨value, expanded⟩, after, valued⟩ - upto
    dsimp only
    split
    · exact upto
    · exact ih _ _ key.suffix _ (List.dropWhile_suffix _) _ sign.suffix _
        (List.dropWhile_suffix _) _ _ _ valued _ _ (List.dropWhile_suffix _)
        (upto.advance (List.dropWhile_suffix isBlank))

theorem startTag_orderly (depth : Nat) (upto : ledger.Upto text source) :
    Orderly text (·.value.2) (·.rest) (startTag setting depth ledger source) := by
  refine .bind (orderly_withLedger upto (name_halts _) (List.suffix_refl _))
    fun element _ upto => ?_
  dsimp only
  split
  · exact upto
  · exact attributeList_orderly _ _ (upto.advance (List.dropWhile_suffix isBlank)) _ _ _

theorem content_orderly (whole : Text) (inner : OpenElement) (outer : List OpenElement)
    (pending : Text) (upto : ledger.Upto text source) (within : source <:+ whole) :
    Orderly text (·.value.2) (·.rest)
      (content setting whole inner outer pending ledger source within) := by
  fun_induction content with
  | case1 => exact upto
  | case2 =>
    rename_i slash _ _ ih
    have behind := upto.advance (slash.trans (List.suffix_cons _ _))
    refine .bind (orderly_withLedger behind (endTag_halts _ _) (List.suffix_refl _))
      fun closed _ upto => ?_
    dsimp only
    split
    · exact upto
    · exact ih _ closed.suffix _ _ upto
  | case3 =>
    rename_i found _ ih
    have behind := upto.advance (List.suffix_cons _ _)
    exact .bind (orderly_withLedger behind (contentLeaf?_halts found) (List.suffix_refl _))
      fun leaf _ upto => ih _ _ leaf.suffix upto
  | case4 =>
    rename_i closed opened
    refine .bind (startTag_orderly _ (upto.advance (List.suffix_cons _ _))) fun tag _ upto => ?_
    dsimp only
    split
    · rename_i ended
      exact closed _ _ _ tag.suffix upto
    · exact opened _ _ _ tag.suffix upto
  | case5 =>
    rename_i ih
    exact .bind (reference_orderly _ (upto.advance (List.suffix_cons _ _)))
      fun value _ upto => ih _ _ _ value.suffix upto
  | case6 => exact upto
  | case7 =>
    rename_i ih
    exact .bind (orderly_withLedger upto (nextChar_halts _ _) (List.suffix_cons _ _))
      fun next _ upto => ih _ _ next.suffix upto

theorem rootElement_orderly (upto : ledger.Upto text source) :
    Orderly text (·.value.2) (·.rest) (rootElement setting ledger source) := by
  refine .bind (startTag_orderly _ upto) fun tag _ upto => ?_
  dsimp only
  split
  · exact upto
  · exact content_orderly _ _ _ _ upto _

end Tags

section Documents

variable {text source : Text} {ledger : Ledger}

theorem internalSubset_orderly (whole : Text) (table : EntityTable)
    (upto : ledger.Upto text source) (within : source <:+ whole) :
    Orderly text (·.value.2) (·.rest) (internalSubset whole table ledger source within) := by
  fun_induction internalSubset with
  | case1 => exact upto
  | case2 => exact upto.advance (List.suffix_cons _ _)
  | case3 =>
    rename_i ih
    have inner := upto.advance (List.suffix_cons _ _)
    refine .bind (orderly_withLedger inner (name_halts _) (List.suffix_refl _))
      fun entity _ upto => ?_
    refine .bind (orderly_withLedger upto (expect_halts _ _) (List.suffix_refl _))
      fun semicolon _ upto => ?_
    exact ih _ _ entity.suffix _ semicolon.suffix _ (List.dropWhile_suffix _)
      ((upto.warn _).advance (List.dropWhile_suffix isBlank))
  | case4 =>
    rename_i ih
    refine .bind (orderly_withLedger upto (subsetItem_halts _ _ (List.suffix_cons _ _))
      (List.suffix_cons _ _)) fun declared _ upto => ?_
    exact ih _ _ declared.suffix _ (List.dropWhile_suffix _)
      (upto.advance (List.dropWhile_suffix isBlank))
  | case5 => exact upto

theorem optionalSubset_orderly (upto : ledger.Upto text source) :
    Orderly text (·.value.2) (·.rest) (optionalSubset ledger source) := by
  unfold optionalSubset
  split
  · have inner := upto.advance ((List.dropWhile_suffix isBlank).trans (List.suffix_cons '[' _))
    exact .bind (internalSubset_orderly _ _ inner _)
      fun _ _ upto => upto.advance (List.dropWhile_suffix isBlank)
  · exact upto

theorem doctype_orderly (upto : ledger.Upto text source) :
    Orderly text (·.value.ledger) (·.rest) (doctype ledger source) := by
  refine .bind (orderly_withLedger upto (requireBlank_halts _) (List.suffix_refl _))
    fun blanks _ upto => ?_
  refine .bind (orderly_withLedger upto (name_halts _) (List.suffix_refl _))
    fun declared _ upto => ?_
  refine .bind (orderly_withLedger (upto.advance (List.dropWhile_suffix isBlank))
    (externalId_halts _) (List.suffix_refl _)) fun identifiers _ upto => ?_
  refine .bind (optionalSubset_orderly (upto.advance (List.dropWhile_suffix isBlank)))
    fun subset _ upto => ?_
  exact .bind (orderly_withLedger upto (expect_halts _ _) (List.suffix_refl _))
    fun _ _ upto => upto

theorem topLevel_orderly (options : Options) (progress : Progress)
    (upto : progress.ledger.Upto text source) :
    Orderly text (·.ledger) (fun _ => []) (topLevel options progress source) := by
  fun_induction topLevel with
  | case1 => exact upto
  | case2 => exact upto
  | case3 =>
    rename_i found ih
    have inner := upto.advance (List.suffix_cons _ _)
    refine .bind (orderly_withLedger inner (commentOrInstruction?_halts found)
      (List.suffix_refl _)) fun leaf _ upto => ?_
    exact ih _ _ leaf.suffix _ (List.dropWhile_suffix _)
      (upto.advance (List.dropWhile_suffix isBlank))
  | case4 => exact upto
  | case5 =>
    rename_i word _ _ _ ih
    refine .bind (doctype_orderly (upto.advance (word.trans (List.suffix_cons _ _))))
      fun declared _ upto => ?_
    exact ih _ _ declared.suffix _ (List.dropWhile_suffix _)
      (upto.advance (List.dropWhile_suffix isBlank))
  | case6 => exact upto
  | case7 =>
    rename_i ih
    refine .bind (rootElement_orderly (upto.advance (List.suffix_cons _ _)))
      fun element _ upto => ?_
    exact ih _ _ _ element.suffix _ (List.dropWhile_suffix _)
      (upto.advance (List.dropWhile_suffix isBlank))
  | case8 => exact upto

end Documents

/-- The places that come out of reading: those of the warnings and then that of the fault. -/
def reportedPlaces : Except ParseError Reading → List Location
  | .ok reading => reading.diagnostics.map (·.place)
  | .error error => error.diagnostics.map (·.place) ++ [error.place]

/-- The places of an orderly ledger, and then the one at the rest of the text. -/
theorem places_of_upto {source rest : Text} {ledger : Ledger} (upto : ledger.Upto source rest) :
    let places := (ledger.diagnostics source).map (·.place) ++ [.ofRest source rest]
    (∀ place ∈ places, place.In source) ∧ places.Pairwise (·.offset ≤ ·.offset) := by
  have same : (ledger.diagnostics source).map (·.place) =
      ledger.warnings.map fun warning => .ofRest source warning.2 := by
    simp [Ledger.diagnostics, Function.comp_def]
  dsimp only
  rw [same]
  constructor
  · refine List.forall_mem_append.mpr ⟨?_, List.forall_mem_singleton.mpr ?_⟩
    · exact List.forall_mem_map.mpr fun warning member =>
        Location.in_ofRest (upto.placed warning member).1
    · exact Location.in_ofRest upto.here
  · refine List.pairwise_append.mpr ⟨?_, List.pairwise_singleton .., ?_⟩
    · refine List.pairwise_map.mpr (upto.ordered.imp_of_mem ?_)
      exact fun member _ behind => Location.offset_ofRest_le (upto.placed _ member).1 behind
    · intro place member last here
      obtain ⟨warning, warned, rfl⟩ := List.mem_map.mp member
      obtain ⟨within, behind⟩ := upto.placed warning warned
      exact List.mem_singleton.mp here ▸ Location.offset_ofRest_le within behind

/-- Every place that is reported is one of the text, and the offsets never decrease. -/
theorem reportedPlaces_ordered (options : Options) (source : Text) :
    (∀ place ∈ reportedPlaces (parse options source), place.In source) ∧
      (reportedPlaces (parse options source)).Pairwise (·.offset ≤ ·.offset) := by
  unfold parse
  dsimp only
  generalize read : withLedger {} (optionalDeclaration source) >>= _ = outcome
  have orderly : Orderly source (·.2.ledger) (fun _ => []) outcome := by
    rw [← read]
    refine .bind (orderly_withLedger (.start source) (optionalDeclaration_halts source)
      (List.suffix_refl source)) fun declared _ upto => ?_
    exact .bind (topLevel_orderly options {} (upto.advance (List.dropWhile_suffix isBlank)))
      fun _ _ upto => upto
  cases outcome with
  | error failure => exact places_of_upto orderly
  | ok result =>
    obtain ⟨places, ordered⟩ := places_of_upto orderly
    exact ⟨(List.forall_mem_append.mp places).1, (List.pairwise_append.mp ordered).1⟩

/-- A warning, and a fault behind a line end of two characters. -/
example : reportedPlaces (parse {} "<!DOCTYPE a [%p;]>\n<é>\r\n&x;</é>".toList) =
    [⟨1, 17, 16⟩, ⟨3, 4, 28⟩] := by
  decide +kernel

end Markup

end XmlSelect
