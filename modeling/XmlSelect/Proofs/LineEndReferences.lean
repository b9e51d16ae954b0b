import Mathlib.Data.List.Forall2
import XmlSelect.Proofs.LedgerInvariant
import XmlSelect.Proofs.LineEndLexical

/-! Line ends in references and start tags. A table of entities and the same table with line feeds
in the texts of the entities give the same expansions: in attribute values the same text, as all
blanks are spaces there, and in content a text that differs in its line ends at most. -/
namespace XmlSelect.Markup

section Entities

variable {run : Char → Char}

/-- The characters that come out of a text that was changed, where it is put in: in attribute values
they are the same, as all blanks are spaces there. -/
def Place.Kin (place : Place) (run : Char → Char) (c c' : Char) : Prop :=
  c' = c ∨ place = .content ∧ c' = run c

/-- The same entity, but for its text if it is an internal one. -/
def Entity.Fed (run : Char → Char) : Entity → Entity → Prop
  | .internal value, .internal value' => value' = value.map run
  | .external .., .external .. => True
  | _, _ => False

/-- Two tables have the same names, none of them with a line end in it. -/
structure EntityTable.Fed (run : Char → Char) (table table' : EntityTable) : Prop where
  each : ∀ name, Option.Rel (Entity.Fed run) (table.find? name) (table'.find? name)
  named : ∀ name entity, table.find? name = some entity → Lineless name

theorem EntityTable.Fed.named_right {table table' : EntityTable} (same : table.Fed run table')
    {name : Text} {entity : Entity} (found : table'.find? name = some entity) : Lineless name := by
  have each := same.each name
  rw [found] at each
  cases declared : table.find? name with
  | none =>
    rw [declared] at each
    cases each
  | some => exact same.named name _ declared

/-- Texts out of entities that are the same but for their line ends, after as many expansions. -/
def Expanded (place : Place) (run : Char → Char) (first second : Text × Ledger) : Prop :=
  List.Forall₂ (place.Kin run) first.1 second.1 ∧ second.2.expansions = first.2.expansions

theorem EntityTable.Fed.without {table table' : EntityTable} (same : table.Fed run table')
    (name : Text) : (table.without name).Fed run (table'.without name) := by
  refine ⟨fun other => ?_, fun other entity found => ?_⟩
  · by_cases self : other = name
    · rw [self, find?_without_self, find?_without_self]
      exact .none
    · rw [find?_without _ self, find?_without _ self]
      exact same.each other
  · by_cases self : other = name
    · rw [self, find?_without_self] at found
      cases found
    · rw [find?_without _ self] at found
      exact same.named other entity found

theorem lineless_of_predefined? {name : Text} {c : Char} (known : predefined? name = some c) :
    Lineless name := by
  have lineless : ∀ entry ∈ [("amp".toList, '&'), ("lt".toList, '<'), ("gt".toList, '>'),
      ("apos".toList, '\''), ("quot".toList, '"')], Lineless entry.1 := by decide
  exact lineless _ (mem_of_lookup known)

theorem lineless_of_numericReference? {number : Text} {c : Char}
    (known : numericReference? number = some c) : Lineless number := by
  have absent {mark : Char} (other : ¬(mark = '+' ∨ mark = 'x' ∨ isHexDigit mark = true)) :
      mark ∉ number := fun member => other (mem_of_numericReference? known member)
  exact ⟨absent (by decide), absent (by decide)⟩

variable (turns : TurnsReturns run)
include turns

theorem forall₂_kin (place : Place) (text : Text) :
    List.Forall₂ (place.Kin run) (place.normalize text) (place.normalize (text.map run)) := by
  cases place with
  | content =>
    simp only [Place.normalize]
    exact List.forall₂_map_right_iff.mpr (List.forall₂_same.mpr fun _ _ => .inr ⟨rfl, rfl⟩)
  | attributeValue =>
    have blank (c : Char) : (if isBlank (run c) then ' ' else run c) =
        if isBlank c then ' ' else c := by
      rcases turns c with stays | ⟨rfl, turned⟩
      · rw [stays]
      · rw [turned]
        rfl
    simp only [Place.normalize, List.map_map, Function.comp_def, blank]
    exact List.forall₂_same.mpr fun _ _ => .inl rfl

/-- A name is looked up with the same success as it is written and with line feeds in it. -/
theorem EntityTable.Fed.rel_map {table table' : EntityTable} (same : table.Fed run table')
    (name : Text) :
    Option.Rel (Entity.Fed run) (table.find? name) (table'.find? (name.map run)) := by
  by_cases plain : Lineless name
  · rw [turns.map_eq plain.1]
    exact same.each name
  · have absent : table.find? name = none :=
      Option.eq_none_iff_forall_ne_some.mpr fun _ found => plain (same.named _ _ found)
    have absent' : table'.find? (name.map run) = none :=
      Option.eq_none_iff_forall_ne_some.mpr fun _ found =>
        plain (turns.lineless_of_map (same.named_right found))
    rw [absent, absent']
    exact .none

namespace Expansion

variable {options : Options} {place : Place} {table table' : EntityTable} {rest rest' : Text}

omit turns in
theorem count_agree {ledger ledger' : Ledger} (spent : ledger'.expansions = ledger.expansions) :
    Agree (fun counted counted' => counted'.expansions = counted.expansions)
      (count ⟨options, table, place, rest⟩ ledger)
      (count ⟨options, table', place, rest'⟩ ledger') := by
  unfold count
  rw [spent]
  split
  · rfl
  · trivial

omit turns in
theorem replacement_agree (forbidden : options.allowExternal = false) {ledger ledger' : Ledger}
    (spent : ledger'.expansions = ledger.expansions) {entity entity' : Entity}
    (same : entity.Fed run entity') (name name' : Text) :
    Agree (fun first second =>
        Option.Rel (fun text text' => text' = text.map run) first.1 second.1 ∧
          second.2.expansions = first.2.expansions)
      (replacement ⟨options, table, place, rest⟩ ledger name entity)
      (replacement ⟨options, table', place, rest'⟩ ledger' name' entity') := by
  cases entity with
  | internal value => cases entity' with
    | internal value' => exact ⟨.some same, spent⟩
    | external => exact same.elim
  | external => cases entity' with
    | internal => exact same.elim
    | external =>
      unfold replacement
      rw [forbidden]
      dsimp only
      split
      · trivial
      · exact ⟨.none, spent⟩

theorem referred_agree {available available' : EntityTable} {ledger ledger' : Ledger}
    (spent : ledger'.expansions = ledger.expansions) {reference : Text}
    (asName : Agree (Expanded place run)
      (named ⟨options, table, place, rest⟩ available ledger reference)
      (named ⟨options, table', place, rest'⟩ available' ledger' (reference.map run))) :
    Agree (Expanded place run)
      (referred ⟨options, table, place, rest⟩ available ledger reference)
      (referred ⟨options, table', place, rest'⟩ available' ledger' (reference.map run)) := by
  by_cases isNumber : ∃ number, reference = '#' :: number
  · obtain ⟨number, rfl⟩ := isNumber
    rw [List.map_cons, turns.eq_of_ne (by decide : '#' ≠ '\r'), referred_number, referred_number,
      turns.find_map (fun _ _ => lineless_of_numericReference?) number]
    cases numericReference? number with
    | none => trivial
    | some c => exact ⟨.cons (.inl rfl) .nil, spent⟩
  · have other : ∀ number, reference ≠ '#' :: number := fun number same => isNumber ⟨number, same⟩
    have other' : ∀ number, reference.map run ≠ '#' :: number := fun number same => by
      obtain ⟨c, behind, rfl, first, -⟩ := List.map_eq_cons_iff.mp same
      exact other behind (congrArg (· :: behind) ((turns.eq_iff (by decide)).mp first))
    rw [referred_of_name other, referred_of_name other']
    exact asName

mutual

theorem named_agree (forbidden : options.allowExternal = false)
    {available available' : EntityTable} (same : available.Fed run available')
    {ledger ledger' : Ledger} (spent : ledger'.expansions = ledger.expansions) (name : Text) :
    Agree (Expanded place run)
      (named ⟨options, table, place, rest⟩ available ledger name)
      (named ⟨options, table', place, rest'⟩ available' ledger' (name.map run)) := by
  have known := turns.find_map (fun _ _ => lineless_of_predefined?) name
  cases predefined : predefined? name with
  | some c =>
    rw [named_of_predefined predefined, named_of_predefined (known.trans predefined)]
    exact ⟨.cons (.inl rfl) .nil, spent⟩
  | none =>
    have each := same.rel_map turns name
    cases found : available.find? name with
    | none => cases found' : available'.find? (name.map run) with
      | none =>
        exact .of_errors (named_of_absent predefined found)
          (named_of_absent (known.trans predefined) found')
      | some =>
        rw [found, found'] at each
        cases each
    | some entity => cases found' : available'.find? (name.map run) with
      | none =>
        rw [found, found'] at each
        cases each
      | some entity' =>
        rw [found, found'] at each
        rw [named_of_declared predefined found,
          named_of_declared (known.trans predefined) found']
        obtain ⟨fed⟩ := each
        refine (count_agree spent).bind fun counted counted' _ _ spent => ?_
        refine (replacement_agree forbidden spent fed name _).bind ?_
        rintro ⟨text, after⟩ ⟨text', after'⟩ _ _ ⟨related, spent⟩
        cases related with
        | none => exact ⟨.nil, spent⟩
        | some mapped =>
          subst mapped
          rw [turns.map_eq (same.named name entity found).1]
          exact replaced_agree forbidden (same.without name) spent _
termination_by (available.length, 0)
decreasing_by exact Prod.Lex.left _ _ (EntityTable.length_without found)

theorem replaced_agree (forbidden : options.allowExternal = false)
    {available available' : EntityTable} (same : available.Fed run available')
    {ledger ledger' : Ledger} (spent : ledger'.expansions = ledger.expansions) (text : Text) :
    Agree (Expanded place run)
      (replaced ⟨options, table, place, rest⟩ available ledger text)
      (replaced ⟨options, table', place, rest'⟩ available' ledger' (text.map run)) := by
  have opened' := turns.breakOn?_map (by decide : Lineless ['&']) text
  cases opened : Text.breakOn? ['&'] text with
  | none =>
    rw [opened] at opened'
    rw [replaced_of_unmarked opened, replaced_of_unmarked opened']
    exact ⟨forall₂_kin turns place text, spent⟩
  | some parts =>
    obtain ⟨before, behind⟩ := parts
    rw [opened, Option.map_some] at opened'
    have closed' := turns.breakOn?_map (by decide : Lineless [';']) behind
    cases closed : Text.breakOn? [';'] behind with
    | none =>
      rw [closed, Option.map_none] at closed'
      exact .of_errors (replaced_of_unclosed opened closed) (replaced_of_unclosed opened' closed')
    | some parts =>
      obtain ⟨reference, later⟩ := parts
      rw [closed, Option.map_some] at closed'
      rw [replaced_of_marked opened closed, replaced_of_marked opened' closed']
      have here : Agree (Expanded place run)
          (referred ⟨options, table, place, rest⟩ available ledger reference)
          (referred ⟨options, table', place, rest'⟩ available' ledger' (reference.map run)) :=
        referred_agree turns spent (named_agree forbidden same spent reference)
      refine here.bind fun value value' _ _ ⟨kin, spent⟩ => ?_
      refine (replaced_agree forbidden same spent later).bind
        fun further further' _ _ ⟨behind, spent⟩ => ?_
      exact ⟨List.rel_append (List.rel_append (forall₂_kin turns place before) kin) behind, spent⟩
termination_by (available.length, text.length + 1)
decreasing_by
  · exact Prod.Lex.right _ (Nat.succ_pos _)
  · have opening := congrArg List.length (Text.append_of_breakOn? opened)
    have closing := congrArg List.length (Text.append_of_breakOn? closed)
    simp only [List.length_append, List.length_cons, List.length_nil] at opening closing
    exact Prod.Lex.right _ (by omega)

end

end Expansion

end Entities

section Tags

variable {run : Char → Char} (turns : TurnsReturns run) {options : Options}
  (forbidden : options.allowExternal = false) {table table' : EntityTable}
  (tables : table.Fed run table') {ledger ledger' : Ledger}

/-- The same value, after as many expansions. -/
def Valued {α : Type} (first second : α × Ledger) : Prop :=
  second.1 = first.1 ∧ second.2.expansions = first.2.expansions

theorem Expanded.valued {first second : Text × Ledger}
    (same : Expanded .attributeValue run first second) : Valued first second := by
  refine ⟨?_, same.2⟩
  refine (List.forall₂_eq_eq_eq ▸ same.1.imp fun c c' kin => ?_ : first.1 = second.1).symm
  exact (kin.resolve_right fun elsewhere => nomatch elsewhere.1).symm

theorem reference_number (setting : Setting) (place : Place) (ledger : Ledger) (rest : Text) :
    reference setting place ledger ('#' :: rest) =
      withLedger ledger (charReference rest) >>= fun read =>
        .ok ⟨([read.value], ledger), read.rest, read.suffix.trans (List.suffix_cons _ _)⟩ := rfl

theorem reference_of_name {source : Text} (unmarked : ∀ rest, source ≠ '#' :: rest)
    (setting : Setting) (place : Place) (ledger : Ledger) :
    reference setting place ledger source =
      withLedger ledger (name source) >>= fun entity =>
        withLedger ledger (expect [';'] entity.rest) >>= fun closed =>
          Expansion.named ⟨setting.options, setting.table, place, closed.rest⟩ setting.table ledger
            entity.value >>= fun expanded =>
              .ok ⟨expanded, closed.rest, closed.suffix.trans entity.suffix⟩ := by
  unfold reference
  split
  · exact absurd rfl (unmarked _)
  · rfl

theorem IsName.lineless {text : Text} (named : IsName text) : Lineless text :=
  ⟨fun member => absurd (named.isNameChar member) (by decide),
    fun member => absurd (named.isNameChar member) (by decide)⟩

include turns forbidden tables

theorem reference_agree (place : Place) {source source' : Text}
    (same : source' = foldLineEnds source) (spent : ledger'.expansions = ledger.expansions) :
    Agree (Abreast (Expanded place run)) (reference ⟨options, table⟩ place ledger source)
      (reference ⟨options, table'⟩ place ledger' source') := by
  subst same
  obtain ⟨rest, rfl, folded⟩ | ⟨unmarked, unmarked'⟩ :=
    first_foldLineEnds (by decide : Lineless ['#']) source
  · rw [folded, reference_number, reference_number]
    refine (charReference_agree rfl).withLedger.read fun c rest suffix _ suffix' _ same => ?_
    subst same
    exact ⟨⟨.cons (.inl rfl) .nil, spent⟩, rfl⟩
  · rw [reference_of_name unmarked, reference_of_name unmarked']
    refine (name_agree rfl).withLedger.read fun entity afterName named _ named' read same => ?_
    subst same
    refine (expect_agree rfl (by decide)).withLedger.read fun _ after closed _ closed' _ _ => ?_
    have expanded : Agree (Expanded place run)
        (Expansion.named ⟨options, table, place, after⟩ table ledger entity)
        (Expansion.named ⟨options, table', place, foldLineEnds after⟩ table' ledger'
          (entity.map run)) :=
      Expansion.named_agree turns forbidden tables spent entity
    rw [turns.map_eq (name_ok (mapError_ok read)).1.lineless.1] at expanded
    exact expanded.bind fun value value' _ _ same => ⟨same, rfl⟩

theorem attributeText_agree {quote : Char} (plain : Lineless [quote])
    {whole whole' source source' done : Text} {within : source <:+ whole}
    {within' : source' <:+ whole'} (same : source' = foldLineEnds source)
    (spent : ledger'.expansions = ledger.expansions) :
    Agree (Abreast Valued) (attributeText ⟨options, table⟩ quote whole ledger done source within)
      (attributeText ⟨options, table'⟩ quote whole' ledger' done source' within') := by
  fun_induction attributeText ⟨options, table⟩ quote whole ledger done source within
    generalizing source' ledger' with
  | case1 =>
    rw [foldLineEnds_nil] at same
    subst same
    rw [attributeText]
    trivial
  | case2 =>
    rename_i c rest _ closing _
    obtain rfl := eq_of_beq closing
    rw [foldLineEnds_cons_of_ne plain.ne_return] at same
    subst same
    rw [attributeText, if_pos closing]
    exact ⟨⟨rfl, spent⟩, rfl⟩
  | case3 =>
    rename_i c rest _ open_ opening _
    obtain rfl := eq_of_beq opening
    rw [foldLineEnds_cons_of_ne (by decide)] at same
    subst same
    rw [attributeText, if_neg open_, if_pos opening]
    trivial
  | case4 =>
    rename_i c rest _ open_ noTag marked _ ih
    obtain rfl := eq_of_beq marked
    rw [foldLineEnds_cons_of_ne (by decide)] at same
    subst same
    rw [attributeText, if_neg open_, if_neg noTag, if_pos marked]
    refine (reference_agree turns forbidden tables _ rfl spent).read ?_
    rintro ⟨value, expanded⟩ after suffix ⟨value', expanded'⟩ suffix' - same
    obtain ⟨rfl, spent⟩ := same.valued
    exact ih _ _ _ suffix rfl spent
  | case5 =>
    rename_i c rest _ open_ noTag unmarked _ ih
    obtain ⟨behind, folded, next⟩ := foldLineEnds_first c rest
    obtain rfl := same.trans folded
    rw [attributeText, asFeed_turns.beq_eq plain, asFeed_turns.beq_eq (by decide),
      asFeed_turns.beq_eq (by decide), if_neg open_, if_neg noTag, if_neg unmarked]
    refine (nextChar_agree folded next).withLedger.read fun c after suffix c' suffix' _ same => ?_
    subst same
    exact ih _ _ suffix rfl spent

theorem attributeValue_agree {source source' : Text} (same : source' = foldLineEnds source)
    (spent : ledger'.expansions = ledger.expansions) :
    Agree (Abreast Valued) (attributeValue ⟨options, table⟩ ledger source)
      (attributeValue ⟨options, table'⟩ ledger' source') := by
  cases source with
  | nil =>
    subst same
    trivial
  | cons c rest =>
    by_cases quote : isQuote c = true
    · have plain := lineless_of_isQuote quote
      rw [foldLineEnds_cons_of_ne plain.ne_return] at same
      subst same
      rw [attributeValue, attributeValue, if_pos quote, if_pos quote]
      exact attributeText_agree turns forbidden tables plain rfl spent
    · obtain ⟨behind, folded, -⟩ := foldLineEnds_first c rest
      obtain rfl := same.trans folded
      rw [attributeValue, attributeValue,
        asFeed_turns.apply (by decide : isQuote '\r' = isQuote '\n'), if_neg quote, if_neg quote]
      trivial

theorem attributeList_agree {element : Text} {done : List Attribute} {spaced : Bool}
    {whole whole' source source' : Text} {within : source <:+ whole}
    {within' : source' <:+ whole'} (same : source' = foldLineEnds source)
    (spent : ledger'.expansions = ledger.expansions) :
    Agree (Abreast Valued)
      (attributeList ⟨options, table⟩ element whole ledger done spaced source within)
      (attributeList ⟨options, table'⟩ element whole' ledger' done spaced source' within') := by
  fun_induction attributeList ⟨options, table⟩ element whole ledger done spaced source within
    generalizing source' ledger' with
  | case1 =>
    rename_i found
    obtain ⟨suffix, found'⟩ := (take?_agree same (by decide)).1 _ found
    rw [attributeList.eq_def, found']
    exact ⟨⟨rfl, spent⟩, rfl⟩
  | case2 =>
    rename_i noSlash _ _ _ found
    obtain ⟨suffix, found'⟩ := (take?_agree same (by decide)).1 _ found
    rw [attributeList.eq_def, (take?_agree same (by decide)).2 noSlash, found']
    exact ⟨⟨rfl, spent⟩, rfl⟩
  | case3 =>
    rename_i noSlash noEnd
    rw [foldLineEnds_nil] at same
    subst same
    rw [attributeList]
    trivial
  | case4 =>
    rename_i c rest _ _ apart _ noSlash noEnd _
    obtain ⟨behind, folded, -⟩ := foldLineEnds_first c rest
    obtain rfl := same.trans folded
    rw [attributeList, (take?_agree same (by decide)).2 noSlash,
      (take?_agree same (by decide)).2 noEnd]
    dsimp only
    rw [if_pos apart]
    trivial
  | case5 =>
    rename_i c rest _ _ apart _ noSlash noEnd ih
    obtain ⟨behind, folded, next⟩ := foldLineEnds_first c rest
    obtain rfl := same.trans folded
    rw [attributeList, (take?_agree same (by decide)).2 noSlash,
      (take?_agree same (by decide)).2 noEnd]
    dsimp only
    rw [if_neg apart]
    refine (nameFrom_agree next).withLedger.read fun key rest₁ named _ _ _ same => ?_
    subst same
    refine (expect_agree (skipBlanks_agree rfl).2 (by decide)).withLedger.read
      fun _ rest₂ signed _ _ _ _ => ?_
    refine (attributeValue_agree turns forbidden tables (skipBlanks_agree rfl).2 spent).read ?_
    rintro ⟨_, expanded⟩ rest₃ valued ⟨value, _⟩ _ - ⟨rfl, spent⟩
    dsimp only
    split
    · trivial
    · obtain ⟨spaced, rest⟩ := skipBlanks_agree (rfl : foldLineEnds rest₃ = _)
      rw [← spaced]
      exact ih key rest₁ named _ (List.dropWhile_suffix _) rest₂ signed _ (List.dropWhile_suffix _)
        value expanded rest₃ valued _ _ (List.dropWhile_suffix _) rest spent

/-- Start tags come out the same. -/
theorem startTag_agree (depth : Nat) {source source' : Text} (same : source' = foldLineEnds source)
    (spent : ledger'.expansions = ledger.expansions) :
    Agree (Abreast Valued) (startTag ⟨options, table⟩ depth ledger source)
      (startTag ⟨options, table'⟩ depth ledger' source') := by
  refine (name_agree same).withLedger.read fun element rest₁ _ _ _ _ same => ?_
  subst same
  dsimp only
  split
  · trivial
  · obtain ⟨spaced, rest⟩ := skipBlanks_agree (rfl : foldLineEnds rest₁ = _)
    rw [← spaced]
    exact attributeList_agree turns forbidden tables rest spent

end Tags

end XmlSelect.Markup
