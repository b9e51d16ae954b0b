import XmlSelect.Proofs.InlineText
import XmlSelect.Proofs.LackingDocument

/-! References to internal entities, and their values written in place. At every place where a
document may have an attribute value or an element, one is read if the other is, and to the same. -/
namespace XmlSelect.Markup

/-- A text as the value of an attribute. -/
def inQuotes (quote : Char) (text : Text) : Text := quote :: (text ++ [quote])

/-- A text as the content of an element. -/
def inElement (name text : Text) : Text :=
  '<' :: (name ++ '>' :: (text ++ '<' :: '/' :: (name ++ ['>'])))

/-- What the one text unfolds to the other does, in so many expansions less or more. -/
def Setting.Inlines (setting : Setting) (place : Place) (less more : Nat) (text text' : Text) :
    Prop :=
  ∀ value spent, setting.Unfolds place text value spent →
    ∃ spent', spent' + less = spent + more ∧ setting.Unfolds place text' value spent'

section Entities

variable {setting : Setting} {place : Place} {name value : Text}

theorem Setting.unfolds_entity_iff (declares : setting.Declares name (.internal value))
    {result : Text} {count : Nat} :
    setting.Unfolds place (marked name) result count ↔
      ∃ nested, count = nested + 1 ∧ setting.Unfolds place value result nested := by
  rw [← List.append_nil (marked name), unfolds_marked_iff declares.valid.semicolon]
  constructor
  · rintro ⟨here, rest, spent, further, rfl, rfl, stands, behind⟩
    obtain ⟨rfl, rfl⟩ := unfolds_nil_iff.mp behind
    rw [List.append_nil, Nat.add_zero]
    exact (stands_internal_iff declares).mp stands
  · intro unfolds
    exact ⟨result, [], count, 0, (List.append_nil _).symm, rfl,
      (stands_internal_iff declares).mpr unfolds, .nil⟩

/-- The value in the place of the reference is one expansion less. -/
theorem Setting.inlines_value (declares : setting.Declares name (.internal value)) :
    setting.Inlines place 1 0 (marked name) value := by
  intro result spent unfolds
  obtain ⟨nested, sum, unfolds⟩ := (unfolds_entity_iff declares).mp unfolds
  exact ⟨nested, sum.symm, unfolds⟩

/-- The reference in the place of the value is one expansion more. -/
theorem Setting.inlines_reference (declares : setting.Declares name (.internal value)) :
    setting.Inlines place 0 1 value (marked name) :=
  fun _ spent unfolds =>
    ⟨spent + 1, rfl, (unfolds_entity_iff declares).mpr ⟨spent, rfl, unfolds⟩⟩

end Entities

theorem startTag_alone (setting : Setting) (ledger : Ledger) {name : Text} (valid : IsName name)
    {depth : Nat} (room : depth < setting.options.maxDepth) {source body : Text}
    (split : source = name ++ '>' :: body) :
    ∃ suffix, startTag setting depth ledger source = .ok ⟨(⟨name, [], false⟩, ledger), body, suffix⟩ :=
  have tag : WellFormedTag name [] := ⟨valid, nofun, List.nodup_nil⟩
  takes_startTag setting ledger tag false room body source (by simp [split, printStartTag, tagEnd])

section Places

variable {setting : Setting} {less more : Nat} {text text' : Text}
  (names : ∀ entry ∈ setting.table, IsName entry.1)
include names

/-- Where the value of an attribute is due, one text can be in the place of the other. -/
theorem replaces_inQuotes {quote : Char} (quoted : isQuote quote = true)
    (inline : Inline quote text) (inline' : Inline quote text')
    (inlines : setting.Inlines .attributeValue less more text text') (behind : Text) :
    setting.Replaces less more (inQuotes quote text ++ behind) (inQuotes quote text' ++ behind)
      .unquotedAttribute := by
  intro ledger ledger' shifted read found room
  have split (text : Text) : text ++ [quote] ++ behind = text ++ quote :: behind :=
    List.append_assoc ..
  change attributeValue setting ledger (quote :: (text ++ [quote] ++ behind)) = .ok read at found
  rw [attributeValue, if_pos quoted] at found
  obtain ⟨value, spent, unfolds, same, rest, counts, -⟩ :=
    unfolds_of_attributeText names quoted inline (split text) found
  obtain ⟨spent', sum, unfolds'⟩ := inlines value spent unfolds
  unfold Shifted at shifted
  have fits : spent' ≤ setting.left ledger' := by unfold Setting.left; omega
  obtain ⟨after, suffix, read', counts'⟩ := attributeText_of_unfolds quoted unfolds' inline' fits
    behind (quote :: (text' ++ [quote] ++ behind)) [] _ (List.suffix_cons _ _) (split text')
  refine ⟨⟨(_, after), behind, suffix⟩, ?_, same.symm, ?_, ?_⟩
  · change attributeValue setting ledger' (quote :: (text' ++ [quote] ++ behind)) = _
    rw [attributeValue, if_pos quoted]
    exact read'
  · rw [rest, List.append_nil]
  · unfold Shifted
    dsimp only
    omega

/-- In the content of an element, one text can be in the place of the other. -/
theorem content_inline_follows {ledger ledger' : Ledger} (inline : Inline '<' text)
    (inline' : Inline '<' text') (open_ : ¬"]]>".toList <:+: text)
    (open_' : ¬"]]>".toList <:+: text') (inlines : setting.Inlines .content less more text text')
    {whole whole' : Text} (inner : OpenElement) (outer : List OpenElement) (pending : Text)
    (shifted : Shifted 0 0 ledger ledger') {source source' tail : Text} {within : source <:+ whole}
    {within' : source' <:+ whole'} (split : source = text ++ '<' :: tail)
    (split' : source' = text' ++ '<' :: tail) :
    Follows setting less more []
      (content setting whole inner outer pending ledger source within)
      (content setting whole' inner outer pending ledger' source' within') := by
  intro read found room
  obtain ⟨value, spent, after, here, unfolds, found, counts, -⟩ :=
    unfolds_of_content names inline open_ split found
  obtain ⟨spent', sum, unfolds'⟩ := inlines value spent unfolds
  have least : after.expansions ≤ read.value.2.expansions :=
    (content_kept (grows_keeps _ _ _) (grows_keeps _ _ _) _ _ _ _ (Nat.le_refl _) _ _).of_ok found
  unfold Shifted at shifted
  have fits : spent' ≤ setting.left ledger' := by unfold Setting.left; omega
  obtain ⟨after', here', found', counts'⟩ :=
    content_of_unfolds unfolds' inline' open_' fits tail whole' pending source' within' split'
  have apart : Shifted less more after after' := by unfold Shifted; omega
  rw [found']
  exact content_follows .nil names _ _ _ apart (List.append_nil _).symm read found room

variable {name : Text} (valid : IsName name) (inline : Inline '<' text)
  (inline' : Inline '<' text') (open_ : ¬"]]>".toList <:+: text)
  (open_' : ¬"]]>".toList <:+: text') (inlines : setting.Inlines .content less more text text')
include valid inline inline' open_ open_' inlines

theorem rootElement_inline_follows {ledger ledger' : Ledger} (shifted : Shifted 0 0 ledger ledger')
    {source source' tail : Text} (split : source = name ++ '>' :: (text ++ '<' :: tail))
    (split' : source' = name ++ '>' :: (text' ++ '<' :: tail)) :
    Follows setting less more [] (rootElement setting ledger source)
      (rootElement setting ledger' source') := by
  intro read found
  obtain ⟨tag, tagged, -⟩ := bind_ok found
  have room := startTag_depth tagged
  obtain ⟨suffix, tagged⟩ := startTag_alone setting ledger valid room split
  obtain ⟨suffix', tagged'⟩ := startTag_alone setting ledger' valid room split'
  rw [rootElement, tagged] at found
  rw [rootElement, tagged']
  exact content_inline_follows names inline inline' open_ open_' inlines _ _ _ shifted rfl rfl read
    found

/-- In the content of an element, an element with one text can be in the place of one with the
other. -/
theorem content_element_follows {whole whole' : Text} (inner : OpenElement)
    (outer : List OpenElement) (pending : Text) {ledger ledger' : Ledger}
    (shifted : Shifted 0 0 ledger ledger') {source source' tail : Text}
    {within : '<' :: source <:+ whole} {within' : '<' :: source' <:+ whole'}
    (split : source = name ++ '>' :: (text ++ '<' :: tail))
    (split' : source' = name ++ '>' :: (text' ++ '<' :: tail)) :
    Follows setting less more []
      (content setting whole inner outer pending ledger ('<' :: source) within)
      (content setting whole' inner outer pending ledger' ('<' :: source') within') := by
  have starts {body source : Text} (split : source = name ++ '>' :: body) :
      source.head?.any isNameStart = true := by
    subst split
    cases name with
    | nil => cases valid
    | cons first others => exact valid.1
  intro read found
  by_cases room : outer.length + 1 < setting.options.maxDepth
  · obtain ⟨suffix, tagged⟩ := startTag_alone setting ledger valid room split
    obtain ⟨suffix', tagged'⟩ := startTag_alone setting ledger' valid room split'
    obtain ⟨here, step⟩ := content_startTag (starts split) tagged within
    obtain ⟨here', step'⟩ := content_startTag (starts split') tagged' within'
    rw [step] at found
    rw [step']
    exact content_inline_follows names inline inline' open_ open_' inlines _ _ _ shifted rfl rfl read
      found
  · rw [content, if_pos (by decide), take?_of_isNameStart (starts split) (by decide)] at found
    dsimp only at found
    rw [contentLeaf?_of_isNameStart (starts split)] at found
    obtain ⟨tag, tagged, -⟩ := bind_ok found
    exact absurd (startTag_depth tagged) room

omit names valid inline inline' open_ open_' inlines in
theorem inElement_append (name text behind : Text) : inElement name text ++ behind =
    '<' :: (name ++ '>' :: (text ++ '<' :: '/' :: (name ++ '>' :: behind))) := by
  simp [inElement]

/-- Where an element may stand, one with the one text for content can be in the place of one with the
other. -/
theorem replaces_inElement (behind : Text) {reason : Fault}
    (lacks : reason = .missingRoot ∨ ∃ element, reason = .unclosedElement element) :
    setting.Replaces less more (inElement name text ++ behind) (inElement name text' ++ behind)
      reason := by
  rw [inElement_append, inElement_append]
  rcases lacks with rfl | ⟨element, rfl⟩
  · exact ⟨_, _, rfl, rfl, fun _ _ shifted => rootElement_inline_follows names valid inline inline'
      open_ open_' inlines shifted rfl rfl⟩
  · exact fun _ _ inner outer pending _ _ _ _ shifted => content_element_follows names valid inline
      inline' open_ open_' inlines inner outer pending shifted rfl rfl

end Places

/-- Reading the text stops for the reason. -/
def StopsFor (options : Options) (text : Text) (reason : Fault) : Prop :=
  ∃ error, parseText options text = .error error ∧ error.fault = reason

/-- The text ends where the value of an attribute is due. -/
def LacksValue (options : Options) (text : Text) : Prop := StopsFor options text .unquotedAttribute

/-- The text ends where an element may stand: in another one, or at the top in the place of the
root. -/
def LacksElement (options : Options) (text : Text) : Prop :=
  ∃ reason, StopsFor options text reason ∧
    (reason = .missingRoot ∨ ∃ element, reason = .unclosedElement element)

/-- The text is read as the document, in so many expansions. -/
def ReadsAs (options : Options) (text : Text) (document : Document) (count : Nat) : Prop :=
  ∃ reading, parseText options text = .ok reading ∧ reading.document = document ∧
    reading.expansions = count

theorem stopsFor_iff {options : Options} {text : Text} {reason : Fault} :
    StopsFor options text reason ↔
      ((parseText options text).map fun _ => ()).mapError (·.fault) = .error reason := by
  unfold StopsFor
  cases parseText options text with
  | error error => simp [Except.map, Except.mapError]
  | ok reading => simp [Except.map, Except.mapError]

theorem exists_readsAs_iff {options : Options} {text : Text} :
    (∃ document count, ReadsAs options text document count) ↔
      (parseText options text).toOption.isSome = true := by
  unfold ReadsAs
  cases parseText options text with
  | error error => simp [Except.toOption]
  | ok reading => simp [Except.toOption]

theorem exists_readsAs_count_iff {options : Options} {text : Text} {count : Nat} :
    (∃ document, ReadsAs options text document count) ↔
      (parseText options text).toOption.map (·.expansions) = some count := by
  unfold ReadsAs
  cases parseText options text with
  | error error => simp [Except.toOption]
  | ok reading => simp [Except.toOption]

section Documents

variable {options : Options} {front tail tail' : Text} {reason : Fault}

/-- With one expansion less on the one side than on the other, both documents are read or neither,
unless the limit is in the way. -/
theorem readsAs_iff (closed : Sealed tail) (closed' : Sealed tail')
    (stops : StopsFor options front reason) (breaks : reason.breaksOff = true)
    (replaces : ∀ table : EntityTable, table.Plain →
      (∀ name, table.find? name = (documentEntities? (withoutMark front)).bind (·.lookup name)) →
        Setting.Replaces ⟨options, table⟩ 1 0 tail tail' reason ∧
          Setting.Replaces ⟨options, table⟩ 0 1 tail' tail reason)
    (document : Document) (count : Nat) :
    ReadsAs options (front ++ tail) document count ↔
      ∃ fewer, count = fewer + 1 ∧ count ≤ options.maxExpansions ∧
        ReadsAs options (front ++ tail') document fewer := by
  obtain ⟨error, broken, rfl⟩ := stops
  constructor
  · rintro ⟨reading, read, rfl, rfl⟩
    have few : reading.expansions ≤ options.maxExpansions := by
      rw [parseText_eq] at read
      exact (parse_within read).2
    obtain ⟨reading', read', same, sum⟩ := parseText_continues closed closed' broken breaks
      (fun table plain found => (replaces table plain found).1) read (Nat.le_succ_of_le few)
    exact ⟨reading'.expansions, sum.symm, few, reading', read', same, rfl⟩
  · rintro ⟨_, rfl, few, reading, read, rfl, rfl⟩
    obtain ⟨reading', read', same, sum⟩ := parseText_continues closed' closed broken breaks
      (fun table plain found => (replaces table plain found).2) read few
    exact ⟨reading', read', same, sum⟩

/-- An internal entity, declared in front of the place, with text that can stand there too. -/
structure Inlinable (front name value : Text) : Prop where
  declared : (documentEntities? (withoutMark front)).bind (·.lookup name) = some (.internal value)
  unknown : predefined? name = none
  noReturn : '\r' ∉ value
  unsigned : Unsigned value

section Entities

variable {name value : Text} (inlinable : Inlinable front name value)
include inlinable

theorem Inlinable.declares {table : EntityTable} (plain : table.Plain)
    (found : ∀ name, table.find? name = (documentEntities? (withoutMark front)).bind (·.lookup name)) :
    Setting.Declares ⟨options, table⟩ name (.internal value) ∧ XmlText value := by
  have here := (found name).trans inlinable.declared
  have member := mem_of_lookup here
  exact ⟨⟨plain.named _ member, inlinable.unknown, here⟩, plain.values _ member value rfl⟩

theorem Inlinable.readsAs_inQuotes {quote : Char} (lacks : LacksValue options front)
    (quoted : isQuote quote = true) (absent : quote ∉ value) (behind : Text) (document : Document)
    (count : Nat) :
    ReadsAs options (front ++ (inQuotes quote (marked name) ++ behind)) document count ↔
      ∃ fewer, count = fewer + 1 ∧ count ≤ options.maxExpansions ∧
        ReadsAs options (front ++ (inQuotes quote (withoutTags value) ++ behind)) document fewer := by
  refine readsAs_iff (.quote quoted _) (.quote quoted _) lacks rfl (fun table plain found => ?_)
    document count
  obtain ⟨declares, held⟩ := inlinable.declares plain found
  have reference := inline_marked declares.valid (.inl quoted)
  have written :=
    inline_withoutTags (.inl quoted) held inlinable.noReturn (.inr absent) inlinable.unsigned
  refine ⟨replaces_inQuotes plain.named quoted reference written ?_ behind,
    replaces_inQuotes plain.named quoted written reference ?_ behind⟩
  · intro result spent unfolds
    obtain ⟨nested, sum, unfolds⟩ := Setting.inlines_value declares result spent unfolds
    exact ⟨nested, sum, Setting.unfolds_withoutTags_iff.mpr unfolds⟩
  · intro result spent unfolds
    exact Setting.inlines_reference declares result spent
      (Setting.unfolds_withoutTags_iff.mp unfolds)

theorem Inlinable.readsAs_inElement {element : Text} (lacks : LacksElement options front)
    (valid : IsName element) (noTag : '<' ∉ value) (noEnd : ¬"]]>".toList <:+: value)
    (behind : Text) (document : Document) (count : Nat) :
    ReadsAs options (front ++ (inElement element (marked name) ++ behind)) document count ↔
      ∃ fewer, count = fewer + 1 ∧ count ≤ options.maxExpansions ∧
        ReadsAs options (front ++ (inElement element value ++ behind)) document fewer := by
  obtain ⟨reason, stops, lacking⟩ := lacks
  have breaks : reason.breaksOff = true := by
    rcases lacking with rfl | ⟨name, rfl⟩
    · rfl
    · rfl
  have shut (text : Text) : Sealed (inElement element text ++ behind) := by
    rw [inElement_append]
    cases element with
    | nil => cases valid
    | cons first others => exact .tag valid.1 _
  refine readsAs_iff (shut _) (shut _) stops breaks (fun table plain found => ?_) document count
  obtain ⟨declares, held⟩ := inlinable.declares plain found
  have reference := inline_marked declares.valid (.inr rfl)
  have written : Inline '<' value := ⟨held, inlinable.noReturn, noTag, noTag, inlinable.unsigned⟩
  have open_ : ¬"]]>".toList <:+: marked name := fun ends =>
    not_mem_marked_name declares.valid (by decide) (by decide) (ends.subset List.mem_cons_self)
  exact ⟨replaces_inElement plain.named valid reference written open_ noEnd
      (Setting.inlines_value declares) behind lacking,
    replaces_inElement plain.named valid written reference noEnd open_
      (Setting.inlines_reference declares) behind lacking⟩

end Entities

/-- Wherever a document may have the value of an attribute, or an element, a reference to an internal
entity can stand for its value written in place: both documents are read or neither, to the same,
unless the limit has no room for the one expansion more. In an attribute, the brackets of the value
are written as references. -/
theorem entity_readsAs_inline {name value : Text} (inlinable : Inlinable front name value) :
    (LacksValue options front → ∀ quote, isQuote quote = true → quote ∉ value →
      ∀ behind document count,
        ReadsAs options (front ++ (inQuotes quote (marked name) ++ behind)) document count ↔
          ∃ fewer, count = fewer + 1 ∧ count ≤ options.maxExpansions ∧
            ReadsAs options (front ++ (inQuotes quote (withoutTags value) ++ behind)) document
              fewer) ∧
    (LacksElement options front → '<' ∉ value → ¬"]]>".toList <:+: value →
      ∀ element, IsName element → ∀ behind document count,
        ReadsAs options (front ++ (inElement element (marked name) ++ behind)) document count ↔
          ∃ fewer, count = fewer + 1 ∧ count ≤ options.maxExpansions ∧
            ReadsAs options (front ++ (inElement element value ++ behind)) document fewer) :=
  ⟨fun lacks _ quoted absent => inlinable.readsAs_inQuotes lacks quoted absent,
    fun lacks noTag noEnd _ valid => inlinable.readsAs_inElement lacks valid noTag noEnd⟩

/-- A value that has a bracket and a reference to a character itself, in an attribute; and one with a
reference in the root. -/
theorem entity_readsAs_inline_once :
    let inAttribute := "<!DOCTYPE r [<!ENTITY e '<&#65;'>]><r a=".toList
    let inRoot := "<!DOCTYPE r [<!ENTITY e 'x&#65;'>]>".toList
    (Inlinable inAttribute "e".toList "<&#65;".toList ∧ LacksValue {} inAttribute ∧
      ∃ document,
        ReadsAs {} (inAttribute ++ (inQuotes '"' (marked "e".toList) ++ "/>".toList)) document 1 ∧
        ReadsAs {} (inAttribute ++ (inQuotes '"' "&lt;&#65;".toList ++ "/>".toList)) document 0) ∧
    Inlinable inRoot "e".toList "x&#65;".toList ∧ LacksElement {} inRoot ∧
      ∃ document,
        ReadsAs {} (inRoot ++ (inElement ['r'] (marked "e".toList) ++ [])) document 1 ∧
        ReadsAs {} (inRoot ++ (inElement ['r'] "x&#65;".toList ++ [])) document 0 := by
  have declared : Inlinable "<!DOCTYPE r [<!ENTITY e '<&#65;'>]><r a=".toList "e".toList
      "<&#65;".toList := ⟨by decide +kernel, by decide, by decide, .of_not_mem (by decide)⟩
  have lacks : LacksValue {} "<!DOCTYPE r [<!ENTITY e '<&#65;'>]><r a=".toList :=
    stopsFor_iff.mpr (by decide +kernel)
  obtain ⟨document, read⟩ : ∃ document, ReadsAs {} ("<!DOCTYPE r [<!ENTITY e '<&#65;'>]><r a=".toList
      ++ (inQuotes '"' (marked "e".toList) ++ "/>".toList)) document 1 :=
    exists_readsAs_count_iff.mpr (by decide +kernel)
  have inline := (entity_readsAs_inline declared).1 lacks '"' rfl (by decide) "/>".toList document 1
  have declaredRoot : Inlinable "<!DOCTYPE r [<!ENTITY e 'x&#65;'>]>".toList "e".toList
      "x&#65;".toList := ⟨by decide +kernel, by decide, by decide, .of_not_mem (by decide)⟩
  have lacksRoot : LacksElement {} "<!DOCTYPE r [<!ENTITY e 'x&#65;'>]>".toList :=
    ⟨.missingRoot, stopsFor_iff.mpr (by decide +kernel), .inl rfl⟩
  obtain ⟨document', read'⟩ : ∃ document, ReadsAs {} ("<!DOCTYPE r [<!ENTITY e 'x&#65;'>]>".toList
      ++ (inElement ['r'] (marked "e".toList) ++ [])) document 1 :=
    exists_readsAs_count_iff.mpr (by decide +kernel)
  have inline' := (entity_readsAs_inline declaredRoot).2 lacksRoot (by decide) (by decide) ['r']
    (by decide) [] document' 1
  rw [show withoutTags "<&#65;".toList = "&lt;&#65;".toList by decide] at inline
  obtain ⟨_, one, -, inline⟩ := inline.mp read
  obtain ⟨_, one', -, inline'⟩ := inline'.mp read'
  cases one
  cases one'
  exact ⟨⟨declared, lacks, document, read, inline⟩, declaredRoot, lacksRoot, document', read', inline'⟩

/-- Behind the text, a document may have a reference to the entity for the value of an attribute, but
not what the entity has for its value. -/
def DiffersInline (front name value : Text) : Prop :=
  (documentEntities? (withoutMark front)).bind (·.lookup name) = some (.internal value) ∧
    '"' ∉ value ∧ '\'' ∉ value ∧ '\r' ∉ value ∧
    (∃ document count,
      ReadsAs {} (front ++ (inQuotes '"' (marked name) ++ "/>".toList)) document count) ∧
    ¬∃ document count, ReadsAs {} (front ++ (inQuotes '"' value ++ "/>".toList)) document count

/-- A bracket, a predefined name that is declared anew, and a number with a sign. -/
theorem entity_differsInline :
    DiffersInline "<!DOCTYPE r [<!ENTITY e '<'>]><r a=".toList "e".toList "<".toList ∧
    DiffersInline "<!DOCTYPE r [<!ENTITY amp '&u;'>]><r a=".toList "amp".toList "&u;".toList ∧
    DiffersInline "<!DOCTYPE r [<!ENTITY e '&#+65;'>]><r a=".toList "e".toList "&#+65;".toList := by
  simp only [DiffersInline, exists_readsAs_iff, Bool.not_eq_true]
  exact ⟨⟨by decide +kernel, by decide, by decide, by decide, by decide +kernel, by decide +kernel⟩,
    ⟨by decide +kernel, by decide, by decide, by decide, by decide +kernel, by decide +kernel⟩,
    ⟨by decide +kernel, by decide, by decide, by decide, by decide +kernel, by decide +kernel⟩⟩

end Documents

end XmlSelect.Markup
