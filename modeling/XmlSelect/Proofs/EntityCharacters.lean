import XmlSelect.Proofs.EntityTables
import XmlSelect.Proofs.LedgerInvariant

/-! The characters that come out of entities. Names and literals are made of characters that
documents may hold, so that others can only come out of the answers to requests for external
entities; and each of these comes out of the references as often as it was answered. In attribute
values nothing is asked for, so that there is none of them in a start tag. -/
namespace XmlSelect

namespace XmlText

variable {text : Text}

theorem count_eq_zero (held : XmlText text) {c : Char} (other : isXmlChar c = false) :
    text.count c = 0 :=
  List.count_eq_zero.mpr fun member => Bool.false_ne_true (other.symm.trans (held c member))

theorem of_count (none : ∀ c, isXmlChar c = false → text.count c = 0) : XmlText text := by
  intro c member
  refine Bool.of_not_eq_false fun other => ?_
  exact List.count_eq_zero.mp (none c other) member

end XmlText

namespace Markup

section Characters

variable {c : Char}

theorem isXmlChar_of_isNameChar (named : isNameChar c = true) : isXmlChar c = true := by
  have upper : c.isUpper = decide (65 ≤ c.toNat ∧ c.toNat ≤ 90) := rfl
  have lower : c.isLower = (decide (97 ≤ c.toNat) && decide (c.toNat ≤ 122)) := rfl
  have letter : c.isAlpha = (c.isUpper || c.isLower) := rfl
  simp only [isNameChar, isNameStart, inRanges, List.any_cons, List.any_nil, Bool.or_false,
    Bool.or_eq_true, Bool.and_eq_true, decide_eq_true_eq, beq_iff_eq, Char.isDigit_iff_toNat,
    letter, upper, lower, ← Char.toNat_inj, Char.reduceToNat] at named
  simp only [isXmlChar, inRanges, List.any_cons, List.any_nil, Bool.or_false, Bool.or_eq_true,
    Bool.and_eq_true, decide_eq_true_eq]
  omega

theorem isXmlChar_of_isHexDigit (digit : isHexDigit c = true) : isXmlChar c = true := by
  simp only [isHexDigit, Bool.or_eq_true, Bool.and_eq_true, decide_eq_true_eq,
    Char.isDigit_iff_toNat, Char.le_def, UInt32.le_iff_toNat_le, Char.toNat_val,
    Char.reduceToNat] at digit
  simp only [isXmlChar, inRanges, List.any_cons, List.any_nil, Bool.or_false, Bool.or_eq_true,
    Bool.and_eq_true, decide_eq_true_eq]
  omega

theorem IsName.xml {name : Text} (valid : IsName name) : XmlText name :=
  fun _ member => isXmlChar_of_isNameChar (valid.isNameChar member)

theorem xml_of_predefined? {name : Text} (known : predefined? name = some c) : XmlText name := by
  have held : ∀ entry ∈ [("amp".toList, '&'), ("lt".toList, '<'), ("gt".toList, '>'),
      ("apos".toList, '\''), ("quot".toList, '"')], entry.1.all isXmlChar = true := by
    simp only [List.forall_mem_cons]
    decide
  exact List.all_eq_true.mp (held _ (mem_of_lookup known))

theorem xml_of_numericReference? {number : Text} (known : numericReference? number = some c) :
    XmlText number := by
  intro d member
  obtain rfl | rfl | digit := mem_of_numericReference? known member
  · decide
  · decide
  · exact isXmlChar_of_isHexDigit digit

end Characters

/-- The texts of external entities are such that documents may hold them. -/
def Options.ResolvesPlain (options : Options) : Prop :=
  options.allowExternal = true → ∀ resolve, options.resolver = some resolve →
    ∀ request text, resolve request = some text → XmlText text

/-- What comes back for a request; nothing where external entities are not allowed. -/
def Options.answer (options : Options) (request : EntityRequest) : Text :=
  if options.allowExternal then (options.resolver.bind (· request)).getD [] else []

theorem Options.ResolvesPlain.answer {options : Options} (resolves : options.ResolvesPlain)
    (request : EntityRequest) : XmlText (options.answer request) := by
  unfold Options.answer
  split
  · rename_i allowed
    cases answered : options.resolver.bind (· request) with
    | none => exact .nil
    | some text =>
      obtain ⟨resolve, resolver, found⟩ := Option.bind_eq_some_iff.mp answered
      exact resolves allowed resolve resolver request text found
  · exact .nil

/-- All that came back for the requests so far. -/
def Ledger.answers (options : Options) (ledger : Ledger) : Text :=
  ledger.requests.flatMap options.answer

/-- Between two ledgers, a text that was given and one that came of it differ, in the characters
that documents may not hold, by those in the answers. -/
def Passes (options : Options) (before after : Ledger) (given result : Text) : Prop :=
  ∀ c, isXmlChar c = false → (before.answers options).count c + result.count c =
    (after.answers options).count c + given.count c

namespace Passes

variable {options : Options} {before between after : Ledger} {given given' result result' : Text}

theorem refl (ledger : Ledger) (text : Text) : Passes options ledger ledger text text :=
  fun _ _ => rfl

theorem append (first : Passes options before between given result)
    (second : Passes options between after given' result') :
    Passes options before after (given ++ given') (result ++ result') := by
  intro c other
  have here := first c other
  have further := second c other
  simp only [List.count_append]
  omega

theorem trans {text : Text} (first : Passes options before between given text)
    (second : Passes options between after text result) :
    Passes options before after given result := by
  intro c other
  have here := first c other
  have further := second c other
  omega

/-- What documents may hold does not count. -/
theorem of_xml (ledger : Ledger) (held : XmlText given) (held' : XmlText result) :
    Passes options ledger ledger given result := by
  intro c other
  rw [held.count_eq_zero other, held'.count_eq_zero other]

theorem congr_requests (passes : Passes options before after given result) {same : Ledger}
    (requests : same.requests = after.requests) : Passes options before same given result := by
  intro c other
  rw [passes c other, Ledger.answers, Ledger.answers, requests]

/-- Where nothing was asked for, what documents may hold stays so. -/
theorem xml (passes : Passes options before after given result) (held : XmlText given)
    (requests : after.requests = before.requests) : XmlText result := by
  refine .of_count fun c other => ?_
  have balance := passes c other
  rw [held.count_eq_zero other, Ledger.answers, Ledger.answers, requests] at balance
  omega

end Passes

/-- Blanks are characters that documents may hold, and so are the spaces in their place. -/
theorem Place.count_normalize (place : Place) (text : Text) {c : Char}
    (other : isXmlChar c = false) : (place.normalize text).count c = text.count c := by
  cases place with
  | content => rfl
  | attributeValue =>
    rw [normalize, List.count_eq_countP, List.countP_map, List.count_eq_countP]
    refine List.countP_congr fun d _ => ?_
    have space : isXmlChar ' ' = true := by decide
    have blank (is : isBlank d = true) : isXmlChar d = true := by
      simp only [isBlank, Bool.or_eq_true, beq_iff_eq] at is
      rcases is with ((rfl | rfl) | rfl) | rfl <;> decide
    by_cases is : isBlank d = true
    · have apart : d ≠ c := fun same =>
        Bool.false_ne_true (other.symm.trans (same ▸ blank is))
      have apart' : ' ' ≠ c := fun same => Bool.false_ne_true (other.symm.trans (same ▸ space))
      simp [is, apart, apart']
    · simp [is]

theorem Place.normalize_passes (place : Place) (options : Options) (ledger : Ledger)
    (text : Text) : Passes options ledger ledger text (place.normalize text) := by
  intro c other
  rw [place.count_normalize text other]

theorem Place.normalize_xml {place : Place} {text : Text} (held : XmlText text) :
    XmlText (place.normalize text) :=
  (place.normalize_passes {} {} text).xml held rfl

namespace Expansion

variable {expansion : Expansion}

/-- An entity is replaced by its text, or by what came back for it. -/
theorem replacement_passes {ledger after : Ledger} {name : Text} {entity : Entity}
    {text : Option Text} (internal : ∀ value, entity = .internal value → XmlText value)
    (replaced : expansion.replacement ledger name entity = .ok (text, after)) :
    Passes expansion.options ledger after [] (text.getD []) := by
  unfold replacement at replaced
  split at replaced
  · cases replaced
    exact .of_xml ledger .nil (internal _ rfl)
  · split at replaced
    · cases replaced
    · split at replaced
      · cases replaced
        exact (Passes.refl ledger []).congr_requests rfl
      · rename_i allowed
        split at replaced
        · cases replaced
        · rename_i resolve resolver
          dsimp only at replaced
          split at replaced
          · rename_i found
            cases replaced
            have permitted : expansion.options.allowExternal = true := by simpa using allowed
            intro c other
            simp [Ledger.answers, Ledger.request, Options.answer, permitted, resolver, found]
          · cases replaced

mutual

/-- A reference stands for a character that documents may hold or for what came back. -/
theorem named_passes {available : EntityTable} {ledger : Ledger} {name : Text}
    {result : Text × Ledger} (plain : available.Plain)
    (read : expansion.named available ledger name = .ok result) :
    XmlText name ∧ Passes expansion.options ledger result.2 [] result.1 := by
  obtain ⟨c, known, rfl⟩ | ⟨entity, counted, replacement, after, -, found, count, replaced, read⟩ :=
    named_eq_ok_iff.mp read
  · exact ⟨xml_of_predefined? known,
      .of_xml ledger .nil (.cons (isXmlChar_of_predefined? known) .nil)⟩
  · have declared := mem_of_lookup found
    refine ⟨(plain.named _ declared).xml, ?_⟩
    obtain ⟨-, rfl⟩ := expansions_of_count count
    have passes := replacement_passes (plain.values _ declared) replaced
    have counted : Passes expansion.options ledger (ledger.spend 1) [] [] := .refl ledger []
    cases replacement with
    | none =>
      cases read
      exact counted.trans passes
    | some text =>
      exact counted.trans (passes.trans (replaced_passes (plain.without name) read))
termination_by (available.length, 0)
decreasing_by exact Prod.Lex.left _ _ (EntityTable.length_without found)

theorem replaced_passes {available : EntityTable} {ledger : Ledger} {text : Text}
    {result : Text × Ledger} (plain : available.Plain)
    (read : expansion.replaced available ledger text = .ok result) :
    Passes expansion.options ledger result.2 text result.1 := by
  obtain ⟨-, rfl⟩ | ⟨before, behind, reference, later, value, counted, rest, after, opened, closed,
    here, further, rfl⟩ := replaced_eq_ok_iff.mp read
  · exact expansion.place.normalize_passes expansion.options ledger text
  · have opening := Text.append_of_breakOn? opened
    have closing := Text.append_of_breakOn? closed
    have front := expansion.place.normalize_passes expansion.options ledger before
    have ampersand : isXmlChar '&' = true := by decide
    have semicolon : isXmlChar ';' = true := by decide
    have middle : Passes expansion.options ledger counted ('&' :: reference ++ [';']) value := by
      have marks {reference : Text} (held : XmlText reference) :
          XmlText ('&' :: reference ++ [';']) :=
        (XmlText.cons ampersand held).append (.cons semicolon .nil)
      obtain ⟨number, c, rfl, known, rfl, rfl⟩ | ⟨-, here⟩ := here
      · exact .of_xml _ (marks (.cons (by decide) (xml_of_numericReference? known)))
          (.cons (isXmlChar_of_numericReference? known) .nil)
      · obtain ⟨held, passes⟩ := named_passes plain here
        exact (Passes.of_xml ledger (marks held) .nil).trans passes
    have together := (front.append middle).append (replaced_passes plain further)
    have whole : text = before ++ ('&' :: reference ++ [';']) ++ later := by
      simp [opening, closing]
    exact whole ▸ together
termination_by (available.length, text.length + 1)
decreasing_by
  · exact Prod.Lex.right _ (Nat.succ_pos _)
  · have opening := congrArg List.length opening
    have closing := congrArg List.length closing
    simp only [List.length_append, List.length_cons, List.length_nil] at opening closing
    exact Prod.Lex.right _ (by omega)

end

end Expansion

section Tags

variable {setting : Setting} {ledger : Ledger}

theorem reference_passes (plain : setting.table.Plain) {place : Place} {source : Text}
    {result : Read source (Text × Ledger)}
    (read : reference setting place ledger source = .ok result) :
    Passes setting.options ledger result.value.2 [] result.value.1 := by
  unfold reference at read
  split at read
  · obtain ⟨c, found, read⟩ := bind_ok read
    cases read
    exact .of_xml ledger .nil (.cons (isXmlChar_of_charReference (mapError_ok found)) .nil)
  · obtain ⟨entity, -, read⟩ := bind_ok read
    obtain ⟨semicolon, -, read⟩ := bind_ok read
    obtain ⟨expanded, named, read⟩ := bind_ok read
    cases read
    exact (Expansion.named_passes plain named).2

theorem attributeText_xml (plain : setting.table.Plain) {quote : Char} {whole done source : Text}
    {within : source <:+ whole} {result : Read whole (Text × Ledger)}
    (read : attributeText setting quote whole ledger done source within = .ok result)
    (before : XmlText done) : XmlText result.value.1 := by
  fun_induction attributeText with
  | case1 => cases read
  | case2 =>
    cases read
    exact before.reverse
  | case3 => cases read
  | case4 ledger =>
    rename_i ih
    obtain ⟨value, referred, read⟩ := bind_ok read
    have requests : value.value.2.requests = ledger.requests :=
      (reference_kept (requests_keeps setting.table ledger.requests) rfl _).of_ok referred
    have held := (reference_passes plain referred).xml .nil requests
    exact ih _ _ _ value.suffix read (held.reverse.append before)
  | case5 =>
    rename_i ih
    obtain ⟨next, taken, read⟩ := bind_ok read
    have held : XmlText [next.value] :=
      .cons (isXmlChar_of_nextChar (mapError_ok taken)) .nil
    exact ih _ _ next.suffix read ((Place.normalize_xml held).append before)

theorem attributeValue_xml (plain : setting.table.Plain) {source : Text}
    {result : Read source (Text × Ledger)}
    (read : attributeValue setting ledger source = .ok result) : XmlText result.value.1 := by
  unfold attributeValue at read
  split at read
  · cases read
  · split at read
    · exact attributeText_xml plain read .nil
    · cases read

/-- The characters of running text are of one kind: those that documents may hold, and those that
come out of the references. -/
structure Options.Yields (held : Char → Prop) (options : Options) : Prop where
  characters : ∀ c, isXmlChar c = true → held c
  references : ∀ {table : EntityTable} {ledger : Ledger} {source : Text}
    {result : Read source (Text × Ledger)}, table.Plain →
      reference ⟨options, table⟩ .content ledger source = .ok result →
        ∀ c ∈ result.value.1, held c

/-- Whatever comes out of the references, it is text. -/
theorem Options.yields_any (options : Options) : options.Yields fun _ => True :=
  ⟨fun _ _ => trivial, fun _ _ _ _ => trivial⟩

theorem Options.ResolvesPlain.yields {options : Options} (resolves : options.ResolvesPlain) :
    options.Yields (isXmlChar · = true) := by
  refine ⟨fun _ held => held, fun plain read => XmlText.of_count fun c other => ?_⟩
  have none (ledger : Ledger) : (ledger.answers options).count c = 0 := by
    refine List.count_eq_zero.mpr fun member => ?_
    obtain ⟨request, -, inside⟩ := List.mem_flatMap.mp member
    exact Bool.false_ne_true (other.symm.trans (resolves.answer request c inside))
  have balance := reference_passes plain read c other
  rw [none, none, List.count_nil] at balance
  omega

/-- An attribute as documents may have it. -/
structure WellFormedAttribute (given : Attribute) : Prop where
  named : IsName given.name
  held : XmlText given.value

theorem attributeList_wellFormed (plain : setting.table.Plain) {element whole source : Text}
    {done : List Attribute} {spaced : Bool} {within : source <:+ whole}
    {result : Read whole (StartTag × Ledger)}
    (read : attributeList setting element whole ledger done spaced source within = .ok result)
    (before : ∀ self ∈ done, WellFormedAttribute self) :
    result.value.1.name = element ∧
      ∀ self ∈ result.value.1.attributes, WellFormedAttribute self := by
  fun_induction attributeList with
  | case1 =>
    cases read
    exact ⟨rfl, fun self member => before self (List.mem_reverse.mp member)⟩
  | case2 =>
    cases read
    exact ⟨rfl, fun self member => before self (List.mem_reverse.mp member)⟩
  | case3 => cases read
  | case4 => cases read
  | case5 =>
    rename_i ih
    obtain ⟨key, named, read⟩ := bind_ok read
    obtain ⟨sign, -, read⟩ := bind_ok read
    obtain ⟨⟨⟨value, expanded⟩, after, valued⟩, given, read⟩ := bind_ok read
    dsimp only at read
    split at read
    · cases read
    · refine ih _ _ key.suffix _ (List.dropWhile_suffix _) _ sign.suffix _
        (List.dropWhile_suffix _) _ _ _ valued _ _ (List.dropWhile_suffix _) read ?_
      exact List.forall_mem_cons.mpr
        ⟨⟨nameFrom_ok (mapError_ok named), attributeValue_xml plain given⟩, before⟩

/-- A start tag as documents may have it, its attributes with names of their own. -/
structure WellFormedTag (name : Text) (attributes : List Attribute) : Prop where
  named : IsName name
  each : ∀ self ∈ attributes, WellFormedAttribute self
  distinct : DistinctNames attributes

theorem startTag_wellFormed (plain : setting.table.Plain) {depth : Nat} {source : Text}
    {result : Read source (StartTag × Ledger)}
    (read : startTag setting depth ledger source = .ok result) :
    WellFormedTag result.value.1.name result.value.1.attributes := by
  have distinct := startTag_distinct read
  obtain ⟨element, named, read⟩ := bind_ok read
  dsimp only at read
  split at read
  · cases read
  · obtain ⟨same, attributes⟩ := attributeList_wellFormed plain read
      (List.forall_mem_nil _)
    exact ⟨same ▸ (name_ok (mapError_ok named)).1, attributes, distinct⟩

end Tags

end Markup

end XmlSelect
