import XmlSelect.Proofs.DocumentRoundTrip

/-! The text of a declaration: fields with blanks in front of each, and the end of the declaration
behind them. What is written so is read as the fields say, and every declaration that was read is
written so. Of fields with the same key the last one counts. -/
namespace XmlSelect.Markup

/-- A field of a declaration as it stands in a text: the blanks in front of it, its key, the blanks
on both sides of the sign, and its value between quotes. -/
structure Field where
  gap : Text
  key : Text
  before : Text
  after : Text
  quote : Char
  value : Text

namespace Field

def text (field : Field) : Text :=
  field.gap ++ (field.key ++ (field.before ++ '=' ::
    (field.after ++ (field.quote :: field.value ++ [field.quote]))))

/-- A field as it may stand in a text. -/
structure Proper (field : Field) : Prop where
  spaced : field.gap ≠ []
  gap : ∀ c ∈ field.gap, isBlank c = true
  named : IsName field.key
  before : ∀ c ∈ field.before, isBlank c = true
  after : ∀ c ∈ field.after, isBlank c = true
  quotes : isQuote field.quote = true
  held : XmlText field.value
  unquoted : field.quote ∉ field.value

end Field

/-- A field with a space in front of it and its value between double quotes. -/
def writtenField (key value : Text) : Field := ⟨[' '], key, [], [], '"', value⟩

theorem writtenField_proper {key value : Text} (named : IsName key) (held : XmlText value)
    (unquoted : '"' ∉ value) : (writtenField key value).Proper where
  spaced := List.cons_ne_nil _ _
  gap := by simp [writtenField, isBlank]
  named := named
  before := nofun
  after := nofun
  quotes := (by decide : isQuote '"' = true)
  held := held
  unquoted := unquoted

/-- What a declaration says behind further fields, if it may have them. -/
def DeclarationFields.setAll? (fields : DeclarationFields) : List Field → Option DeclarationFields
  | [] => some fields
  | field :: others =>
    (fields.set field.key (joinLineEnds field.value) []).toOption.bind (·.setAll? others)

theorem DeclarationFields.set_eq_ok_iff {fields result : DeclarationFields} {key value : Text}
    (rest : Text) :
    fields.set key value rest = .ok result ↔ (fields.set key value []).toOption = some result := by
  unfold DeclarationFields.set
  repeat' split
  all_goals simp [Except.toOption]

theorem skipBlanks_append {blanks : Text} (each : ∀ c ∈ blanks, isBlank c = true) {c : Char}
    (other : isBlank c = false) (rest : Text) :
    skipBlanks (blanks ++ c :: rest) =
      ⟨!blanks.isEmpty, c :: rest, List.suffix_append blanks _⟩ := by
  obtain ⟨_, skipped⟩ := Read.skip_append _ each (stops_cons other rest) _ rfl
  exact skipped

theorem not_isBlank_of_isQuote {c : Char} (quotes : isQuote c = true) : isBlank c = false := by
  simp only [isQuote, Bool.or_eq_true, beq_iff_eq] at quotes
  rcases quotes with rfl | rfl <;> decide

section Written

variable {whole : Text} {fields : DeclarationFields}

/-- One field is read, and then the blanks behind it. -/
theorem declaration_field {field : Field} (proper : field.Proper) {next : DeclarationFields}
    (set : (fields.set field.key (joinLineEnds field.value) []).toOption = some next)
    (behind : Text) (within : (skipBlanks (field.text ++ behind)).rest <:+ whole) :
    ∃ within', declaration whole fields (skipBlanks (field.text ++ behind)).value
        (skipBlanks (field.text ++ behind)).rest within =
      declaration whole next (skipBlanks behind).value (skipBlanks behind).rest within' := by
  obtain ⟨gap, key, before, after, quote, value⟩ := field
  obtain ⟨spaced, blank, named, beforeBlank, afterBlank, quotes, held, unquoted⟩ := proper
  dsimp only at spaced blank named beforeBlank afterBlank quotes held unquoted set
  cases key with
  | nil => cases named
  | cons first others =>
    have start : isNameStart first = true := named.1
    have shape : Field.text ⟨gap, first :: others, before, after, quote, value⟩ ++ behind =
        gap ++ first :: (others ++ (before ++ '=' ::
          (after ++ quote :: (value ++ [quote] ++ behind)))) := by
      simp [Field.text]
    revert within
    rw [shape, skipBlanks_append blank (not_isBlank_of_isNameStart start)]
    intro within
    have signHead : ∀ c ∈ (before ++ '=' :: (after ++ quote :: (value ++ [quote] ++ behind))).head?,
        isNameChar c = false := by
      intro c here
      cases before with
      | nil => cases here; decide
      | cons d before =>
        cases here
        exact not_isNameChar_of_isBlank (beforeBlank c List.mem_cons_self)
    have key := nameFrom_append named _ signHead
    have beforeSign := skipBlanks_append beforeBlank (c := '=') (by decide)
      (after ++ quote :: (value ++ [quote] ++ behind))
    obtain ⟨signSuffix, sign⟩ := takes_expect ['='] (after ++ quote :: (value ++ [quote] ++ behind))
      ('=' :: (after ++ quote :: (value ++ [quote] ++ behind))) rfl
    have beforeValue := skipBlanks_append afterBlank (not_isBlank_of_isQuote quotes)
      (value ++ [quote] ++ behind)
    obtain ⟨valueSuffix, valued⟩ := takes_quoted quotes held unquoted behind
      (quote :: (value ++ [quote] ++ behind)) rfl
    have unclosed : take? "?>".toList (first :: (others ++ (before ++ '=' ::
        (after ++ quote :: (value ++ [quote] ++ behind))))) = none :=
      take?_cons_of_ne (ne_of_isNameStart start '?' (by decide)).symm _ _
    have unspaced : (!(!gap.isEmpty)) = false := by simpa using spaced
    refine ⟨(List.dropWhile_suffix _).trans (valueSuffix.trans ((List.suffix_append after _).trans
      (signSuffix.trans ((List.suffix_append before _).trans
        ((List.suffix_append (first :: others) _).trans within))))), ?_⟩
    rw [declaration.eq_def]
    simp only [unclosed, unspaced, Bool.false_eq_true, if_false, key, ok_bind]
    rw [beforeSign]
    dsimp only
    rw [sign, ok_bind]
    dsimp only
    rw [beforeValue]
    dsimp only
    rw [valued, ok_bind]
    dsimp only
    rw [(DeclarationFields.set_eq_ok_iff behind).mpr set, ok_bind]

/-- A declaration is what its fields say. -/
def DeclarationFields.complete? (fields : DeclarationFields) : Option Declaration :=
  fields.version.map fun version => ⟨version, fields.encoding, fields.standalone⟩

/-- Fields and the end of the declaration behind them are read as the fields say. -/
theorem declaration_text {written : List Field} (proper : ∀ field ∈ written, field.Proper)
    {last : DeclarationFields} (set : fields.setAll? written = some last) {declared : Declaration}
    (complete : last.complete? = some declared) {blanks : Text}
    (blank : ∀ c ∈ blanks, isBlank c = true) (tail : Text) :
    ∀ source (within : (skipBlanks source).rest <:+ whole),
      source = written.flatMap Field.text ++ (blanks ++ ("?>".toList ++ tail)) → ∃ suffix,
        declaration whole fields (skipBlanks source).value (skipBlanks source).rest within =
          .ok ⟨declared, tail, suffix⟩ := by
  induction written generalizing fields with
  | nil =>
    rintro source within rfl
    have ending : "?>".toList ++ tail = '?' :: ('>' :: tail) := rfl
    have ended := take?_append "?>".toList tail
    revert within
    rw [List.flatMap_nil, List.nil_append, ending, skipBlanks_append blank (by decide), ← ending]
    intro within
    refine ⟨(List.suffix_append _ tail).trans within, ?_⟩
    cases set
    obtain ⟨version, found, rfl⟩ := Option.map_eq_some_iff.mp complete
    rw [declaration.eq_def]
    dsimp only
    rw [ended]
    dsimp only
    rw [found]
  | cons field others ih =>
    rintro source within rfl
    rw [List.forall_mem_cons] at proper
    obtain ⟨next, here, further⟩ := Option.bind_eq_some_iff.mp set
    revert within
    rw [List.flatMap_cons, List.append_assoc]
    intro within
    obtain ⟨within', step⟩ := declaration_field proper.1 here _ within
    rw [step]
    exact ih proper.2 further _ within' rfl

/-- Fields as they may stand in a text say what a declaration says. -/
structure Declares (written : List Field) (declared : Declaration) : Prop where
  proper : ∀ field ∈ written, field.Proper
  complete : (({} : DeclarationFields).setAll? written).bind (·.complete?) = some declared

/-- A declaration is read from the start of a document. -/
theorem takes_optionalDeclaration {written : List Field} {declared : Declaration}
    (declares : Declares written declared) (tail : Text) :
    Takes optionalDeclaration ("<?xml".toList ++ written.flatMap Field.text ++ "?>".toList) tail
      (some declared) := by
  intro source text
  obtain ⟨proper, complete⟩ := declares
  obtain ⟨last, set, complete⟩ := Option.bind_eq_some_iff.mp complete
  obtain rfl : source =
      "<?xml".toList ++ (written.flatMap Field.text ++ ("?>".toList ++ tail)) := by
    rw [text, List.append_assoc, List.append_assoc]
  have opened := take?_append "<?xml".toList (written.flatMap Field.text ++ ("?>".toList ++ tail))
  have spaced : (written.flatMap Field.text ++ ("?>".toList ++ tail)).head?.any isBlank = true := by
    cases written with
    | nil => cases set; cases complete
    | cons field others =>
      obtain ⟨spaced, blank, -⟩ := proper field List.mem_cons_self
      obtain ⟨_ | ⟨first, gap⟩, _⟩ := field
      · exact absurd rfl spaced
      · exact blank first List.mem_cons_self
  obtain ⟨suffix, read⟩ := declaration_text proper set complete (List.forall_mem_nil _) tail
    (written.flatMap Field.text ++ ("?>".toList ++ tail))
    ((List.dropWhile_suffix _).trans (List.suffix_append "<?xml".toList _)) rfl
  refine ⟨suffix, ?_⟩
  rw [optionalDeclaration, opened]
  dsimp only
  rw [if_pos spaced]
  exact bind_of_ok read rfl

end Written

section WasRead

/-- What is passed over are the blanks in front of the rest. -/
theorem skipBlanks_text (source : Text) : ∃ blanks,
    source = blanks ++ (skipBlanks source).rest ∧ (∀ c ∈ blanks, isBlank c = true) ∧
      (skipBlanks source).value = !blanks.isEmpty := by
  refine ⟨source.takeWhile isBlank, List.takeWhile_append_dropWhile.symm,
    fun c member => List.mem_takeWhile_imp member, ?_⟩
  cases source with
  | nil => rfl
  | cons c rest => cases blank : isBlank c <;> simp [skipBlanks, Read.skip, blank]

/-- A literal that was read stands between quotes that it does not hold. -/
theorem quoted_text {source : Text} {read : Read source Text} (taken : quoted source = .ok read) :
    ∃ quote literal, source = quote :: (literal ++ [quote] ++ read.rest) ∧ isQuote quote = true ∧
      XmlText literal ∧ quote ∉ literal ∧ read.value = joinLineEnds literal := by
  have quotes : source.head?.any isQuote = true := by
    cases source with
    | nil => cases taken
    | cons quote rest =>
      unfold quoted at taken
      dsimp only at taken
      split at taken
      · assumption
      · cases taken
  obtain ⟨quote, rest, inner, rfl, within, value, behind⟩ := quoted_ok taken
  obtain ⟨literal, found, held, same⟩ := takeUntil_ok within
  refine ⟨quote, literal, ?_, quotes, held, fun inside => ?_, value.trans same⟩
  · rw [behind, ← Text.append_of_breakOn? found]
  · obtain ⟨front, back, rfl⟩ := List.append_of_mem inside
    exact Text.not_infix_of_breakOn? (List.cons_ne_nil _ _) found ⟨front, back, by simp⟩

theorem nameFrom_text {first : Char} {others : Text} {read : Read others Text}
    (begun : nameFrom first others = .ok read) :
    IsName read.value ∧ first :: others = read.value ++ read.rest := by
  have named : name (first :: others) = .ok (read.within (List.suffix_cons _ _)) := by
    rw [name, begun]
    rfl
  exact name_ok named

variable {whole : Text} {fields : DeclarationFields}

/-- A declaration that was read is written as fields and the end behind them. -/
theorem declaration_fields {spaced : Bool} {source : Text} {within : source <:+ whole}
    {result : Read whole Declaration}
    (read : declaration whole fields spaced source within = .ok result) :
    ∀ gap : Text, (∀ c ∈ gap, isBlank c = true) → spaced = !gap.isEmpty →
      ∃ written last blanks, gap ++ source = written.flatMap Field.text ++
          (blanks ++ ("?>".toList ++ result.rest)) ∧
        (∀ field ∈ written, field.Proper) ∧ (∀ c ∈ blanks, isBlank c = true) ∧
          fields.setAll? written = some last ∧ last.complete? = some result.value := by
  fun_induction declaration with
  | case1 => cases read
  | case2 fields spaced source within _ rest closed found version complete =>
    intro gap blank same
    cases read
    refine ⟨[], fields, gap, congrArg (gap ++ ·) (take?_eq_some found), nofun, blank, rfl, ?_⟩
    rw [DeclarationFields.complete?, complete]
    rfl
  | case3 => cases read
  | case4 => cases read
  | case5 =>
    rename_i spaced first others _ _ _ ih
    intro gap blank same
    obtain ⟨key, begun, read⟩ := bind_ok read
    obtain ⟨sign, signed, read⟩ := bind_ok read
    obtain ⟨value, valued, read⟩ := bind_ok read
    obtain ⟨next, set, read⟩ := bind_ok read
    obtain ⟨named, keyText⟩ := nameFrom_text begun
    obtain ⟨before, beforeText, beforeBlank, -⟩ := skipBlanks_text key.rest
    obtain ⟨after, afterText, afterBlank, -⟩ := skipBlanks_text sign.rest
    obtain ⟨quote, literal, valueText, quotes, held, unquoted, joined⟩ := quoted_text valued
    obtain ⟨nextGap, gapText, gapBlank, nextSpaced⟩ := skipBlanks_text value.rest
    obtain ⟨written, last, blanks, text, proper, blanksBlank, further, complete⟩ :=
      ih _ key.suffix _ (List.dropWhile_suffix _) _ sign.suffix _ (List.dropWhile_suffix _) _
        value.suffix next _ _ (List.dropWhile_suffix _) read nextGap gapBlank nextSpaced
    refine ⟨⟨gap, key.value, before, after, quote, literal⟩ :: written, last, blanks, ?_, ?_,
      blanksBlank, ?_, complete⟩
    · have signText : (skipBlanks key.rest).rest = ['='] ++ sign.rest := expect_ok signed
      have literalText : (skipBlanks sign.rest).rest =
          quote :: (literal ++ [quote] ++ value.rest) := valueText
      rw [keyText, beforeText, signText, afterText, literalText, gapText, List.flatMap_cons,
        List.append_assoc (Field.text _), ← text]
      simp [Field.text, skipBlanks, Read.skip]
    · have filled : gap ≠ [] := by
        rintro rfl
        simp_all
      exact List.forall_mem_cons.mpr
        ⟨⟨filled, blank, named, beforeBlank, afterBlank, quotes, held, unquoted⟩, proper⟩
    · rw [DeclarationFields.set_eq_ok_iff, joined] at set
      rw [DeclarationFields.setAll?, set]
      exact further

theorem optionalDeclaration_fields {source : Text} {read : Read source (Option Declaration)}
    (start : optionalDeclaration source = .ok read) {declared : Declaration}
    (found : read.value = some declared) :
    ∃ written blanks, source = "<?xml".toList ++ (written.flatMap Field.text ++
        (blanks ++ ("?>".toList ++ read.rest))) ∧
      (∀ c ∈ blanks, isBlank c = true) ∧ Declares written declared := by
  unfold optionalDeclaration at start
  split at start
  · rename_i rest opened taken
    split at start
    · obtain ⟨body, inside, start⟩ := bind_ok start
      cases start
      cases found
      obtain ⟨gap, gapText, gapBlank, spaced⟩ := skipBlanks_text rest
      obtain ⟨written, last, blanks, text, proper, blank, set, complete⟩ :=
        declaration_fields inside gap gapBlank spaced
      exact ⟨written, blanks, (take?_eq_some taken).trans (congrArg _ (gapText.trans text)), blank,
        proper, by rw [set]; exact complete⟩
    · cases start
      cases found
  · cases start
    cases found

/-- What a declaration says is made of the characters of its fields. -/
theorem setAll?_xml {written : List Field} (proper : ∀ field ∈ written, field.Proper)
    {last : DeclarationFields} (set : fields.setAll? written = some last)
    (version : ∀ literal ∈ fields.version, XmlText literal)
    (encoding : ∀ literal ∈ fields.encoding, XmlText literal) :
    (∀ literal ∈ last.version, XmlText literal) ∧
      ∀ literal ∈ last.encoding, XmlText literal := by
  induction written generalizing fields with
  | nil =>
    cases set
    exact ⟨version, encoding⟩
  | cons field others ih =>
    rw [List.forall_mem_cons] at proper
    have held : XmlText (joinLineEnds field.value) :=
      proper.1.held.of_subset fun c => mem_of_mem_joinLineEnds
    obtain ⟨next, here, further⟩ := Option.bind_eq_some_iff.mp set
    rw [← DeclarationFields.set_eq_ok_iff []] at here
    unfold DeclarationFields.set at here
    split at here
    · cases here
      exact ih proper.2 further (fun _ same => by cases same; exact held) encoding
    · split at here
      · cases here
        exact ih proper.2 further version fun _ same => by cases same; exact held
      · split at here
        · split at here
          · cases here
            exact ih proper.2 further version encoding
          · split at here
            · cases here
              exact ih proper.2 further version encoding
            · cases here
        · cases here

/-- The literals of a declaration that was read are made of characters that documents may hold. -/
theorem Declares.xml {written : List Field} {declared : Declaration}
    (declares : Declares written declared) :
    (XmlText declared.version) ∧ ∀ literal ∈ declared.encoding, XmlText literal := by
  obtain ⟨last, set, complete⟩ := Option.bind_eq_some_iff.mp declares.complete
  obtain ⟨version, found, rfl⟩ := Option.map_eq_some_iff.mp complete
  have held := setAll?_xml declares.proper set nofun nofun
  exact ⟨held.1 version found, held.2⟩

end WasRead

end XmlSelect.Markup
