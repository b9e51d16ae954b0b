import XmlSelect.Markup.Print
import XmlSelect.Proofs.NormalContent

/-! Reading what was written. Each piece of a written document, whatever stands behind it, is read
as what it was written for: characters with their escapes, attributes, tags, and the nodes that
stand between delimiters. -/
namespace XmlSelect.Markup

/-- A reader takes `piece` from the front of a text for `value`, and `tail` is left. -/
def Takes {ε α : Type} (reader : (source : Text) → Except ε (Read source α)) (piece tail : Text)
    (value : α) : Prop :=
  ∀ source, source = piece ++ tail → ∃ suffix, reader source = .ok ⟨value, tail, suffix⟩

section Smallest

variable {piece tail : Text}

theorem take?_cons_of_ne {first other : Char} (different : first ≠ other) (wanted rest : Text) :
    take? (first :: wanted) (other :: rest) = none := take?_eq_none (if_neg different)

theorem takes_expect (wanted rest : Text) : Takes (expect wanted) wanted rest () := by
  rintro source rfl
  exact ⟨List.suffix_append wanted rest, by rw [expect, take?_append]⟩

theorem skipBlanks_of_head {c : Char} (other : isBlank c = false) (rest : Text) :
    skipBlanks (c :: rest) = ⟨false, c :: rest, List.suffix_refl _⟩ := by
  simp [skipBlanks, Read.skip, other]

theorem skipBlanks_space {c : Char} (other : isBlank c = false) (rest : Text) :
    skipBlanks (' ' :: c :: rest) = ⟨true, c :: rest, List.suffix_cons _ _⟩ := by
  have blank : isBlank ' ' = true := by decide
  simp [skipBlanks, Read.skip, other, blank]

/-- A character that no name starts with is none that a name starts with. -/
theorem ne_of_isNameStart {c : Char} (start : isNameStart c = true) (other : Char)
    (none : isNameStart other = false) : c ≠ other := by
  rintro rfl
  cases start.symm.trans none

theorem not_isBlank_of_isNameStart {c : Char} (start : isNameStart c = true) :
    isBlank c = false := by
  have space := ne_of_isNameStart start ' ' (by decide)
  have tab := ne_of_isNameStart start '\t' (by decide)
  have return_ := ne_of_isNameStart start '\r' (by decide)
  have lineFeed := ne_of_isNameStart start '\n' (by decide)
  simp [isBlank, space, tab, return_, lineFeed]

theorem not_isNameChar_of_isBlank {c : Char} (blank : isBlank c = true) :
    isNameChar c = false := by
  simp only [isBlank, Bool.or_eq_true, beq_iff_eq] at blank
  rcases blank with ((rfl | rfl) | rfl) | rfl <;> decide

theorem nameFrom_append {first : Char} {others : Text} (valid : IsName (first :: others))
    (tail : Text) (stops : ∀ c ∈ tail.head?, isNameChar c = false) :
    nameFrom first (others ++ tail) =
      .ok ⟨first :: others, tail, List.suffix_append others tail⟩ := by
  obtain ⟨taken, left⟩ := span_append valid.2 stops
  simp [nameFrom, valid.1, taken, left]

theorem takes_name {target : Text} (valid : IsName target) (tail : Text)
    (stops : ∀ c ∈ tail.head?, isNameChar c = false) : Takes name target tail target := by
  rintro source rfl
  cases target with
  | nil => cases valid
  | cons first others =>
    refine ⟨List.suffix_append _ _, ?_⟩
    simp only [List.cons_append, name, nameFrom_append valid tail stops]
    rfl

/-- A text begins with one name at most. -/
theorem target_eq_of_append_eq {target other tail rest : Text} (valid : IsName target)
    (valid' : IsName other) (stops : ∀ c ∈ tail.head?, isNameChar c = false)
    (stops' : ∀ c ∈ rest.head?, isNameChar c = false) (same : target ++ tail = other ++ rest) :
    target = other := by
  obtain ⟨_, named⟩ := takes_name valid tail stops _ rfl
  obtain ⟨_, named'⟩ := takes_name valid' rest stops' _ same
  exact congrArg Read.value (Except.ok.inj (named.symm.trans named'))

/-- What is taken up to a delimiter whose last character is nowhere else in it. -/
theorem takes_takeUntil (delimiter front : Text) (last : Char)
    (shape : delimiter = front ++ [last]) (single : last ∉ front) {body : Text}
    (absent : ¬delimiter <:+: body) (held : XmlText body) (part : Part) (tail : Text) :
    Takes (takeUntil delimiter part) (body ++ delimiter) tail (joinLineEnds body) := by
  rintro source rfl
  rw [List.append_assoc]
  have found : Text.breakOn? delimiter (body ++ (delimiter ++ tail)) = some (body, tail) := by
    subst shape
    exact Text.breakOn?_append single absent tail
  exact takeUntil_of_breakOn? found held part

end Smallest

section Escapes

/-- A reference without its ampersand stands for a character, wherever it is. -/
def StandsFor (body : Text) (c : Char) : Prop :=
  ∀ (setting : Setting) (place : Place) (ledger : Ledger) (tail : Text),
    Takes (reference setting place ledger) body tail ([c], ledger)

/-- A named reference is read up to its semicolon, and then expanded. -/
theorem reference_named {entity : Text} (valid : IsName entity) (setting : Setting) (place : Place)
    (ledger : Ledger) (tail : Text) :
    ∀ source, source = entity ++ ';' :: tail → ∃ suffix, reference setting place ledger source =
      (Expansion.named ⟨setting.options, setting.table, place, tail⟩ setting.table ledger
        entity).map fun expanded => ⟨expanded, tail, suffix⟩ := by
  intro source text
  obtain ⟨suffix, named⟩ := takes_name valid (';' :: tail)
    (fun d here => by cases here; decide) source text
  obtain ⟨closed, semicolon⟩ := takes_expect [';'] tail (';' :: tail) rfl
  refine ⟨closed.trans suffix, ?_⟩
  unfold reference
  split
  · cases entity with
    | nil => cases valid
    | cons first others =>
      cases text
      exact absurd valid.1 (by decide)
  · rw [named]
    simp only [withLedger, Except.mapError, bind, Except.bind, semicolon]
    cases Expansion.named ⟨setting.options, setting.table, place, tail⟩ setting.table ledger
      entity <;> rfl

theorem standsFor_predefined (entity : Text) {c : Char} (known : predefined? entity = some c)
    (valid : IsName entity) : StandsFor (entity ++ [';']) c := by
  intro setting place ledger tail source text
  obtain ⟨suffix, expanded⟩ :=
    reference_named valid setting place ledger tail source (by simpa using text)
  refine ⟨suffix, ?_⟩
  simp only [expanded, Expansion.named, known]
  rfl

theorem takes_charReference {digits : Text} {c : Char} (nonempty : digits ≠ [])
    (numeric : ∀ d ∈ digits, d.isDigit = true) (small : pointOfDigits 10 digits < UInt32.size)
    (found : charOfPoint? (pointOfDigits 10 digits) = some c) (tail : Text) :
    Takes charReference (digits ++ [';']) tail c := by
  rintro source text
  rw [List.append_assoc, List.singleton_append] at text
  obtain ⟨taken, left⟩ : source.takeWhile Char.isDigit = digits ∧
      source.dropWhile Char.isDigit = ';' :: tail :=
    text ▸ span_append numeric (stops_cons (by decide) tail)
  obtain ⟨closed, semicolon⟩ := takes_expect [';'] tail (source.dropWhile Char.isDigit) left
  refine ⟨closed.trans (List.dropWhile_suffix _), ?_⟩
  unfold charReference
  split
  · -- An `x` would be the first digit.
    rename_i rest
    exfalso
    cases digits with
    | nil => exact nonempty rfl
    | cons first digits =>
      cases text
      exact absurd (numeric 'x' List.mem_cons_self) (by decide)
  · simp [pointReference, taken, semicolon, nonempty, bind, Except.bind, Nat.not_le.mpr small,
      found]
    rfl

theorem standsFor_point (digits : Text) {c : Char} (nonempty : digits ≠ [])
    (numeric : ∀ d ∈ digits, d.isDigit = true) (small : pointOfDigits 10 digits < UInt32.size)
    (found : charOfPoint? (pointOfDigits 10 digits) = some c) :
    StandsFor ('#' :: digits ++ [';']) c := by
  rintro setting place ledger tail source rfl
  obtain ⟨suffix, point⟩ := takes_charReference nonempty numeric small found tail
    (digits ++ [';'] ++ tail) rfl
  refine ⟨suffix.trans (List.suffix_cons _ _), ?_⟩
  simp only [List.cons_append, reference, point]
  rfl

/-- What is written for a character of running text: a reference to it, or the character. -/
theorem escapeText_cases (c : Char) :
    (∃ body, escapeText c = '&' :: body ∧ StandsFor body c) ∨
      (escapeText c = [c] ∧ c ≠ '&' ∧ c ≠ '<' ∧ c ≠ '>' ∧ c ≠ '\r') := by
  unfold escapeText
  split
  · exact .inl ⟨_, rfl, standsFor_predefined "amp".toList rfl ⟨rfl, List.all_eq_true.mp rfl⟩⟩
  · exact .inl ⟨_, rfl, standsFor_predefined "lt".toList rfl ⟨rfl, List.all_eq_true.mp rfl⟩⟩
  · exact .inl ⟨_, rfl, standsFor_predefined "gt".toList rfl ⟨rfl, List.all_eq_true.mp rfl⟩⟩
  · exact .inl ⟨_, rfl,
      standsFor_point "13".toList (by decide) (List.all_eq_true.mp rfl) (by decide) rfl⟩
  · rename_i ampersand less greater return_
    exact .inr ⟨rfl, ampersand, less, greater, return_⟩

/-- What is written for a character of an attribute value. -/
theorem escapeAttribute_cases (c : Char) :
    (∃ body, escapeAttribute c = '&' :: body ∧ StandsFor body c) ∨
      (escapeAttribute c = [c] ∧ c ≠ '"' ∧ c ≠ '\n' ∧ c ≠ '\t' ∧ c ≠ '&' ∧ c ≠ '<' ∧ c ≠ '\r') := by
  unfold escapeAttribute
  split
  · exact .inl ⟨_, rfl, standsFor_predefined "quot".toList rfl ⟨rfl, List.all_eq_true.mp rfl⟩⟩
  · exact .inl ⟨_, rfl,
      standsFor_point "10".toList (by decide) (List.all_eq_true.mp rfl) (by decide) rfl⟩
  · exact .inl ⟨_, rfl,
      standsFor_point "9".toList (by decide) (List.all_eq_true.mp rfl) (by decide) rfl⟩
  · rename_i quote lineFeed tab
    refine (escapeText_cases c).imp id fun ⟨written, ampersand, less, _, return_⟩ => ?_
    exact ⟨written, quote, lineFeed, tab, ampersand, less, return_⟩

end Escapes

section Tags

variable (setting : Setting) (ledger : Ledger)

/-- A value between double quotes is read back up to the closing one. -/
theorem attributeText_printed {value : Text} (held : XmlText value) (tail whole done : Text) :
    ∀ source within, source = value.flatMap escapeAttribute ++ '"' :: tail → ∃ suffix,
      attributeText setting '"' whole ledger done source within =
        .ok ⟨(done.reverse ++ value, ledger), tail, suffix⟩ := by
  induction value generalizing done with
  | nil =>
    rintro source within rfl
    refine ⟨(List.suffix_cons _ _).trans within, ?_⟩
    simp [attributeText]
  | cons c value ih =>
    rintro source within text
    have first : isXmlChar c = true := held c List.mem_cons_self
    have further := ih (fun d member => held d (List.mem_cons_of_mem c member)) (c :: done)
    rw [List.reverse_cons, List.append_assoc, List.singleton_append] at further
    rw [List.flatMap_cons, List.append_assoc] at text
    rcases escapeAttribute_cases c with ⟨body, written, stands⟩ | ⟨written, other⟩
    · rw [written, List.cons_append] at text
      subst text
      obtain ⟨behind, referred⟩ := stands setting .attributeValue ledger
        (value.flatMap escapeAttribute ++ '"' :: tail) _ rfl
      obtain ⟨suffix, read⟩ :=
        further _ (behind.trans ((List.suffix_cons _ _).trans within)) rfl
      refine ⟨suffix, ?_⟩
      rw [attributeText, if_neg (by decide), if_neg (by decide), if_pos (by decide), referred]
      exact read
    · rw [written, List.singleton_append] at text
      subst text
      obtain ⟨quote, lineFeed, tab, ampersand, less, return_⟩ := other
      obtain ⟨suffix, read⟩ := further _ ((List.suffix_cons _ _).trans within) rfl
      refine ⟨suffix, ?_⟩
      have kept : Place.attributeValue.normalize [c] = [c] := by
        by_cases space : c = ' '
        · subst space
          decide
        · simp [Place.normalize, isBlank, space, lineFeed, tab, return_]
      rw [attributeText, if_neg (by simpa using quote), if_neg (by simpa using less),
        if_neg (by simpa using ampersand), nextChar_eq first return_]
      simp only [withLedger, Except.mapError, bind, Except.bind, kept]
      exact read

/-- What ends a start tag. -/
def tagEnd (closed : Bool) : Text := if closed then ['/', '>'] else ['>']

theorem attributeList_tagEnd (closed : Bool) (element tail whole : Text) (done : List Attribute)
    (spaced : Bool) (within : tagEnd closed ++ tail <:+ whole) :
    ∃ suffix, attributeList setting element whole ledger done spaced (tagEnd closed ++ tail)
        within =
      .ok ⟨(⟨element, done.reverse, closed⟩, ledger), tail, suffix⟩ := by
  refine ⟨(List.suffix_append _ tail).trans within, ?_⟩
  cases closed with
  | true =>
    have ends : take? "/>".toList (tagEnd true ++ tail) = some ⟨(), tail, _⟩ := take?_append ..
    rw [attributeList.eq_def, ends]
  | false =>
    have open_ : take? "/>".toList (tagEnd false ++ tail) = none := take?_eq_none rfl
    have ends : take? ['>'] (tagEnd false ++ tail) = some ⟨(), tail, _⟩ := take?_append ..
    rw [attributeList.eq_def, open_]
    dsimp only
    rw [ends]

theorem attributeValue_printed {value : Text} (held : XmlText value) (tail : Text) :
    ∀ source, source = '"' :: (value.flatMap escapeAttribute ++ '"' :: tail) → ∃ suffix,
      attributeValue setting ledger source = .ok ⟨(value, ledger), tail, suffix⟩ := by
  rintro source rfl
  obtain ⟨suffix, read⟩ := attributeText_printed setting ledger held tail
    _ [] _ (List.suffix_cons '"' _) rfl
  refine ⟨suffix, ?_⟩
  rw [attributeValue, if_pos (by decide)]
  exact read

/-- One attribute is read, and then the blanks behind it. -/
theorem attributeList_attribute {self : Attribute} (wellFormed : WellFormedAttribute self)
    {done : List Attribute} (fresh : ∀ other ∈ done, other.name ≠ self.name)
    (element behind whole : Text) (within : printAttribute self ++ behind <:+ whole) :
    ∃ within', attributeList setting element whole ledger done true (printAttribute self ++ behind)
        within =
      attributeList setting element whole ledger (self :: done) (skipBlanks behind).value
        (skipBlanks behind).rest within' := by
  obtain ⟨key, value⟩ := self
  obtain ⟨named, held⟩ := wellFormed
  cases key with
  | nil => cases named
  | cons first others =>
    have start : isNameStart first = true := named.1
    obtain ⟨valueSuffix, valued⟩ := attributeValue_printed setting ledger held behind _ rfl
    have text : printAttribute ⟨first :: others, value⟩ ++ behind = first ::
        (others ++ '=' :: '"' :: (value.flatMap escapeAttribute ++ '"' :: behind)) := by
      simp [printAttribute]
    revert within
    rw [text]
    generalize value.flatMap escapeAttribute ++ '"' :: behind = body at valueSuffix valued
    intro within
    have unended : take? "/>".toList (first :: (others ++ '=' :: '"' :: body)) = none :=
      take?_cons_of_ne (ne_of_isNameStart start '/' (by decide)).symm _ _
    have unclosed : take? ['>'] (first :: (others ++ '=' :: '"' :: body)) = none :=
      take?_cons_of_ne (ne_of_isNameStart start '>' (by decide)).symm _ _
    have key := nameFrom_append named ('=' :: '"' :: body) fun c here => by cases here; decide
    obtain ⟨signSuffix, sign⟩ := takes_expect ['='] ('"' :: body) ('=' :: '"' :: body) rfl
    have beforeSign := skipBlanks_of_head (c := '=') (by decide) ('"' :: body)
    have beforeValue := skipBlanks_of_head (c := '"') (by decide) body
    have unused : (done.any fun other => other.name == first :: others) = false := by
      simpa using fresh
    have next : (skipBlanks behind).rest <:+ whole :=
      (List.dropWhile_suffix _).trans (valueSuffix.trans ((List.suffix_cons '=' _).trans
        ((List.suffix_append (first :: others) _).trans within)))
    refine ⟨next, ?_⟩
    rw [attributeList.eq_def]
    simp only [unended, unclosed, key, Bool.not_true, Bool.false_eq_true, if_false, withLedger_ok,
      ok_bind]
    rw [beforeSign]
    dsimp only
    rw [sign, withLedger_ok, ok_bind]
    dsimp only
    rw [beforeValue]
    dsimp only
    rw [valued, ok_bind]
    dsimp only
    rw [unused, if_neg Bool.false_ne_true]

/-- Attributes with a space in front of each are read back up to the end of the start tag. -/
theorem attributeList_printed {attributes : List Attribute}
    (each : ∀ self ∈ attributes, WellFormedAttribute self) (closed : Bool)
    (element tail whole : Text) (done : List Attribute)
    (distinct : DistinctNames (done.reverse ++ attributes)) :
    ∀ source (within : (skipBlanks source).rest <:+ whole),
      source = attributes.flatMap (fun self => ' ' :: printAttribute self) ++
        (tagEnd closed ++ tail) → ∃ suffix,
      attributeList setting element whole ledger done (skipBlanks source).value
          (skipBlanks source).rest within =
        .ok ⟨(⟨element, done.reverse ++ attributes, closed⟩, ledger), tail, suffix⟩ := by
  induction attributes generalizing done with
  | nil =>
    rintro source within rfl
    have unspaced : skipBlanks (tagEnd closed ++ tail) =
        ⟨false, tagEnd closed ++ tail, List.suffix_refl _⟩ := by
      cases closed <;> exact skipBlanks_of_head (by decide) _
    revert within
    rw [List.flatMap_nil, List.nil_append, unspaced, List.append_nil]
    exact fun within => attributeList_tagEnd ..
  | cons self attributes ih =>
    rintro source within text
    rw [List.forall_mem_cons] at each
    rw [List.append_cons, ← List.reverse_cons] at distinct
    rw [List.flatMap_cons, List.cons_append, List.cons_append, List.append_assoc] at text
    subst text
    have spaced : ∀ behind, skipBlanks (' ' :: (printAttribute self ++ behind)) =
        ⟨true, printAttribute self ++ behind, List.suffix_cons _ _⟩ := by
      obtain ⟨⟨_ | ⟨first, others⟩, value⟩⟩ := self
      · cases each.1.named
      · exact fun behind => skipBlanks_space (not_isBlank_of_isNameStart each.1.named.1) _
    revert within
    rw [spaced]
    intro within
    have fresh : ∀ other ∈ done, other.name ≠ self.name := by
      intro other member same
      rw [DistinctNames, List.reverse_cons, List.append_assoc, List.map_append] at distinct
      exact (List.nodup_append.mp distinct).2.2 _
        (List.mem_map_of_mem (List.mem_reverse.mpr member)) _ List.mem_cons_self same
    obtain ⟨within', step⟩ := attributeList_attribute setting ledger
      each.1 fresh element _ whole within
    obtain ⟨suffix, read⟩ := ih each.2 (self :: done) distinct _ within' rfl
    refine ⟨suffix, ?_⟩
    rw [step, read, List.reverse_cons, List.append_assoc, List.singleton_append]

/-- What is written for a start tag, its opening bracket left out. -/
def printStartTag (element : Text) (attributes : List Attribute) (closed : Bool) : Text :=
  element ++ attributes.flatMap (fun self => ' ' :: printAttribute self) ++ tagEnd closed

theorem printStartTag_head {element : Text} (valid : IsName element) (attributes : List Attribute)
    (closed : Bool) (tail : Text) :
    (printStartTag element attributes closed ++ tail).head?.any isNameStart = true := by
  cases element with
  | nil => cases valid
  | cons first others => exact valid.1

theorem takes_startTag {element : Text} {attributes : List Attribute}
    (tag : WellFormedTag element attributes) (closed : Bool) {depth : Nat}
    (room : depth < setting.options.maxDepth) (tail : Text) :
    Takes (startTag setting depth ledger) (printStartTag element attributes closed) tail
      (⟨element, attributes, closed⟩, ledger) := by
  intro source text
  unfold printStartTag at text
  have stops : ∀ c ∈ (attributes.flatMap (fun self => ' ' :: printAttribute self) ++
      (tagEnd closed ++ tail)).head?, isNameChar c = false := by
    intro c here
    cases attributes with
    | nil => cases closed <;> cases here <;> decide
    | cons => cases here; decide
  obtain ⟨suffix, named⟩ := takes_name tag.named _ stops source (by simp [text])
  obtain ⟨_, listed⟩ := attributeList_printed setting ledger tag.each closed element tail source []
    tag.distinct _ ((List.dropWhile_suffix _).trans suffix) rfl
  exact ⟨_, by
    rw [startTag, named, withLedger_ok, ok_bind]
    dsimp only
    rw [if_neg (Nat.not_le.mpr room)]
    exact listed⟩

theorem takes_endTag {element : Text} (valid : IsName element) (tail : Text) :
    Takes (endTag element) (element ++ ['>']) tail () := by
  intro source text
  obtain ⟨suffix, named⟩ := takes_name valid ('>' :: tail) (fun c here => by cases here; decide)
    source (by simp [text])
  obtain ⟨closing, closed⟩ := takes_expect ['>'] tail ('>' :: tail) rfl
  refine ⟨closing.trans suffix, ?_⟩
  rw [endTag, named, ok_bind]
  dsimp only
  rw [if_neg (not_not_intro rfl), skipBlanks_of_head (by decide)]
  dsimp only
  rw [closed, ok_bind]
  rfl

end Tags

section Leaves

variable {content target : Text}

theorem takes_comment (held : XmlText content) (single : ¬"--".toList <:+: content)
    (stops : ¬['-'] <:+ content) (tail : Text) :
    Takes comment (content ++ "-->".toList) tail (.comment (joinLineEnds content)) := by
  intro source text
  have absent : ¬"-->".toList <:+: content :=
    fun inside => single ((List.prefix_append ['-', '-'] ['>']).isInfix.trans inside)
  obtain ⟨suffix, taken⟩ := takes_takeUntil "-->".toList ['-', '-'] '>' rfl (by decide) absent
    held .comment tail source text
  have unchanged : ¬"--".toList <:+: joinLineEnds content :=
    fun inside => single (infix_of_infix_joinLineEnds (by decide) inside)
  have stopped : ¬['-'] <:+ joinLineEnds content := by
    rwa [List.singleton_suffix_iff_getLast?_eq_some, getLast?_joinLineEnds,
      ← List.singleton_suffix_iff_getLast?_eq_some]
  have proper : (Text.includes "--".toList (joinLineEnds content) ||
      Text.endsWith ['-'] (joinLineEnds content)) = false := by
    rw [Bool.eq_false_iff]
    simpa [Text.includes_iff, Text.endsWith, List.isSuffixOf_iff_suffix] using
      ⟨unchanged, stopped⟩
  refine ⟨suffix, ?_⟩
  rw [comment, taken, ok_bind]
  dsimp only
  rw [proper, if_neg Bool.false_ne_true]
  rfl

theorem takes_cdataSection (held : XmlText content) (absent : ¬"]]>".toList <:+: content)
    (tail : Text) :
    Takes cdataSection (content ++ "]]>".toList) tail (.cdata (joinLineEnds content)) := by
  intro source text
  obtain ⟨suffix, taken⟩ := takes_takeUntil "]]>".toList [']', ']'] '>' rfl (by decide) absent
    held .cdata tail source text
  refine ⟨suffix, ?_⟩
  rw [cdataSection, taken, ok_bind]
  rfl

theorem takes_instruction (valid : IsName target) (proper : Text.toLower target ≠ "xml".toList)
    (tail : Text) :
    Takes instruction (target ++ "?>".toList) tail (.instruction target none) := by
  intro source text
  rw [List.append_assoc] at text
  obtain ⟨behind, named⟩ := takes_name valid ("?>".toList ++ tail)
    (fun c here => by cases here; decide) source text
  refine ⟨(List.suffix_append _ tail).trans behind, ?_⟩
  rw [instruction, named, ok_bind]
  dsimp only
  rw [if_neg (by simpa using proper), take?_append]
  rfl

theorem takes_instruction_data (valid : IsName target)
    (proper : Text.toLower target ≠ "xml".toList) {body : Text} (nonempty : body ≠ [])
    (held : XmlText body) (absent : ¬"?>".toList <:+: body)
    (first : ∀ c ∈ body.head?, isBlank c = false) (tail : Text) :
    Takes instruction (target ++ ' ' :: (body ++ "?>".toList)) tail
      (.instruction target (some (joinLineEnds body))) := by
  intro source text
  cases body with
  | nil => cases nonempty rfl
  | cons c body =>
    have spaced := skipBlanks_space (first c rfl) (body ++ ("?>".toList ++ tail))
    obtain ⟨behind, named⟩ := takes_name valid (' ' :: (c :: body ++ ("?>".toList ++ tail)))
      (fun c here => by cases here; decide) source (by simp [text])
    obtain ⟨suffix, taken⟩ := takes_takeUntil "?>".toList ['?'] '>' rfl (by decide) absent
      held .instruction tail (c :: body ++ ("?>".toList ++ tail)) (by simp)
    have unclosed : take? "?>".toList (' ' :: (c :: body ++ ("?>".toList ++ tail))) = none :=
      take?_cons_of_ne (by decide) _ _
    have required : requireBlank (' ' :: (c :: body ++ ("?>".toList ++ tail))) =
        .ok ⟨(), c :: body ++ ("?>".toList ++ tail), List.suffix_cons _ _⟩ := by
      rw [requireBlank, List.cons_append, spaced]
      rfl
    refine ⟨suffix.trans ((List.suffix_cons _ _).trans behind), ?_⟩
    rw [instruction, named, ok_bind]
    dsimp only
    rw [if_neg (by simpa using proper), unclosed]
    dsimp only
    rw [required, ok_bind]
    dsimp only
    rw [taken, ok_bind]
    dsimp only
    rw [if_neg (by simpa using joinLineEnds_ne_nil nonempty)]
    rfl

end Leaves

theorem printLeaf_instruction (target data : Text) :
    printLeaf (.instruction target (some data)) =
      '<' :: '?' :: (target ++ ' ' :: (data ++ "?>".toList)) := by
  unfold printLeaf
  generalize "?>".toList = closing
  have opening : "<?".toList = ['<', '?'] := rfl
  rw [opening]
  simp

/-- An instruction begins with its target, and the name ends there. -/
theorem printLeaf_target (target : Text) (data : Option Text) (tail : Text) :
    ∃ behind, printLeaf (.instruction target data) ++ tail = '<' :: '?' :: (target ++ behind) ∧
      ∀ c ∈ behind.head?, isNameChar c = false := by
  cases data with
  | none =>
    refine ⟨"?>".toList ++ tail, ?_, fun c here => by cases here; decide⟩
    rw [← List.append_assoc]
    rfl
  | some data =>
    refine ⟨' ' :: (data ++ "?>".toList ++ tail), ?_, fun c here => by cases here; decide⟩
    rw [printLeaf_instruction]
    simp

/-- A comment or an instruction is what is next behind its opening bracket. -/
theorem commentOrInstruction?_printed {leaf : Leaf} (proper : leaf.InContent)
    (markup : leaf.isText = false) (tail : Text) :
    ∃ body, printLeaf leaf = '<' :: body ∧ take? ['/'] (body ++ tail) = none ∧
      ∃ suffix, commentOrInstruction? (body ++ tail) = some (.ok ⟨leaf.joined, tail, suffix⟩) := by
  cases leaf with
  | text => cases markup
  | cdata => cases markup
  | doctype => cases proper
  | comment content =>
    obtain ⟨held, single, stops⟩ := proper
    obtain ⟨suffix, taken⟩ := takes_comment held single stops tail _ rfl
    refine ⟨'!' :: '-' :: '-' :: (content ++ "-->".toList), rfl, take?_cons_of_ne (by decide) _ _,
      suffix.trans (List.suffix_append ['!', '-', '-'] _), ?_⟩
    simp only [List.cons_append, commentOrInstruction?, taken]
    rfl
  | instruction target data =>
    obtain ⟨valid, other, each⟩ := proper
    cases data with
    | none =>
      obtain ⟨suffix, taken⟩ := takes_instruction valid other tail _ rfl
      refine ⟨'?' :: (target ++ "?>".toList), rfl, take?_cons_of_ne (by decide) _ _,
        suffix.trans (List.suffix_cons _ _), ?_⟩
      simp only [List.cons_append, commentOrInstruction?, taken]
      rfl
    | some data =>
      obtain ⟨nonempty, held, absent, first⟩ := each data rfl
      obtain ⟨suffix, taken⟩ := takes_instruction_data valid other nonempty held absent first tail
        _ rfl
      refine ⟨'?' :: (target ++ ' ' :: (data ++ "?>".toList)), printLeaf_instruction target data,
        take?_cons_of_ne (by decide) _ _, suffix.trans (List.suffix_cons _ _), ?_⟩
      simp only [List.cons_append, commentOrInstruction?, taken]
      rfl

/-- A node that is written between delimiters is what is next behind its opening bracket. -/
theorem contentLeaf?_printed {leaf : Leaf} (proper : leaf.InContent)
    (delimited : leaf.isRun = false) (tail : Text) :
    ∃ body, printLeaf leaf = '<' :: body ∧ take? ['/'] (body ++ tail) = none ∧
      ∃ suffix, contentLeaf? (body ++ tail) = some (.ok ⟨leaf.joined, tail, suffix⟩) := by
  cases text : leaf.isText with
  | false =>
    obtain ⟨body, written, unclosed, suffix, found⟩ :=
      commentOrInstruction?_printed proper text tail
    exact ⟨body, written, unclosed, suffix, by rw [contentLeaf?, found]⟩
  | true =>
    cases leaf with
    | text => cases delimited
    | cdata content =>
      obtain ⟨held, absent⟩ := proper
      obtain ⟨suffix, taken⟩ := takes_cdataSection held absent tail _ rfl
      refine ⟨"![CDATA[".toList ++ (content ++ "]]>".toList), rfl,
        take?_cons_of_ne (by decide) _ _, suffix.trans ⟨"![CDATA[".toList, rfl⟩, ?_⟩
      have ordinary : commentOrInstruction?
          ("![CDATA[".toList ++ (content ++ "]]>".toList) ++ tail) = none := rfl
      have opened : take? "![CDATA[".toList
          ("![CDATA[".toList ++ (content ++ "]]>".toList) ++ tail) =
            some ⟨(), content ++ "]]>".toList ++ tail, ⟨"![CDATA[".toList, rfl⟩⟩ :=
        take?_append "![CDATA[".toList _
      rw [contentLeaf?, ordinary, opened]
      dsimp only
      rw [Option.map_some, taken]
      rfl
    | _ => cases text

end XmlSelect.Markup
