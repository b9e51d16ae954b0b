import XmlSelect.Proofs.ContentRoundTrip
import XmlSelect.Proofs.EntityCharacters
import XmlSelect.Proofs.ReferenceReading

/-! Running text with references in it, as it may stand in an attribute value or in content. Up to
the quote or the tag behind it, it is read if it unfolds, and then for what it unfolds to. -/
namespace XmlSelect.Markup

/-- Running text in front of a stop: characters that are read as they stand, and references. -/
structure Inline (stop : Char) (text : Text) : Prop where
  held : XmlText text
  noReturn : '\r' ∉ text
  noTag : '<' ∉ text
  noStop : stop ∉ text
  unsigned : Unsigned text

/-- What running text comes to an end at: a quote, or the opening bracket of a tag. -/
def IsStop (stop : Char) : Prop := isQuote stop = true ∨ stop = '<'

section Stops

variable {stop : Char} {text front back name : Text}

theorem IsStop.cases (isStop : IsStop stop) : stop = '"' ∨ stop = '\'' ∨ stop = '<' := by
  rcases isStop with quote | rfl
  · simp only [isQuote, Bool.or_eq_true, beq_iff_eq] at quote
    exact quote.imp id .inl
  · exact .inr (.inr rfl)

theorem IsStop.not_isNameChar (isStop : IsStop stop) : isNameChar stop = false := by
  rcases isStop.cases with rfl | rfl | rfl <;> decide

/-- No reference has a stop in it. -/
theorem IsReference.unstopped (written : IsReference text) (isStop : IsStop stop) :
    stop ∉ text ++ [';'] := by
  have others : stop ≠ ';' ∧ stop ≠ '#' ∧ stop ≠ 'x' ∧ stop.isDigit = false ∧
      isHexDigit stop = false := by
    rcases isStop.cases with rfl | rfl | rfl <;> decide
  obtain ⟨semicolon, number, hexadecimal, noDigit, noHexDigit⟩ := others
  rw [List.mem_append, List.mem_singleton, not_or]
  refine ⟨fun member => ?_, semicolon⟩
  cases written with
  | decimal _ numeric =>
    rcases List.mem_cons.mp member with same | member
    · exact number same
    · cases noDigit.symm.trans (numeric _ member)
  | hexadecimal _ numeric =>
    rcases List.mem_cons.mp member with same | member
    · exact number same
    · rcases List.mem_cons.mp member with same | member
      · exact hexadecimal same
      · cases noHexDigit.symm.trans (numeric _ member)
  | name valid => cases isStop.not_isNameChar.symm.trans (valid.isNameChar member)

theorem IsReference.cut (written : IsReference text) (isStop : IsStop stop) {tail behind : Text}
    (same : front ++ stop :: tail = text ++ ';' :: behind) :
    ∃ later, '&' :: front = marked text ++ later ∧ behind = later ++ stop :: tail := by
  have closed : text ++ [';'] ++ behind = front ++ stop :: tail := by rw [same]; simp
  obtain ⟨later, rfl, rest⟩ := Text.cut_behind (written.unstopped isStop) closed
  exact ⟨later, rfl, rest⟩

theorem Unsigned.of_not_mem (absent : '+' ∉ text) : Unsigned text :=
  fun _ _ _ reference sign =>
    absent (reference.subset (by simp [marked, sign]))

theorem Unsigned.of_inside (unsigned : Unsigned text) (inside : front <:+: text) : Unsigned front :=
  fun number c found reference => unsigned number c found (reference.trans inside)

theorem Inline.behind (inline : Inline stop (front ++ back)) : Inline stop back where
  held c member := inline.held c (List.mem_append_right front member)
  noReturn member := inline.noReturn (List.mem_append_right front member)
  noTag member := inline.noTag (List.mem_append_right front member)
  noStop member := inline.noStop (List.mem_append_right front member)
  unsigned := inline.unsigned.of_inside (List.suffix_append front back).isInfix

theorem not_mem_marked_name (valid : IsName name) {c : Char} (other : isNameChar c = false)
    (noMark : c ≠ '&' ∧ c ≠ ';') : c ∉ marked name := by
  intro member
  rw [marked, List.mem_cons, List.mem_append, List.mem_singleton] at member
  rcases member with same | member | same
  · exact noMark.1 same
  · cases other.symm.trans (valid.isNameChar member)
  · exact noMark.2 same

/-- A reference to a name is running text. -/
theorem inline_marked (valid : IsName name) (isStop : IsStop stop) : Inline stop (marked name) := by
  have noNumber : '#' ∉ marked name := not_mem_marked_name valid (by decide) (by decide)
  refine ⟨?_, not_mem_marked_name valid (by decide) (by decide),
    not_mem_marked_name valid (by decide) (by decide),
    not_mem_marked_name valid isStop.not_isNameChar ?_, ?_⟩
  · rw [marked]
    exact .cons (by decide) (valid.xml.append (.cons (by decide) .nil))
  · rcases isStop.cases with rfl | rfl | rfl <;> decide
  · intro number c found reference
    exact absurd (reference.subset (by simp [marked])) noNumber

end Stops

section WithoutTags

variable {stop : Char} {pattern text : Text}

theorem mem_withoutTags {c : Char} (member : c ∈ withoutTags text) :
    c ∈ text ∧ c ≠ '<' ∨ c ∈ marked "lt".toList := by
  obtain ⟨d, listed, inside⟩ := List.mem_flatMap.mp member
  split at inside
  · exact .inr inside
  · rename_i other
    obtain rfl := List.mem_singleton.mp inside
    exact .inl ⟨listed, by simpa using other⟩

theorem prefix_of_prefix_withoutTags (unmarked : '&' ∉ pattern)
    (start : pattern <+: withoutTags text) : pattern <+: text := by
  induction pattern generalizing text with
  | nil => exact List.nil_prefix
  | cons p pattern ih =>
    rw [List.mem_cons, not_or] at unmarked
    cases text with
    | nil => exact start
    | cons c text =>
      by_cases tag : c = '<'
      · subst tag
        rw [Setting.withoutTags_tag, marked, List.cons_append, List.cons_prefix_cons] at start
        exact absurd start.1.symm unmarked.1
      · rw [Setting.withoutTags_cons tag, List.cons_prefix_cons] at start
        exact List.cons_prefix_cons.mpr ⟨start.1, ih unmarked.2 start.2⟩

/-- No reference comes in but the one to the opening bracket of a tag. -/
theorem infix_of_infix_withoutTags (unmarked : '&' ∉ pattern) (noTag : ¬['l'] <+: pattern)
    (nonempty : pattern ≠ []) (inside : '&' :: pattern <:+: withoutTags text) :
    '&' :: pattern <:+: text := by
  induction text with
  | nil => exact inside
  | cons c text ih =>
    by_cases tag : c = '<'
    · subst tag
      refine (ih ?_).trans (List.suffix_cons _ _).isInfix
      rw [Setting.withoutTags_tag] at inside
      rcases List.infix_cons_iff.mp inside with start | inside
      · cases pattern with
        | nil => exact absurd rfl nonempty
        | cons p pattern =>
          have first : p :: pattern <+: 'l' :: 't' :: ';' :: withoutTags text :=
            (List.cons_prefix_cons.mp start).2
          rw [(List.cons_prefix_cons.mp first).1] at noTag
          exact absurd (List.cons_prefix_cons.mpr ⟨rfl, List.nil_prefix⟩) noTag
      · exact Text.infix_of_infix_append (by decide) inside
    · rw [Setting.withoutTags_cons tag] at inside
      rcases List.infix_cons_iff.mp inside with start | inside
      · rw [List.cons_prefix_cons] at start
        obtain ⟨rfl, start⟩ := start
        exact (List.cons_prefix_cons.mpr
          ⟨rfl, prefix_of_prefix_withoutTags unmarked start⟩).isInfix
      · exact (ih inside).trans (List.suffix_cons _ _).isInfix

theorem Unsigned.withoutTags (unsigned : Unsigned text) : Unsigned (withoutTags text) := by
  intro number c found reference
  have unmarked : '&' ∉ '#' :: (number ++ [';']) := by
    have noDigit : ¬isHexDigit '&' = true := by decide
    simp only [List.mem_cons, List.mem_append, List.not_mem_nil, or_false]
    rintro (same | member | same)
    · cases same
    · rcases mem_of_numericReference? found member with same | same | digit
      · cases same
      · cases same
      · exact noDigit digit
    · cases same
  exact unsigned number c found
    (infix_of_infix_withoutTags unmarked (by simp [List.cons_prefix_cons]) (by simp) reference)

/-- With references in the places of the opening brackets, a text may stand in front of a quote. -/
theorem inline_withoutTags (isStop : IsStop stop) (held : XmlText text) (noReturn : '\r' ∉ text)
    (noStop : stop = '<' ∨ stop ∉ text) (unsigned : Unsigned text) :
    Inline stop (withoutTags text) := by
  have absent {c : Char} (unlisted : c = '<' ∨ c ∉ text) (other : c ∉ marked "lt".toList) :
      c ∉ withoutTags text := by
    intro member
    rcases mem_withoutTags member with ⟨member, noTag⟩ | inserted
    · exact unlisted.elim noTag fun unlisted => unlisted member
    · exact other inserted
  refine ⟨fun c member => ?_, absent (.inr noReturn) (by decide), absent (.inl rfl) (by decide),
    absent noStop ?_, unsigned.withoutTags⟩
  · rcases mem_withoutTags member with ⟨member, -⟩ | inserted
    · exact held c member
    · have written : IsName "lt".toList := by decide
      exact (inline_marked written isStop).held c inserted
  · rcases isStop.cases with rfl | rfl | rfl <;> decide

end WithoutTags

section Loops

variable {β : Type} {whole text value source : Text} {setting : Setting} {place : Place} {stop : Char}
  {allowed : Text → Prop} {ledger : Ledger} {spent : Nat}
  {loop : Ledger → Text → (source : Text) → source <:+ whole → Except Failure β}

/-- A loop over running text. The text so far is kept last character first, and put in front of it is
each character as it is in such a place, and what each reference stands for. -/
structure Runs (setting : Setting) (place : Place) (stop : Char) (allowed : Text → Prop)
    (loop : Ledger → Text → (source : Text) → source <:+ whole → Except Failure β) : Prop where
  behind : ∀ {front back}, allowed (front ++ back) → allowed back
  character : ∀ {c text tail ledger done} (within : c :: (text ++ stop :: tail) <:+ whole),
    Inline stop (c :: text) → allowed (c :: text) → c ≠ '&' →
      ∃ within', loop ledger done (c :: (text ++ stop :: tail)) within =
        loop ledger (place.normalize [c] ++ done) (text ++ stop :: tail) within'
  reference : ∀ {rest ledger done} (within : '&' :: rest <:+ whole),
    loop ledger done ('&' :: rest) within = reference setting place ledger rest >>= fun read =>
      loop read.value.2 (read.value.1.reverse ++ done) read.rest
        (read.suffix.trans ((List.suffix_cons _ _).trans within))

theorem Place.reverse_normalize (place : Place) (c : Char) (value done : Text) :
    (place.normalize [c] ++ value).reverse ++ done =
      value.reverse ++ (place.normalize [c] ++ done) := by
  cases place <;> simp [Place.normalize]

/-- What unfolds is read up to the stop behind it. -/
theorem Runs.of_unfolds (runs : Runs setting place stop allowed loop)
    (unfolds : setting.Unfolds place text value spent) (inline : Inline stop text)
    (open_ : allowed text) (fits : spent ≤ setting.left ledger) (tail done : Text) :
    ∀ source within, source = text ++ stop :: tail → ∃ after within',
      loop ledger done source within =
          loop after (value.reverse ++ done) (stop :: tail) within' ∧
        after.expansions = ledger.expansions + spent := by
  induction unfolds using Setting.Unfolds.byReferences generalizing ledger done with
  | nil =>
    rintro source within text
    rw [List.nil_append] at text
    subst text
    exact ⟨ledger, within, rfl, rfl⟩
  | @ordinary c text value count other _ ih =>
    rintro source within split
    rw [List.cons_append] at split
    subst split
    have behind : Inline stop ([c] ++ text) := inline
    have openBehind : allowed ([c] ++ text) := open_
    obtain ⟨within', passed⟩ := runs.character within inline open_ other
    obtain ⟨after, within'', read, counts⟩ :=
      ih behind.behind (runs.behind openBehind) fits _ _ within' rfl
    exact ⟨after, within'', by rw [passed, read, Place.reverse_normalize], counts⟩
  | @reference reference later here rest count further semicolon stands _ ih =>
    have written : IsReference reference :=
      .of_stands stands (inline.unsigned.of_inside (List.prefix_append _ _).isInfix)
    unfold Setting.left at fits
    rintro source within text
    have split : source = '&' :: (reference ++ ';' :: (later ++ stop :: tail)) := by
      rw [text]
      simp [marked]
    subst split
    have fitsHere : count ≤ setting.left ledger := by unfold Setting.left; omega
    obtain ⟨counted, behind, referred, counts⟩ :=
      reference_of_stands written stands fitsHere (later ++ stop :: tail) _ rfl
    have fitsBehind : further ≤ setting.left counted := by unfold Setting.left; omega
    obtain ⟨after, within', read, counts'⟩ := ih inline.behind (runs.behind open_) fitsBehind
      (here.reverse ++ done) _ (behind.trans ((List.suffix_cons _ _).trans within)) rfl
    refine ⟨after, within', ?_, by omega⟩
    rw [runs.reference, referred, ok_bind]
    dsimp only
    rw [read]
    simp

/-- What is read up to the stop behind it unfolds. -/
theorem Runs.unfolds (runs : Runs setting place stop allowed loop)
    (names : ∀ entry ∈ setting.table, IsName entry.1) (isStop : IsStop stop)
    (inline : Inline stop text) (open_ : allowed text) {tail done : Text}
    {within : source <:+ whole} (split : source = text ++ stop :: tail) {result : β}
    (read : loop ledger done source within = .ok result) :
    ∃ value spent after within', setting.Unfolds place text value spent ∧
      loop after (value.reverse ++ done) (stop :: tail) within' = .ok result ∧
      after.expansions = ledger.expansions + spent ∧ spent ≤ setting.left ledger := by
  induction size : text.length using Nat.strongRecOn generalizing text done ledger source with
  | ind length ih =>
    subst size
    cases text with
    | nil =>
      subst split
      exact ⟨[], 0, ledger, within, .nil, read, rfl, Nat.zero_le _⟩
    | cons c text =>
      subst split
      by_cases mark : c = '&'
      · subst mark
        change loop ledger done ('&' :: (text ++ stop :: tail)) within = .ok result at read
        rw [runs.reference] at read
        obtain ⟨⟨⟨here, counted⟩, after, suffix⟩, found, read⟩ := bind_ok read
        obtain ⟨reference, spent, written, parts, stands, counts, few⟩ :=
          stands_of_reference names found
        dsimp only at parts stands counts read
        obtain ⟨later, inside, behind⟩ := written.cut isStop parts
        have shorter : later.length < ('&' :: text).length := by
          rw [inside]
          simp only [marked, List.length_append, List.length_cons]
          omega
        rw [inside] at inline open_ ⊢
        obtain ⟨value, further, last, within', unfolds, same, counts', few'⟩ :=
          ih _ shorter inline.behind (runs.behind open_) behind read rfl
        unfold Setting.left at few few' ⊢
        refine ⟨here ++ value, spent + further, last, within',
          (Setting.unfolds_marked_iff (stands.unmarked (by decide))).mpr
            ⟨_, _, _, _, rfl, rfl, stands, unfolds⟩, ?_, by omega, by omega⟩
        rw [← same]
        simp
      · have behind : Inline stop ([c] ++ text) := inline
        have openBehind : allowed ([c] ++ text) := open_
        obtain ⟨within', passed⟩ := runs.character within inline open_ mark
        obtain ⟨value, spent, last, within', unfolds, same, parts⟩ := ih _ (Nat.lt_succ_self _)
          behind.behind (runs.behind openBehind) rfl (passed.symm.trans read) rfl
        refine ⟨place.normalize [c] ++ value, spent, last, within', .ordinary mark unfolds, ?_, parts⟩
        rw [← same, Place.reverse_normalize]

end Loops

section Values

variable {setting : Setting} {ledger : Ledger} {quote : Char} {text value : Text} {spent : Nat}

theorem runs_attributeText (quoted : isQuote quote = true) (whole : Text) :
    Runs setting .attributeValue quote (fun _ => True) (attributeText setting quote whole) where
  behind := id
  character := by
    intro c text tail ledger done within inline _ other
    have unquoted : c ≠ quote := fun same => inline.noStop (same ▸ List.mem_cons_self)
    have untagged : c ≠ '<' := fun same => inline.noTag (same ▸ List.mem_cons_self)
    have return_ : c ≠ '\r' := fun same => inline.noReturn (same ▸ List.mem_cons_self)
    have first : isXmlChar c = true := inline.held c List.mem_cons_self
    refine ⟨(List.suffix_cons _ _).trans within, ?_⟩
    rw [attributeText, if_neg (by simpa using unquoted), if_neg (by simpa using untagged),
      if_neg (by simpa using other), nextChar_eq first return_]
    rfl
  reference := by
    intro rest ledger done within
    have unquoted : '&' ≠ quote := by
      rcases IsStop.cases (.inl quoted) with rfl | rfl | rfl <;> decide
    rw [attributeText, if_neg (by simpa using unquoted), if_neg (by decide), if_pos (by decide)]

/-- An attribute value that unfolds is read up to its closing quote. -/
theorem attributeText_of_unfolds (quoted : isQuote quote = true)
    (unfolds : setting.Unfolds .attributeValue text value spent) (inline : Inline quote text)
    (fits : spent ≤ setting.left ledger) (tail whole done : Text) (source : Text)
    (within : source <:+ whole) (split : source = text ++ quote :: tail) : ∃ after suffix,
      attributeText setting quote whole ledger done source within =
          .ok ⟨(done.reverse ++ value, after), tail, suffix⟩ ∧
        after.expansions = ledger.expansions + spent := by
  obtain ⟨after, within', read, counts⟩ :=
    (runs_attributeText quoted whole).of_unfolds unfolds inline trivial fits tail done source within
      split
  refine ⟨after, (List.suffix_cons _ _).trans within', ?_, counts⟩
  rw [read, attributeText, if_pos (beq_self_eq_true quote)]
  simp

/-- An attribute value that is read up to its closing quote unfolds. -/
theorem unfolds_of_attributeText (names : ∀ entry ∈ setting.table, IsName entry.1)
    (quoted : isQuote quote = true) (inline : Inline quote text) {tail whole done source : Text}
    {within : source <:+ whole} (split : source = text ++ quote :: tail)
    {result : Read whole (Text × Ledger)}
    (read : attributeText setting quote whole ledger done source within = .ok result) :
    ∃ value spent, setting.Unfolds .attributeValue text value spent ∧
      result.value.1 = done.reverse ++ value ∧ result.rest = tail ∧
      result.value.2.expansions = ledger.expansions + spent ∧ spent ≤ setting.left ledger := by
  obtain ⟨value, spent, after, within', unfolds, read, counts, few⟩ :=
    (runs_attributeText quoted whole).unfolds names (.inl quoted) inline trivial split read
  rw [attributeText, if_pos (beq_self_eq_true quote)] at read
  cases read
  exact ⟨value, spent, unfolds, by simp, rfl, counts, few⟩

end Values

section Contents

variable {setting : Setting} {ledger : Ledger} {inner : OpenElement} {outer : List OpenElement}
  {text value : Text} {spent : Nat}

/-- In front of a tag, nothing that closes a section begins in a text that has nothing of the kind. -/
theorem take?_sectionEnd_inline {c : Char} (open_ : ¬"]]>".toList <:+: c :: text) (tail : Text) :
    take? "]]>".toList (c :: (text ++ '<' :: tail)) = none := by
  refine take?_of_ne_append fun rest same => open_ ?_
  have absent : '<' ∉ "]]>".toList := by decide
  obtain ⟨later, inside, -⟩ :=
    Text.cut_behind absent (show "]]>".toList ++ rest = (c :: text) ++ '<' :: tail from same.symm)
  exact ⟨[], later, inside.symm⟩

theorem runs_content (whole : Text) (inner : OpenElement) (outer : List OpenElement) :
    Runs setting .content '<' (fun text => ¬"]]>".toList <:+: text)
      (fun ledger pending source within =>
        content setting whole inner outer pending ledger source within) where
  behind open_ ends := open_ (ends.trans (List.suffix_append _ _).isInfix)
  character := by
    intro c text tail ledger pending within inline open_ other
    have untagged : c ≠ '<' := fun same => inline.noTag (same ▸ List.mem_cons_self)
    have return_ : c ≠ '\r' := fun same => inline.noReturn (same ▸ List.mem_cons_self)
    have first : isXmlChar c = true := inline.held c List.mem_cons_self
    exact content_character first other untagged return_ (take?_sectionEnd_inline open_ tail) within
  reference := by
    intro rest ledger pending within
    rw [content, if_neg (by decide), if_pos (by decide)]

/-- Content that unfolds is read up to the tag behind it. -/
theorem content_of_unfolds (unfolds : setting.Unfolds .content text value spent)
    (inline : Inline '<' text) (open_ : ¬"]]>".toList <:+: text) (fits : spent ≤ setting.left ledger)
    (tail whole pending source : Text) (within : source <:+ whole)
    (split : source = text ++ '<' :: tail) : ∃ after within',
      content setting whole inner outer pending ledger source within =
          content setting whole inner outer (value.reverse ++ pending) after ('<' :: tail) within' ∧
        after.expansions = ledger.expansions + spent :=
  (runs_content whole inner outer).of_unfolds unfolds inline open_ fits tail pending source within
    split

/-- Content that is read up to the tag behind it unfolds. -/
theorem unfolds_of_content (names : ∀ entry ∈ setting.table, IsName entry.1)
    (inline : Inline '<' text) (open_ : ¬"]]>".toList <:+: text) {tail whole pending source : Text}
    {within : source <:+ whole} (split : source = text ++ '<' :: tail)
    {result : Read whole (OpenElement × Ledger)}
    (read : content setting whole inner outer pending ledger source within = .ok result) :
    ∃ value spent after within', setting.Unfolds .content text value spent ∧
      content setting whole inner outer (value.reverse ++ pending) after ('<' :: tail) within' =
        .ok result ∧
      after.expansions = ledger.expansions + spent ∧ spent ≤ setting.left ledger :=
  (runs_content whole inner outer).unfolds names (.inr rfl) inline open_ split read

end Contents

end XmlSelect.Markup
