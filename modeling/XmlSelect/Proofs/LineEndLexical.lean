import XmlSelect.Proofs.LineEnds

/-! Line ends and the smallest pieces of reading. A text and the same text with line feeds for its
line ends are read in step: each piece is found in both or in neither, and what is left of the one
is what is left of the other with line feeds for its line ends. -/
namespace XmlSelect.Markup

section Outcomes

variable {ε ε' α β γ δ : Type}

/-- Both succeed, with results that are related, or both fail. -/
def Agree (related : α → β → Prop) (first : Except ε α) (second : Except ε' β) : Prop :=
  match first with
  | .ok a =>
    match second with
    | .ok b => related a b
    | .error _ => False
  | .error _ =>
    match second with
    | .ok _ => False
    | .error _ => True

/-- Both readings have values that are related, and what is left of the second text is what is left
of the first with line feeds for its line ends. -/
def Abreast (related : α → β → Prop) {source source' : Text} (first : Read source α)
    (second : Read source' β) : Prop :=
  related first.value second.value ∧ second.rest = foldLineEnds first.rest

variable {related : α → β → Prop} {related' : γ → δ → Prop}

theorem Agree.bind {first : Except ε α} {second : Except ε' β} {next : α → Except ε γ}
    {next' : β → Except ε' δ} (here : Agree related first second)
    (further : ∀ a b, first = .ok a → second = .ok b → related a b →
      Agree related' (next a) (next' b)) :
    Agree related' (first >>= next) (second >>= next') := by
  cases first with
  | error => cases second with
    | error => trivial
    | ok => exact here.elim
  | ok a => cases second with
    | error => exact here.elim
    | ok b => exact further a b rfl rfl here

theorem Agree.and_if {condition : Prop} {further : α → β → Prop} {first : Except ε α}
    {second : Except ε' β} (here : Agree related first second)
    (there : condition → Agree further first second) :
    Agree (fun a b => related a b ∧ (condition → further a b)) first second := by
  cases first <;> cases second <;> first | exact here | exact ⟨here, there⟩

theorem Agree.of_errors {first : Except ε α} {second : Except ε' β}
    (stuck : ∃ failure, first = .error failure) (stuck' : ∃ failure, second = .error failure) :
    Agree related first second := by
  obtain ⟨_, rfl⟩ := stuck
  obtain ⟨_, rfl⟩ := stuck'
  trivial

theorem Agree.imp {first : Except ε α} {second : Except ε' β} {weaker : α → β → Prop}
    (here : Agree related first second) (weaken : ∀ a b, related a b → weaker a b) :
    Agree weaker first second := by
  cases first with
  | error => cases second with
    | error => trivial
    | ok => exact here.elim
  | ok a => cases second with
    | error => exact here.elim
    | ok b => exact weaken a b here

/-- Readers that agree on the next piece agree on the whole if they agree on what comes behind. -/
theorem Agree.read {source source' : Text} {first : Except ε (Read source α)}
    {second : Except ε' (Read source' β)} {next : Read source α → Except ε γ}
    {next' : Read source' β → Except ε' δ} (here : Agree (Abreast related) first second)
    (further : ∀ value rest suffix value' suffix', first = .ok ⟨value, rest, suffix⟩ →
      related value value' →
        Agree related' (next ⟨value, rest, suffix⟩) (next' ⟨value', foldLineEnds rest, suffix'⟩)) :
    Agree related' (first >>= next) (second >>= next') := by
  refine here.bind fun ⟨value, rest, suffix⟩ ⟨value', rest', suffix'⟩ read _ ⟨held, same⟩ => ?_
  subst same
  exact further value rest suffix value' suffix' read held

theorem Agree.within {source source' whole whole' : Text} {first : Except ε (Read source α)}
    {second : Except ε' (Read source' β)} (here : Agree (Abreast related) first second)
    (suffix : source <:+ whole) (suffix' : source' <:+ whole') :
    Agree (Abreast related) (first.map (·.within suffix)) (second.map (·.within suffix')) := by
  cases first <;> cases second <;> exact here

theorem Agree.withLedger {ledger ledger' : Ledger} {first : Except Stop α} {second : Except Stop β}
    (here : Agree related first second) :
    Agree related (Markup.withLedger ledger first) (Markup.withLedger ledger' second) := by
  cases first <;> cases second <;> exact here

end Outcomes

theorem rest_take? (wanted source : Text) :
    (take? wanted source).map (·.rest) = Text.dropPrefix? wanted source := by
  unfold take?
  split
  · rename_i found
    exact found.symm
  · rename_i absent
    exact absent.symm

section Pieces

variable {source source' : Text} (same : source' = foldLineEnds source)
include same

theorem take?_agree {wanted : Text} (plain : Lineless wanted) :
    (∀ read, take? wanted source = some read →
      ∃ suffix, take? wanted source' = some ⟨(), foldLineEnds read.rest, suffix⟩) ∧
    (take? wanted source = none → take? wanted source' = none) := by
  have start := dropPrefix?_foldLineEnds plain source
  rw [← same, ← rest_take?, ← rest_take?] at start
  constructor
  · intro read found
    rw [found] at start
    obtain ⟨⟨_, rest, suffix⟩, found', rest'⟩ := Option.map_eq_some_iff.mp start
    subst rest'
    exact ⟨suffix, found'⟩
  · intro absent
    rw [absent] at start
    exact Option.map_eq_none_iff.mp start

theorem take?_cases {wanted : Text} (plain : Lineless wanted) :
    (∃ rest suffix suffix', take? wanted source = some ⟨(), rest, suffix⟩ ∧
      take? wanted source' = some ⟨(), foldLineEnds rest, suffix'⟩) ∨
    take? wanted source = none ∧ take? wanted source' = none := by
  obtain ⟨there, absent⟩ := take?_agree same plain
  cases found : take? wanted source with
  | none => exact .inr ⟨rfl, absent found⟩
  | some read =>
    obtain ⟨suffix', found'⟩ := there read found
    exact .inl ⟨read.rest, read.suffix, suffix', rfl, found'⟩

theorem isSome_take?_agree {wanted : Text} (plain : Lineless wanted) :
    (take? wanted source').isSome = (take? wanted source).isSome := by
  obtain ⟨_, _, _, found, found'⟩ | ⟨absent, absent'⟩ := take?_cases same plain
  · rw [found, found']
    rfl
  · rw [absent, absent']
    rfl

theorem expect_agree {wanted : Text} (plain : Lineless wanted) :
    Agree (Abreast Eq) (expect wanted source) (expect wanted source') := by
  unfold expect
  obtain ⟨_, _, _, found, found'⟩ | ⟨absent, absent'⟩ := take?_cases same plain
  · rw [found, found']
    exact ⟨rfl, rfl⟩
  · rw [absent, absent']
    trivial

theorem skipBlanks_agree : Abreast Eq (skipBlanks source) (skipBlanks source') := by
  subst same
  exact ⟨(any_head?_foldLineEnds (by decide) source).symm,
    dropWhile_foldLineEnds (by decide) source⟩

theorem requireBlank_agree :
    Agree (Abreast Eq) (requireBlank source) (requireBlank source') := by
  obtain ⟨spaced, rest⟩ := skipBlanks_agree same
  unfold requireBlank
  dsimp only
  rw [← spaced]
  split
  · exact ⟨rfl, rest⟩
  · trivial

/-- What is taken up to a delimiter has its line ends joined; the carriage returns that are left
become what they have to. -/
theorem takeUntil_agree {feed : Char → Char} (feeds : Feeds feed source) {delimiter : Text}
    (plain : Lineless delimiter) (nonempty : delimiter ≠ []) (part : Part) :
    Agree (Abreast fun value value' => value' = value.map feed) (takeUntil delimiter part source)
      (takeUntil delimiter part source') := by
  subst same
  have broken := breakOn?_foldLineEnds plain nonempty source
  have valid (body : Text) : XmlText (foldLineEnds body) ↔ XmlText body :=
    forall_mem_foldLineEnds (by decide) body
  cases taken : takeUntil delimiter part source with
  | ok read =>
    obtain ⟨body, found, held, value⟩ := takeUntil_ok taken
    rw [found, Option.map_some] at broken
    obtain ⟨_, taken'⟩ := takeUntil_of_breakOn? broken ((valid body).mpr held) part
    -- No pair is cut in two: the delimiter does not start with a line feed.
    have ends : (delimiter ++ read.rest).head? ≠ some '\n' := by
      cases delimiter with
      | nil => exact absurd rfl nonempty
      | cons first delimiter =>
        intro feedNext
        exact plain.2 (by cases feedNext; exact List.mem_cons_self)
    have parts : body ++ (delimiter ++ read.rest) = source :=
      (List.append_assoc ..).symm.trans (Text.append_of_breakOn? found).symm
    rw [taken']
    refine ⟨?_, rfl⟩
    rw [value]
    exact (joinLineEnds_foldLineEnds body).trans (feeds.foldLineEnds_eq parts ends)
  | error =>
    cases taken' : takeUntil delimiter part (foldLineEnds source) with
    | error => trivial
    | ok read =>
      obtain ⟨body', found', held', -⟩ := takeUntil_ok taken'
      obtain ⟨⟨body, rest⟩, found, same⟩ := Option.map_eq_some_iff.mp (broken.symm.trans found')
      rw [← (Prod.mk.inj same).1] at held'
      obtain ⟨_, again⟩ := takeUntil_of_breakOn? found ((valid body).mp held') part
      cases taken.symm.trans again

end Pieces

section Characters

variable {c : Char} {rest behind : Text} (same : foldLineEnds (c :: rest) = asFeed c :: behind)
  (next : c ≠ '\r' → behind = foldLineEnds rest)

include next in
theorem nameFrom_agree :
    Agree (Abreast Eq) (nameFrom c rest) (nameFrom (asFeed c) behind) := by
  unfold nameFrom
  rw [asFeed_turns.apply (by decide : isNameStart '\r' = isNameStart '\n')]
  split
  · rename_i starts
    have other : c ≠ '\r' := by
      rintro rfl
      exact absurd starts (by decide)
    rw [next other, asFeed_turns.eq_of_ne other]
    refine ⟨?_, dropWhile_foldLineEnds (by decide) rest⟩
    rw [takeWhile_foldLineEnds (by decide) (by decide)]
  · trivial

include same next in
theorem nextChar_agree :
    Agree (Abreast Eq) (nextChar c rest) (nextChar (asFeed c) behind) := by
  have same' : isXmlChar (asFeed c) = isXmlChar c := asFeed_turns.apply (by decide) c
  cases valid : isXmlChar c with
  | false =>
    unfold nextChar
    rw [same', valid]
    trivial
  | true =>
    rw [nextChar_eq (same'.trans valid) (asFeed_ne_return c)]
    unfold nextChar
    rw [valid]
    split
    · contradiction
    · split
      · cases same
        exact ⟨rfl, rfl⟩
      · rename_i lone
        rw [foldLineEnds_cons fun later _ here => lone later here] at same
        cases same
        exact ⟨rfl, rfl⟩
      · rename_i other _
        exact ⟨(asFeed_turns.eq_of_ne other).symm, next other⟩

end Characters

section Names

variable {source source' : Text} (same : source' = foldLineEnds source)
include same

theorem name_agree : Agree (Abreast Eq) (name source) (name source') := by
  subst same
  cases source with
  | nil => trivial
  | cons c rest =>
    obtain ⟨behind, folded, next⟩ := foldLineEnds_first c rest
    rw [folded]
    exact (nameFrom_agree next).within _ _

omit same in
theorem lineless_of_isQuote {quote : Char} (quotes : isQuote quote = true) : Lineless [quote] := by
  simp only [isQuote, Bool.or_eq_true, beq_iff_eq] at quotes
  rcases quotes with rfl | rfl <;> decide

theorem quoted_agree {feed : Char → Char} (feeds : Feeds feed source) :
    Agree (Abreast fun value value' => value' = value.map feed) (quoted source)
      (quoted source') := by
  subst same
  cases source with
  | nil => trivial
  | cons c rest =>
    by_cases quote : isQuote c = true
    · have plain : Lineless [c] := by
        simp only [isQuote, Bool.or_eq_true, beq_iff_eq] at quote
        rcases quote with rfl | rfl <;> decide
      rw [foldLineEnds_cons_of_ne plain.ne_return, quoted, quoted, if_pos quote, if_pos quote]
      exact (takeUntil_agree rfl (feeds.of_suffix (List.suffix_cons c rest)) plain
        (List.cons_ne_nil c []) _).within _ _
    · obtain ⟨behind, folded, -⟩ := foldLineEnds_first c rest
      rw [folded, quoted, quoted, asFeed_turns.apply (by decide : isQuote '\r' = isQuote '\n'),
        if_neg quote, if_neg quote]
      trivial

theorem pointReference_agree (base : Nat) {isDigit : Char → Bool}
    (noReturn : isDigit '\r' = false) (noFeed : isDigit '\n' = false) :
    Agree (Abreast Eq) (pointReference base isDigit source)
      (pointReference base isDigit source') := by
  subst same
  unfold pointReference
  rw [takeWhile_foldLineEnds noReturn noFeed]
  dsimp only
  split
  · trivial
  · refine (expect_agree (dropWhile_foldLineEnds (noReturn.trans noFeed.symm) source)
      (by decide)).read fun _ rest suffix _ suffix' _ _ => ?_
    dsimp only
    split
    · trivial
    · cases charOfPoint? (pointOfDigits base (source.takeWhile isDigit)) with
      | none => trivial
      | some c => exact ⟨rfl, rfl⟩

omit same in
theorem charReference_of_decimal (unmarked : ∀ rest, source ≠ 'x' :: rest) :
    charReference source = pointReference 10 Char.isDigit source := by
  unfold charReference
  split
  · exact absurd rfl (unmarked _)
  · rfl

theorem charReference_agree :
    Agree (Abreast Eq) (charReference source) (charReference source') := by
  subst same
  obtain ⟨rest, rfl, folded⟩ | ⟨unmarked, unmarked'⟩ :=
    first_foldLineEnds (by decide : Lineless ['x']) source
  · rw [folded]
    exact (pointReference_agree rfl 16 (by decide) (by decide)).within _ _
  · rw [charReference_of_decimal unmarked, charReference_of_decimal unmarked']
    exact pointReference_agree rfl 10 (by decide) (by decide)

end Names

end XmlSelect.Markup
