import XmlSelect.Text.CharClass
import XmlSelect.XPath.Function

/-! Searching texts: occurrences of a pattern, words between white space, and what white space is
around. A word is found among the words of a text by looking for it with a space on both sides. -/
namespace XmlSelect

namespace Text

@[simp] theorem dropPrefix?_append (pattern after : Text) :
    dropPrefix? pattern (pattern ++ after) = some after := by
  induction pattern with
  | nil => rfl
  | cons p pattern ih => simp [dropPrefix?, ih]

theorem isSome_dropPrefix? {pattern text : Text} :
    (dropPrefix? pattern text).isSome = true ↔ pattern <+: text := by
  constructor
  · intro found
    obtain ⟨after, found⟩ := Option.isSome_iff_exists.mp found
    exact ⟨after, (append_of_dropPrefix? found).symm⟩
  · rintro ⟨after, rfl⟩
    simp

/-- A pattern is included in a text if the text has it as one of its stretches. -/
theorem includes_iff {pattern text : Text} : includes pattern text = true ↔ pattern <:+: text := by
  rw [includes]
  induction text with
  | nil => cases pattern <;> simp [breakOn?]
  | cons c rest ih =>
    rw [List.infix_cons_iff, ← ih, ← isSome_dropPrefix?, breakOn?]
    cases dropPrefix? pattern (c :: rest) <;> simp

theorem breakOn?_cons_of_none {pattern rest : Text} {c : Char}
    (other : dropPrefix? pattern (c :: rest) = none) :
    breakOn? pattern (c :: rest) =
      (breakOn? pattern rest).map fun parts => (c :: parts.1, parts.2) := by
  rw [breakOn?, other]

/-- No occurrence is in front of the first one. -/
theorem not_infix_of_breakOn? {pattern text before after : Text} (nonempty : pattern ≠ [])
    (found : breakOn? pattern text = some (before, after)) : ¬pattern <:+: before := by
  induction text generalizing before with
  | nil =>
    simp only [breakOn?, Option.ite_none_right_eq_some, Option.some.injEq, Prod.mk.injEq] at found
    simpa [← found.2.1] using nonempty
  | cons c rest ih =>
    simp only [breakOn?] at found
    split at found
    · cases found
      simpa using nonempty
    · rename_i absent
      simp only [Option.map_eq_some_iff, Prod.exists, Prod.mk.injEq] at found
      obtain ⟨front, behind, later, rfl, rfl⟩ := found
      intro inside
      rcases List.infix_cons_iff.mp inside with start | inside
      · have begins := start.trans (List.prefix_append (c :: front) (pattern ++ behind))
        rw [List.cons_append, ← List.append_assoc, ← append_of_breakOn? later,
          ← isSome_dropPrefix?, absent] at begins
        cases begins
      · exact ih later inside

/-- An occurrence that begins in front of one begins that early that it ends there, too, if the
last character of the pattern is nowhere else in it. -/
private theorem infix_of_prefix {front before : Text} {last : Char} (single : last ∉ front)
    (nonempty : before ≠ []) {after : Text}
    (start : front ++ [last] <+: before ++ (front ++ [last] ++ after)) :
    front ++ [last] <:+: before := by
  rcases List.prefix_or_prefix_of_prefix start (List.prefix_append before _) with inside | across
  · exact inside.isInfix
  · obtain ⟨overlap, joined⟩ := across
    rcases List.eq_nil_or_concat overlap with rfl | ⟨rest, other, rfl⟩
    · exact (by simpa using joined : before = front ++ [last]) ▸ List.infix_rfl
    · -- What is left of the pattern behind `before` is also its beginning, but ends in `last`.
      exfalso
      rw [List.concat_eq_append, ← List.append_assoc] at joined
      obtain ⟨rfl, same⟩ := List.append_inj' joined rfl
      cases same
      rw [List.append_assoc, List.prefix_append_right_inj, List.append_assoc] at start
      have shorter : (rest ++ [last]).length ≤ (before ++ rest).length := by
        have := List.length_pos_iff.mpr nonempty
        simp only [List.length_append, List.length_singleton]
        omega
      have front := List.prefix_of_prefix_length_le start ⟨[last] ++ after, by simp⟩ shorter
      exact single (front.subset (by simp))

/-- What stands in front of the first occurrence of a text, and what behind it. -/
theorem breakOn?_append {front before : Text} {last : Char} (single : last ∉ front)
    (absent : ¬front ++ [last] <:+: before) (after : Text) :
    breakOn? (front ++ [last]) (before ++ (front ++ [last] ++ after)) = some (before, after) := by
  induction before with
  | nil =>
    obtain ⟨first, rest, same⟩ := List.exists_cons_of_ne_nil
      (List.append_ne_nil_of_right_ne_nil front (List.cons_ne_nil last []))
    rw [List.nil_append, same, List.cons_append, breakOn?, ← List.cons_append, dropPrefix?_append]
  | cons c before ih =>
    have later :
        dropPrefix? (front ++ [last]) (c :: before ++ (front ++ [last] ++ after)) = none := by
      refine Option.not_isSome_iff_eq_none.mp fun begins => absent ?_
      exact infix_of_prefix single (List.cons_ne_nil c before) (isSome_dropPrefix?.mp begins)
    rw [List.cons_append] at later ⊢
    rw [breakOn?, later, ih fun inside => absent (inside.trans (List.suffix_cons c before).isInfix)]
    rfl

/-- What stands in front of the first mark, and what behind it. -/
theorem breakOn?_singleton {mark : Char} {before : Text} (absent : mark ∉ before) (after : Text) :
    breakOn? [mark] (before ++ mark :: after) = some (before, after) := by
  have none : ¬[] ++ [mark] <:+: before := fun inside => absent (inside.subset List.mem_cons_self)
  exact breakOn?_append List.not_mem_nil none after

theorem notMem_of_breakOn?_singleton {mark : Char} {text before after : Text}
    (found : breakOn? [mark] text = some (before, after)) : mark ∉ before := by
  intro member
  obtain ⟨left, right, rfl⟩ := List.append_of_mem member
  exact not_infix_of_breakOn? (List.cons_ne_nil mark []) found ⟨left, right, by simp⟩

theorem notMem_of_breakOn?_eq_none {mark : Char} {text : Text}
    (absent : breakOn? [mark] text = none) : mark ∉ text := by
  intro member
  obtain ⟨before, after, rfl, first⟩ := List.eq_append_cons_of_mem member
  rw [breakOn?_singleton first] at absent
  cases absent

section Words

variable {gap : Char → Bool} {text word : Text}

theorem not_gap_of_mem_splitOnP {c : Char} (member : word ∈ text.splitOnP gap) (inside : c ∈ word) :
    gap c = false := by
  induction text generalizing word with
  | nil =>
    rw [List.splitOnP_nil, List.mem_singleton] at member
    simp [member] at inside
  | cons first rest ih =>
    rw [List.splitOnP_cons_eq_if_modifyHead] at member
    split at member
    · rcases List.mem_cons.mp member with rfl | member
      · cases inside
      · exact ih member inside
    · rename_i other
      obtain ⟨head, tail, split⟩ := List.exists_cons_of_ne_nil (List.splitOnP_ne_nil gap rest)
      rw [split, List.modifyHead_cons] at member
      rcases List.mem_cons.mp member with rfl | member
      · rcases List.mem_cons.mp inside with rfl | inside
        · simpa using other
        · exact ih (split ▸ List.mem_cons_self) inside
      · exact ih (split ▸ List.mem_cons_of_mem head member) inside

/-- Words are not empty, and no gap is inside them. -/
theorem of_mem_words (member : word ∈ words gap text) :
    word ≠ [] ∧ ∀ c ∈ word, gap c = false := by
  obtain ⟨piece, nonempty⟩ := List.mem_filter.mp member
  exact ⟨by simpa using nonempty, fun c inside => not_gap_of_mem_splitOnP piece inside⟩

end Words

/-- Words with a space in front of each, and one at the end. -/
private def padded : List Text → Text
  | [] => [' ']
  | word :: rest => ' ' :: word ++ padded rest

private theorem padded_eq (words : List Text) : ∃ rest, padded words = ' ' :: rest := by
  cases words <;> exact ⟨_, rfl⟩

private theorem padded_eq_intercalate {words : List Text} (nonempty : words ≠ []) :
    padded words = ' ' :: List.intercalate [' '] words ++ [' '] := by
  induction words with
  | nil => exact absurd rfl nonempty
  | cons word rest ih =>
    cases rest with
    | nil => simp [padded]
    | cons next rest =>
      rw [padded, ih (List.cons_ne_nil _ _), List.intercalate_cons_cons]
      simp

private theorem infix_append_iff {word : Text} (noSpace : ' ' ∉ word) (pattern text : Text) :
    ' ' :: pattern <:+: word ++ text ↔ ' ' :: pattern <:+: text := by
  induction word with
  | nil => rfl
  | cons c word ih =>
    rw [List.mem_cons, not_or] at noSpace
    rw [List.cons_append, List.infix_cons_iff, ih noSpace.2, List.cons_prefix_cons]
    simp [noSpace.1]

private theorem prefix_append_iff {word other : Text} (noSpace : ' ' ∉ word)
    (otherNoSpace : ' ' ∉ other) (text : Text) :
    word ++ [' '] <+: other ++ ' ' :: text ↔ word = other := by
  induction word generalizing other with
  | nil =>
    cases other with
    | nil => simp
    | cons c other =>
      rw [List.mem_cons, not_or] at otherNoSpace
      simp [List.cons_prefix_cons, otherNoSpace.1]
  | cons d word ih =>
    rw [List.mem_cons, not_or] at noSpace
    cases other with
    | nil => simp [List.cons_prefix_cons, Ne.symm noSpace.1]
    | cons c other =>
      rw [List.mem_cons, not_or] at otherNoSpace
      simp [List.cons_prefix_cons, ih noSpace.2 otherNoSpace.2]

private theorem infix_padded_iff {word : Text} {words : List Text} (noSpace : ' ' ∉ word)
    (noSpaces : ∀ other ∈ words, ' ' ∉ other) :
    ' ' :: word ++ [' '] <:+: padded words ↔ word ∈ words := by
  induction words with
  | nil =>
    rw [padded]
    constructor
    · intro inside
      have := inside.length_le
      simp only [List.length_append, List.length_cons, List.length_nil] at this
      omega
    · exact fun member => absurd member List.not_mem_nil
  | cons other rest ih =>
    rw [List.forall_mem_cons] at noSpaces
    obtain ⟨tail, start⟩ := padded_eq rest
    rw [padded, List.cons_append, List.cons_append, List.infix_cons_iff,
      infix_append_iff noSpaces.1, ← List.cons_append, ih noSpaces.2, List.mem_cons,
      List.cons_append, List.cons_prefix_cons, start, prefix_append_iff noSpace noSpaces.1]
    simp

section Trim

variable {drop : Char → Bool}

theorem trim_append {lead core trail : Text} (before : ∀ c ∈ lead, drop c = true)
    (behind : ∀ c ∈ trail, drop c = true) (nonempty : core ≠ [])
    (first : ∀ c ∈ core.head?, drop c = false) (last : ∀ c ∈ core.getLast?, drop c = false) :
    trim drop (lead ++ core ++ trail) = core := by
  have front (text rest : Text) (filled : text ≠ []) (kept : ∀ c ∈ text.head?, drop c = false) :
      (text ++ rest).dropWhile drop = text ++ rest := by
    cases text with
    | nil => exact absurd rfl filled
    | cons c text => simp [kept c rfl]
  rw [trim, List.append_assoc, List.dropWhile_append_of_pos before, front core trail nonempty first,
    List.reverse_append, List.dropWhile_append_of_pos (by simpa using behind)]
  have kept := front core.reverse [] (by simpa using nonempty) (by simpa using last)
  rw [List.append_nil] at kept
  rw [kept, List.reverse_reverse]

/-- A text is white space around what is left when it is trimmed. -/
theorem exists_trim (drop : Char → Bool) (text : Text) :
    ∃ lead trail, text = lead ++ trim drop text ++ trail ∧ (∀ c ∈ lead, drop c = true) ∧
      (∀ c ∈ trail, drop c = true) ∧ (∀ c ∈ (trim drop text).head?, drop c = false) ∧
        ∀ c ∈ (trim drop text).getLast?, drop c = false := by
  have stops (text : Text) : ∀ c ∈ (text.dropWhile drop).head?, drop c = false := by
    intro c here
    simpa [Option.mem_def.mp here] using List.head?_dropWhile_not drop text
  have split : text.dropWhile drop =
      trim drop text ++ ((text.dropWhile drop).reverse.takeWhile drop).reverse := by
    rw [trim, ← List.reverse_append, List.takeWhile_append_dropWhile, List.reverse_reverse]
  have takes (text : Text) : ∀ c ∈ text.takeWhile drop, drop c = true :=
    List.all_eq_true.mp List.all_takeWhile
  refine ⟨text.takeWhile drop, ((text.dropWhile drop).reverse.takeWhile drop).reverse, ?_,
    takes text, fun c member => takes _ c (List.mem_reverse.mp member),
    fun c here => stops text c ?_, fun c here => stops (text.dropWhile drop).reverse c ?_⟩
  · rw [List.append_assoc, ← split, List.takeWhile_append_dropWhile]
  · rw [split, List.head?_append, Option.mem_def.mp here]
    rfl
  · rwa [trim, List.getLast?_reverse] at here

theorem trim_trim (drop : Char → Bool) (text : Text) :
    trim drop (trim drop text) = trim drop text := by
  obtain ⟨-, -, -, -, -, first, last⟩ := exists_trim drop text
  generalize trim drop text = core at first last ⊢
  by_cases filled : core = []
  · rw [filled]
    rfl
  · have whole := @trim_append drop [] core [] nofun nofun filled first last
    rwa [List.nil_append, List.append_nil] at whole

end Trim

end Text

namespace XPath

/-- With a space on both sides, a word is included in the normalized text exactly if it is one of
its words. -/
theorem includes_normalizeSpace_iff {word text : Text} (nonempty : word ≠ [])
    (noSpace : ' ' ∉ word) :
    Text.includes (' ' :: word ++ [' ']) (' ' :: normalizeSpace text ++ [' ']) = true ↔
      word ∈ Text.words isAsciiSpace text := by
  rw [Text.includes_iff, normalizeSpace]
  have noSpaces : ∀ other ∈ Text.words isAsciiSpace text, ' ' ∉ other := fun other member inside =>
    absurd ((Text.of_mem_words member).2 ' ' inside) (by decide)
  cases words : Text.words isAsciiSpace text with
  | nil =>
    constructor
    · intro inside
      have length := inside.length_le
      simp only [List.intercalate_nil, List.length_append, List.length_cons, List.length_nil]
        at length
      exact absurd (List.eq_nil_of_length_eq_zero (by omega)) nonempty
    · exact fun member => absurd member List.not_mem_nil
  | cons first rest =>
    rw [← Text.padded_eq_intercalate (List.cons_ne_nil first rest)]
    exact Text.infix_padded_iff noSpace (words ▸ noSpaces)

end XPath

end XmlSelect
