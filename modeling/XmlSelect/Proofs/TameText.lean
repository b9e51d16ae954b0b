import Mathlib.Data.List.Basic
import XmlSelect.Proofs.AcceptedText

/-! Texts that pass every check. The checks look for quotes, brackets and words in a text of which
they know no tokens. A parenthesis can be taken for that of a blocked function only behind a word
that ends in the name of one, and an equals sign for that of a constant comparison only behind a
literal; it is enough to know what stands right in front of these marks. -/
namespace XmlSelect

namespace Text

variable {pattern text after : Text} {previous : Option Char}

private theorem append_of_mem_occurrences_go {skip : Nat} {last : Option Char}
    (found : (previous, after) ∈ occurrences.go pattern skip last text) :
    ∃ before, text = before ++ (pattern ++ after) := by
  have extend {c : Char} {rest : Text} (inner : ∃ before, rest = before ++ (pattern ++ after)) :
      ∃ before, c :: rest = before ++ (pattern ++ after) := by
    obtain ⟨before, rfl⟩ := inner
    exact ⟨c :: before, rfl⟩
  fun_induction occurrences.go pattern skip last text with
  | case1 skip last empty =>
    obtain ⟨rfl, rfl⟩ := Prod.mk.inj (List.mem_singleton.mp found)
    simp_all
  | case2 => cases found
  | case3 last c rest behind start ih =>
    rcases List.mem_cons.mp found with same | later
    · obtain ⟨rfl, rfl⟩ := Prod.mk.inj same
      exact ⟨[], by rw [List.nil_append, append_of_dropPrefix? start]⟩
    · exact extend (ih later)
  | case4 last c rest start ih => exact extend (ih found)
  | case5 last c rest skip ih => exact extend (ih found)

/-- An occurrence of a pattern is one. -/
theorem append_of_mem_occurrences (found : (previous, after) ∈ occurrences pattern text) :
    ∃ before, text = before ++ (pattern ++ after) :=
  append_of_mem_occurrences_go found

theorem includes_eq_false {c : Char} (member : c ∈ pattern) (absent : c ∉ text) :
    includes pattern text = false := by
  rw [Bool.eq_false_iff]
  exact fun found => absent ((includes_iff.mp found).subset member)

end Text

/-- Wherever the mark stands in a text, one of the words stands right in front of it. -/
def Led (mark : Char) (words : List Text) (text : Text) : Prop :=
  ∀ before after, text = before ++ mark :: after → ∃ word ∈ words, word <:+ before

section Led

variable {mark : Char} {words : List Text} {text left right : Text}

theorem led_of_absent (absent : mark ∉ text) : Led mark words text := by
  rintro before after rfl
  exact absurd (List.mem_append_right _ List.mem_cons_self) absent

theorem led_word {word : Text} (listed : word ∈ words) (absent : mark ∉ word) :
    Led mark words (word ++ [mark]) := by
  intro before after same
  rcases List.append_eq_append_iff.mp same with ⟨inner, rfl, split⟩ | ⟨inner, rfl, split⟩
  · cases inner with
    | nil => exact ⟨word, listed, by simp⟩
    | cons => simp at split
  · cases inner with
    | nil => exact ⟨_, listed, by simp⟩
    | cons first inner =>
      obtain rfl := (List.cons.inj split).1
      exact absurd (List.mem_append_right _ List.mem_cons_self) absent

theorem Led.append (ledLeft : Led mark words left) (ledRight : Led mark words right) :
    Led mark words (left ++ right) := by
  intro before after same
  rcases List.append_eq_append_iff.mp same with ⟨inner, rfl, split⟩ | ⟨inner, rfl, split⟩
  · obtain ⟨word, listed, ends⟩ := ledRight inner after split
    exact ⟨word, listed, ends.trans (List.suffix_append left inner)⟩
  · cases inner with
    | nil =>
      obtain ⟨word, listed, ends⟩ := ledRight [] after split.symm
      rw [List.suffix_nil.mp ends] at listed
      exact ⟨[], listed, List.nil_suffix⟩
    | cons first inner =>
      obtain rfl := (List.cons.inj split).1
      exact ledLeft before inner rfl

/-- A mark that is in no name is led in lower case by words in lower case. -/
theorem Led.toLower (led : Led mark words text) (other : XPath.isNameChar mark = false)
    (small : ∀ word ∈ words, Text.toLower word = word) : Led mark words (Text.toLower text) := by
  intro before after same
  obtain ⟨front, behind, rfl, rfl, lowered⟩ := List.map_eq_append_iff.mp same
  obtain ⟨c, back, rfl, lower, rfl⟩ := List.map_eq_cons_iff.mp lowered
  have printed : c = mark := by
    by_cases named : XPath.isNameChar c = true
    · exact absurd (lower ▸ isNameChar_toLower named) (by simp [other])
    · rw [← lower, toLower_of_not_isNameChar (by simpa using named)]
  obtain ⟨word, listed, ends⟩ := led front back (by rw [printed])
  exact ⟨word, listed, small word listed ▸ ends.map Char.toLower⟩

theorem getLast?_of_suffix {short long : Text} {c : Char} (ends : short <:+ long)
    (last : c ∈ short.getLast?) : c ∈ long.getLast? := by
  obtain ⟨start, rfl⟩ := ends
  exact List.mem_getLast?_append_of_mem_getLast? last

/-- A mark behind white space behind a word is led by what ends the same way as the word. -/
theorem Led.suffix_cases (led : Led mark words text)
    (tight : ∀ word ∈ words, word.getLast?.any (!isSpace ·) = true) {front name after : Text}
    (same : text = front ++ (name ++ after))
    (opens : (after.dropWhile isSpace).head? = some mark) :
    ∃ word ∈ words, word <:+ name ∨ name <:+ word := by
  obtain ⟨rest, found⟩ := List.head?_eq_some_iff.mp opens
  have split := List.takeWhile_append_dropWhile (p := isSpace) (l := after)
  rw [found] at split
  obtain ⟨word, listed, ends⟩ := led (front ++ name ++ after.takeWhile isSpace) rest (by
    rw [same, List.append_assoc, List.append_assoc, split])
  have noGap : after.takeWhile isSpace = [] := by
    rcases List.eq_nil_or_concat (after.takeWhile isSpace) with none | ⟨gap, last, some⟩
    · exact none
    · rw [List.concat_eq_append] at some
      have space : isSpace last = true := by
        refine List.all_eq_true.mp (List.all_takeWhile (p := isSpace) (l := after)) last ?_
        rw [some]
        exact List.mem_append_right _ (List.mem_singleton_self last)
      obtain ⟨c, last, printed⟩ := (Option.any_eq_true ..).mp (tight word listed)
      have final := getLast?_of_suffix ends last
      rw [some, ← List.append_assoc, Option.mem_def, List.getLast?_concat] at final
      exact absurd space (by simpa [Option.some.inj final] using printed)
  rw [noGap, List.append_nil] at ends
  exact ⟨word, listed, List.suffix_or_suffix_of_suffix ends (List.suffix_append front name)⟩

end Led

namespace Gate

/-- Brackets and parentheses of a text close in it, and no more than so many are open at a time. -/
def Nests (brackets parens : Nat) (text : Text) : Prop :=
  ∀ opened called rest, opened + brackets ≤ maxNesting → called + parens ≤ maxNesting →
    checkNesting opened called (text ++ rest) = checkNesting opened called rest

section Nesting

variable {brackets parens : Nat} {left right text : Text}

/-- Whether the nesting goes on unchanged behind a character. -/
def isLevel (c : Char) : Bool := c != '[' && c != ']' && c != '(' && c != ')'

theorem checkNesting_cons {c : Char} (level : isLevel c = true) (opened called : Nat)
    (rest : Text) : checkNesting opened called (c :: rest) = checkNesting opened called rest := by
  rw [checkNesting.eq_def]
  simp only
  split <;> first | rfl | cases level

theorem nests_of_level (level : text.all isLevel = true) : Nests brackets parens text := by
  intro opened called rest _ _
  induction text with
  | nil => rfl
  | cons c text ih =>
    rw [List.all_cons, Bool.and_eq_true] at level
    rw [List.cons_append, checkNesting_cons level.1, ih level.2]

theorem Nests.append (nestsLeft : Nests brackets parens left)
    (nestsRight : Nests brackets parens right) : Nests brackets parens (left ++ right) := by
  intro opened called rest fits fits'
  rw [List.append_assoc, nestsLeft opened called _ fits fits', nestsRight opened called _ fits fits']

theorem Nests.bracketed (nests : Nests brackets parens text) :
    Nests (brackets + 1) parens ('[' :: text ++ [']']) := by
  intro opened called rest fits fits'
  have room : ¬maxNesting ≤ opened := by omega
  have opening : checkNesting opened called ('[' :: (text ++ (']' :: rest))) =
      checkNesting (opened + 1) called (text ++ (']' :: rest)) := by
    rw [checkNesting, if_neg room]
  have closing : checkNesting (opened + 1) called (']' :: rest) = checkNesting opened called rest := by
    rw [checkNesting]
  simpa [opening, closing] using
    nests (opened + 1) called (']' :: rest) (by omega) fits'

theorem Nests.parenthesized (nests : Nests brackets parens text) :
    Nests brackets (parens + 1) ('(' :: text ++ [')']) := by
  intro opened called rest fits fits'
  have room : ¬maxNesting ≤ called := by omega
  have opening : checkNesting opened called ('(' :: (text ++ (')' :: rest))) =
      checkNesting opened (called + 1) (text ++ (')' :: rest)) := by
    rw [checkNesting, if_neg room]
  have closing : checkNesting opened (called + 1) (')' :: rest) = checkNesting opened called rest := by
    rw [checkNesting]
  simpa [opening, closing] using
    nests opened (called + 1) (')' :: rest) fits (by omega)

end Nesting

section Literals

theorem isSpace_of_isDigit {c : Char} (digit : c.isDigit = true) : isSpace c = false := by
  have code : 48 ≤ c.toNat ∧ c.toNat ≤ 57 := Char.isDigit_iff_toNat.mp digit
  simp [isSpace, inRanges]
  omega

/-- A literal ends in a quote, a digit or a point. -/
theorem Literal.read?_ok {text rest : Text} {value : Literal}
    (read : Literal.read? text = some (value, rest)) :
    ∃ written, text = written ++ rest ∧
      ∃ c ∈ written.getLast?, isSpace c = false ∧ c ≠ 'd' := by
  cases text with
  | nil => cases read
  | cons first text =>
    rw [Literal.read?] at read
    split at read
    · rename_i quote
      obtain ⟨⟨inner, after⟩, found, same⟩ := Option.map_eq_some_iff.mp read
      cases same
      refine ⟨first :: inner ++ [first], ?_, first, List.getLast?_concat, ?_⟩
      · simpa using Text.append_of_breakOn? found
      · simp only [Bool.or_eq_true, beq_iff_eq] at quote
        rcases quote with rfl | rfl <;> decide
    · simp only at read
      split at read
      · cases read
      · rename_i number
        cases read
        refine ⟨_, (List.takeWhile_append_dropWhile ..).symm, ?_⟩
        generalize written : (first :: text).takeWhile _ = digits at number
        have nonempty : digits ≠ [] := by
          rintro rfl
          exact number (by decide)
        refine ⟨digits.getLast nonempty, List.getLast?_eq_some_getLast nonempty, ?_⟩
        have part : ∀ c ∈ digits, (c.isDigit || c == '.') = true := fun c member => by
          rw [← written] at member
          exact List.all_eq_true.mp List.all_takeWhile c member
        have part := part _ (List.getLast_mem nonempty)
        simp only [Bool.or_eq_true, beq_iff_eq] at part
        rcases part with digit | point
        · refine ⟨isSpace_of_isDigit digit, ?_⟩
          rintro same
          rw [same] at digit
          cases digit
        · rw [point]
          decide

end Literals

/-- The functions that are called in the path of a selector without values. -/
def plainCalls : List Text := ["contains", "concat", "normalize-space"].map String.toList

section Words

variable {front text name : Text}

/-- Whether no function of a plain path ends like a name, nor a name like a function of one. -/
def isApart (name : Text) : Bool :=
  plainCalls.all fun word => !word.isSuffixOf name && !name.isSuffixOf word

theorem not_called (calls : Led '(' plainCalls text) (apart : isApart name = true) {after : Text}
    (same : text = front ++ (name ++ after)) : (after.dropWhile isSpace).head? ≠ some '(' := by
  intro opens
  obtain ⟨word, listed, ends⟩ := calls.suffix_cases (by decide) same opens
  have := List.all_eq_true.mp apart word listed
  simp only [Bool.and_eq_true, Bool.not_eq_true', ← Bool.not_eq_true,
    List.isSuffixOf_iff_suffix] at this
  exact ends.elim this.1 this.2

theorem callsFunction_eq_false (calls : Led '(' plainCalls text) (apart : isApart name = true) :
    callsFunction name text = false := by
  rw [callsFunction, List.any_eq_false]
  rintro ⟨previous, after⟩ found called
  obtain ⟨before, same⟩ := Text.append_of_mem_occurrences found
  simp only [Bool.and_eq_true, beq_iff_eq] at called
  exact not_called calls apart same called.2

theorem startsWithCall_eq_false (calls : Led '(' plainCalls (front ++ text))
    (apart : isApart name = true) : startsWithCall name text = false := by
  rw [startsWithCall]
  split
  · rename_i rest found
    obtain ⟨after, start, opens⟩ := Option.map_eq_some_iff.mp found
    have same : front ++ text = front ++ (name ++ after) := by
      rw [Text.append_of_dropPrefix? start]
    exact absurd (congrArg List.head? opens) (not_called calls apart same)
  · rfl

/-- In front of an equals sign there is no literal. -/
theorem constantComparison?_eq_none (compares : Led '=' [['d']] (front ++ text))
    (noMark : '!' ∉ text) : constantComparison? text = none := by
  rw [constantComparison?]
  cases read : Literal.read? text with
  | none => rfl
  | some found =>
    obtain ⟨left, rest⟩ := found
    obtain ⟨written, rfl, c, last, printed, noLetter⟩ := Literal.read?_ok read
    have inside {rest' : Text} (same : rest.dropWhile isSpace = rest') : ∀ d ∈ rest', d ∈ rest :=
      fun d member => (List.dropWhile_suffix isSpace).subset (same ▸ member)
    simp only [Option.bind_eq_bind, Option.bind_some]
    split
    · rename_i same
      exact absurd (List.mem_append_right _ (inside same _ List.mem_cons_self)) noMark
    · rename_i same
      have whole : front ++ (written ++ rest) = front ++ (written ++ rest) := rfl
      obtain ⟨word, listed, ends⟩ :=
        compares.suffix_cases (by decide) whole (congrArg List.head? same)
      obtain rfl := List.mem_singleton.mp listed
      have letter : 'd' = c := by
        rcases ends with ends | ends
        · exact Option.mem_unique (getLast?_of_suffix ends rfl) last
        · exact Option.some.inj (getLast?_of_suffix ends last)
      exact absurd letter.symm noLetter
    · rfl

theorem constantOperand?_eq_none (front : Text) (calls : Led '(' plainCalls (front ++ text))
    (compares : Led '=' [['d']] (front ++ text)) (noMark : '!' ∉ text) :
    constantOperand? text = none := by
  rw [constantOperand?, startsWithCall_eq_false calls (by decide),
    startsWithCall_eq_false calls (by decide)]
  exact constantComparison?_eq_none compares noMark

theorem decides_eq_false (calls : Led '(' plainCalls text) (compares : Led '=' [['d']] text)
    (noMark : '!' ∉ text) (keyword : Text) (value : Bool) :
    decides keyword value text = false := by
  rw [decides, List.any_eq_false]
  rintro ⟨previous, after⟩ found decided
  obtain ⟨before, rfl⟩ := Text.append_of_mem_occurrences found
  obtain ⟨gap, split⟩ := List.dropWhile_suffix (l := after) fun c => isAsciiSpace c || c == '('
  have none : constantOperand? (after.dropWhile fun c => isAsciiSpace c || c == '(') = none := by
    refine constantOperand?_eq_none (before ++ keyword ++ gap) ?_ ?_ ?_
    · simpa [split] using calls
    · simpa [split] using compares
    · intro member
      refine noMark ?_
      rw [← split]
      simp [member]
  simp [none] at decided

end Words

/-- A character that no plain path has, and that a check takes for more than itself. -/
def isHarmless (c : Char) : Bool := c != '\x00' && c != '"' && c != ':' && c != '&' && c != '!'

/-- What every piece of a plain path is like, with no more than so many brackets and parentheses
open at a time. -/
structure Tame (brackets parens : Nat) (text : Text) : Prop where
  harmless : text.all isHarmless = true
  calls : Led '(' plainCalls text
  compares : Led '=' [['d']] text
  quotes : text.count '\'' % 2 = 0
  nests : Nests brackets parens text

namespace Tame

variable {brackets parens : Nat} {left right text : Text}

theorem append (tame : Tame brackets parens left) (tame' : Tame brackets parens right) :
    Tame brackets parens (left ++ right) where
  harmless := by rw [List.all_append, tame.harmless, tame'.harmless]; rfl
  calls := tame.calls.append tame'.calls
  compares := tame.compares.append tame'.compares
  quotes := by rw [List.count_append, Nat.add_mod, tame.quotes, tame'.quotes]
  nests := tame.nests.append tame'.nests

/-- Whether a character stands for itself in every check. -/
def isPlain (c : Char) : Bool :=
  isHarmless c && isLevel c && c != '=' && c != '\''

theorem of_plain (plain : text.all isPlain = true) : Tame brackets parens text := by
  have each := List.all_eq_true.mp plain
  have other {mark : Char} (marked : isPlain mark = false) : mark ∉ text := fun member =>
    absurd (each mark member) (by simp [marked])
  have parts (c : Char) (member : c ∈ text) : isHarmless c = true ∧ isLevel c = true := by
    have known := each c member
    simp only [isPlain, Bool.and_eq_true] at known
    exact known.1.1
  exact
    { harmless := List.all_eq_true.mpr fun c member => (parts c member).1
      calls := led_of_absent (other (by decide))
      compares := led_of_absent (other (by decide))
      quotes := by rw [List.count_eq_zero.mpr (other (by decide))]
      nests := nests_of_level (List.all_eq_true.mpr fun c member => (parts c member).2) }

/-- A piece between what opens and what closes it. -/
private theorem enclosed {opened called : Nat} (front back : Text) (tame : Tame opened called text)
    (harmless : (front ++ back).all isHarmless = true) (calls : Led '(' plainCalls front)
    (level : '(' ∉ back) (compares : '=' ∉ front ++ back)
    (quotes : (front ++ back).count '\'' % 2 = 0)
    (nests : Nests brackets parens (front ++ text ++ back)) :
    Tame brackets parens (front ++ text ++ back) where
  harmless := by
    rw [List.all_append, Bool.and_eq_true] at harmless
    rw [List.all_append, List.all_append, harmless.1, tame.harmless, harmless.2]
    rfl
  calls := (calls.append tame.calls).append (led_of_absent level)
  compares := by
    rw [List.mem_append, not_or] at compares
    exact ((led_of_absent compares.1).append tame.compares).append (led_of_absent compares.2)
  quotes := by
    have := tame.quotes
    simp only [List.count_append] at quotes ⊢
    omega
  nests

/-- A literal of characters that stand for themselves. -/
theorem quoted (plain : text.all isPlain = true) :
    Tame brackets parens ('\'' :: text ++ ['\'']) := by
  have inner : Tame brackets parens text := of_plain plain
  have mark : Nests brackets parens ['\''] := nests_of_level (by decide)
  exact enclosed ['\''] ['\''] inner (by decide) (led_of_absent (by decide)) (by decide)
    (by decide) (by decide) ((mark.append inner.nests).append mark)

theorem bracketed (tame : Tame brackets parens text) :
    Tame (brackets + 1) parens ('[' :: text ++ [']']) :=
  enclosed ['['] [']'] tame (by decide) (led_of_absent (by decide)) (by decide) (by decide)
    (by decide) tame.nests.bracketed

/-- A call of one of the functions. -/
theorem call (word : Text) (listed : word ∈ plainCalls) (tame : Tame brackets parens text) :
    Tame brackets (parens + 1) (word ++ '(' :: text ++ [')']) := by
  have known : ∀ word ∈ plainCalls, (word ++ ['('] ++ [')']).all isHarmless = true ∧
      '(' ∉ word ∧ '=' ∉ word ++ ['('] ++ [')'] ∧ (word ++ ['('] ++ [')']).count '\'' % 2 = 0 ∧
      word.all isLevel = true := by decide
  obtain ⟨harmless, absent, noEquals, even, level⟩ := known word listed
  have nests : Nests brackets (parens + 1) (word ++ ['('] ++ text ++ [')']) := by
    simpa using (nests_of_level level).append tame.nests.parenthesized
  have whole := enclosed (word ++ ['(']) [')'] tame harmless (led_word listed absent) (by decide)
    noEquals even nests
  simpa using whole

theorem flatMap {α : Type} {items : List α} {write : α → Text}
    (each : ∀ item ∈ items, Tame brackets parens (write item)) :
    Tame brackets parens (items.flatMap write) := by
  induction items with
  | nil => exact of_plain rfl
  | cons first rest ih =>
    rw [List.forall_mem_cons] at each
    exact each.1.append (ih each.2)

/-- A tame text passes every check, however long it is. -/
theorem validate (tame : Tame 1 3 text) (nonempty : text ≠ []) :
    ({} : Validator).validate text 0 = .ok () := by
  have absent (mark : Char) (harmful : isHarmless mark = false) : mark ∉ text := fun member =>
    absurd (List.all_eq_true.mp tame.harmless mark member) (by simp [harmful])
  have lower (mark : Char) (harmful : isHarmless mark = false)
      (other : XPath.isNameChar mark = false) : mark ∉ Text.toLower text := by
    intro member
    obtain ⟨c, inside, same⟩ := List.mem_map.mp member
    by_cases named : XPath.isNameChar c = true
    · exact absurd (same ▸ isNameChar_toLower named) (by simp [other])
    · rw [toLower_of_not_isNameChar (by simpa using named)] at same
      exact absent mark harmful (same ▸ inside)
  have calls := tame.calls.toLower (by decide) (by decide)
  have compares := tame.compares.toLower (by decide) (by decide)
  have quotes : quotesBalanced text = true := by
    rw [quotesBalanced, tame.quotes, List.count_eq_zero.mpr (absent '"' (by decide))]
    rfl
  have nested : checkNesting 0 0 text = .ok () := by
    have := tame.nests 0 0 [] (by decide) (by decide)
    rwa [List.append_nil] at this
  have unblocked : defaultBlocked.find? (callsFunction · (Text.toLower text)) = none := by
    rw [List.find?_eq_none]
    intro name listed
    have apart : defaultBlocked.all isApart = true := by decide
    rw [callsFunction_eq_false calls (List.all_eq_true.mp apart name listed)]
    exact Bool.false_ne_true
  have undecided : hasTautology (Text.toLower text) = false := by
    have noMark := lower '!' (by decide) (by decide)
    rw [hasTautology, decides_eq_false calls compares noMark,
      decides_eq_false calls compares noMark]
    rfl
  have noNull : text.contains '\x00' = false := by simpa using absent '\x00' (by decide)
  have filled : text.isEmpty = false := by simpa using nonempty
  have missing {pattern : Text} (mark : Char) (harmful : isHarmless mark = false)
      (member : mark ∈ pattern) : Text.includes pattern text = false :=
    Text.includes_eq_false member (absent mark harmful)
  have noOpening : Text.includes "(:".toList text = false := missing ':' (by decide) (by decide)
  have noClosing : Text.includes ":)".toList text = false := missing ':' (by decide) (by decide)
  have noNumber : Text.includes "&#".toList text = false := missing '&' (by decide) (by decide)
  have noEscaped : Text.includes "&amp;#".toList text = false := missing '&' (by decide) (by decide)
  unfold Validator.validate
  simp only [noNull, filled, quotes, nested, noOpening, noClosing, noNumber, noEscaped, unblocked,
    undecided]
  rfl

end Tame

end Gate

end XmlSelect
