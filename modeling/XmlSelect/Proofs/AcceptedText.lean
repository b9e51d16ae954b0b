import XmlSelect.Gate.Validator
import XmlSelect.Proofs.Lexemes

/-! What the checks of a text rule out. They look for names in lower case and know nothing of
tokens, so that what matters is the character in front of a name and the text behind it. -/
namespace XmlSelect

section LowerCase

variable {c : Char}

/-- What holds of one capital letter after the other holds of each. -/
theorem of_isUpper (holds : Char → Bool)
    (letters : ((List.range 26).all fun n => holds (Char.ofNat (65 + n))) = true)
    (upper : c.isUpper = true) : holds c = true := by
  have code : 65 ≤ c.toNat ∧ c.toNat ≤ 90 := of_decide_eq_true upper
  have same : Char.ofNat (65 + (c.toNat - 65)) = c := by
    rw [Nat.add_sub_cancel' code.1, Char.ofNat_toNat]
  rw [← same]
  exact List.all_eq_true.mp letters _ (List.mem_range.mpr (by omega))

theorem toLower_of_not_isUpper (small : c.isUpper = false) : c.toLower = c := by
  unfold Char.toLower
  split
  · rename_i upper
    exact Bool.noConfusion (small.symm.trans (decide_eq_true upper))
  · rfl

/-- Characters that are in no name have no other case. -/
theorem toLower_of_not_isNameChar (other : XPath.isNameChar c = false) : c.toLower = c := by
  refine toLower_of_not_isUpper (Bool.eq_false_iff.mpr fun upper => ?_)
  exact absurd (of_isUpper XPath.isNameChar (by decide) upper) (by simp [other])

theorem isNameChar_toLower (named : XPath.isNameChar c = true) :
    XPath.isNameChar c.toLower = true := by
  by_cases upper : c.isUpper = true
  · exact of_isUpper (fun c => XPath.isNameChar c.toLower) (by decide) upper
  · rwa [toLower_of_not_isUpper (by simpa using upper)]

/-- A class that does not tell capital letters from small ones is the same in lower case. -/
theorem same_toLower (holds : Char → Bool) (letters : ((List.range 26).all fun n =>
      holds (Char.ofNat (65 + n)).toLower == holds (Char.ofNat (65 + n))) = true) (c : Char) :
    holds c.toLower = holds c := by
  by_cases upper : c.isUpper = true
  · simpa using of_isUpper (fun c => holds c.toLower == holds c) letters upper
  · rw [toLower_of_not_isUpper (by simpa using upper)]

theorem isSpace_toLower : ∀ c : Char, isSpace c.toLower = isSpace c :=
  same_toLower isSpace (by decide)

theorem isNameChar_of_isNamePart (part : Gate.isNamePart c = true) :
    XPath.isNameChar c = true := by
  simp only [Gate.isNamePart, Char.isAlphanum, Bool.or_eq_true] at part
  rcases part with (((letter | digit) | same) | same) | same
  · have ascii : c.toNat < 128 := by
      have code : (65 ≤ c.toNat ∧ c.toNat ≤ 90) ∨ (97 ≤ c.toNat ∧ c.toNat ≤ 122) := by
        rcases Bool.or_eq_true _ _ ▸ letter with upper | lower
        · exact .inl (of_decide_eq_true upper)
        · exact .inr ((Bool.and_eq_true _ _ ▸ lower :).imp of_decide_eq_true of_decide_eq_true)
      omega
    simp [XPath.isNameChar, isLetterOrNumber, isLetter, ascii, letter]
  · exact XPath.isNameChar_of_isDigit digit
  all_goals simp [XPath.isNameChar, same]

end LowerCase

namespace Text

theorem toLower_append (front back : Text) :
    toLower (front ++ back) = toLower front ++ toLower back := List.map_append

/-- White space at the start is the same in lower case. -/
theorem dropWhile_toLower {drop : Char → Bool} (same : ∀ c, drop c.toLower = drop c)
    (text : Text) : (toLower text).dropWhile drop = toLower (text.dropWhile drop) := by
  rw [toLower, List.dropWhile_map]
  exact congrArg (fun drop => toLower (text.dropWhile drop)) (funext same)

theorem trim_eq_self {drop : Char → Bool} {text : Text} (kept : ∀ c ∈ text, drop c = false) :
    trim drop text = text := by
  have each : ∀ run : Text, (∀ c ∈ run, c ∈ text) → run.dropWhile drop = run := by
    intro run inside
    cases run with
    | nil => rfl
    | cons c run => simp [kept c (inside c List.mem_cons_self)]
  rw [trim, each text (fun c => id), each text.reverse (fun c => List.mem_reverse.mp),
    List.reverse_reverse]

section Occurrences

variable {pattern before after : Text}

/-- An occurrence that starts before a place and reaches it holds the character in front of it. -/
private theorem length_le_of_prefix {back : Text} (start : pattern <+: before ++ back)
    (separated : ∀ c ∈ before.getLast?, c ∉ pattern) (nonempty : before ≠ []) :
    pattern.length ≤ before.length := by
  refine Nat.le_of_not_lt fun longer => ?_
  have inside : before <+: pattern :=
    List.prefix_of_prefix_length_le (List.prefix_append _ _) start (Nat.le_of_lt longer)
  exact separated _ (List.getLast?_eq_some_getLast nonempty)
    (inside.subset (List.getLast_mem nonempty))

private theorem mem_occurrences_go {skip : Nat} (nonempty : pattern ≠ [])
    (short : skip ≤ before.length) (separated : ∀ c ∈ before.getLast?, c ∉ pattern)
    (previous : Option Char) :
    (before.getLast?.or previous, after) ∈
      occurrences.go pattern skip previous (before ++ (pattern ++ after)) := by
  induction before generalizing skip previous with
  | nil =>
    obtain ⟨first, others, rfl⟩ := List.exists_cons_of_ne_nil nonempty
    obtain rfl : skip = 0 := by simpa using short
    rw [List.nil_append, List.cons_append, occurrences.go, ← List.cons_append,
      dropPrefix?_append]
    exact List.mem_cons_self
  | cons c before ih =>
    have last : (c :: before).getLast?.or previous = before.getLast?.or (some c) := by
      rw [List.getLast?_cons]
      cases before.getLast? <;> rfl
    have separated' : ∀ d ∈ before.getLast?, d ∉ pattern := by
      intro d same
      exact separated d (by rw [List.getLast?_cons, Option.mem_def.mp same]; rfl)
    rw [last, List.cons_append]
    cases skip with
    | succ skip => exact ih (Nat.le_of_succ_le_succ short) separated' (some c)
    | zero =>
      rw [occurrences.go]
      split
      · rename_i found
        have start : pattern <+: c :: before ++ (pattern ++ after) :=
          ⟨_, (append_of_dropPrefix? found).symm⟩
        have fits := length_le_of_prefix start separated (List.cons_ne_nil _ _)
        rw [List.length_cons] at fits
        exact List.mem_cons_of_mem _ (ih (by omega) separated' (some c))
      · exact ih (Nat.zero_le _) separated' (some c)

/-- A pattern is found where it stands, if the character in front of it is not part of it. -/
theorem mem_occurrences (nonempty : pattern ≠ []) (separated : ∀ c ∈ before.getLast?, c ∉ pattern)
    (after : Text) :
    (before.getLast?, after) ∈ occurrences pattern (before ++ (pattern ++ after)) := by
  rw [← Option.or_none (o := before.getLast?)]
  exact mem_occurrences_go nonempty (Nat.zero_le _) separated none

end Occurrences

end Text

namespace Gate

variable {name before after : Text}

/-- A name is found in the lower case of a text where no character of a name stands in front of
it. -/
theorem mem_occurrences_toLower (nonempty : name ≠ [])
    (named : ∀ c ∈ name, XPath.isNameChar c = true)
    (separated : ∀ c ∈ before.getLast?, XPath.isNameChar c = false) (after : Text) :
    ∃ previous, previous.any isNamePart = false ∧ (previous, Text.toLower after) ∈
      Text.occurrences (Text.toLower name) (Text.toLower (before ++ (name ++ after))) := by
  have last : ∀ c ∈ (Text.toLower before).getLast?, XPath.isNameChar c = false := by
    intro c same
    rw [Text.toLower, List.getLast?_map, Option.mem_def, Option.map_eq_some_iff] at same
    obtain ⟨d, same, rfl⟩ := same
    rw [toLower_of_not_isNameChar (separated d same)]
    exact separated d same
  refine ⟨(Text.toLower before).getLast?, ?_, ?_⟩
  · rw [Bool.eq_false_iff]
    intro part
    cases same : (Text.toLower before).getLast? with
    | none => simp [same] at part
    | some c =>
      rw [same, Option.any_some] at part
      exact absurd (last c same) (by simp [isNameChar_of_isNamePart part])
  · rw [Text.toLower_append, Text.toLower_append]
    refine Text.mem_occurrences (by simpa [Text.toLower] using nonempty) (fun c same inside => ?_) _
    obtain ⟨d, member, rfl⟩ := List.mem_map.mp inside
    exact absurd (last _ same) (by simp [isNameChar_toLower (named d member)])

/-- A function is called where its name stands in front of a parenthesis and no character of a name
stands in front of it. -/
theorem callsFunction_append (nonempty : name ≠ []) (named : ∀ c ∈ name, XPath.isNameChar c = true)
    (separated : ∀ c ∈ before.getLast?, XPath.isNameChar c = false)
    (call : (after.dropWhile isSpace).head? = some '(') :
    callsFunction (Text.toLower name) (Text.toLower (before ++ (name ++ after))) = true := by
  obtain ⟨previous, bounded, found⟩ := mem_occurrences_toLower nonempty named separated after
  have opens : ((Text.toLower after).dropWhile isSpace).head? = some '(' := by
    rw [Text.dropWhile_toLower isSpace_toLower, Text.toLower, List.head?_map, call]
    rfl
  rw [callsFunction, List.any_eq_true]
  exact ⟨_, found, by simp [bounded, opens]⟩

/-- What is found behind any other character was missed behind one of a name. -/
theorem isNameChar_of_missed {found : Bool} (missed : found = false)
    (finds : (∀ c ∈ before.getLast?, XPath.isNameChar c = false) → found = true) :
    ∃ c ∈ before.getLast?, XPath.isNameChar c = true := by
  refine Classical.byContradiction fun none => ?_
  have separated : ∀ c ∈ before.getLast?, XPath.isNameChar c = false := fun c last =>
    Bool.eq_false_iff.mpr fun named => none ⟨c, last, named⟩
  exact Bool.noConfusion (missed.symm.trans (finds separated))

private theorem guard_ok {condition : Bool} {rejection : Rejection}
    {next : Unit → Except Rejection Unit}
    (accepted : (if condition then throw rejection >>= next else next ()) = .ok ()) :
    next () = .ok () := by
  cases condition with
  | true => cases accepted
  | false => exact accepted

/-- The checks of names and of constant operands come last, and an accepted text passed them. -/
theorem validate_ok {validator : Validator} {text : Text} {maxLength : Nat}
    (accepted : validator.validate text maxLength = .ok ()) :
    (∀ name ∈ validator.blocked, callsFunction name (Text.toLower text) = false) ∧
      hasTautology (Text.toLower text) = false := by
  unfold Validator.validate at accepted
  have named := guard_ok accepted
  have short := guard_ok named
  have filled := guard_ok short
  have quoted := guard_ok filled
  obtain ⟨_, -, nested⟩ := bind_ok quoted
  have plain := guard_ok nested
  have last := guard_ok plain
  dsimp only at last
  split at last
  · cases last
  · rename_i none
    refine ⟨fun name member => by simpa using List.find?_eq_none.mp none name member, ?_⟩
    split at last
    · cases last
    · rename_i none
      simpa using none

end Gate

end XmlSelect
