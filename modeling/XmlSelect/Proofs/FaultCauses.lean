import Mathlib.Data.List.DropRight
import XmlSelect.Proofs.SelectorShape
import XmlSelect.Proofs.WordSearch

/-! Where selectors are at fault. Whatever stops the reading of a selector, the place that is told
is one of a character of the selector, and this character is what the fault is about. -/
namespace XmlSelect.Selector

/-- What stands at the place of a fault: a character, with the text behind it. -/
def Fault.Concerns (fault : Fault) (c : Char) (behind : Text) : Prop :=
  match fault with
  | .unterminatedAttribute => c = '['
  | .unterminatedString => (c = '\'' ∨ c = '"') ∧ c ∉ behind
  | .danglingCombinator => c = '>'
  | .emptyAttributeName => c = ']' ∨ ∃ compared : Comparison, compared.text <+: c :: behind
  | .missingAttributeValue => c = ']'
  | .missingIdentifier mark =>
    c = mark ∧ (mark = '#' ∨ mark = '.') ∧ ∀ next ∈ behind.head?, isIdentChar next = false
  | .unsupported found => c = found

/-- Reading stopped within a text, at a character that the fault is about. -/
def Stop.Within (stop : Stop) (whole : Text) : Prop :=
  stop.rest <:+ whole ∧ ∃ c behind, stop.rest = c :: behind ∧ stop.fault.Concerns c behind

section Places

variable {stop : Stop} {source whole : Text}

theorem Stop.Within.of_suffix (within : stop.Within source) (suffix : source <:+ whole) :
    stop.Within whole := ⟨within.1.trans suffix, within.2⟩

theorem Stop.Within.behind {c : Char} (within : stop.Within source) : stop.Within (c :: source) :=
  within.of_suffix (List.suffix_cons c source)

/-- A fault that is about the first character of what is left. -/
theorem within_self {fault : Fault} {c : Char} {behind : Text}
    (concerns : fault.Concerns c behind) : Stop.Within ⟨fault, c :: behind⟩ (c :: behind) :=
  ⟨List.suffix_refl _, c, behind, rfl, concerns⟩

/-- The number of bytes in front of what is left is the place of its first character. -/
theorem Stop.Within.place (within : stop.Within source) : ∃ before c behind,
    source = before ++ c :: behind ∧
      Text.byteLength source - Text.byteLength stop.rest = Text.byteLength before ∧
      stop.fault.Concerns c behind := by
  obtain ⟨⟨before, whole⟩, c, behind, rest, concerns⟩ := within
  refine ⟨before, c, behind, by rw [← whole, rest], ?_, concerns⟩
  rw [← whole, Text.byteLength_append, Nat.add_sub_cancel]

end Places

section Attributes

variable {opening source : Text} {stop : Stop}

theorem identifier_error {mark : Char} (isMark : mark = '#' ∨ mark = '.')
    (stuck : identifier mark (mark :: source) source = .error stop) :
    stop.Within (mark :: source) := by
  rw [identifier] at stuck
  split at stuck
  · rename_i none
    cases stuck
    refine within_self ⟨rfl, isMark, fun next first => ?_⟩
    obtain ⟨rest, rfl⟩ := List.head?_eq_some_iff.mp first
    by_contra inner
    rw [List.takeWhile_cons_of_pos (by simpa using inner)] at none
    cases none
  · cases stuck

/-- A name that is empty has nothing read. -/
theorem rest_of_attributeName (none : (attributeName source).value.isEmpty = true) :
    (attributeName source).rest = source := by
  unfold attributeName at none ⊢
  split
  · rename_i start
    rw [if_pos start] at none
    cases source with
    | nil => cases start
    | cons first rest =>
      have taken := List.takeWhile_cons_of_pos (l := rest) (isIdentChar_of_isIdentStart start)
      exact absurd none (by simp [taken])
  · rfl

theorem comparison_error (stuck : comparison opening source = .error stop) :
    stop = ⟨.unterminatedAttribute, opening⟩ ∨ stop.Within source := by
  rw [comparison.eq_def] at stuck
  split at stuck
  · cases stuck
    exact .inl rfl
  · cases stuck
  · cases stuck
  · split at stuck
    · cases stuck
    · cases stuck
      exact .inr (within_self rfl)
  · cases stuck
    exact .inr (within_self rfl)

theorem text_of_ofMark? {c : Char} {compared : Comparison}
    (found : Comparison.ofMark? c = some compared) : compared.text = [c, '='] := by
  unfold Comparison.ofMark? at found
  split at found <;> cases found <;> rfl

/-- Where a comparison or its absence is read stands a closing bracket or an operator. -/
theorem comparison_ok {read : Read source (Option Comparison)}
    (found : comparison opening source = .ok read) :
    ∃ c behind, source = c :: behind ∧ Fault.emptyAttributeName.Concerns c behind := by
  rw [comparison.eq_def] at found
  split at found
  · cases found
  · exact ⟨_, _, rfl, .inl rfl⟩
  · rename_i rest
    exact ⟨_, _, rfl, .inr ⟨.equals, List.prefix_append ['='] rest⟩⟩
  · split at found
    · rename_i compared marked
      refine ⟨_, _, rfl, .inr ⟨compared, ?_⟩⟩
      rw [text_of_ofMark? marked]
      exact List.prefix_append [_, '='] _
    · cases found
  · cases found

theorem operand_error (stuck : operand opening source = .error stop) :
    stop = ⟨.unterminatedAttribute, opening⟩ ∨ stop.Within source := by
  rw [operand.eq_def] at stuck
  split at stuck
  · cases stuck
    exact .inl rfl
  · split at stuck
    · rename_i closes
      cases stuck
      exact .inr (within_self (beq_iff_eq.mp closes))
    · split at stuck
      · rename_i quotes
        split at stuck
        · cases stuck
        · rename_i absent
          cases stuck
          refine .inr (within_self ⟨by simpa using quotes, ?_⟩)
          exact Text.notMem_of_breakOn?_eq_none absent
      · cases stuck

/-- Where a name is missing stands the bracket or the operator that is read behind it. -/
theorem within_of_emptyName
    (none : (attributeName (source.dropWhile isSpace)).value.isEmpty = true)
    {read : Read ((attributeName (source.dropWhile isSpace)).rest.dropWhile isSpace)
      (Option Comparison)}
    (found : comparison opening _ = .ok read) :
    Stop.Within ⟨.emptyAttributeName, source.dropWhile isSpace⟩ source := by
  obtain ⟨c, behind, same, concerns⟩ := comparison_ok found
  rw [rest_of_attributeName none, List.dropWhile_idempotent] at same
  exact ⟨List.dropWhile_suffix _, c, behind, same, concerns⟩

/-- A test of an attribute is at fault within it, or its bracket is. -/
theorem attributeTest_error (stuck : attributeTest ('[' :: source) source = .error stop) :
    stop.Within ('[' :: source) := by
  have inside {rest : Text} (suffix : rest <:+ source)
      (place : stop = ⟨.unterminatedAttribute, '[' :: source⟩ ∨ stop.Within rest) :
      stop.Within ('[' :: source) := by
    rcases place with rfl | within
    · exact within_self rfl
    · exact (within.of_suffix suffix).behind
  have named := (attributeName (Read.skip isSpace source).rest).suffix.trans
    (Read.skip isSpace source).suffix
  have beforeMark := (Read.skip isSpace _).suffix.trans named
  unfold attributeTest at stuck
  dsimp only at stuck
  rcases bind_error stuck with stuck | ⟨⟨found, afterMark, marked⟩, read, stuck⟩
  · exact inside beforeMark (comparison_error stuck)
  · split at stuck
    · rename_i none
      cases stuck
      exact (within_of_emptyName none read).behind
    · cases found with
      | none => cases stuck
      | some compared =>
        have beforeValue := (Read.skip isSpace afterMark).suffix.trans (marked.trans beforeMark)
        rcases bind_error stuck with stuck | ⟨⟨value, afterValue, valued⟩, -, stuck⟩
        · exact inside beforeValue (operand_error stuck)
        · have close := (Read.skip isSpace afterValue).suffix.trans (valued.trans beforeValue)
          dsimp only at stuck
          split at stuck
          · cases stuck
          · cases stuck
            exact within_self rfl
          · rename_i c rest suffix _ same _
            cases stuck
            exact inside (same ▸ close) (.inr (within_self rfl))

end Attributes

section Compounds

variable {stop : Stop}

theorem part_error {built : Compound} {mark : Char} {rest : Text}
    {result : Except Stop (Read rest Compound)} (part : part? built mark rest = some result)
    (stuck : result = .error stop) : stop.Within (mark :: rest) := by
  rw [part?.eq_def] at part
  split at part
  · cases part
    exact identifier_error (.inl rfl) (map_error stuck)
  · cases part
    exact identifier_error (.inr rfl) (map_error stuck)
  · cases part
    exact attributeTest_error (map_error stuck)
  · cases part

theorem parts_error {whole source : Text} {built : Compound} {within : source <:+ whole}
    (stuck : parts whole built source within = .error stop) : stop.Within source := by
  fun_induction parts with
  | case1 => cases stuck
  | case2 => cases stuck
  | case3 built mark rest within result part _ ih =>
    rcases bind_error stuck with stuck | ⟨⟨extended, after, suffix⟩, -, stuck⟩
    · exact part_error part stuck
    · exact ((ih extended after suffix stuck).of_suffix suffix).behind

theorem compound_error {first : Char} {rest : Text} (stuck : compound first rest = .error stop) :
    stop.Within (first :: rest) := by
  rw [compound] at stuck
  split at stuck
  · exact (parts_error stuck).behind
  · split at stuck
    · exact ((parts_error stuck).of_suffix (List.dropWhile_suffix _)).behind
    · split at stuck
      · cases stuck
        exact within_self rfl
      · rename_i part
        rcases bind_error stuck with stuck | ⟨⟨started, after, suffix⟩, -, stuck⟩
        · exact part_error part stuck
        · exact ((parts_error stuck).of_suffix suffix).behind

/-- A chain is at fault in one of its compounds or at what stands behind one. -/
theorem chain_error {done : Chain} {combinator : Combinator} {first : Char} {rest : Text}
    (stuck : chain done combinator first rest = .error stop) : stop.Within (first :: rest) := by
  fun_induction chain with
  | case1 done combinator first rest childIh descendantIh =>
    rcases bind_error stuck with stuck | ⟨⟨built, after, suffix⟩, -, stuck⟩
    · exact compound_error stuck
    · dsimp only at stuck
      have beyond {body : Text} (gap : body <:+ (Read.skip isSpace after).rest) :
          body <:+ first :: rest :=
        gap.trans (((Read.skip isSpace after).suffix.trans suffix).trans
          (List.suffix_cons first rest))
      split at stuck
      · cases stuck
      · rename_i body _ behind short left _
        have bracket : '>' :: behind <:+ first :: rest := beyond (left ▸ List.suffix_rfl)
        have dangling : Stop.Within ⟨.danglingCombinator, '>' :: behind⟩ (first :: rest) :=
          Stop.Within.of_suffix (within_self rfl) bracket
        split at stuck
        · cases stuck
          exact dangling
        · rename_i next _ c others nearer opened _
          split at stuck
          · cases stuck
            exact dangling
          · have further := childIh built after suffix body behind short next c others nearer stuck
            have gap : c :: others <:+ behind := opened ▸ (Read.skip isSpace behind).suffix
            exact further.of_suffix (gap.trans ((List.suffix_cons '>' behind).trans bracket))
      · rename_i body _ c others short _ left _
        have here : c :: others <:+ first :: rest := beyond (left ▸ List.suffix_rfl)
        split at stuck
        · cases stuck
          exact Stop.Within.of_suffix (within_self rfl) here
        · exact (descendantIh built after suffix body c others short stuck).of_suffix here

end Compounds

section Selectors

variable {source : Text}

/-- A selector is empty if there is nothing but white space. -/
theorem parse_eq_empty_iff : parse source = .error .empty ↔ source.all isSpace = true := by
  rw [List.all_eq_true, ← List.dropWhile_eq_nil_iff]
  constructor
  · intro stuck
    unfold parse at stuck
    split at stuck
    · assumption
    · obtain ⟨stop, -, told⟩ := mapError_error stuck
      cases told
  · intro blank
    rw [parse, blank]

theorem parse_malformed {fault : Fault} {position : Nat}
    (stuck : parse source = .error (.malformed fault position)) :
    ∃ stop : Stop, stop.fault = fault ∧ stop.Within source ∧
      position = Text.byteLength source - Text.byteLength stop.rest := by
  unfold parse at stuck
  split at stuck
  · cases stuck
  · rename_i first rest visible
    obtain ⟨stop, outcome, told⟩ := mapError_error stuck
    cases told
    have suffix : first :: rest <:+ source := visible ▸ List.dropWhile_suffix isSpace
    refine ⟨stop, rfl, Stop.Within.of_suffix ?_ suffix, rfl⟩
    split at outcome
    · rename_i child
      cases outcome
      exact within_self (beq_iff_eq.mp child)
    · exact chain_error outcome

end Selectors

/-- A text that is no selector is blank, or its fault is at the place of a character that the fault
is about. -/
theorem parse_malformed_place (source : Text) :
    (parse source = .error .empty ↔ source.all isSpace = true) ∧
      ∀ fault position, parse source = .error (.malformed fault position) →
        ∃ before c behind, source = before ++ c :: behind ∧
          position = Text.byteLength before ∧ fault.Concerns c behind := by
  refine ⟨parse_eq_empty_iff, fun fault position stuck => ?_⟩
  obtain ⟨stop, rfl, within, rfl⟩ := parse_malformed stuck
  exact within.place

/-- An operator without a name, behind characters and white space of more than one byte each. -/
theorem parse_malformed_place_operator :
    parse "é > ü[\u00a0~=x]".toList = .error (.malformed .emptyAttributeName 10) ∧
      ∃ before c behind, "é > ü[\u00a0~=x]".toList = before ++ c :: behind ∧
        10 = Text.byteLength before ∧ Fault.emptyAttributeName.Concerns c behind := by
  have stuck : parse "é > ü[\u00a0~=x]".toList = .error (.malformed .emptyAttributeName 10) := by
    decide +kernel
  exact ⟨stuck, (parse_malformed_place _).2 _ _ stuck⟩

end XmlSelect.Selector
