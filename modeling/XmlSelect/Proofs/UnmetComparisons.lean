import Mathlib.Data.List.Infix
import XmlSelect.Proofs.WordSearch
import XmlSelect.Selector.Compile

/-! Comparisons that no value meets. They are written as the constant false, and so are some that a
value does meet: white space of Unicode that does not separate words can be a part of one. -/
namespace XmlSelect

/-- A text is a word of its own if it is not empty and has no gap in it. -/
theorem Text.mem_words_self_iff {gap : Char → Bool} {word : Text} :
    word ∈ words gap word ↔ word ≠ [] ∧ ∀ c ∈ word, gap c = false := by
  constructor
  · exact of_mem_words
  · rintro ⟨nonempty, whole⟩
    have alone : word.splitOnP gap = [word] := List.splitOnP_eq_singleton whole
    rw [words, alone]
    simpa using nonempty

namespace Selector

/-- What selectors say that the value of an attribute has to be for a comparison with an operand.
Words stand between the white space of ASCII. -/
def Comparison.Meets (comparison : Comparison) (operand value : Text) : Prop :=
  match comparison with
  | equals => value = operand
  | includesWord => operand ∈ Text.words isAsciiSpace value
  | startsWith => operand ≠ [] ∧ operand <+: value
  | endsWith => operand ≠ [] ∧ operand <:+ value
  | contains => operand ≠ [] ∧ operand <:+: value
  | dashMatch => value = operand ∨ operand ++ ['-'] <+: value

section Operands

variable {compared : Comparison} {operand value : Text}

/-- If a value meets a comparison, the operand does so as a value. -/
theorem Comparison.Meets.self (met : compared.Meets operand value) :
    compared.Meets operand operand := by
  cases compared with
  | equals => rfl
  | includesWord => exact Text.mem_words_self_iff.mpr (Text.of_mem_words met)
  | startsWith => exact ⟨met.1, List.prefix_rfl⟩
  | endsWith => exact ⟨met.1, List.suffix_rfl⟩
  | contains => exact ⟨met.1, List.infix_rfl⟩
  | dashMatch => exact .inl rfl

/-- The white space that rules a word out is that of Unicode. -/
theorem neverMatches_includesWord_iff : neverMatches .includesWord operand = true ↔
    ¬Comparison.includesWord.Meets operand operand ∨ ∃ c ∈ operand, isSpace c = true := by
  rw [neverMatches, Bool.or_eq_true, List.isEmpty_iff, List.any_eq_true, Comparison.Meets,
    Text.mem_words_self_iff]
  constructor
  · rintro (empty | space)
    · exact .inl fun word => word.1 empty
    · exact .inr space
  · rintro (noWord | space)
    · by_contra neither
      obtain ⟨nonempty, noSpace⟩ := not_or.mp neither
      refine noWord ⟨nonempty, fun c inside => Bool.eq_false_iff.mpr fun separates => ?_⟩
      exact noSpace ⟨c, inside, isSpace_of_isAsciiSpace separates⟩
    · exact .inr space

theorem neverMatches_iff : neverMatches compared operand = true ↔
    ¬compared.Meets operand operand ∨
      compared = .includesWord ∧ ∃ c ∈ operand, isSpace c = true := by
  cases compared with
  | includesWord => simp [neverMatches_includesWord_iff]
  | equals => simp [neverMatches, Comparison.Meets]
  | startsWith => simp [neverMatches, Comparison.Meets]
  | endsWith => simp [neverMatches, Comparison.Meets]
  | contains => simp [neverMatches, Comparison.Meets]
  | dashMatch => simp [neverMatches, Comparison.Meets]

/-- What is written for a comparison that some value meets is not the constant. -/
theorem comparisonTest_ne_false (name : Text) (compared : Comparison) (operand : Text) :
    comparisonTest name compared operand ≠ "false()".toList := by
  cases compared <;> exact fun same => absurd (List.cons.inj same).1 (by decide)

end Operands

theorem AttributeTest.toXPath_eq_false_iff {test : AttributeTest} :
    test.toXPath = "false()".toList ↔ ∃ compared operand,
      test.condition = some (compared, operand) ∧ neverMatches compared operand = true := by
  obtain ⟨name, _ | ⟨compared, operand⟩⟩ := test
  · constructor
    · exact fun same => absurd (List.cons.inj same).1 (by decide)
    · rintro ⟨_, _, none, -⟩
      cases none
  · rw [toXPath]
    constructor
    · intro same
      refine ⟨compared, operand, rfl, ?_⟩
      by_contra met
      exact comparisonTest_ne_false name compared operand (by simpa [met] using same)
    · rintro ⟨_, _, same, never⟩
      cases same
      simp only [never, if_true]

/-- A test is written as the constant false exactly if no value meets its comparison, or if it asks
for a word that holds white space. Such a word is met, by itself at least, if none of its white
space separates words. -/
theorem toXPath_false_iff_unmet (test : AttributeTest) :
    test.toXPath = "false()".toList ↔ ∃ compared operand,
      test.condition = some (compared, operand) ∧
        ((∀ value, ¬compared.Meets operand value) ∨
          compared = .includesWord ∧ compared.Meets operand operand ∧
            ∃ c ∈ operand, isSpace c = true) := by
  rw [AttributeTest.toXPath_eq_false_iff]
  refine exists_congr fun compared => exists_congr fun operand => and_congr_right fun _ => ?_
  rw [neverMatches_iff]
  by_cases met : compared.Meets operand operand
  · have some : ¬∀ value, ¬compared.Meets operand value := fun none => none operand met
    simp [met, some]
  · have none : ∀ value, ¬compared.Meets operand value := fun _ meets => met meets.self
    simp [met, none]

/-- A no-break space does not separate words. -/
theorem noBreakSpace_unmet :
    compile "[r~='x\u00a0y']".toList = .ok "//*[false()]".toList ∧
      Comparison.includesWord.Meets "x\u00a0y".toList "x\u00a0y".toList :=
  ⟨by decide +kernel, Text.mem_words_self_iff.mpr (by simp [isAsciiSpace, isBlank])⟩

end Selector

end XmlSelect
