import XmlSelect.Proofs.SelectorShape
import XmlSelect.Proofs.TameText
import XmlSelect.Selector.Compile

/-! Selectors without values pass every check of their path, whatever their identifiers are: in front
of a parenthesis there is one of three functions, in front of an equals sign the name of an
attribute. -/
namespace XmlSelect.Selector

open Gate (Tame)

section Pieces

variable {brackets parens : Nat} {name : Text}

theorem isPlain_of_isIdentChar {c : Char} (named : isIdentChar c = true) :
    Tame.isPlain c = true := by
  simp only [Tame.isPlain, Gate.isHarmless, Gate.isLevel, Bool.and_eq_true, bne_iff_ne]
  repeat' apply And.intro
  all_goals
    rintro rfl
    exact absurd named (by decide)

theorem all_isPlain (named : IsIdentifier name) : name.all Tame.isPlain = true :=
  List.all_eq_true.mpr fun c member => isPlain_of_isIdentChar (named.2 c member)

theorem tame_identifier (named : IsIdentifier name) : Tame brackets parens name :=
  .of_plain (all_isPlain named)

/-- What is put between apostrophes for an identifier stands for itself. -/
theorem tame_literal {value : Text} (plain : value.all Tame.isPlain = true) :
    Tame brackets parens (literal value) := by
  have absent : value.contains '\'' = false := by
    simp only [List.contains_eq_mem, decide_eq_false_iff_not]
    exact fun member => absurd (List.all_eq_true.mp plain _ member) (by decide)
  rw [literal, absent]
  exact .quoted plain

theorem tame_id (named : IsIdentifier name) :
    Tame brackets parens ("@id=".toList ++ literal name) := by
  have mark : Tame brackets parens "@id=".toList :=
    { harmless := by decide
      calls := led_of_absent (by decide)
      compares := (led_of_absent (by decide : '=' ∉ "@i".toList)).append
        (led_word (List.mem_singleton_self _) (by decide))
      quotes := by decide
      nests := Gate.nests_of_level (by decide) }
  exact mark.append (tame_literal (all_isPlain named))

theorem tame_class (named : IsIdentifier name) :
    Tame brackets 3 (wordTest "class".toList name) := by
  have blank {parens : Nat} : Tame brackets parens ('\'' :: [' '] ++ ['\'']) :=
    .quoted (by decide)
  have comma {parens : Nat} : Tame brackets parens ", ".toList := .of_plain (by decide)
  have value : Tame brackets 0 "@class".toList := .of_plain (by decide)
  have normalized := value.call "normalize-space".toList (by decide)
  have padded := (((blank.append comma).append normalized).append (comma.append blank)).call
    "concat".toList (by decide)
  have token : Tame brackets 2 (literal (' ' :: name ++ [' '])) := by
    refine tame_literal ?_
    rw [List.all_append, List.all_cons, all_isPlain named]
    decide
  have whole := ((padded.append comma).append token).call "contains".toList (by decide)
  unfold wordTest
  generalize literal (' ' :: name ++ [' ']) = token at whole ⊢
  simpa using whole

theorem tame_attribute {test : AttributeTest} (named : IsTagName test.name)
    (plain : test.condition = none) : Tame brackets parens test.toXPath := by
  have mark : Tame brackets parens ['@'] := .of_plain (by decide)
  rw [AttributeTest.toXPath, plain]
  exact mark.append (tame_identifier named.isIdentifier)

end Pieces

/-- The path of a compound without values. -/
theorem tame_compound {compound : Compound} (spelled : compound.Spelled)
    (plain : ∀ test ∈ compound.attributes, test.condition = none) : Tame 1 3 compound.toXPath := by
  have tag : Tame 1 3 (compound.tag.getD ['*']) := by
    cases same : compound.tag with
    | none => exact .of_plain (by decide)
    | some name => exact tame_identifier (spelled.tag name same).isIdentifier
  exact ((tag.append (.flatMap fun id member => (tame_id (spelled.ids id member)).bracketed)).append
    (.flatMap fun name member => (tame_class (spelled.classes name member)).bracketed)).append
      (.flatMap fun test member =>
        (tame_attribute (spelled.attributes test member) (plain test member)).bracketed)

/-- No selector without values is rejected, whatever its identifiers are. -/
theorem validate_compile {source : Text} {selector : Chain} (read : parse source = .ok selector)
    (plain : ∀ member ∈ selector, ∀ test ∈ member.2.attributes, test.condition = none) :
    ∃ text, compile source = .ok text ∧ ({} : Gate.Validator).validate text 0 = .ok () := by
  obtain ⟨first, others, rfl, spelled⟩ := parse_spelled read
  refine ⟨_, congrArg (Except.map toXPath) read, Tame.validate (.flatMap fun member listed => ?_) ?_⟩
  · have combinator : Tame 1 3 member.1.toXPath := by
      cases member.1 <;> exact .of_plain (by decide)
    exact combinator.append (tame_compound (spelled member listed) (plain member listed))
  · simp [toXPath, Combinator.toXPath]

/-- Words that the checks look for pass as a tag, an id, a class and the name of an attribute. -/
theorem validate_compile_words : ∃ text,
    compile "doc > or#true .and1 *[document\u00e9]".toList = .ok text ∧
      ({} : Gate.Validator).validate text 0 = .ok () := by
  let selector : Chain := [(.descendant, { tag := some "doc".toList }),
    (.child, { tag := some "or".toList, ids := ["true".toList] }),
    (.descendant, { classes := ["and1".toList] }),
    (.descendant, { attributes := [⟨"document\u00e9".toList, none⟩] })]
  have read : parse "doc > or#true .and1 *[document\u00e9]".toList = .ok selector := by
    decide +kernel
  exact validate_compile read (by decide)

end XmlSelect.Selector
