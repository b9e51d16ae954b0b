import XmlSelect.Proofs.WrittenExpression
import XmlSelect.Selector.Compile

/-! The syntax trees of compiled selectors: what the emitted path is read back as, whatever quotes,
blanks or brackets the values in it hold. -/
namespace XmlSelect.Selector

open XPath (Expr Step Written WrittenStep WrittenSteps)

section Trees

/-- The expression of a string: a literal, or a call that puts pieces together. -/
def literalExpr (value : Text) : Expr :=
  if !value.contains '\'' || !value.contains '"' then .literal value
  else .call "concat".toList
    (((value.splitOn '\'').map Expr.literal).intersperse (.literal ['\'']))

/-- The attribute of a name on the context node. -/
def attributePath (name : Text) : Expr := .path [.mk .attributes (.name name) []]

/-- The test that a token is one of the words of an attribute. -/
def wordExpr (name token : Text) : Expr :=
  .call "contains".toList
    [.call "concat".toList
      [.literal [' '], .call "normalize-space".toList [attributePath name], .literal [' ']],
      literalExpr (' ' :: token ++ [' '])]

def comparisonExpr (name : Text) (comparison : Comparison) (operand : Text) : Expr :=
  let value := attributePath name
  let startsWith (start : Text) := Expr.call "starts-with".toList [value, literalExpr start]
  match comparison with
  | .equals => .binary .equal value (literalExpr operand)
  | .includesWord => wordExpr name operand
  | .startsWith => startsWith operand
  | .endsWith =>
    .binary .equal
      (.call "substring".toList
        [value, .binary .sub (.call "string-length".toList [value])
          (.number (Double.ofDigits false (Text.ofNat (operand.length - 1)) []))])
      (literalExpr operand)
  | .contains => .call "contains".toList [value, literalExpr operand]
  | .dashMatch =>
    .binary .or (.binary .equal value (literalExpr operand)) (startsWith (operand ++ ['-']))

def AttributeTest.expr (test : AttributeTest) : Expr :=
  match test.condition with
  | none => attributePath test.name
  | some (comparison, operand) =>
    if neverMatches comparison operand then .call "false".toList []
    else comparisonExpr test.name comparison operand

/-- The predicates of a compound. -/
def Compound.conditions (compound : Compound) : List Expr :=
  compound.ids.map (fun id => .binary .equal (attributePath "id".toList) (literalExpr id)) ++
    compound.classes.map (wordExpr "class".toList) ++ compound.attributes.map AttributeTest.expr

def Compound.step (compound : Compound) : Step :=
  .mk .child (compound.tag.elim .wildcard .name) compound.conditions

/-- The steps of a compound behind its combinator. -/
def steps : Combinator × Compound → List Step
  | (.descendant, compound) => [.anyDepth, compound.step]
  | (.child, compound) => [compound.step]

/-- The path of a selector. -/
def Chain.expr (selector : Chain) : Expr := .rootPath (selector.flatMap steps)

end Trees

/-- Whether the tag and the names of attributes are names in an expression, too. -/
def Compound.isLexical (compound : Compound) : Bool :=
  compound.tag.all XPath.isName && compound.attributes.all (XPath.isName ·.name)

/-- Whether no value at all meets the test. -/
def AttributeTest.isNever (test : AttributeTest) : Bool :=
  test.condition.any fun (comparison, operand) => neverMatches comparison operand

/-- Whether the name of an attribute is a name in an expression, if it is written at all. -/
def AttributeTest.spellsName (test : AttributeTest) : Bool :=
  test.isNever || XPath.isName test.name

/-- Whether all the names that are written for a compound are names in an expression. -/
def Compound.spellsNames (compound : Compound) : Bool :=
  compound.tag.all XPath.isName && compound.attributes.all AttributeTest.spellsName

theorem spellsNames_of_isLexical {compound : Compound} (lexical : compound.isLexical = true) :
    compound.spellsNames = true := by
  rw [Compound.isLexical, Bool.and_eq_true, List.all_eq_true] at lexical
  rw [Compound.spellsNames, Bool.and_eq_true, List.all_eq_true]
  refine ⟨lexical.1, fun test member => ?_⟩
  rw [AttributeTest.spellsName, lexical.2 test member, Bool.or_true]

/-- What is made of each item in two ways stays related item by item. -/
theorem forall₂_map {α β γ : Type} {related : β → γ → Prop} {items : List α} {left : α → β}
    {right : α → γ} (each : ∀ item ∈ items, related (left item) (right item)) :
    List.Forall₂ related (items.map left) (items.map right) := by
  rw [List.forall₂_map_left_iff, List.forall₂_map_right_iff, List.forall₂_same]
  exact each

section Literals

private theorem intercalate_intersperse (separator between : Text) (texts : List Text) :
    List.intercalate separator (texts.intersperse between) =
      List.intercalate (separator ++ between ++ separator) texts := by
  induction texts with
  | nil => rfl
  | cons first rest ih =>
    cases rest with
    | nil => rfl
    | cons second rest =>
      obtain ⟨tail, start⟩ : ∃ tail, (second :: rest).intersperse between = second :: tail := by
        cases rest <;> exact ⟨_, rfl⟩
      rw [List.intersperse_cons_cons, start, List.intercalate_cons_cons, List.intercalate_cons_cons,
        List.intercalate_cons_cons, ← ih, start]
      simp

private theorem forall₂_intersperse {α β : Type} {related : α → β → Prop} {a : α} {b : β}
    {left : List α} {right : List β} (same : related a b) (all : List.Forall₂ related left right) :
    List.Forall₂ related (left.intersperse a) (right.intersperse b) := by
  induction all with
  | nil => exact .nil
  | cons first rest ih =>
    cases rest with
    | nil => exact .cons first .nil
    | cons second rest => exact .cons first (.cons same ih)

private theorem forall₂_pieces {pieces : List Text} (absent : ∀ piece ∈ pieces, '\'' ∉ piece) :
    List.Forall₂ (Written XPath.ladder 0) (pieces.map fun piece => '\'' :: piece ++ ['\''])
      (pieces.map Expr.literal) :=
  forall₂_map fun piece member =>
    (Written.literal (.inl rfl) (absent piece member)).climb XPath.ladder

/-- A value is read back as itself, or as pieces of it without apostrophes and the apostrophes
between them. -/
theorem written_literal (value : Text) : Written [] 1 (literal value) (literalExpr value) := by
  rw [literal, literalExpr]
  cases apostrophe : value.contains '\'' with
  | false =>
    have absent : '\'' ∉ value := by simpa using apostrophe
    exact (Written.literal (.inl rfl) absent).weaken (Nat.zero_le 1)
  | true =>
    cases double : value.contains '"' with
    | false =>
      have absent : '"' ∉ value := by simpa using double
      exact (Written.literal (.inr rfl) absent).weaken (Nat.zero_le 1)
    | true =>
      have absent : ∀ piece ∈ value.splitOn '\'', '\'' ∉ piece := fun piece member inside =>
        absurd (Text.not_gap_of_mem_splitOnP member inside) (by decide)
      have quoted : Written [] 0 ('"' :: ['\''] ++ ['"']) (.literal ['\'']) :=
        .literal (.inr rfl) (by decide)
      have pieces := forall₂_intersperse (quoted.climb XPath.ladder) (forall₂_pieces absent)
      have written := Written.call "concat".toList (by decide) (by decide) ?_ pieces
      · rw [intercalate_intersperse] at written
        exact written
      · obtain ⟨first, rest, split⟩ :=
          List.exists_cons_of_ne_nil (List.splitOnP_ne_nil (· == '\'') value)
        rw [List.splitOn, split]
        cases rest <;> exact List.cons_ne_nil _ _

end Literals

section Tests

variable {name : Text} {depth : Nat}

private theorem written_call₁ (function : Text) {argument : Text} {value : Expr}
    (lexical : XPath.isName function = true)
    (noType : XPath.NodeType.ofName? function = none)
    (written : Written XPath.ladder depth argument value) :
    Written [] (depth + 1) (function ++ '(' :: argument ++ [')']) (.call function [value]) := by
  have called := Written.call function lexical noType (List.cons_ne_nil argument [])
    (.cons written .nil)
  rw [List.intercalate_singleton] at called
  exact called

private theorem written_call₂ (function : Text) {first second : Text} {left right : Expr}
    (lexical : XPath.isName function = true)
    (noType : XPath.NodeType.ofName? function = none)
    (writtenLeft : Written XPath.ladder depth first left)
    (writtenRight : Written XPath.ladder depth second right) :
    Written [] (depth + 1) (function ++ '(' :: first ++ ", ".toList ++ second ++ [')'])
      (.call function [left, right]) := by
  have called := Written.call function lexical noType (List.cons_ne_nil first [second])
    (.cons writtenLeft (.cons writtenRight .nil))
  rw [List.intercalate_cons_cons, List.intercalate_singleton] at called
  simpa using called

private theorem written_equal {left between right : Text} {first second : Expr}
    (spelled : between = "=".toList ∨ between = " = ".toList)
    (writtenLeft : Written [] depth left first) (writtenRight : Written [] depth right second) :
    Written (XPath.ladder.drop 2) (depth + 1) (left ++ between ++ right)
      (.binary .equal first second) := by
  have scans (rest : Text) (tokens : List XPath.Token) (scans : XPath.Scans false rest tokens) :
      XPath.Scans true ('=' :: rest) (.equal :: tokens) := .cons (by decide) rfl scans
  have spaced (rest : Text) (tokens : List XPath.Token) (behind : XPath.Scans false rest tokens) :
      XPath.Scans true (between ++ rest) (.equal :: tokens) := by
    rcases spelled with rfl | rfl
    · exact scans rest tokens behind
    · exact .blank rfl (scans _ _ (.blank rfl behind))
  refine Written.join rfl spaced ?_ (fun _ => rfl) (writtenLeft.climb (XPath.ladder.drop 3))
    (writtenRight.climb (XPath.ladder.drop 3))
  rcases spelled with rfl | rfl <;> exact fun _ => rfl

private theorem written_or {left right : Text} {first second : Expr}
    (writtenLeft : Written (XPath.ladder.drop 1) depth left first)
    (writtenRight : Written (XPath.ladder.drop 1) depth right second) :
    Written XPath.ladder (depth + 1) (left ++ " or ".toList ++ right)
      (.binary .or first second) := by
  have scans (rest : Text) (tokens : List XPath.Token) (scans : XPath.Scans false rest tokens) :
      XPath.Scans true (" or ".toList ++ rest) (.or :: tokens) :=
    .word "or".toList (by decide) rfl scans
  exact Written.join rfl scans (fun _ => rfl) (fun _ => rfl) writtenLeft writtenRight

private theorem written_sub {left right : Text} {first second : Expr}
    (writtenLeft : Written (XPath.ladder.drop 5) depth left first)
    (writtenRight : Written (XPath.ladder.drop 5) depth right second) :
    Written (XPath.ladder.drop 4) (depth + 1) (left ++ " - ".toList ++ right)
      (.binary .sub first second) := by
  have scans (rest : Text) (tokens : List XPath.Token) (scans : XPath.Scans false rest tokens) :
      XPath.Scans true (" - ".toList ++ rest) (.minus :: tokens) :=
    .blank rfl (.cons (by decide) rfl (.blank rfl scans))
  exact Written.join rfl scans (fun _ => rfl) (fun _ => rfl) writtenLeft writtenRight

private theorem written_attribute (lexical : XPath.isName name = true) (depth : Nat) :
    Written [] depth ('@' :: name) (attributePath name) :=
  (Written.attributePath lexical).weaken (Nat.zero_le depth)

theorem written_wordTest (lexical : XPath.isName name = true) (token : Text) :
    Written [] 3 (wordTest name token) (wordExpr name token) := by
  have blank : Written [] 1 ('\'' :: [' '] ++ ['\'']) (.literal [' ']) :=
    (Written.literal (.inl rfl) (by decide)).weaken (Nat.zero_le 1)
  have normalized := written_call₁ "normalize-space".toList (by decide) (by decide)
    ((written_attribute lexical 0).climb XPath.ladder)
  have padded := Written.call "concat".toList (by decide) (by decide) (List.cons_ne_nil _ _)
    (.cons (blank.climb XPath.ladder) (.cons (normalized.climb XPath.ladder)
      (.cons (blank.climb XPath.ladder) .nil)))
  have literal := (written_literal (' ' :: token ++ [' '])).weaken (Nat.le_add_right 1 1)
  refine (written_call₂ "contains".toList (by decide) (by decide) (padded.climb XPath.ladder)
    (literal.climb XPath.ladder)).of_eq ?_
  unfold wordTest
  simp [List.intercalate_cons_cons]

/-- The test of a comparison is read back on any level that can be asked for. -/
theorem written_comparisonTest (lexical : XPath.isName name = true) (comparison : Comparison)
    (operand : Text) :
    Written XPath.ladder 4 (comparisonTest name comparison operand)
      (comparisonExpr name comparison operand) := by
  have value (depth : Nat) := written_attribute lexical depth
  cases comparison with
  | equals =>
    refine Written.climb (XPath.ladder.take 2) ?_
    have equal := written_equal (.inl rfl) (value 1) (written_literal operand)
    refine (equal.weaken (Nat.le_add_right 2 2)).of_eq ?_
    unfold comparisonTest
    simp
  | includesWord =>
    have written := written_wordTest lexical operand
    exact (written.weaken (Nat.le_add_right 3 1)).climb XPath.ladder
  | startsWith =>
    have called := written_call₂ "starts-with".toList (by decide) (by decide)
      ((value 1).climb XPath.ladder) ((written_literal operand).climb XPath.ladder)
    refine ((called.weaken (Nat.le_add_right 2 2)).climb XPath.ladder).of_eq ?_
    unfold comparisonTest
    simp
  | endsWith =>
    have length := written_call₁ "string-length".toList (by decide) (by decide)
      ((value 0).climb XPath.ladder)
    have start := written_sub (length.climb (XPath.ladder.drop 5))
      ((Written.digits (operand.length - 1)).weaken (Nat.zero_le 1) |>.climb (XPath.ladder.drop 5))
    have ending := written_call₂ "substring".toList (by decide) (by decide)
      ((value 2).climb XPath.ladder) (start.climb (XPath.ladder.take 4))
    have equal := written_equal (.inr rfl) ending
      ((written_literal operand).weaken (Nat.le_add_right 1 2))
    refine (equal.climb (XPath.ladder.take 2)).of_eq ?_
    unfold comparisonTest
    simp
  | contains =>
    have called := written_call₂ "contains".toList (by decide) (by decide)
      ((value 1).climb XPath.ladder) ((written_literal operand).climb XPath.ladder)
    refine ((called.weaken (Nat.le_add_right 2 2)).climb XPath.ladder).of_eq ?_
    unfold comparisonTest
    simp
  | dashMatch =>
    have equal := written_equal (.inl rfl) (value 1) (written_literal operand)
    have called := written_call₂ "starts-with".toList (by decide) (by decide)
      ((value 1).climb XPath.ladder) ((written_literal (operand ++ ['-'])).climb XPath.ladder)
    have either := written_or (equal.climb ((XPath.ladder.drop 1).take 1))
      (called.climb (XPath.ladder.drop 1))
    refine (either.weaken (Nat.le_add_right 3 1)).of_eq ?_
    unfold comparisonTest
    simp

theorem written_attributeTest {test : AttributeTest} (spelled : test.spellsName = true) :
    Written XPath.ladder 4 test.toXPath test.expr := by
  obtain ⟨name, condition⟩ := test
  rw [AttributeTest.toXPath, AttributeTest.expr]
  cases condition with
  | none => exact (written_attribute spelled 4).climb XPath.ladder
  | some condition =>
    obtain ⟨comparison, operand⟩ := condition
    cases never : neverMatches comparison operand with
    | true =>
      have called := Written.callNothing "false".toList (by decide) (by decide)
      simp only [never, if_true]
      exact (called.weaken (Nat.zero_le 4)).climb XPath.ladder
    | false =>
      have lexical : XPath.isName name = true := by
        simpa [AttributeTest.spellsName, AttributeTest.isNever, never] using spelled
      simp only [never]
      exact written_comparisonTest lexical comparison operand

end Tests

section Paths

/-- The predicates of a compound as they are written. -/
def Compound.tests (compound : Compound) : List Text :=
  compound.ids.map (fun id => "@id=".toList ++ literal id) ++
    compound.classes.map (wordTest "class".toList) ++ compound.attributes.map AttributeTest.toXPath

theorem Compound.toXPath_eq (compound : Compound) :
    compound.toXPath = compound.tag.getD ['*'] ++ XPath.bracketedAll compound.tests := by
  simp [Compound.toXPath, tests, XPath.bracketedAll, bracketed, List.flatMap_map]

theorem written_tests {compound : Compound}
    (spelled : compound.attributes.all AttributeTest.spellsName = true) :
    List.Forall₂ (Written XPath.ladder 4) compound.tests compound.conditions := by
  have id (value : Text) : Written XPath.ladder 4 ("@id=".toList ++ literal value)
      (.binary .equal (attributePath "id".toList) (literalExpr value)) := by
    have isName : XPath.isName "id".toList = true := by decide
    have equal := written_equal (.inl rfl) (written_attribute isName 1) (written_literal value)
    exact (equal.weaken (Nat.le_add_right 2 2)).climb (XPath.ladder.take 2)
  have word (token : Text) : Written XPath.ladder 4 (wordTest "class".toList token)
      (wordExpr "class".toList token) := by
    have isName : XPath.isName "class".toList = true := by decide
    exact ((written_wordTest isName token).weaken (Nat.le_add_right 3 1)).climb XPath.ladder
  refine List.rel_append (List.rel_append (forall₂_map fun value _ => id value)
    (forall₂_map fun token _ => word token)) (forall₂_map fun test member => ?_)
  exact written_attributeTest (List.all_eq_true.mp spelled test member)

theorem written_compound {compound : Compound} (spelled : compound.spellsNames = true) :
    WrittenStep 5 compound.toXPath compound.step := by
  rw [Compound.spellsNames, Bool.and_eq_true] at spelled
  rw [Compound.toXPath_eq, Compound.step]
  cases tag : compound.tag with
  | none => exact .star (written_tests spelled.2)
  | some name =>
    rw [tag] at spelled
    exact .name spelled.1 (written_tests spelled.2)

theorem written_chain {selector : Chain}
    (spelled : ∀ member ∈ selector, member.2.spellsNames = true) :
    WrittenSteps 5 (toXPath selector) (selector.flatMap steps) := by
  induction selector with
  | nil => exact .nil 5
  | cons first rest ih =>
    obtain ⟨combinator, compound⟩ := first
    rw [List.forall_mem_cons] at spelled
    have step := written_compound spelled.1
    cases combinator with
    | descendant => exact WrittenSteps.doubleSlash step (ih spelled.2)
    | child => exact WrittenSteps.slash step (ih spelled.2)

/-- The emitted path is read back as the path of the selector. -/
theorem parse_toXPath_of_spellsNames {first : Compound} {rest : Chain}
    (spelled : ∀ member ∈ (Combinator.descendant, first) :: rest, member.2.spellsNames = true) :
    XPath.parse (toXPath ((.descendant, first) :: rest)) =
      .ok (Chain.expr ((.descendant, first) :: rest)) := by
  rw [List.forall_mem_cons] at spelled
  have written := Written.rootPath (written_compound spelled.1) (written_chain spelled.2)
  exact (written.climb XPath.ladder).parse (by decide)

theorem parse_toXPath {first : Compound} {rest : Chain} (lexical : first.isLexical = true)
    (others : ∀ member ∈ rest, member.2.isLexical = true) :
    XPath.parse (toXPath ((.descendant, first) :: rest)) =
      .ok (Chain.expr ((.descendant, first) :: rest)) :=
  parse_toXPath_of_spellsNames (List.forall_mem_cons.mpr ⟨spellsNames_of_isLexical lexical,
    fun member listed => spellsNames_of_isLexical (others member listed)⟩)

end Paths

end XmlSelect.Selector
