import XmlSelect.Proofs.CompiledNames
import XmlSelect.Proofs.ConditionMeaning
import XmlSelect.Proofs.ExactIntegers

/-! The compiled test of the end of a value. It cuts the value at a place that is computed in double
precision, by a subtraction and a rounding, and compares what is left with the operand. -/
namespace XmlSelect

namespace Double

/-- Whether a number has a minus sign. -/
def isNegative : Double → Bool
  | nan => false
  | infinity negative | finite negative _ => negative

theorem isNegative_ofRatio (negative : Bool) (numerator denominator : Nat) :
    (ofRatio negative numerator denominator).isNegative = negative := by
  rw [ofRatio]
  split <;> rfl

theorem isNegative_floor (number : Double) : number.floor.isNegative = number.isNegative := by
  cases number with
  | nan | infinity => rfl
  | finite negative units =>
    rw [floor]
    cases negative <;> simp only [Bool.false_eq_true, if_false, if_true] <;> split <;>
      simp only [isNegative]

/-- What has a minus sign is below all positive integers. -/
theorem lessEq_ofNat_of_isNegative {number : Double} (negative : number.isNegative = true) {n : Nat}
    (positive : 0 < n) (small : n < 2 ^ 53) : number.lessEq (ofNat n) = true := by
  have units : 0 < n * perOne := Nat.mul_pos positive perOne_pos
  rw [lessEq, ofNat_eq small, Bool.or_eq_true]
  refine .inl ?_
  cases number with
  | nan => cases negative
  | infinity sign => exact negative
  | finite sign amount =>
    obtain rfl : sign = true := negative
    simp only [less, signed, if_true, Bool.false_eq_true, if_false, decide_eq_true_eq]
    omega

theorem lessEq_ofNat_iff {least n : Nat} (small : n < 2 ^ 53) :
    (finite false (least * perOne)).lessEq (ofNat n) = true ↔ least ≤ n := by
  rw [lessEq, ofNat_eq small, less, equal, signed, signed, Bool.or_eq_true, decide_eq_true_eq,
    beq_iff_eq]
  simp only [Bool.false_eq_true, if_false]
  rw [← Int.le_iff_lt_or_eq, Int.ofNat_le]
  exact Nat.mul_le_mul_right_iff perOne_pos

end Double

namespace XPath

open Double (perOne afterHalf)

section Rounding

variable {n : Nat}

theorem round_ofUnits (small : n < 2 ^ 53) :
    round (.finite false (n * perOne)) = .finite false (afterHalf n * perOne) := by
  rw [round, Bool.false_and, Bool.false_and, if_neg Bool.false_ne_true]
  exact Double.floor_add_half small

/-- Below zero, rounding does not lose the sign. -/
theorem isNegative_round (positive : 0 < n) :
    (round (.finite true (n * perOne))).isNegative = true := by
  have units : perOne ≤ n * perOne := Nat.le_mul_of_pos_left perOne positive
  have half : perOne / 2 < n * perOne := by have := Double.perOne_pos; omega
  have different : (n * perOne == perOne / 2) = false := by simpa using half.ne'
  rw [round]
  split
  · rfl
  · rw [Double.isNegative_floor, Double.half, Double.add]
    simp only [Bool.true_beq, Bool.false_eq_true, if_false, different, half, if_true]
    exact Double.isNegative_ofRatio ..

end Rounding

section Cutting

variable {text : Text} {start : Double}

private theorem map_fst_filter_zipIdx (text : Text) (least first : Nat) :
    ((text.zipIdx first).filter fun item => least ≤ item.2).map Prod.fst =
      text.drop (least - first) := by
  induction text generalizing first with
  | nil => simp
  | cons c rest ih =>
    rw [List.zipIdx_cons, List.filter_cons]
    by_cases reached : least ≤ first
    · have kept := ih (first + 1)
      rw [Nat.sub_eq_zero_of_le (Nat.le_succ_of_le reached)] at kept
      simp [reached, Nat.sub_eq_zero_of_le reached, kept]
    · have further : least - first = least - (first + 1) + 1 := by omega
      simp [reached, ih, further]

/-- The characters from a position on are what is left when those in front of it are dropped. -/
theorem charsBetween_eq_drop (least : Nat) (short : text.length < 2 ^ 53)
    (reached : ∀ n, 0 < n → n < 2 ^ 53 → start.lessEq (.ofNat n) = decide (least ≤ n)) :
    charsBetween start (.infinity false) text = text.drop (least - 1) := by
  rw [charsBetween, ← map_fst_filter_zipIdx]
  congr 1
  refine List.filter_congr fun item listed => ?_
  have positive := List.le_snd_of_mem_zipIdx listed
  have small : item.2 < 2 ^ 53 := by have := List.snd_lt_add_of_mem_zipIdx listed; omega
  have within : (Double.ofNat item.2).less (.infinity false) = true := by
    rw [Double.ofNat_eq small]
    rfl
  dsimp only
  rw [reached item.2 positive small, within, Bool.and_true]

/-- Rounding finds the place of the cut, but for the numbers that a half added to makes even. -/
theorem charsBetween_round_sub {before : Nat} (short : text.length < 2 ^ 53)
    (le : before ≤ text.length) :
    charsBetween (round (Double.sub (.ofNat text.length) (.ofNat before))) (.infinity false) text =
      text.drop (afterHalf (text.length - before) - 1) := by
  rw [Double.sub_ofNat_of_le short (by omega) le, round_ofUnits (by omega)]
  refine charsBetween_eq_drop _ short fun n _ small => ?_
  rw [Bool.eq_iff_iff, Double.lessEq_ofNat_iff small, decide_eq_true_eq]

/-- A place in front of the text cuts nothing off. -/
theorem charsBetween_round_sub_of_lt {before : Nat} (lt : text.length < before)
    (small : before < 2 ^ 53) :
    charsBetween (round (Double.sub (.ofNat text.length) (.ofNat before))) (.infinity false) text =
      text := by
  rw [Double.sub_ofNat_of_lt (by omega) small lt]
  refine charsBetween_eq_drop 0 (by omega) fun n positive small => ?_
  rw [Double.lessEq_ofNat_of_isNegative (isNegative_round (by omega)) positive small]
  exact (decide_eq_true (Nat.zero_le n)).symm

end Cutting

end XPath

namespace Selector

open XPath (Expr Context Value charsBetween)

/-- What is left of a value when all but as many characters as an operand has are cut off. -/
def lastChars (operand value : Text) : Text :=
  charsBetween (XPath.round (Double.sub (.ofNat value.length) (.ofNat (operand.length - 1))))
    (.infinity false) value

/-- What is left is the operand if the value ends with it, unless too many characters stand in front
of it and their number is even. -/
theorem lastChars_eq_iff {operand value : Text} (nonempty : operand ≠ [])
    (short : operand.length < 2 ^ 53) (shortValue : value.length < 2 ^ 53) :
    lastChars operand value = operand ↔
      ∃ front, value = front ++ operand ∧
        (front.length + 1 < 2 ^ 52 ∨ front.length % 2 = 1) := by
  have positive : 0 < operand.length := List.length_pos_iff.mpr nonempty
  rw [lastChars]
  rcases Nat.lt_or_ge value.length (operand.length - 1) with lt | le
  · rw [XPath.charsBetween_round_sub_of_lt lt (by omega)]
    constructor
    · rintro rfl
      omega
    · rintro ⟨front, rfl, -⟩
      rw [List.length_append] at lt
      omega
  · rw [XPath.charsBetween_round_sub shortValue le, Double.afterHalf]
    constructor
    · intro cut
      have length := congrArg List.length cut
      rw [List.length_drop] at length
      refine ⟨value.take _, (cut ▸ List.take_append_drop _ value).symm, ?_⟩
      rw [List.length_take, Nat.min_eq_left (by omega)]
      split at length <;> split <;> omega
    · rintro ⟨front, rfl, place⟩
      rw [List.length_append] at le ⊢
      refine Eq.trans (congrArg (List.drop · _) ?_) List.drop_left
      split <;> omega

section Evaluation

variable {document : Document} {node : Nat}

/-- The value of the test of an ending, in terms of the attribute. -/
theorem eval_suffixTest (distinct : DistinctNames (document.attributes node))
    (name operand : Text) (position size : Nat) :
    (comparisonExpr name .endsWith operand).eval ⟨document, node, position, size⟩ =
      .ok (.boolean (lastChars operand ((document.attribute? node name).getD []) == operand)) := by
  obtain ⟨nodes, evaluated, stands⟩ := eval_attributePath distinct name position size
  let context : Context := ⟨document, node, position, size⟩
  let value := (document.attribute? node name).getD []
  let length := Expr.call "string-length".toList [attributePath name]
  let less := Expr.number (Double.ofDigits false (Text.ofNat (operand.length - 1)) [])
  have textual : (Value.nodeSet nodes).textIn document = value := stands.textIn
  have counted : length.eval context = .ok (.number (.ofNat value.length)) := by
    rw [← textual]
    exact eval_call .stringLength rfl (evalAll_singleton evaluated)
  have known : less.eval context = .ok (.number (.ofNat (operand.length - 1))) := by
    rw [Expr.eval, Double.ofDigits_ofNat]
  have start : (Expr.binary .sub length less).eval context =
      .ok (.number (Double.sub (.ofNat value.length) (.ofNat (operand.length - 1)))) := by
    rw [Expr.eval, counted, known]
    rfl
  have cut : (Expr.call "substring".toList [attributePath name, .binary .sub length less]).eval
      context = .ok (.string (lastChars operand value)) := by
    refine (eval_call .substring rfl (evalAll_cons evaluated (evalAll_singleton start))).trans ?_
    rw [← textual]
    rfl
  rw [comparisonExpr, Expr.eval, cut, eval_literalExpr]
  rfl

end Evaluation

section Readings

variable {options : Markup.Options} {source : Text} {reading : Markup.Reading}

/-- The test of an ending is an expression exactly if the name of the attribute is a name there, and
then it is true of the nodes that have the attribute with a value that ends with the operand. Only
if 2^52 characters stand in front of the ending, or nearly as many, their number has to be odd. -/
theorem suffixTest_iff (parsed : Markup.parseText options source = .ok reading)
    {name operand : Text} (named : IsTagName name) (nonempty : operand ≠ [])
    (short : operand.length < 2 ^ 53) {node : Nat}
    (shortValue : ∀ value ∈ reading.document.attribute? node name, value.length < 2 ^ 53) :
    let test : AttributeTest := ⟨name, some (.endsWith, operand)⟩
    ((∃ predicate, XPath.parse test.toXPath = .ok predicate) ↔ XPath.isName name = true) ∧
      ∀ predicate, XPath.parse test.toXPath = .ok predicate → ∀ position size, ∃ result,
        predicate.eval ⟨reading.document, node, position, size⟩ = .ok (.boolean result) ∧
          (result = true ↔ ∃ front,
            reading.document.attribute? node name = some (front ++ operand) ∧
              (front.length + 1 < 2 ^ 52 ∨ front.length % 2 = 1)) := by
  intro test
  have meets : neverMatches .endsWith operand = false := by simpa [neverMatches] using nonempty
  have isExpr : (∃ predicate, XPath.parse test.toXPath = .ok predicate) ↔
      XPath.isName name = true := parse_attributeTest_iff named meets
  have distinct : DistinctNames (reading.document.attributes node) :=
    Document.distinct_attributes (Markup.parseText_distinct parsed) node
  refine ⟨isExpr, fun predicate read position size => ?_⟩
  have spelled : test.spellsName = true := by
    rw [AttributeTest.spellsName, isExpr.mp ⟨predicate, read⟩, Bool.or_true]
  have known := (written_attributeTest spelled).parse (by decide)
  obtain rfl := Except.ok.inj (known.symm.trans read)
  have whole : test.expr = comparisonExpr name .endsWith operand := by
    simp [test, AttributeTest.expr, meets]
  rw [whole]
  refine ⟨_, eval_suffixTest distinct name operand position size, ?_⟩
  rw [beq_iff_eq]
  cases found : reading.document.attribute? node name with
  | none =>
    have nothing := lastChars_eq_iff nonempty short (by decide : ([] : Text).length < 2 ^ 53)
    simpa [nonempty] using nothing
  | some value =>
    have cut := lastChars_eq_iff nonempty short (shortValue value found)
    simpa using cut

/-- An ending with an apostrophe and letters of two bytes, behind one further character. -/
theorem suffixTest_iff_apostrophe : ∃ reading predicate,
    Markup.parseText {} "<r a=\"l'\u00e9t\u00e9\"/>".toList = .ok reading ∧
      XPath.parse (AttributeTest.toXPath ⟨['a'], some (.endsWith, "'\u00e9t\u00e9".toList)⟩) =
        .ok predicate ∧
      predicate.eval ⟨reading.document, 2, 1, 1⟩ = .ok (.boolean true) := by
  have valued : (Markup.parseText {} "<r a=\"l'\u00e9t\u00e9\"/>".toList).toOption.map
      (fun reading => reading.document.attribute? 2 ['a']) =
        some (some "l'\u00e9t\u00e9".toList) := by decide +kernel
  cases parsed : Markup.parseText {} "<r a=\"l'\u00e9t\u00e9\"/>".toList with
  | error _ => rw [parsed] at valued; cases valued
  | ok reading =>
    rw [parsed] at valued
    have value : reading.document.attribute? 2 ['a'] = some "l'\u00e9t\u00e9".toList :=
      Option.some.inj valued
    have named : IsTagName ['a'] := ⟨'a', [], rfl, by decide, nofun⟩
    have short : ∀ value ∈ reading.document.attribute? 2 ['a'], value.length < 2 ^ 53 := by
      rw [value]
      rintro _ ⟨⟩
      decide
    have nonempty : "'\u00e9t\u00e9".toList ≠ [] := by decide
    obtain ⟨isExpr, test⟩ := suffixTest_iff parsed named nonempty (by decide) short
    obtain ⟨predicate, read⟩ := isExpr.mpr (by decide)
    obtain ⟨result, evaluated, holds⟩ := test predicate read 1 1
    obtain rfl : result = true := holds.mpr ⟨['l'], value, by decide⟩
    exact ⟨reading, predicate, rfl, read, evaluated⟩

/-- A combining mark in the name of an attribute makes the test a text that is no expression, and no
element meets it, whatever its value ends with. -/
theorem suffixTest_refused : ∃ reading,
    parse "[e\u0301$='x']".toList = .ok
      [(.descendant, { attributes := [⟨"e\u0301".toList, some (.endsWith, ['x'])⟩] })] ∧
      Markup.parseText {} "<r e\u0301='x'/>".toList = .ok reading ∧
      reading.document.isElement 2 = true ∧
      reading.document.attribute? 2 "e\u0301".toList = some ['x'] ∧
      ¬∃ predicate, XPath.parse (AttributeTest.toXPath
        ⟨"e\u0301".toList, some (.endsWith, ['x'])⟩) = .ok predicate := by
  have facts : (Markup.parseText {} "<r e\u0301='x'/>".toList).toOption.map (fun reading =>
      (reading.document.isElement 2, reading.document.attribute? 2 "e\u0301".toList)) =
        some (true, some ['x']) := by decide +kernel
  have refused : (XPath.parse (AttributeTest.toXPath
      ⟨"e\u0301".toList, some (.endsWith, ['x'])⟩)).toOption.isNone = true := by decide +kernel
  cases parsed : Markup.parseText {} "<r e\u0301='x'/>".toList with
  | error _ => rw [parsed] at facts; cases facts
  | ok reading =>
    rw [parsed] at facts
    obtain ⟨element, value⟩ := Prod.mk.inj (Option.some.inj facts)
    refine ⟨reading, by decide +kernel, rfl, element, value, ?_⟩
    rintro ⟨predicate, accepted⟩
    rw [accepted] at refused
    cases refused

end Readings

end Selector

end XmlSelect
