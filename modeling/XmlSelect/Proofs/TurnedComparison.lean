import XmlSelect.Markup.Parse
import XmlSelect.Proofs.PathEvaluation

/-! Comparisons say the same when their operands are exchanged and their operator is turned around,
whatever types the operands have: a node-set is compared by its nodes on either side. -/
namespace XmlSelect.XPath

namespace Operator

/-- Whether an operator compares its operands, by equality or by the order of numbers. -/
def isComparison : Operator → Bool
  | equal | notEqual | less | lessEq | greater | greaterEq => true
  | or | and | add | sub | mul | div | mod => false

theorem isComparison_flipped (operator : Operator) :
    operator.flipped.isComparison = operator.isComparison := by
  cases operator <;> rfl

end Operator

namespace Value

variable {operator : Operator}

theorem equals_comm (left right : Value) : left.equals right = right.equals left := by
  cases left <;> cases right <;> simp only [equals] <;>
    first | exact Double.equal_comm _ _ | exact Bool.beq_comm

/-- Values that are no node-sets. -/
theorem compareAtoms_flipped (compares : operator.isComparison = true) (left right : Value) :
    compareAtoms operator.flipped right left = compareAtoms operator left right := by
  cases operator with
  | equal => exact equals_comm right left
  | notEqual => exact congrArg not (equals_comm right left)
  | less | lessEq | greater | greaterEq => rfl
  | or | and | add | sub | mul | div | mod => cases compares

/-- Some node on one side and some node on the other are found in either order. -/
private theorem any_any_comm {α β : Type} (left : List α) (right : List β)
    (holds : α → β → Bool) : (left.any fun one => right.any (holds one)) =
      right.any fun other => left.any (holds · other) := by
  rw [Bool.eq_iff_iff]
  simp only [List.any_eq_true]
  constructor
  · rintro ⟨one, listed, other, listed', related⟩
    exact ⟨other, listed', one, listed, related⟩
  · rintro ⟨other, listed', one, listed, related⟩
    exact ⟨one, listed, other, listed', related⟩

section NodeSets

variable {document : Document} {nodes : List Nat} {other : Value}

theorem nodeSet_compare (atom : other.type ≠ .nodeSet) :
    (nodeSet nodes).compare document operator other =
      compareNodes document operator nodes other := by
  cases other with
  | boolean | number | string => rfl
  | nodeSet => exact absurd rfl atom

theorem compare_nodeSet (atom : other.type ≠ .nodeSet) :
    other.compare document operator (nodeSet nodes) =
      compareNodes document operator.flipped nodes other := by
  cases other with
  | boolean | number | string => rfl
  | nodeSet => exact absurd rfl atom

end NodeSets

/-- Values of any types, node-sets among them. -/
theorem compare_flipped (document : Document) (compares : operator.isComparison = true)
    (left right : Value) :
    right.compare document operator.flipped left = left.compare document operator right := by
  have atoms := compareAtoms_flipped compares
  cases left with
  | nodeSet nodes =>
    cases right with
    | nodeSet others =>
      rw [compare, compare, any_any_comm]
      simp only [atoms]
    | boolean | number | string =>
      rw [compare_nodeSet (by nofun), nodeSet_compare (by nofun), Operator.flipped_flipped]
  | boolean | number | string =>
    cases right with
    | nodeSet others => rw [compare_nodeSet (by nofun), nodeSet_compare (by nofun)]
    | boolean | number | string => exact atoms _ _

end Value

section Expressions

variable {context : Context} {operator : Operator} {left right : Expr} {first second : Value}

/-- A comparison is made whenever both operands have a value; neither of them is passed over. -/
theorem eval_comparison (compares : operator.isComparison = true)
    (evalLeft : left.eval context = .ok first) (evalRight : right.eval context = .ok second) :
    (Expr.binary operator left right).eval context =
      .ok (.boolean (first.compare context.document operator second)) := by
  rw [Expr.eval, evalLeft, evalRight]
  cases operator with
  | equal | notEqual | less | lessEq | greater | greaterEq => rfl
  | or | and | add | sub | mul | div | mod => cases compares

/-- Two operands that have values compare as they do when they are exchanged and the operator is
turned around. -/
theorem eval_comparison_flipped (compares : operator.isComparison = true)
    (evalLeft : left.eval context = .ok first) (evalRight : right.eval context = .ok second) :
    ∃ result, (Expr.binary operator left right).eval context = .ok (.boolean result) ∧
      (Expr.binary operator.flipped right left).eval context = .ok (.boolean result) := by
  have compares' := (operator.isComparison_flipped).trans compares
  refine ⟨_, eval_comparison compares evalLeft evalRight, ?_⟩
  rw [eval_comparison compares' evalRight evalLeft, Value.compare_flipped _ compares]

/-- A number in front of the numbers of two nodes, only one of which is greater. -/
theorem eval_comparison_flipped_nodes : ∃ reading result,
    Markup.parseText {} "<r><p>10</p><p>15</p></r>".toList = .ok reading ∧
      (Expr.path [.mk .child (.name ['p']) []]).eval (.ofNode reading.document 2) =
        .ok (.nodeSet [3, 5]) ∧
      (Expr.binary .less (.number (.ofNat 12)) (.path [.mk .child (.name ['p']) []])).eval
        (.ofNode reading.document 2) = .ok (.boolean result) ∧
      (Expr.binary .greater (.path [.mk .child (.name ['p']) []]) (.number (.ofNat 12))).eval
        (.ofNode reading.document 2) = .ok (.boolean result) := by
  have selected : (Markup.parseText {} "<r><p>10</p><p>15</p></r>".toList).toOption.map
      (fun reading => Axis.child.select reading.document (.name ['p']) 2) = some [3, 5] := by
    decide +kernel
  cases read : Markup.parseText {} "<r><p>10</p><p>15</p></r>".toList with
  | error _ => rw [read] at selected; cases selected
  | ok reading =>
    rw [read] at selected
    have chosen : Axis.child.select reading.document (.name ['p']) 2 = [3, 5] :=
      Option.some.inj selected
    have number : (Expr.number (.ofNat 12)).eval (.ofNode reading.document 2) =
        .ok (.number (.ofNat 12)) := by rw [Expr.eval]
    have step (node : Nat) (_ : node ∈ [2]) :
        (Step.mk .child (.name ['p']) []).eval reading.document node =
          .ok (Axis.child.select reading.document (.name ['p']) node) := by
      rw [Step.eval_eq .nil]
      simp
    have nodes : (Expr.path [.mk .child (.name ['p']) []]).eval (.ofNode reading.document 2) =
        .ok (.nodeSet [3, 5]) := by
      rw [Expr.eval, Context.ofNode, evalSteps_cons step, evalSteps, List.flatMap_singleton, chosen,
        documentOrder_eq_self (by decide)]
      rfl
    obtain ⟨result, less, greater⟩ :=
      eval_comparison_flipped (rfl : Operator.isComparison .less = true) number nodes
    exact ⟨reading, result, rfl, nodes, less, greater⟩

end Expressions

end XmlSelect.XPath
