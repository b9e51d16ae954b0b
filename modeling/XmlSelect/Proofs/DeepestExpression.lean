import Mathlib.Order.Bounds.Basic
import XmlSelect.Proofs.ExpressionDepth
import XmlSelect.Proofs.WrittenExpression

/-! The bound on the depth is reached. In a deepest expression each level puts as many operators as
there is room above what the level below has made, and in the middle of all that a predicate holds
an expression of the same kind with one less room. -/
namespace XmlSelect.XPath

/-- An expression on top of some levels can be as deep as the room allows. -/
def Reaches (rungs : List Rung) (levels room : Nat) : Prop :=
  ∃ text expr, Written rungs room text expr ∧ expr.depth = deepest levels room

section Chains

variable {level : Level} {operator : Token} {make : Expr → Expr → Expr}

theorem depth_chain (member : .binary level ∈ ladder) (joins : level operator = some make)
    {operand : Expr} (flat : operand.depth = 0) (count : Nat) (first : Expr) :
    ((make · operand)^[count] first).depth = first.depth + count := by
  induction count generalizing first with
  | zero => rfl
  | succ count ih =>
    rw [Function.iterate_succ_apply, ih, depth_join member joins, flat, Nat.max_zero]
    omega

/-- A chain of a level that uses up the room, in front of it whatever reaches the bound below. -/
theorem Reaches.chain {rungs : List Rung} {levels room : Nat} (below : Reaches rungs levels room)
    (between : Text) (operator : Token) (joins : level operator = some make)
    (member : .binary level ∈ ladder)
    (scansBetween : ∀ rest tokens, Scans false rest tokens →
      Scans true (between ++ rest) (operator :: tokens))
    (endsBetween : ∀ rest, endsTest (between ++ rest) = true)
    (endsLeft : ∀ rest, ends rungs (operator :: rest) = true) :
    Reaches (.binary level :: rungs) (levels + 1) room := by
  obtain ⟨text, expr, written, deep⟩ := below
  have name : isName ['a'] = true := by decide
  have operand := (Written.attributePath name).climb rungs
  rw [List.append_nil] at operand
  refine ⟨_, _, .chain joins scansBetween endsBetween endsLeft room (Nat.le_refl room) written
    operand, ?_⟩
  rw [depth_chain member joins rfl, deep, deepest_succ]

/-- Signs are not needed. -/
theorem Reaches.unsigned {rungs : List Rung} {levels room : Nat}
    (below : Reaches rungs levels room) : Reaches (.sign :: rungs) levels room := by
  obtain ⟨text, expr, written, deep⟩ := below
  exact ⟨text, expr, written.up .sign, deep⟩

end Chains

/-- A predicate is one deeper than the expression in it. -/
theorem Reaches.predicate {room : Nat} (inner : Reaches ladder 7 room) :
    Reaches [] 0 (room + 1) := by
  obtain ⟨text, expr, written, deep⟩ := inner
  have name : isName ['a'] = true := by decide
  have step := WrittenStep.name name (.cons written .nil)
  refine ⟨_, _, .rootPath step (.nil _), ?_⟩
  simp [Expr.depth, stepsDepth, Step.depth, nestedDepth, Step.anyDepth, deep, deepest]

theorem reaches_ladder (room : Nat) : Reaches ladder 7 room := by
  induction room with
  | zero =>
    have name : isName ['a'] = true := by decide
    exact ⟨_, _, (Written.attributePath name).climb ladder, rfl⟩
  | succ room ih =>
    have unions : Reaches (ladder.drop 7) 1 (room + 1) :=
      ih.predicate.chain "|".toList .pipe rfl (by simp [ladder])
        (fun _ _ behind => .cons (by decide) rfl behind) (fun _ => rfl) fun _ => rfl
    have products : Reaches (ladder.drop 5) 2 (room + 1) :=
      unions.unsigned.chain "*".toList .multiply rfl (by simp [ladder])
        (fun _ _ behind => .cons (by decide) rfl behind) (fun _ => rfl) fun _ => rfl
    have sums : Reaches (ladder.drop 4) 3 (room + 1) :=
      products.chain "+".toList .plus rfl (by simp [ladder])
        (fun _ _ behind => .cons (by decide) rfl behind) (fun _ => rfl) fun _ => rfl
    have relations : Reaches (ladder.drop 3) 4 (room + 1) :=
      sums.chain ">=".toList .greaterEq rfl (by simp [ladder])
        (fun _ _ behind => .cons (by decide) rfl behind) (fun _ => rfl) fun _ => rfl
    have equalities : Reaches (ladder.drop 2) 5 (room + 1) :=
      relations.chain "=".toList .equal rfl (by simp [ladder])
        (fun _ _ behind => .cons (by decide) rfl behind) (fun _ => rfl) fun _ => rfl
    have conjunctions : Reaches (ladder.drop 1) 6 (room + 1) :=
      equalities.chain " and ".toList .and rfl (by simp [ladder])
        (fun _ _ behind => .word "and".toList (by decide) rfl behind) (fun _ => rfl) fun _ => rfl
    exact conjunctions.chain " or ".toList .or rfl (by simp [ladder])
      (fun _ _ behind => .word "or".toList (by decide) rfl behind) (fun _ => rfl) fun _ => rfl

/-- The greatest depth of all expressions that are read grows with the square of the room. -/
theorem depth_isGreatest :
    IsGreatest {depth | ∃ text expr, parse text = .ok expr ∧ expr.depth = depth}
      (deepest 7 maxDepth) := by
  constructor
  · obtain ⟨text, expr, written, deep⟩ := reaches_ladder maxDepth
    exact ⟨text, expr, written.parse (Nat.le_refl _), deep⟩
  · rintro depth ⟨text, expr, read, rfl⟩
    exact depth_le_deepest read

example : deepest 7 maxDepth = 230528 := by decide +kernel

end XmlSelect.XPath
