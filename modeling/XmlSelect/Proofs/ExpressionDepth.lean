import Mathlib.Order.Monotone.Basic
import XmlSelect.Proofs.PhraseShape

/-! How deep the trees of expressions get. A chain of operators takes from the room only for the
operands behind it and puts those in front of it below all its operators, so that each level of the
grammar can add as many operators as there is room, and so again in each nested expression. -/
namespace XmlSelect.XPath

mutual

/-- The most predicates, arguments, signs and operators on a way from an expression to a leaf. -/
def Expr.depth : Expr → Nat
  | .number _ | .literal _ | .reference _ => 0
  | .binary _ left right | .union left right => max left.depth right.depth + 1
  | .negate operand => operand.depth + 1
  | .call _ arguments => nestedDepth arguments
  | .path steps | .rootPath steps => stepsDepth steps
  | .filterPath start steps => max start.depth (stepsDepth steps)
  | .filter nodes predicates => max nodes.depth (nestedDepth predicates)

/-- The depth of predicates or arguments, of which each one counts. -/
def nestedDepth : List Expr → Nat
  | [] => 0
  | first :: others => max (first.depth + 1) (nestedDepth others)

def stepsDepth : List Step → Nat
  | [] => 0
  | first :: others => max first.depth (stepsDepth others)

def Step.depth : Step → Nat
  | .mk _ _ predicates => nestedDepth predicates

end

theorem depth_filter (start : Expr) (conditions : List Expr) (steps : List Step) :
    ((start.filteredBy conditions).followedBy steps).depth ≤
      max start.depth (max (nestedDepth conditions) (stepsDepth steps)) := by
  have filtered : (start.filteredBy conditions).depth ≤
      max start.depth (nestedDepth conditions) := by
    unfold Expr.filteredBy
    split
    · exact Nat.le_max_left _ _
    · rw [Expr.depth]
  unfold Expr.followedBy
  split
  · omega
  · rw [Expr.depth]
    omega

/-- A value that was read has the property together with the tokens that are left. -/
def Yields {α : Type} {bound : Nat} (property : α → List Located → Prop) :
    Except Stuck (Parsed bound α) → Prop
  | .ok parsed => property parsed.value parsed.rest
  | .error _ => True

theorem Yields.bind {α β : Type} {bound bound' : Nat} {property : α → List Located → Prop}
    {property' : β → List Located → Prop} {first : Except Stuck (Parsed bound α)}
    {next : Parsed bound α → Except Stuck (Parsed bound' β)} (before : Yields property first)
    (after : ∀ value rest shorter, property value rest →
      Yields property' (next ⟨value, rest, shorter⟩)) : Yields property' (first >>= next) := by
  cases first with
  | error stuck => trivial
  | ok parsed => exact after _ _ _ before

theorem Yields.imp {α : Type} {bound : Nat} {property property' : α → List Located → Prop}
    {outcome : Except Stuck (Parsed bound α)} (yields : Yields property outcome)
    (implies : ∀ value rest, property value rest → property' value rest) :
    Yields property' outcome := by
  cases outcome with
  | error stuck => trivial
  | ok parsed => exact implies _ _ yields

/-- The value has this depth at most, and an end of the whole is left behind it. -/
def Shallow {α : Type} (whole : List Located) (depth : α → Nat) (most : Nat) (value : α)
    (rest : List Located) : Prop :=
  depth value ≤ most ∧ rest <:+ whole

section Steps

variable {whole tokens : List Located}

theorem expect_suffix (wanted : Token) (within : tokens <:+ whole) :
    Yields (fun _ rest => rest <:+ whole) (expect wanted tokens) := by
  cases read : expect wanted tokens with
  | error stuck => trivial
  | ok parsed =>
    obtain ⟨position, same⟩ := expect_ok read
    have behind : parsed.rest <:+ tokens := ⟨[⟨wanted, position⟩], same.symm⟩
    exact behind.trans within

theorem nodeTest_suffix (within : tokens <:+ whole) :
    Yields (fun _ rest => rest <:+ whole) (nodeTest tokens) := by
  cases read : nodeTest tokens with
  | error stuck => trivial
  | ok parsed =>
    obtain ⟨used, same, -⟩ := explains_nodeTest _ _ _ _ read
    have behind : parsed.rest <:+ tokens := ⟨used, same.symm⟩
    exact behind.trans within

variable {nested : Reader Expr} {most : Nat}
  (inner : ∀ tokens, tokens <:+ whole → Yields (Shallow whole (·.depth + 1) most) (nested tokens))

include inner

theorem predicates_depth (within : tokens <:+ whole) :
    Yields (Shallow whole nestedDepth most) (predicates nested tokens) := by
  fun_induction predicates nested tokens with
  | case1 position tokens ih =>
    refine .bind (inner _ ((List.suffix_cons _ _).trans within)) ?_
    rintro first tokens₁ short₁ ⟨shallow, within₁⟩
    refine .bind (expect_suffix _ within₁) fun _ tokens₂ short₂ within₂ => ?_
    refine .bind (ih _ short₁ _ short₂ within₂) ?_
    rintro others tokens₃ short₃ ⟨bounded, within₃⟩
    exact ⟨Nat.max_le.mpr ⟨shallow, bounded⟩, within₃⟩
  | case2 tokens other => exact ⟨Nat.zero_le _, within⟩

theorem testOnAxis_depth (axis : Axis) (within : tokens <:+ whole) :
    Yields (Shallow whole Step.depth most) (testOnAxis nested axis tokens) := by
  refine .bind (nodeTest_suffix within) fun test tokens₁ short₁ within₁ => ?_
  exact .bind (predicates_depth inner within₁) fun conditions tokens₂ short₂ bounded => bounded

theorem step_depth (within : tokens <:+ whole) :
    Yields (Shallow whole Step.depth most) (step nested tokens) := by
  unfold step
  split
  · exact ⟨Nat.zero_le _, (List.suffix_cons _ _).trans within⟩
  · exact ⟨Nat.zero_le _, (List.suffix_cons _ _).trans within⟩
  · refine .bind (testOnAxis_depth inner _ ((List.suffix_cons _ _).trans within)) ?_
    exact fun read tokens₁ short₁ bounded => bounded
  · split
    · trivial
    · refine .bind (expect_suffix _ ((List.suffix_cons _ _).trans within)) ?_
      intro _ tokens₁ short₁ within₁
      exact .bind (testOnAxis_depth inner _ within₁) fun read tokens₂ short₂ bounded => bounded
  · exact testOnAxis_depth inner _ within

theorem furtherSteps_depth (within : tokens <:+ whole) :
    Yields (Shallow whole stepsDepth most) (furtherSteps nested tokens) := by
  fun_induction furtherSteps nested tokens with
  | case1 position tokens ih =>
    refine .bind (step_depth inner ((List.suffix_cons _ _).trans within)) ?_
    rintro first tokens₁ short₁ ⟨bounded, within₁⟩
    refine .bind (ih _ short₁ within₁) ?_
    rintro others tokens₂ short₂ ⟨bounded', within₂⟩
    exact ⟨Nat.max_le.mpr ⟨bounded, bounded'⟩, within₂⟩
  | case2 position tokens ih =>
    refine .bind (step_depth inner ((List.suffix_cons _ _).trans within)) ?_
    rintro first tokens₁ short₁ ⟨bounded, within₁⟩
    refine .bind (ih _ short₁ within₁) ?_
    rintro others tokens₂ short₂ ⟨bounded', within₂⟩
    exact ⟨Nat.max_le.mpr ⟨Nat.zero_le _, Nat.max_le.mpr ⟨bounded, bounded'⟩⟩, within₂⟩
  | case3 tokens => exact ⟨Nat.zero_le _, within⟩

theorem relativePath_depth (within : tokens <:+ whole) :
    Yields (Shallow whole stepsDepth most) (relativePath nested tokens) := by
  refine .bind (step_depth inner within) ?_
  rintro first tokens₁ short₁ ⟨bounded, within₁⟩
  refine .bind (furtherSteps_depth inner within₁) ?_
  rintro others tokens₂ short₂ ⟨bounded', within₂⟩
  exact ⟨Nat.max_le.mpr ⟨bounded, bounded'⟩, within₂⟩

theorem someArguments_depth (within : tokens <:+ whole) :
    Yields (Shallow whole nestedDepth most) (someArguments nested tokens) := by
  have loop (length : Nat) {tokens : List Located} (shorter : tokens.length < length)
      (within : tokens <:+ whole) :
      Yields (Shallow whole nestedDepth most) (someArguments nested tokens) := by
    induction length generalizing tokens with
    | zero => exact absurd shorter (Nat.not_lt_zero _)
    | succ length ih =>
      rw [someArguments]
      refine .bind (inner _ within) ?_
      rintro first tokens₁ short₁ ⟨shallow, within₁⟩
      dsimp only
      split
      · exact ⟨Nat.max_le.mpr ⟨shallow, Nat.zero_le _⟩, (List.suffix_cons _ _).trans within₁⟩
      · refine .bind (expect_suffix _ within₁) fun _ tokens₂ short₂ within₂ => ?_
        have fewer : tokens₂.length < length := by omega
        refine .bind (ih fewer within₂) ?_
        rintro others tokens₃ short₃ ⟨bounded, within₃⟩
        exact ⟨Nat.max_le.mpr ⟨shallow, bounded⟩, within₃⟩
  exact loop _ (Nat.lt_succ_self _) within

theorem callArguments_depth (within : tokens <:+ whole) :
    Yields (Shallow whole nestedDepth most) (callArguments nested tokens) := by
  refine .bind (expect_suffix _ within) fun _ tokens₁ short₁ within₁ => ?_
  simp only
  split
  · exact ⟨Nat.zero_le _, (List.suffix_cons _ _).trans within₁⟩
  · exact .bind (someArguments_depth inner within₁) fun values tokens₂ short₂ bounded => bounded

theorem primary_depth (within : tokens <:+ whole) :
    Yields (Shallow whole Expr.depth most) (primary nested tokens) := by
  unfold primary
  split
  · exact ⟨Nat.zero_le _, (List.suffix_cons _ _).trans within⟩
  · exact ⟨Nat.zero_le _, (List.suffix_cons _ _).trans within⟩
  · exact ⟨Nat.zero_le _, (List.suffix_cons _ _).trans within⟩
  · refine .bind (inner _ ((List.suffix_cons _ _).trans within)) ?_
    rintro value tokens₁ short₁ ⟨shallow, within₁⟩
    refine .bind (expect_suffix _ within₁) fun _ tokens₂ short₂ within₂ => ?_
    exact ⟨Nat.le_of_succ_le shallow, within₂⟩
  · refine .bind (callArguments_depth inner ((List.suffix_cons _ _).trans within)) ?_
    exact fun values tokens₁ short₁ bounded => bounded
  · trivial

theorem filterPath_depth (within : tokens <:+ whole) :
    Yields (Shallow whole Expr.depth most) (filterPath nested tokens) := by
  refine .bind (primary_depth inner within) ?_
  rintro start tokens₁ short₁ ⟨bounded, within₁⟩
  refine .bind (predicates_depth inner within₁) ?_
  rintro conditions tokens₂ short₂ ⟨bounded₁, within₂⟩
  refine .bind (furtherSteps_depth inner within₂) ?_
  rintro steps tokens₃ short₃ ⟨bounded₂, within₃⟩
  refine ⟨(depth_filter start conditions steps).trans ?_, within₃⟩
  exact Nat.max_le.mpr ⟨bounded, Nat.max_le.mpr ⟨bounded₁, bounded₂⟩⟩

theorem pathOrFilter_depth (within : tokens <:+ whole) :
    Yields (Shallow whole Expr.depth most) (pathOrFilter nested tokens) := by
  unfold pathOrFilter
  split
  · have within := (List.suffix_cons _ _).trans within
    split
    · exact .bind (relativePath_depth inner within) fun steps tokens₁ short₁ bounded => bounded
    · exact ⟨Nat.zero_le _, within⟩
  · refine .bind (relativePath_depth inner ((List.suffix_cons _ _).trans within)) ?_
    rintro steps tokens₁ short₁ ⟨bounded, within₁⟩
    exact ⟨Nat.max_le.mpr ⟨Nat.zero_le _, bounded⟩, within₁⟩
  · split
    · exact .bind (relativePath_depth inner within) fun steps tokens₁ short₁ bounded => bounded
    · exact filterPath_depth inner within

end Steps

section Levels

variable {whole tokens : List Located} {operand : Nat → Reader Expr}

theorem depth_join {level : Level} {token : Token} {join : Expr → Expr → Expr}
    (member : .binary level ∈ ladder) (joins : level token = some join) (left right : Expr) :
    (join left right).depth = max left.depth right.depth + 1 := by
  obtain ⟨operator, -, rfl⟩ | ⟨-, rfl⟩ := joins_of_mem member joins
  · rw [Expr.depth]
  · rw [Expr.depth]

/-- Each operator that follows puts what there is so far one level lower. -/
theorem chainTail_depth {level : Level} (member : .binary level ∈ ladder) {least room : Nat}
    {left : Expr} (shallow : left.depth ≤ least)
    (operands : ∀ room' < room, ∀ tokens, tokens <:+ whole →
      Yields (Shallow whole Expr.depth least) (operand room' tokens))
    (within : tokens <:+ whole) :
    Yields (Shallow whole Expr.depth (least + room))
      (chainTail level operand left room tokens) := by
  fun_induction chainTail level operand left room tokens generalizing least with
  | case1 left room => exact ⟨Nat.le_add_right_of_le shallow, within⟩
  | case2 left room found tokens stops => exact ⟨Nat.le_add_right_of_le shallow, within⟩
  | case3 => trivial
  | case4 left found tokens join room joins ih =>
    refine .bind (operands room (Nat.lt_succ_self _) _ ((List.suffix_cons _ _).trans within)) ?_
    rintro right tokens₁ short₁ ⟨bounded, within₁⟩
    have joined : (join left right).depth ≤ least + 1 := by
      rw [depth_join member joins]
      exact Nat.succ_le_succ (Nat.max_le.mpr ⟨shallow, bounded⟩)
    have deeper : ∀ room' < room, ∀ tokens, tokens <:+ whole →
        Yields (Shallow whole Expr.depth (least + 1)) (operand room' tokens) :=
      fun room' less tokens within =>
        (operands room' (Nat.lt_succ_of_lt less) tokens within).imp
          fun _ _ => And.imp_left Nat.le_succ_of_le
    refine .bind (ih _ _ joined deeper within₁) ?_
    rintro whole tokens₂ short₂ ⟨bounded', within₂⟩
    exact ⟨bounded'.trans_eq (Nat.succ_add_eq_add_succ least room), within₂⟩

/-- The depth that an expression can have on the level above some levels of binary operators and
unions, each of which can use up the room. -/
def deepest (levels : Nat) : Nat → Nat
  | 0 => 0
  | room + 1 => deepest 7 room + 1 + levels * (room + 1)

theorem deepest_succ (levels room : Nat) :
    deepest (levels + 1) room = deepest levels room + room := by
  cases room with
  | zero => rfl
  | succ room => simp only [deepest, Nat.succ_mul, Nat.add_assoc]

theorem deepest_mono (levels : Nat) : Monotone (deepest levels) := by
  have top (room : Nat) : deepest 7 room ≤ deepest 7 (room + 1) := by
    rw [deepest]
    omega
  refine monotone_nat_of_le_succ fun room => ?_
  cases room with
  | zero => exact Nat.zero_le _
  | succ room =>
    have more := Nat.mul_le_mul_left levels (Nat.le_succ (room + 1))
    exact Nat.add_le_add (Nat.succ_le_succ (top room)) more

theorem chain_depth (level : Level) (member : .binary level ∈ ladder) {levels : Nat}
    (operands : ∀ room tokens, tokens <:+ whole →
      Yields (Shallow whole Expr.depth (deepest levels room)) (operand room tokens))
    (room : Nat) (tokens : List Located) (within : tokens <:+ whole) :
    Yields (Shallow whole Expr.depth (deepest (levels + 1) room))
      (chain level operand room tokens) := by
  rw [deepest_succ]
  refine .bind (operands room tokens within) ?_
  rintro first tokens₁ short₁ ⟨bounded, within₁⟩
  refine .bind (chainTail_depth member bounded (fun room' less tokens within => ?_) within₁)
    fun whole tokens₂ short₂ bounded' => bounded'
  exact (operands room' tokens within).imp fun _ _ =>
    And.imp_left fun bounded => bounded.trans (deepest_mono levels (Nat.le_of_lt less))

/-- Signs count twice at most, but take from the room what the operand could use. -/
theorem signed_depth
    (operands : ∀ room tokens, tokens <:+ whole →
      Yields (Shallow whole Expr.depth (deepest 1 room)) (operand room tokens))
    (room : Nat) (tokens : List Located) (within : tokens <:+ whole) :
    Yields (Shallow whole Expr.depth (deepest 1 room)) (signed operand room tokens) := by
  unfold signed
  simp only
  split
  · exact operands room tokens within
  · cases room with
    | zero => trivial
    | succ room =>
      refine .bind (operands room _ ((List.dropWhile_suffix _).trans within)) ?_
      rintro inner tokens₁ short₁ ⟨bounded, within₁⟩
      have twice : deepest 1 room + 2 ≤ deepest 1 (room + 1) := by
        have levels : deepest 1 room ≤ deepest 7 room := by
          cases room <;> simp only [deepest] <;> omega
        simp only [deepest]
        omega
      refine ⟨?_, within₁⟩
      dsimp only
      split <;> simp only [Expr.depth] <;> omega

theorem expression_depth (layers room : Nat) (tokens : List Located) (within : tokens <:+ whole) :
    Yields (Shallow whole Expr.depth (deepest 7 room)) (expression layers room tokens) := by
  induction layers generalizing room tokens with
  | zero => trivial
  | succ layers ih =>
    have paths (room : Nat) (tokens : List Located) (within : tokens <:+ whole) :
        Yields (Shallow whole Expr.depth (deepest 0 room))
          (pathOrFilter (descend (expression layers) room) tokens) := by
      refine pathOrFilter_depth (fun tokens within => ?_) within
      cases room with
      | zero => trivial
      | succ room =>
        have one : deepest 0 (room + 1) = deepest 7 room + 1 := by simp [deepest]
        rw [one]
        exact (ih room tokens within).imp fun _ _ => And.imp_left Nat.succ_le_succ
    have unions := signed_depth (chain_depth unionLevel (by simp [ladder_eq]) paths)
    have sums := chain_depth additiveLevel (by simp [ladder_eq])
      (chain_depth multiplicativeLevel (by simp [ladder_eq]) unions)
    have comparisons := chain_depth equalityLevel (by simp [ladder_eq])
      (chain_depth relationalLevel (by simp [ladder_eq]) sums)
    exact chain_depth orLevel (by simp [ladder_eq])
      (chain_depth andLevel (by simp [ladder_eq]) comparisons) room tokens within

end Levels

/-- However long it is, an expression that is read is no deeper than what the room allows. -/
theorem depth_le_deepest {text : Text} {expr : Expr} (read : parse text = .ok expr) :
    expr.depth ≤ deepest 7 maxDepth := by
  obtain ⟨located, shorter, -, read⟩ := parse_ok read
  have bounded := expression_depth (maxDepth + 1) maxDepth located List.suffix_rfl
  rw [read] at bounded
  exact bounded.1

end XmlSelect.XPath
