import XmlSelect.XPath.Eval

/-! Evaluation that keeps what it finds: beside the value of an expression stand the values of all
the parts that were evaluated for it, each with its context. Leaving the record out is evaluation
itself. -/
namespace XmlSelect.XPath

/-- A value, with the expression that it was found for and the context. -/
structure Finding where
  context : Context
  expr : Expr
  value : Value

/-- A result, and what was found on the way to it, also if there is no value in the end. -/
structure Traced (α : Type) where
  result : Except Error α
  found : List Finding

namespace Traced

instance : Monad Traced where
  pure value := ⟨.ok value, []⟩
  bind first next :=
    match first.result with
    | .error error => ⟨.error error, first.found⟩
    | .ok value => ⟨(next value).result, first.found ++ (next value).found⟩

/-- A result that takes no evaluation. -/
def ofResult {α : Type} (result : Except Error α) : Traced α := ⟨result, []⟩

/-- The value of an expression is put on record. -/
def noted (context : Context) (expr : Expr) (traced : Traced Value) : Traced Value :=
  match traced.result with
  | .error error => ⟨.error error, traced.found⟩
  | .ok value => ⟨.ok value, traced.found ++ [⟨context, expr, value⟩]⟩

/-- The nodes at whose position a predicate holds. -/
def filterNodes (document : Document) (predicate : Context → Traced Value) (nodes : List Nat) :
    Traced (List Nat) := do
  let kept ← (nodes.zipIdx 1).filterM fun (node, position) => do
    return (← predicate ⟨document, node, position, nodes.length⟩).holdsAt position
  return kept.map (·.1)

end Traced

mutual

/-- The value of an expression in a context, with the values of its parts. -/
def Expr.traced (context : Context) (expr : Expr) : Traced Value :=
  .noted context expr <| match expr with
  | .number value => return .number value
  | .literal value => return .string value
  | .reference name => .ofResult (.error (.undefinedVariable name))
  | .binary operator left right => do
    let first ← left.traced context
    match operator, first.toBoolean with
    | .and, false => return .boolean false
    | .or, true => return .boolean true
    | operator, _ => return operator.apply context.document first (← right.traced context)
  | .negate operand => do
    return .number ((← operand.traced context).numberIn context.document).neg
  | .call name arguments =>
    match CoreFunction.ofText? name with
    | none => .ofResult (.error (.undefinedFunction name))
    | some function =>
      if function.arity.accepts arguments.length then do
        .ofResult (function.apply context (← tracedAll context arguments))
      else .ofResult (.error (.argumentCount name function.arity arguments.length))
  | .path steps => do return .nodeSet (← tracedSteps context.document [context.node] steps)
  | .rootPath steps => do return .nodeSet (← tracedSteps context.document [Document.root] steps)
  | .filterPath start steps => do
    let nodes ← .ofResult (← start.traced context).nodes
    return .nodeSet (← tracedSteps context.document nodes steps)
  | .filter set predicates => do
    let nodes ← .ofResult (← set.traced context).nodes
    return .nodeSet (← tracedPredicates context.document nodes predicates)
  | .union left right => do
    let first ← .ofResult (← left.traced context).nodes
    let second ← .ofResult (← right.traced context).nodes
    return .nodeSet (documentOrder (first ++ second))

/-- The values of expressions in a context, from left to right. -/
def tracedAll (context : Context) : List Expr → Traced (List Value)
  | [] => return []
  | first :: rest => do return (← first.traced context) :: (← tracedAll context rest)

/-- The nodes that pass predicates, each counting the nodes that are left by those before. -/
def tracedPredicates (document : Document) (nodes : List Nat) : List Expr → Traced (List Nat)
  | [] => return nodes
  | predicate :: rest => do
    let kept ← Traced.filterNodes document (fun context => predicate.traced context) nodes
    tracedPredicates document kept rest

/-- The nodes that steps lead to from some nodes. -/
def tracedSteps (document : Document) (nodes : List Nat) : List Step → Traced (List Nat)
  | [] => return nodes
  | step :: rest => do
    let selected ← nodes.mapM fun node => step.traced document node
    tracedSteps document (documentOrder selected.flatten) rest

/-- The nodes that one step selects from a node, in the order of its axis. -/
def Step.traced (document : Document) (node : Nat) : Step → Traced (List Nat)
  | .mk axis test predicates =>
    tracedPredicates document (axis.select document test node) predicates

end

namespace Traced

variable {α β : Type}

@[simp] theorem result_pure (value : α) : (pure value : Traced α).result = .ok value := rfl

@[simp] theorem result_ofResult (result : Except Error α) : (ofResult result).result = result := rfl

@[simp] theorem result_bind (first : Traced α) (next : α → Traced β) :
    (first >>= next).result = first.result >>= fun value => (next value).result := by
  obtain ⟨result, found⟩ := first
  cases result <;> rfl

@[simp] theorem result_noted (context : Context) (expr : Expr) (traced : Traced Value) :
    (noted context expr traced).result = traced.result := by
  obtain ⟨result, found⟩ := traced
  cases result <;> rfl

theorem mem_found_noted {context : Context} {expr : Expr} {traced : Traced Value} {value : Value}
    (evaluated : traced.result = .ok value) :
    ⟨context, expr, value⟩ ∈ (noted context expr traced).found := by
  obtain ⟨result, found⟩ := traced
  cases evaluated
  exact List.mem_concat_self

theorem result_filterM (keeps : α → Traced Bool) (items : List α) :
    (items.filterM keeps).result = items.filterM fun item => (keeps item).result := by
  have loop (done : List α) :
      (items.filterAuxM keeps done).result =
        items.filterAuxM (fun item => (keeps item).result) done := by
    induction items generalizing done with
    | nil => rfl
    | cons item items ih => simp only [List.filterAuxM, result_bind, ih]
  simp only [List.filterM, result_bind, loop]
  rfl

theorem result_mapM (read : α → Traced β) (items : List α) :
    (items.mapM read).result = items.mapM fun item => (read item).result := by
  have loop (done : List β) :
      (List.mapM.loop read items done).result =
        List.mapM.loop (fun item => (read item).result) items done := by
    induction items generalizing done with
    | nil => rfl
    | cons item items ih => simp only [List.mapM.loop, result_bind, ih]
  exact loop []

theorem result_filterNodes (document : Document) (predicate : Context → Traced Value)
    (nodes : List Nat) :
    (filterNodes document predicate nodes).result =
      XPath.filterNodes document (fun context => (predicate context).result) nodes := by
  simp only [filterNodes, XPath.filterNodes, result_bind, result_filterM]
  rfl

end Traced

/-- Whatever an expression comes to is on record. -/
theorem Expr.mem_found_traced {context : Context} {expr : Expr} {value : Value}
    (evaluated : (expr.traced context).result = .ok value) :
    ⟨context, expr, value⟩ ∈ (expr.traced context).found := by
  cases expr <;>
  · rw [Expr.traced, Traced.result_noted] at evaluated
    rw [Expr.traced]
    exact Traced.mem_found_noted evaluated

mutual

/-- Without the record, tracing an expression is evaluating it. -/
theorem Expr.result_traced (context : Context) :
    (expr : Expr) → (expr.traced context).result = expr.eval context
  | .number _ => rfl
  | .literal _ => rfl
  | .reference _ => rfl
  | .binary operator left right => by
    simp only [Expr.traced, Expr.eval, Traced.result_noted, Traced.result_bind,
      left.result_traced context]
    congr 1
    funext first
    have applied : (right.traced context >>= fun second =>
          (pure (operator.apply context.document first second) : Traced Value)).result =
        (right.eval context >>= fun second =>
          (pure (operator.apply context.document first second) : Except Error Value)) := by
      simp only [Traced.result_bind, right.result_traced context]
      rfl
    -- A conjunction or a disjunction may be decided; otherwise the operator is applied.
    cases operator <;> cases first.toBoolean <;> first
      | exact applied
      | rfl
  | .negate operand => by
    simp only [Expr.traced, Expr.eval, Traced.result_noted, Traced.result_bind,
      operand.result_traced context]
    rfl
  | .call name arguments => by
    simp only [Expr.traced, Expr.eval, Traced.result_noted]
    cases CoreFunction.ofText? name with
    | none => rfl
    | some function =>
      dsimp only
      split
      · simp only [Traced.result_bind, Traced.result_ofResult, result_tracedAll context arguments]
      · rfl
  | .path steps => by
    simp only [Expr.traced, Expr.eval, Traced.result_noted, Traced.result_bind,
      result_tracedSteps context.document _ steps]
    rfl
  | .rootPath steps => by
    simp only [Expr.traced, Expr.eval, Traced.result_noted, Traced.result_bind,
      result_tracedSteps context.document _ steps]
    rfl
  | .filterPath start steps => by
    simp only [Expr.traced, Expr.eval, Traced.result_noted, Traced.result_bind,
      Traced.result_ofResult, start.result_traced context,
      result_tracedSteps context.document _ steps]
    rfl
  | .filter set predicates => by
    simp only [Expr.traced, Expr.eval, Traced.result_noted, Traced.result_bind,
      Traced.result_ofResult, set.result_traced context,
      result_tracedPredicates context.document _ predicates]
    rfl
  | .union left right => by
    simp only [Expr.traced, Expr.eval, Traced.result_noted, Traced.result_bind,
      Traced.result_ofResult, left.result_traced context, right.result_traced context]
    rfl

theorem result_tracedAll (context : Context) :
    (exprs : List Expr) → (tracedAll context exprs).result = evalAll context exprs
  | [] => rfl
  | first :: rest => by
    simp only [tracedAll, evalAll, Traced.result_bind, first.result_traced context,
      result_tracedAll context rest]
    rfl

theorem result_tracedPredicates (document : Document) (nodes : List Nat) :
    (predicates : List Expr) →
      (tracedPredicates document nodes predicates).result =
        evalPredicates document nodes predicates
  | [] => rfl
  | predicate :: rest => by
    simp only [tracedPredicates, evalPredicates, Traced.result_bind, Traced.result_filterNodes,
      fun context => predicate.result_traced context, result_tracedPredicates document _ rest]

theorem result_tracedSteps (document : Document) (nodes : List Nat) :
    (steps : List Step) →
      (tracedSteps document nodes steps).result = evalSteps document nodes steps
  | [] => rfl
  | step :: rest => by
    simp only [tracedSteps, evalSteps, Traced.result_bind, Traced.result_mapM,
      fun node => step.result_traced document node, result_tracedSteps document _ rest]

theorem Step.result_traced (document : Document) (node : Nat) :
    (step : Step) → (step.traced document node).result = step.eval document node
  | .mk axis test predicates => by
    rw [Step.traced, Step.eval, result_tracedPredicates document _ predicates]

end

end XmlSelect.XPath
