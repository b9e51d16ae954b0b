import Mathlib.Data.List.Forall2
import XmlSelect.XPath.Eval

/-! What steps lead to. Each step ends in document order, so that its result is told by its members;
predicates that do not look at positions keep the nodes that they are true of. -/
namespace XmlSelect.XPath

variable {document : Document}

section Order

private theorem eraseReps_loop (first : Nat) (rest done : List Nat) :
    List.eraseRepsBy.loop (· == ·) first rest done =
      done.reverse ++ (first :: rest).eraseReps := by
  induction rest generalizing first done with
  | nil => simp [List.eraseRepsBy.loop, List.eraseReps, List.eraseRepsBy]
  | cons second rest ih =>
    simp only [List.eraseReps, List.eraseRepsBy, List.eraseRepsBy.loop]
    split
    · exact ih first done
    · rw [ih second (first :: done), ih second [first]]
      simp

private theorem eraseReps_cons_cons (first second : Nat) (rest : List Nat) :
    (first :: second :: rest).eraseReps =
      if first = second then (second :: rest).eraseReps
      else first :: (second :: rest).eraseReps := by
  simp only [List.eraseReps, List.eraseRepsBy, List.eraseRepsBy.loop]
  split
  · rename_i same
    rw [eq_of_beq same, if_pos rfl]
  · rename_i other
    rw [if_neg (by simpa using other), eraseReps_loop]
    rfl

private theorem mem_eraseReps {id : Nat} {nodes : List Nat} :
    id ∈ nodes.eraseReps ↔ id ∈ nodes := by
  induction nodes with
  | nil => rfl
  | cons first rest ih =>
    cases rest with
    | nil => rfl
    | cons second rest =>
      rw [eraseReps_cons_cons]
      split
      · rename_i same
        rw [ih, same]
        simp
      · rw [List.mem_cons, ih]
        exact List.mem_cons.symm

private theorem eraseReps_pairwise {nodes : List Nat} (sorted : nodes.Pairwise (· ≤ ·)) :
    nodes.eraseReps.Pairwise (· < ·) := by
  induction nodes with
  | nil => exact .nil
  | cons first rest ih =>
    cases rest with
    | nil => exact List.pairwise_singleton ..
    | cons second rest =>
      obtain ⟨least, further⟩ := List.pairwise_cons.mp sorted
      rw [eraseReps_cons_cons]
      split
      · exact ih further
      · rename_i other
        refine List.pairwise_cons.mpr ⟨fun id member => ?_, ih further⟩
        have lower := least second List.mem_cons_self
        rcases List.mem_cons.mp (mem_eraseReps.mp member) with rfl | behind
        · omega
        · have := (List.pairwise_cons.mp further).1 id behind
          omega

@[simp] theorem mem_documentOrder {id : Nat} {nodes : List Nat} :
    id ∈ documentOrder nodes ↔ id ∈ nodes := by
  rw [documentOrder, mem_eraseReps, List.mem_mergeSort]

theorem documentOrder_pairwise (nodes : List Nat) : (documentOrder nodes).Pairwise (· < ·) := by
  have transitive : ∀ a b c : Nat, decide (a ≤ b) = true → decide (b ≤ c) = true →
      decide (a ≤ c) = true := by simpa using fun a b c => Nat.le_trans
  have total : ∀ a b : Nat, (decide (a ≤ b) || decide (b ≤ a)) = true := by
    simpa using Nat.le_total
  have sorted := List.pairwise_mergeSort transitive total nodes
  exact eraseReps_pairwise (sorted.imp of_decide_eq_true)

private theorem eraseReps_eq_self {nodes : List Nat} (sorted : nodes.Pairwise (· < ·)) :
    nodes.eraseReps = nodes := by
  induction nodes with
  | nil => rfl
  | cons first rest ih =>
    cases rest with
    | nil => rfl
    | cons second rest =>
      obtain ⟨least, further⟩ := List.pairwise_cons.mp sorted
      rw [eraseReps_cons_cons, if_neg (Nat.ne_of_lt (least second List.mem_cons_self)), ih further]

/-- Nodes that are in document order already stay as they are. -/
theorem documentOrder_eq_self {nodes : List Nat} (sorted : nodes.Pairwise (· < ·)) :
    documentOrder nodes = nodes := by
  have ordered : nodes.Pairwise fun a b => decide (a ≤ b) = true :=
    sorted.imp fun lower => decide_eq_true (Nat.le_of_lt lower)
  rw [documentOrder, List.mergeSort_of_pairwise ordered, eraseReps_eq_self sorted]

end Order

section Predicates

/-- The predicate is true of these nodes and of no others, whatever their position, and its value
is no number. -/
def Decides (document : Document) (predicate : Expr) (accepts : Nat → Bool) : Prop :=
  ∀ node position size, ∃ value, predicate.eval ⟨document, node, position, size⟩ = .ok value ∧
    value.type ≠ .number ∧ value.toBoolean = accepts node

theorem Value.holdsAt_eq {value : Value} (other : value.type ≠ .number) (position : Nat) :
    value.holdsAt position = value.toBoolean := by
  cases value with
  | number => exact absurd rfl other
  | _ => rfl

private theorem filterAuxM_eq {α : Type} {keeps : α → Except Error Bool} {accepts : α → Bool}
    {items : List α} (decided : ∀ item ∈ items, keeps item = .ok (accepts item)) (done : List α) :
    items.filterAuxM keeps done = .ok ((items.filter accepts).reverse ++ done) := by
  induction items generalizing done with
  | nil => rfl
  | cons item items ih =>
    rw [List.forall_mem_cons] at decided
    rw [List.filterAuxM, decided.1]
    simp only [bind, Except.bind]
    rw [ih decided.2]
    cases kept : accepts item <;> simp [kept]

private theorem filterM_eq {α : Type} {keeps : α → Except Error Bool} {accepts : α → Bool}
    {items : List α} (decided : ∀ item ∈ items, keeps item = .ok (accepts item)) :
    items.filterM keeps = .ok (items.filter accepts) := by
  rw [List.filterM, filterAuxM_eq decided]
  simp [bind, Except.bind, pure, Except.pure]

/-- A predicate keeps the nodes at whose positions its value holds. -/
theorem filterNodes_of_holdsAt {predicate : Context → Except Error Value}
    {holds : Nat × Nat → Bool} {nodes : List Nat}
    (decided : ∀ item ∈ nodes.zipIdx 1, ∃ value,
      predicate ⟨document, item.1, item.2, nodes.length⟩ = .ok value ∧
        value.holdsAt item.2 = holds item) :
    filterNodes document predicate nodes =
      .ok (((nodes.zipIdx 1).filter holds).map Prod.fst) := by
  have keeps (item : Nat × Nat) (member : item ∈ nodes.zipIdx 1) :
      (do return (← predicate ⟨document, item.1, item.2, nodes.length⟩).holdsAt item.2 :
        Except Error Bool) = .ok (holds item) := by
    obtain ⟨value, evaluated, held⟩ := decided item member
    rw [evaluated, ← held]
    rfl
  exact congrArg (fun kept => kept >>= fun kept => pure (kept.map Prod.fst)) (filterM_eq keeps)

theorem filterNodes_eq {predicate : Expr} {accepts : Nat → Bool}
    (decides : Decides document predicate accepts) (nodes : List Nat) :
    filterNodes document (fun context => predicate.eval context) nodes =
      .ok (nodes.filter accepts) := by
  have first : (nodes.zipIdx 1).map Prod.fst = nodes := List.zipIdx_map_fst 1 nodes
  rw [← congrArg (List.filter accepts) first, List.filter_map]
  refine filterNodes_of_holdsAt fun item _ => ?_
  obtain ⟨value, evaluated, other, decided⟩ := decides item.1 item.2 nodes.length
  exact ⟨value, evaluated, (Value.holdsAt_eq other item.2).trans decided⟩

/-- Predicates that do not count keep what all of them are true of. -/
theorem evalPredicates_eq {predicates : List Expr} {tests : List (Nat → Bool)}
    (decide : List.Forall₂ (Decides document) predicates tests) (nodes : List Nat) :
    evalPredicates document nodes predicates =
      .ok (nodes.filter fun id => tests.all fun test => test id) := by
  induction decide generalizing nodes with
  | nil => simp [evalPredicates]
  | cons first _ ih =>
    rw [evalPredicates, filterNodes_eq first]
    simp only [bind, Except.bind]
    rw [ih, List.filter_filter]
    simp [Bool.and_comm]

end Predicates

section Steps

theorem Step.eval_eq {predicates : List Expr} {tests : List (Nat → Bool)}
    (decide : List.Forall₂ (Decides document) predicates tests) (axis : Axis) (test : NodeTest)
    (node : Nat) :
    Step.eval document node (.mk axis test predicates) =
      .ok ((axis.select document test node).filter fun id => tests.all fun test => test id) := by
  rw [Step.eval]
  exact evalPredicates_eq decide _

private theorem mapM_eq {α β : Type} {read : α → Except Error β} {value : α → β} {items : List α}
    (reads : ∀ item ∈ items, read item = .ok (value item)) :
    items.mapM read = .ok (items.map value) := by
  induction items with
  | nil => rfl
  | cons item items ih =>
    rw [List.forall_mem_cons] at reads
    rw [List.mapM_cons, reads.1, ih reads.2]
    rfl

theorem evalSteps_cons {step : Step} {selected : Nat → List Nat} {nodes : List Nat}
    (selects : ∀ node ∈ nodes, step.eval document node = .ok (selected node)) (rest : List Step) :
    evalSteps document nodes (step :: rest) =
      evalSteps document (documentOrder (nodes.flatMap selected)) rest := by
  rw [evalSteps, mapM_eq selects]
  rfl

theorem evalSteps_append {front : List Step} {nodes between : List Nat}
    (evaluated : evalSteps document nodes front = .ok between) (back : List Step) :
    evalSteps document nodes (front ++ back) = evalSteps document between back := by
  induction front generalizing nodes with
  | nil =>
    rw [evalSteps] at evaluated
    cases evaluated
    rfl
  | cons step front ih =>
    rw [evalSteps] at evaluated
    rw [List.cons_append, evalSteps]
    cases selected : nodes.mapM fun node => step.eval document node with
    | error error =>
      rw [selected] at evaluated
      cases evaluated
    | ok lists =>
      rw [selected] at evaluated
      exact ih evaluated

end Steps

end XmlSelect.XPath
