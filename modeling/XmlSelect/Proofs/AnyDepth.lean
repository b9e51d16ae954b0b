import Mathlib.Data.List.Sort
import XmlSelect.Proofs.AxisOrder
import XmlSelect.Proofs.PathEvaluation

/-! Steps at any depth. The nodes inside a node are the children of the node and of the nodes inside
it, so that a step to any depth and a step to the children lead where one step to the nodes inside
does; predicates may follow that do not count the nodes. -/
namespace XmlSelect

/-- The nodes inside a node are the children of the node and of the nodes inside it. -/
theorem Document.mem_descendants_iff_children {document : Document} {outer id : Nat} :
    id ∈ document.descendants outer ↔
      ∃ parent ∈ outer :: document.descendants outer, id ∈ document.children parent := by
  simp only [List.mem_cons, mem_descendants_iff, mem_children_iff]
  constructor
  · rintro ⟨above, kind⟩
    cases up : document.parent? id with
    | none => simp [ancestors_eq_nil up] at above
    | some parent =>
      rw [ancestors_eq up, List.mem_cons] at above
      exact ⟨parent, above.imp Eq.symm fun further => ⟨further, not_isAttribute_of_parent? up⟩,
        rfl, kind⟩
  · rintro ⟨parent, within, up, kind⟩
    refine ⟨?_, kind⟩
    rw [ancestors_eq up, List.mem_cons]
    exact within.imp Eq.symm And.left

theorem Document.known_of_mem_children {document : Document} {parent id : Nat}
    (below : id ∈ document.children parent) : (document.kind? parent).isSome = true := by
  cases found : document.node? parent with
  | none => simp [children_eq_nil found] at below
  | some node => simp [kind?, found]

namespace XPath

variable {document : Document}

theorem documentOrder_congr {nodes others : List Nat} (same : ∀ id, id ∈ nodes ↔ id ∈ others) :
    documentOrder nodes = documentOrder others := by
  refine (documentOrder_pairwise nodes).eq_of_mem_iff (documentOrder_pairwise others) fun id => ?_
  rw [mem_documentOrder, mem_documentOrder, same]

section Predicates

/-- The predicate has one value at a node, whichever of however many nodes it is, and the value is
no number. -/
def Expr.IsSteady (document : Document) (predicate : Expr) (id : Nat) : Prop :=
  ∃ value : Value, value.type ≠ .number ∧ ∀ position size, 1 ≤ position → position ≤ size →
    predicate.eval ⟨document, id, position, size⟩ = .ok value

/-- Whether a predicate is true of a node on its own. -/
def Expr.isTrueOf (document : Document) (predicate : Expr) (id : Nat) : Bool :=
  match predicate.eval (.ofNode document id) with
  | .ok value => value.toBoolean
  | .error _ => false

/-- A path from the node is steady where it can be evaluated. -/
theorem Expr.IsSteady.path {steps : List Step} {id : Nat} {nodes : List Nat}
    (evaluated : evalSteps document [id] steps = .ok nodes) :
    (Expr.path steps).IsSteady document id := by
  refine ⟨.nodeSet nodes, by simp [Value.type], fun position size _ _ => ?_⟩
  rw [Expr.eval, evaluated]
  rfl

theorem filterNodes_of_isSteady {predicate : Expr} {nodes : List Nat}
    (steady : ∀ id ∈ nodes, predicate.IsSteady document id) :
    filterNodes document (fun context => predicate.eval context) nodes =
      .ok (nodes.filter (predicate.isTrueOf document)) := by
  have numbered : (nodes.zipIdx 1).map Prod.fst = nodes := List.zipIdx_map_fst 1 nodes
  rw [← congrArg (List.filter (predicate.isTrueOf document)) numbered, List.filter_map]
  refine filterNodes_of_holdsAt fun item member => ?_
  obtain ⟨value, other, evaluated⟩ := steady item.1 (List.fst_mem_of_mem_zipIdx member)
  have first : 1 ≤ item.2 := List.le_snd_of_mem_zipIdx member
  have last := List.snd_lt_add_of_mem_zipIdx member
  refine ⟨value, evaluated _ _ first (by omega), ?_⟩
  rw [Value.holdsAt_eq other, Function.comp_apply, Expr.isTrueOf, Context.ofNode,
    evaluated 1 1 (Nat.le_refl 1) (Nat.le_refl 1)]

/-- Steady predicates keep the nodes that all of them are true of. -/
theorem evalPredicates_of_isSteady {predicates : List Expr} {nodes : List Nat}
    (steady : ∀ id ∈ nodes, ∀ predicate ∈ predicates, predicate.IsSteady document id) :
    evalPredicates document nodes predicates =
      .ok (nodes.filter fun id => predicates.all (·.isTrueOf document id)) := by
  induction predicates generalizing nodes with
  | nil => simp [evalPredicates]
  | cons predicate rest ih =>
    have kept : ∀ id ∈ nodes.filter (predicate.isTrueOf document),
        ∀ other ∈ rest, other.IsSteady document id := fun id member other listed =>
      steady id (List.mem_filter.mp member).1 other (List.mem_cons_of_mem predicate listed)
    rw [evalPredicates,
      filterNodes_of_isSteady fun id member => steady id member predicate List.mem_cons_self]
    simp only [bind, Except.bind]
    rw [ih kept, List.filter_filter]
    simp [Bool.and_comm]

/-- The nodes on an axis that pass a test and that predicates are true of. -/
def Axis.keep (document : Document) (axis : Axis) (test : NodeTest) (predicates : List Expr)
    (node : Nat) : List Nat :=
  (axis.select document test node).filter fun id => predicates.all (·.isTrueOf document id)

theorem Step.eval_of_isSteady {axis : Axis} {test : NodeTest} {predicates : List Expr} {node : Nat}
    (steady : ∀ id ∈ axis.select document test node,
      ∀ predicate ∈ predicates, predicate.IsSteady document id) :
    Step.eval document node (.mk axis test predicates) =
      .ok (axis.keep document test predicates node) := by
  rw [Step.eval, evalPredicates_of_isSteady steady, Axis.keep]

end Predicates

section Steps

variable {test : NodeTest} {predicates : List Expr} {starts : List Nat}

/-- The nodes inside a node that pass a test are the children that pass it of the node and of the
nodes inside it. -/
theorem mem_select_descendant {outer id : Nat} : id ∈ Axis.select document .descendant test outer ↔
    ∃ parent ∈ Axis.select document .descendantOrSelf .node outer,
      id ∈ Axis.select document .child test parent := by
  have sameTest (kind : NodeKind) : test.accepts .child kind = test.accepts .descendant kind := by
    cases test <;> rfl
  simp only [Axis.select, Axis.nodes, List.mem_filter, sameTest,
    Document.mem_descendants_iff_children]
  constructor
  · rintro ⟨⟨parent, within, below⟩, passes⟩
    obtain ⟨kind, found⟩ := Option.isSome_iff_exists.mp (Document.known_of_mem_children below)
    exact ⟨parent, ⟨within, by rw [found]; rfl⟩, below, passes⟩
  · rintro ⟨parent, ⟨within, -⟩, below, passes⟩
    exact ⟨⟨parent, within, below⟩, passes⟩

/-- A step to any depth and a step to the children lead, from wherever they start, to what one step
to the nodes inside leads to, in the same order. -/
theorem evalSteps_anyDepth (rest : List Step)
    (steady : ∀ start ∈ starts, ∀ id ∈ Axis.select document .descendant test start,
      ∀ predicate ∈ predicates, predicate.IsSteady document id) :
    evalSteps document starts (.anyDepth :: .mk .child test predicates :: rest) =
      evalSteps document starts (.mk .descendant test predicates :: rest) := by
  have anyDepth (node : Nat) : Step.anyDepth.eval document node =
      .ok (Axis.select document .descendantOrSelf .node node) := by
    rw [Step.anyDepth, Step.eval_eq .nil]
    simp
  have parents {parent : Nat} : parent ∈ documentOrder
      (starts.flatMap (Axis.select document .descendantOrSelf .node)) ↔ ∃ start ∈ starts,
        parent ∈ Axis.select document .descendantOrSelf .node start := by
    rw [mem_documentOrder, List.mem_flatMap]
  have children {parent : Nat} (reached : parent ∈ documentOrder
      (starts.flatMap (Axis.select document .descendantOrSelf .node))) :
      Step.eval document parent (.mk .child test predicates) =
        .ok (Axis.child.keep document test predicates parent) := by
    obtain ⟨start, started, within⟩ := parents.mp reached
    exact Step.eval_of_isSteady fun id below =>
      steady start started id (mem_select_descendant.mpr ⟨parent, within, below⟩)
  rw [evalSteps_cons fun node _ => anyDepth node, evalSteps_cons fun _ => children,
    evalSteps_cons fun start started => Step.eval_of_isSteady (steady start started)]
  congr 1
  refine documentOrder_congr fun id => ?_
  simp only [List.mem_flatMap, Axis.keep, List.mem_filter, mem_select_descendant, parents]
  constructor
  · rintro ⟨parent, ⟨start, started, within⟩, below, holds⟩
    exact ⟨start, started, ⟨parent, within, below⟩, holds⟩
  · rintro ⟨start, started, ⟨parent, within, below⟩, holds⟩
    exact ⟨parent, ⟨start, started, within⟩, below, holds⟩

/-- From every node, a step to any depth and a step to the children lead where one step to the nodes
inside does, if the predicates do not count: to those that pass the test and that the predicates are
true of, in document order. -/
theorem eval_anyDepth_child {context : Context}
    (steady : ∀ id ∈ Axis.select context.document .descendant test context.node,
      ∀ predicate ∈ predicates, predicate.IsSteady context.document id) :
    let nodes := Axis.descendant.keep context.document test predicates context.node
    (Expr.path [.anyDepth, .mk .child test predicates]).eval context = .ok (.nodeSet nodes) ∧
      (Expr.path [.mk .descendant test predicates]).eval context = .ok (.nodeSet nodes) ∧
      nodes.Pairwise (· < ·) := by
  intro nodes
  have sorted : nodes.Pairwise (· < ·) :=
    ((context.document.descendants_pairwise context.node).filter _).filter _
  have single : ∀ start ∈ [context.node],
      ∀ id ∈ Axis.select context.document .descendant test start,
        ∀ predicate ∈ predicates, predicate.IsSteady context.document id := by
    simpa using steady
  have descends : evalSteps context.document [context.node] [.mk .descendant test predicates] =
      .ok nodes := by
    rw [evalSteps_cons fun start started => Step.eval_of_isSteady (single start started),
      List.flatMap_singleton, documentOrder_eq_self sorted, evalSteps]
  refine ⟨?_, ?_, sorted⟩
  · rw [Expr.eval, evalSteps_anyDepth [] single, descends]
    rfl
  · rw [Expr.eval, descends]
    rfl

/-- Elements with an attribute at two depths; the one inside the first of them has none. -/
theorem eval_anyDepth_child_attribute : ∃ reading,
    Markup.parseText {} "<r><a><b x='1'><b/></b></a><b x='2'/></r>".toList = .ok reading ∧
      (Expr.path [.anyDepth, .mk .child (.name ['b'])
        [.path [.mk .attributes (.name ['x']) []]]]).eval (.ofNode reading.document 2) =
          .ok (.nodeSet [4, 7]) := by
  have kept : (Markup.parseText {} "<r><a><b x='1'><b/></b></a><b x='2'/></r>".toList).toOption.map
      (fun reading => Axis.descendant.keep reading.document (.name ['b'])
        [.path [.mk .attributes (.name ['x']) []]] 2) = some [4, 7] := by decide +kernel
  cases read : Markup.parseText {} "<r><a><b x='1'><b/></b></a><b x='2'/></r>".toList with
  | error _ => rw [read] at kept; cases kept
  | ok reading =>
    rw [read] at kept
    have steady (id : Nat) : (Expr.path [.mk .attributes (.name ['x']) []]).IsSteady
        reading.document id := by
      apply Expr.IsSteady.path
      rw [evalSteps_cons fun start _ => Step.eval_of_isSteady (by simp), evalSteps]
    refine ⟨reading, rfl, ?_⟩
    rw [← Option.some.inj kept]
    exact (eval_anyDepth_child fun id _ predicate listed => by
      rw [List.mem_singleton.mp listed]
      exact steady id).1

end Steps

end XPath

end XmlSelect
