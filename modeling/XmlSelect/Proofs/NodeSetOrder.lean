import XmlSelect.Proofs.AxisPartition
import XmlSelect.Proofs.EvaluationTrace
import XmlSelect.Proofs.PathEvaluation
import XmlSelect.Query

/-! Every node-set that comes up in an evaluation is in document order and holds nodes of the
document alone. Steps and unions are put in order; predicates and `id` take some of the nodes of a
list that is in order already. -/
namespace XmlSelect

/-- Nodes of a document in document order, each once. -/
structure Document.InOrder (document : Document) (nodes : List Nat) : Prop where
  ascending : nodes.Pairwise (· < ·)
  known : ∀ id ∈ nodes, (document.node? id).isSome = true

namespace Document.InOrder

variable {document : Document} {nodes kept : List Nat} {node : Nat}

theorem singleton (known : (document.node? node).isSome = true) : document.InOrder [node] := by
  constructor
  · exact List.pairwise_singleton ..
  · intro id member
    rwa [List.mem_singleton.mp member]

theorem root (document : Document) : document.InOrder [Document.root] := by
  apply singleton
  rw [node?_root]
  rfl

theorem sublist (inOrder : document.InOrder nodes) (fewer : kept.Sublist nodes) :
    document.InOrder kept := by
  constructor
  · exact inOrder.ascending.sublist fewer
  · intro id member
    exact inOrder.known id (fewer.subset member)

/-- Nodes of the document are put in order, wherever they come from. -/
theorem documentOrder (known : ∀ id ∈ nodes, (document.node? id).isSome = true) :
    document.InOrder (XPath.documentOrder nodes) := by
  constructor
  · exact XPath.documentOrder_pairwise nodes
  · intro id member
    exact known id (XPath.mem_documentOrder.mp member)

theorem everything (document : Document) :
    document.InOrder (document.descendants Document.root) := by
  constructor
  · exact descendants_pairwise document Document.root
  · intro id member
    rw [descendants_eq, nodesBetween, List.mem_filter, List.mem_range'_1, lastInside_root] at member
    obtain ⟨⟨above, below⟩, -⟩ := member
    apply (isSome_node? document id).mpr
    omega

end Document.InOrder

namespace XPath

/-- A node-set is in document order; other values hold no nodes. -/
def Value.InOrder (document : Document) (value : Value) : Prop :=
  ∀ nodes, value = .nodeSet nodes → document.InOrder nodes

section Values

variable {document : Document}

theorem Value.InOrder.nodeSet {nodes : List Nat} (inOrder : document.InOrder nodes) :
    (Value.nodeSet nodes).InOrder document := by
  intro others same
  cases same
  exact inOrder

theorem Value.InOrder.of_nodes {value : Value} {nodes : List Nat}
    (inOrder : value.InOrder document) (taken : value.nodes = .ok nodes) :
    document.InOrder nodes := by
  cases value with
  | nodeSet _ =>
    cases taken
    exact inOrder _ rfl
  | _ => cases taken

theorem Operator.apply_inOrder (operator : Operator) (left right : Value) :
    (operator.apply document left right).InOrder document := by
  cases operator <;> exact nofun

/-- Of the functions `id` alone makes a node-set: it goes through all nodes in order. -/
theorem CoreFunction.apply_inOrder {function : CoreFunction} {context : Context}
    {arguments : List Value} {value : Value}
    (applied : function.apply context arguments = .ok value) :
    value.InOrder context.document := by
  intro nodes isSet
  subst isSet
  unfold CoreFunction.apply at applied
  dsimp only at applied
  split at applied
  case h_4 =>
    cases applied
    exact (Document.InOrder.everything context.document).sublist List.filter_sublist
  all_goals
    first
      | cases applied
      | obtain ⟨_, -, applied⟩ := bind_ok applied; cases applied

/-- A step selects nodes of the document. -/
theorem Axis.known_of_mem_select {axis : Axis} {test : NodeTest} {node id : Nat}
    (member : id ∈ axis.select document test node) : (document.node? id).isSome = true := by
  obtain ⟨-, accepted⟩ := List.mem_filter.mp member
  obtain ⟨kind, found, -⟩ := (Option.any_eq_true ..).mp accepted
  obtain ⟨self, here, -⟩ := Option.map_eq_some_iff.mp found
  rw [here]
  rfl

end Values

/-- All that was found is in order, and the result keeps the promise if there is one. -/
structure Traced.Ensures {α : Type} (document : Document) (traced : Traced α)
    (promise : α → Prop) : Prop where
  result : ∀ value, traced.result = .ok value → promise value
  found : ∀ finding ∈ traced.found, finding.value.InOrder document

namespace Traced.Ensures

variable {document : Document} {α β : Type} {promise : α → Prop} {further : β → Prop}

theorem ofResult {result : Except Error α} (kept : ∀ value, result = .ok value → promise value) :
    Ensures document (.ofResult result) promise :=
  ⟨kept, nofun⟩

theorem pure {value : α} (kept : promise value) : Ensures document (pure value) promise := by
  refine ofResult ?_
  intro other same
  cases same
  exact kept

theorem weaken {traced : Traced α} {weaker : α → Prop} (ensured : Ensures document traced promise)
    (implies : ∀ value, promise value → weaker value) : Ensures document traced weaker :=
  ⟨fun value result => implies value (ensured.result value result), ensured.found⟩

theorem bind {first : Traced α} {next : α → Traced β} (before : Ensures document first promise)
    (after : ∀ value, promise value → Ensures document (next value) further) :
    Ensures document (first >>= next) further := by
  obtain ⟨result, found⟩ := first
  cases result with
  | error error => exact ⟨nofun, before.found⟩
  | ok value =>
    have behind := after value (before.result value rfl)
    refine ⟨behind.result, ?_⟩
    intro finding member
    rcases List.mem_append.mp member with early | late
    · exact before.found finding early
    · exact behind.found finding late

theorem noted {context : Context} {expr : Expr} {traced : Traced Value}
    (evaluated : Ensures document traced (Value.InOrder document)) :
    Ensures document (.noted context expr traced) (Value.InOrder document) := by
  obtain ⟨result, found⟩ := traced
  cases result with
  | error error => exact ⟨nofun, evaluated.found⟩
  | ok value =>
    have inOrder := evaluated.result value rfl
    refine ⟨evaluated.result, ?_⟩
    intro finding member
    rcases List.mem_append.mp member with early | own
    · exact evaluated.found finding early
    · rw [List.mem_singleton.mp own]
      exact inOrder

/-- A filter keeps some of the items, whatever is found for them. -/
theorem filterM {keeps : α → Traced Bool} {items : List α}
    (looks : ∀ item ∈ items, Ensures document (keeps item) fun _ => True) :
    Ensures document (items.filterM keeps) (·.Sublist items) := by
  -- The loop collects what it keeps last first, so that it is a part of what lies behind it.
  have loop (done kept : List α) (fewer : kept.reverse.Sublist done) :
      Ensures document (items.filterAuxM keeps kept) (·.reverse.Sublist (done ++ items)) := by
    induction items generalizing done kept with
    | nil =>
      apply pure
      rwa [List.append_nil]
    | cons item items ih =>
      rw [List.forall_mem_cons] at looks
      apply bind looks.1
      intro keep _
      rw [List.append_cons]
      apply ih looks.2
      cases keep with
      | true => simpa using fewer.append_right [item]
      | false => exact fewer.trans (List.sublist_append_left done [item])
  apply bind (loop [] [] .slnil)
  intro kept fewer
  exact pure (by simpa using fewer)

theorem mapM {read : α → Traced β} {items : List α}
    (reads : ∀ item ∈ items, Ensures document (read item) further) :
    Ensures document (items.mapM read) fun values => ∀ value ∈ values, further value := by
  have loop (done : List β) (kept : ∀ value ∈ done, further value) :
      Ensures document (List.mapM.loop read items done) fun values =>
        ∀ value ∈ values, further value := by
    induction items generalizing done with
    | nil => exact pure (by simpa using kept)
    | cons item items ih =>
      rw [List.forall_mem_cons] at reads
      apply bind reads.1
      intro value new
      exact ih reads.2 (value :: done) (List.forall_mem_cons.mpr ⟨new, kept⟩)
  exact loop [] nofun

theorem filterNodes {predicate : Context → Traced Value} {nodes : List Nat}
    (evaluated : ∀ id ∈ nodes, ∀ position size,
      Ensures document (predicate ⟨document, id, position, size⟩) (Value.InOrder document)) :
    Ensures document (filterNodes document predicate nodes) (·.Sublist nodes) := by
  apply bind (filterM ?_)
  · intro kept fewer
    exact pure (by simpa using fewer.map Prod.fst)
  · rintro ⟨id, position⟩ member
    apply bind (evaluated id (List.fst_mem_of_mem_zipIdx member) position nodes.length)
    intro value _
    exact pure trivial

end Traced.Ensures

mutual

/-- From a node of the document, whatever an expression comes to is in order. -/
theorem Expr.traced_ensures (context : Context)
    (known : (context.document.node? context.node).isSome = true) :
    (expr : Expr) → (expr.traced context).Ensures context.document (Value.InOrder context.document)
  | .number _ => .noted (.pure nofun)
  | .literal _ => .noted (.pure nofun)
  | .reference _ => .noted (.ofResult nofun)
  | .binary operator left right => by
    rw [Expr.traced]
    refine .noted (.bind (left.traced_ensures _ known) ?_)
    intro first _
    split
    · exact .pure nofun
    · exact .pure nofun
    · refine .bind (right.traced_ensures _ known) ?_
      intro second _
      exact .pure (Operator.apply_inOrder _ _ _)
  | .negate operand => by
    rw [Expr.traced]
    refine .noted (.bind (operand.traced_ensures _ known) ?_)
    intro value _
    exact .pure nofun
  | .call name arguments => by
    rw [Expr.traced]
    apply Traced.Ensures.noted
    split
    · exact .ofResult nofun
    · split
      · refine .bind (tracedAll_ensures known arguments) ?_
        intro values _
        exact .ofResult fun _ => CoreFunction.apply_inOrder
      · exact .ofResult nofun
  | .path steps => by
    rw [Expr.traced]
    refine .noted (.bind (tracedSteps_ensures (.singleton known) steps) ?_)
    intro nodes inOrder
    exact .pure (.nodeSet inOrder)
  | .rootPath steps => by
    rw [Expr.traced]
    refine .noted (.bind (tracedSteps_ensures (.root _) steps) ?_)
    intro nodes inOrder
    exact .pure (.nodeSet inOrder)
  | .filterPath start steps => by
    rw [Expr.traced]
    refine .noted (.bind (start.traced_ensures _ known) ?_)
    intro value inOrder
    refine .bind (.ofResult fun _ => inOrder.of_nodes) ?_
    intro nodes inOrder
    refine .bind (tracedSteps_ensures inOrder steps) ?_
    intro reached inOrder
    exact .pure (.nodeSet inOrder)
  | .filter set predicates => by
    rw [Expr.traced]
    refine .noted (.bind (set.traced_ensures _ known) ?_)
    intro value inOrder
    refine .bind (.ofResult fun _ => inOrder.of_nodes) ?_
    intro nodes inOrder
    refine .bind (tracedPredicates_ensures inOrder.known predicates) ?_
    intro kept fewer
    exact .pure (.nodeSet (inOrder.sublist fewer))
  | .union left right => by
    rw [Expr.traced]
    refine .noted (.bind (left.traced_ensures _ known) ?_)
    intro first firstInOrder
    refine .bind (.ofResult fun _ => firstInOrder.of_nodes) ?_
    intro front frontInOrder
    refine .bind (right.traced_ensures _ known) ?_
    intro second secondInOrder
    refine .bind (.ofResult fun _ => secondInOrder.of_nodes) ?_
    intro back backInOrder
    refine .pure (.nodeSet (.documentOrder ?_))
    intro id member
    rcases List.mem_append.mp member with early | late
    · exact frontInOrder.known id early
    · exact backInOrder.known id late

theorem tracedAll_ensures {context : Context}
    (known : (context.document.node? context.node).isSome = true) :
    (exprs : List Expr) → (tracedAll context exprs).Ensures context.document fun _ => True
  | [] => .pure trivial
  | first :: rest => by
    rw [tracedAll]
    refine .bind (first.traced_ensures _ known) ?_
    intro value _
    refine .bind (tracedAll_ensures known rest) ?_
    intro values _
    exact .pure trivial

theorem tracedPredicates_ensures {document : Document} {nodes : List Nat}
    (known : ∀ id ∈ nodes, (document.node? id).isSome = true) :
    (predicates : List Expr) →
      (tracedPredicates document nodes predicates).Ensures document (·.Sublist nodes)
  | [] => .pure (List.Sublist.refl nodes)
  | predicate :: rest => by
    rw [tracedPredicates]
    refine .bind (.filterNodes ?_) ?_
    · intro id member position size
      exact predicate.traced_ensures ⟨document, id, position, size⟩ (known id member)
    · intro kept fewer
      have left := tracedPredicates_ensures (fun id member => known id (fewer.subset member)) rest
      exact left.weaken fun _ => (·.trans fewer)

theorem tracedSteps_ensures {document : Document} {nodes : List Nat}
    (inOrder : document.InOrder nodes) :
    (steps : List Step) → (tracedSteps document nodes steps).Ensures document document.InOrder
  | [] => .pure inOrder
  | step :: rest => by
    rw [tracedSteps]
    refine .bind (.mapM fun node _ => step.traced_ensures document node) ?_
    intro selected fromDocument
    refine tracedSteps_ensures (.documentOrder ?_) rest
    intro id member
    obtain ⟨nodes, listed, inside⟩ := List.mem_flatten.mp member
    exact fromDocument nodes listed id inside

theorem Step.traced_ensures (document : Document) (node : Nat) :
    (step : Step) → (step.traced document node).Ensures document
      fun nodes => ∀ id ∈ nodes, (document.node? id).isSome = true
  | .mk axis test predicates => by
    rw [Step.traced]
    have selected : ∀ id ∈ axis.select document test node, (document.node? id).isSome = true :=
      fun _ => Axis.known_of_mem_select
    refine (tracedPredicates_ensures selected predicates).weaken ?_
    intro kept fewer id member
    exact selected id (fewer.subset member)

end

section Results

variable {document : Document} {node : Nat}

theorem eval_inOrder (known : (document.node? node).isSome = true) {expr : Expr} {value : Value}
    (evaluated : expr.eval (.ofNode document node) = .ok value) : value.InOrder document := by
  have ensured := expr.traced_ensures (.ofNode document node) known
  rw [← Expr.result_traced] at evaluated
  exact ensured.result value evaluated

theorem evaluate_inOrder (known : (document.node? node).isSome = true) {text : Text}
    {value : Value} (evaluated : evaluate document node text = .ok value) :
    value.InOrder document := by
  obtain ⟨expr, -, evaluated⟩ := bind_ok evaluated
  exact eval_inOrder known evaluated

theorem run_inOrder (known : (document.node? node).isSome = true) {cache : Gate.Cache}
    {kind : QueryKind} {selector : Text} {nodes : List Nat}
    (found : (Query.run cache document node kind selector).1 = .ok nodes) :
    document.InOrder nodes := by
  unfold Query.run at found
  split at found
  · cases found
  · split at found
    · cases found
    · obtain ⟨value, evaluated, taken⟩ := bind_ok (mapError_ok found)
      exact (evaluate_inOrder known evaluated).of_nodes taken

/-- From a node of a document, every node-set that an evaluation or a query answers with is in
document order, and so is every node-set that comes up for a part of the expression. -/
theorem nodeSets_inOrder (known : (document.node? node).isSome = true) :
    (∀ text nodes, evaluate document node text = .ok (.nodeSet nodes) → document.InOrder nodes) ∧
      (∀ cache kind selector nodes,
        (Query.run cache document node kind selector).1 = .ok nodes → document.InOrder nodes) ∧
      ∀ expr : Expr,
        (expr.traced (.ofNode document node)).result = expr.eval (.ofNode document node) ∧
          (∀ value, expr.eval (.ofNode document node) = .ok value →
            ⟨.ofNode document node, expr, value⟩ ∈ (expr.traced (.ofNode document node)).found) ∧
          ∀ finding ∈ (expr.traced (.ofNode document node)).found,
            ∀ nodes, finding.value = .nodeSet nodes → document.InOrder nodes := by
  refine ⟨?_, ?_, ?_⟩
  · intro text nodes evaluated
    exact evaluate_inOrder known evaluated nodes rfl
  · intro cache kind selector nodes found
    exact run_inOrder known found
  · intro expr
    refine ⟨expr.result_traced _, ?_, (expr.traced_ensures (.ofNode document node) known).found⟩
    intro value evaluated
    exact Expr.mem_found_traced ((expr.result_traced _).trans evaluated)

/-- Two elements that are asked for the other way round. -/
theorem nodeSets_inOrder_id : ∃ reading,
    Markup.parseText {} "<a><b id='q'/><c id='p'/></a>".toList = .ok reading ∧
      (reading.document.node? 2).isSome = true ∧
      evaluate reading.document 2 "id('p q')".toList = .ok (.nodeSet [3, 5]) ∧
      reading.document.InOrder [3, 5] := by
  have facts : (Markup.parseText {} "<a><b id='q'/><c id='p'/></a>".toList).toOption.map
      (fun reading => ((reading.document.node? 2).isSome,
        (evaluate reading.document 2 "id('p q')".toList).toOption)) =
      some (true, some (.nodeSet [3, 5])) := by decide +kernel
  cases read : Markup.parseText {} "<a><b id='q'/><c id='p'/></a>".toList with
  | error _ => rw [read] at facts; cases facts
  | ok reading =>
    simp only [read, Except.toOption, Option.map_some, Option.some.injEq, Prod.mk.injEq] at facts
    obtain ⟨known, found⟩ := facts
    split at found
    · rename_i evaluated
      cases found
      exact ⟨reading, rfl, known, evaluated, (nodeSets_inOrder known).1 _ _ evaluated⟩
    · cases found

end Results

end XPath

end XmlSelect
