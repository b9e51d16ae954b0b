import XmlSelect.Proofs.ConditionMeaning
import XmlSelect.Proofs.DepthFirstWalk
import XmlSelect.Proofs.DistinctAttributes
import XmlSelect.Proofs.DocumentOrder
import XmlSelect.Proofs.SelectorShape

/-! A compiled selector leads to the elements that the selector matches. The path of a selector is
followed from the document node outwards in, so that each compound adds its steps at the end: a
child step, with a step to any depth in front of it for the descendant combinator. -/
namespace XmlSelect.Selector

variable {document : Document}

/-- Whether an element matches compounds, the selected one first: some element above it, or the one
right above it, has to match those behind the combinator. -/
def matchesFrom (document : Document) : Chain → Nat → Bool
  | [], _ => false
  | [(_, compound)], id => compound.accepts document id
  | (combinator, compound) :: outer, id =>
    compound.accepts document id && match combinator with
      | .descendant => (document.ancestors id).any (matchesFrom document outer)
      | .child => (document.parent? id).any (matchesFrom document outer)

/-- Whether an element matches a selector. -/
def selects (document : Document) (selector : Chain) (id : Nat) : Bool :=
  matchesFrom document selector.reverse id

section Steps

/-- The steps of a compound lead from these nodes to those that meet the condition, in document
order. -/
def LeadsTo (document : Document) (start : List Nat) (steps : List XPath.Step)
    (selected : Nat → Prop) : Prop :=
  ∃ nodes, XPath.evalSteps document start steps = .ok nodes ∧ nodes.Pairwise (· < ·) ∧
    ∀ id, id ∈ nodes ↔ selected id

theorem isElement_of_accepts {compound : Compound} {id : Nat}
    (accepted : compound.accepts document id = true) : document.isElement id = true := by
  simp only [Compound.accepts, Bool.and_eq_true] at accepted
  exact accepted.1.1.1.1

theorem not_isAttribute_of_isElement {id : Nat} (element : document.isElement id = true) :
    document.isAttribute id = false := by
  rw [Document.isElement] at element
  rw [Document.isAttribute]
  cases kind : document.kind? id with
  | none => rfl
  | some kind' =>
    rw [kind] at element
    cases kind' <;> simp_all [NodeKind.isElement, NodeKind.isAttribute]

theorem of_mem_children {parent id : Nat} (below : id ∈ document.children parent) :
    (document.kind? parent).isSome = true ∧ document.isAttribute parent = false := by
  constructor
  · cases found : document.node? parent with
    | none => simp [Document.children_eq_nil found] at below
    | some node => simp [Document.kind?, found]
  · rw [Bool.eq_false_iff]
    intro isOwn
    simp [(Document.attribute_alone isOwn).1] at below

/-- A compound without tests of the end of a value, whose classes are identifiers. -/
structure Compound.Fit (compound : Compound) : Prop where
  names : compound.NamesClasses
  noSuffix : compound.hasSuffixTest = false

theorem Compound.Fit.words {compound : Compound} (fit : compound.Fit) :
    ∀ name ∈ compound.classes, name ≠ [] ∧ ' ' ∉ name := fun name member =>
  ⟨(fit.names name member).1, fun inside =>
    absurd ((fit.names name member).2 ' ' inside) (by decide)⟩

variable (distinct : ∀ id, DistinctNames (document.attributes id)) {compound : Compound}
  (fit : compound.Fit) (start : List Nat)

include distinct fit

/-- The last step of a compound leads to the children that the compound describes. -/
theorem leadsTo_step : LeadsTo document start [compound.step] fun id =>
    compound.accepts document id = true ∧ ∃ above ∈ start, document.parent? id = some above := by
  refine ⟨XPath.documentOrder
    (start.flatMap fun node => (document.children node).filter (compound.accepts document)), ?_,
    XPath.documentOrder_pairwise _, fun id => ?_⟩
  · rw [XPath.evalSteps_cons fun node _ => eval_step distinct fit.words fit.noSuffix node,
      XPath.evalSteps]
  · rw [XPath.mem_documentOrder, List.mem_flatMap]
    constructor
    · rintro ⟨above, listed, member⟩
      obtain ⟨below, accepted⟩ := List.mem_filter.mp member
      exact ⟨accepted, above, listed, ((document.mem_children_iff above id).mp below).1⟩
    · rintro ⟨accepted, above, listed, parent⟩
      have kind := not_isAttribute_of_isElement (isElement_of_accepts accepted)
      exact ⟨above, listed, List.mem_filter.mpr
        ⟨(document.mem_children_iff above id).mpr ⟨parent, kind⟩, accepted⟩⟩

/-- The steps of a compound at any depth lead to what the compound describes below the start. -/
theorem leadsTo_anyDepth : LeadsTo document start [.anyDepth, compound.step] fun id =>
    compound.accepts document id = true ∧ ∃ above ∈ start, above ∈ document.ancestors id := by
  have anyDepth (node : Nat) : XPath.Step.anyDepth.eval document node =
      .ok (XPath.Axis.select document .descendantOrSelf .node node) := by
    rw [XPath.Step.anyDepth, XPath.Step.eval_eq .nil]
    simp
  obtain ⟨nodes, evaluated, sorted, members⟩ := leadsTo_step distinct fit (XPath.documentOrder
    (start.flatMap (XPath.Axis.select document .descendantOrSelf .node)))
  refine ⟨nodes, ?_, sorted, fun id => ?_⟩
  · rw [XPath.evalSteps_cons fun node _ => anyDepth node]
    exact evaluated
  · rw [members]
    refine and_congr_right fun accepted => ?_
    constructor
    · rintro ⟨between, reached, parent⟩
      rw [XPath.mem_documentOrder, List.mem_flatMap] at reached
      obtain ⟨above, listed, within⟩ := reached
      refine ⟨above, listed, ?_⟩
      rcases List.mem_cons.mp (List.mem_filter.mp within).1 with rfl | inside
      · exact Document.parent_mem_ancestors parent
      · exact Document.mem_ancestors_trans (Document.mem_descendants_iff.mp inside).1
          (Document.parent_mem_ancestors parent)
    · rintro ⟨above, listed, outer⟩
      cases up : document.parent? id with
      | none => simp [Document.ancestors_eq_nil up] at outer
      | some parent =>
        have below : id ∈ document.children parent := (document.mem_children_iff parent id).mpr
          ⟨up, not_isAttribute_of_isElement (isElement_of_accepts accepted)⟩
        obtain ⟨known, noAttribute⟩ := of_mem_children below
        refine ⟨parent, ?_, rfl⟩
        rw [XPath.mem_documentOrder, List.mem_flatMap]
        refine ⟨above, listed, List.mem_filter.mpr ⟨?_, ?_⟩⟩
        · rw [Document.ancestors_eq up] at outer
          rcases List.mem_cons.mp outer with rfl | further
          · exact List.mem_cons_self
          · exact List.mem_cons_of_mem _ (Document.mem_descendants_iff.mpr ⟨further, noAttribute⟩)
        · cases kind : document.kind? parent with
          | none => simp [kind] at known
          | some _ => rfl

end Steps

section Chains

theorem LeadsTo.append {start : List Nat} {front back : List XPath.Step}
    {between selected : Nat → Prop} (first : LeadsTo document start front between)
    (further : ∀ nodes : List Nat, (∀ id, id ∈ nodes ↔ between id) →
      LeadsTo document nodes back selected) :
    LeadsTo document start (front ++ back) selected := by
  obtain ⟨nodes, evaluated, -, members⟩ := first
  obtain ⟨last, evaluatedLast, sorted, membersLast⟩ := further nodes members
  exact ⟨last, (XPath.evalSteps_append evaluated back).trans evaluatedLast, sorted, membersLast⟩

theorem LeadsTo.congr {start : List Nat} {steps : List XPath.Step} {first second : Nat → Prop}
    (leads : LeadsTo document start steps first) (same : ∀ id, first id ↔ second id) :
    LeadsTo document start steps second := by
  obtain ⟨nodes, evaluated, sorted, members⟩ := leads
  exact ⟨nodes, evaluated, sorted, fun id => (members id).trans (same id)⟩

theorem root_mem_ancestors_of_isElement {id : Nat} (element : document.isElement id = true) :
    Document.root ∈ document.ancestors id := by
  have known : (document.node? id).isSome = true := by
    rw [Document.isElement, Document.kind?] at element
    cases found : document.node? id with
    | none => simp [found] at element
    | some node => rfl
  obtain ⟨first, last⟩ := (Document.isSome_node? document id).mp known
  have different : id ≠ Document.root := by
    rintro rfl
    rw [Document.isElement, Document.kind?, Document.node?_root] at element
    cases element
  exact Document.root_mem_ancestors (Nat.lt_of_le_of_ne first different.symm) last

/-- The steps of compounds lead from the document node to the elements that match them. -/
theorem leadsTo_chain (distinct : ∀ id, DistinctNames (document.attributes id))
    {outward : Chain} {first : Compound} (starts : outward.getLast? = some (.descendant, first))
    (fit : ∀ member ∈ outward, member.2.Fit) :
    LeadsTo document [Document.root] (outward.reverse.flatMap steps) fun id =>
      matchesFrom document outward id = true := by
  induction outward with
  | nil => cases starts
  | cons member outer ih =>
    obtain ⟨combinator, compound⟩ := member
    rw [List.forall_mem_cons] at fit
    cases outer with
    | nil =>
      obtain ⟨rfl, rfl⟩ := Prod.mk.inj (Option.some.inj starts)
      refine (leadsTo_anyDepth distinct fit.1 [Document.root]).congr fun id => ?_
      rw [matchesFrom]
      refine and_iff_left_of_imp fun accepted => ⟨Document.root, List.mem_singleton_self _, ?_⟩
      exact root_mem_ancestors_of_isElement (isElement_of_accepts accepted)
    | cons next outer =>
      rw [List.getLast?_cons_cons] at starts
      rw [List.reverse_cons, List.flatMap_append]
      refine (ih starts fit.2).append fun nodes members => ?_
      cases combinator with
      | descendant =>
        refine (leadsTo_anyDepth distinct fit.1 nodes).congr fun id => ?_
        simp only [matchesFrom, Bool.and_eq_true, List.any_eq_true, members]
        exact and_congr_right fun _ => exists_congr fun _ => and_comm
      | child =>
        refine (leadsTo_step distinct fit.1 nodes).congr fun id => ?_
        simp only [matchesFrom, Bool.and_eq_true, Option.any_eq_true, members]
        exact and_congr_right fun _ => exists_congr fun _ => and_comm

end Chains

/-- Whatever selector compiles, its expression leads from every node of a document that was read to
the elements that the selector matches, in document order. -/
theorem evaluate_compile {source text : Text} {selector : Chain} {options : Markup.Options}
    {reading : Markup.Reading} (read : parse source = .ok selector)
    (noSuffix : ∀ member ∈ selector, member.2.hasSuffixTest = false)
    (lexical : ∀ member ∈ selector, member.2.isLexical = true)
    (parsed : Markup.parseText options text = .ok reading) (node : Nat) :
    ∃ expression nodes, compile source = .ok expression ∧
      XPath.evaluate reading.document node expression = .ok (.nodeSet nodes) ∧
      nodes.Pairwise (· < ·) ∧
      ∀ id, id ∈ nodes ↔ selects reading.document selector id = true := by
  have distinct (id : Nat) : DistinctNames (reading.document.attributes id) :=
    Document.distinct_attributes (Markup.parseText_distinct parsed) id
  obtain ⟨first, others, rfl, names⟩ := parse_shape read
  have fit : ∀ member ∈ ((.descendant, first) :: others : Chain).reverse, member.2.Fit :=
    fun member reversed =>
      have listed := List.mem_reverse.mp reversed
      ⟨names member listed, noSuffix member listed⟩
  have starts : ((.descendant, first) :: others : Chain).reverse.getLast? =
      some (.descendant, first) := by simp
  obtain ⟨nodes, evaluated, sorted, members⟩ := leadsTo_chain distinct starts fit
  rw [List.reverse_reverse] at evaluated
  refine ⟨toXPath ((.descendant, first) :: others), nodes, by rw [compile, read]; rfl, ?_, sorted,
    members⟩
  rw [List.forall_mem_cons] at lexical
  rw [XPath.evaluate, parse_toXPath lexical.1 lexical.2]
  change XPath.Expr.eval _ (Chain.expr _) = _
  simp only [Chain.expr, XPath.Expr.eval, XPath.Context.ofNode, bind, Except.bind, evaluated]
  rfl

/-- A word of a class between a child step and a step to any depth; the second `c` is no descendant
of an element of that class. -/
theorem evaluate_compile_class_between :
    ∃ reading expression nodes,
      Markup.parseText {} "<a><b class='x y'><c t='it'/></b><c t='it'/></a>".toList = .ok reading ∧
      compile "a > .y c[t^=i]".toList = .ok expression ∧
      XPath.evaluate reading.document 4 expression = .ok (.nodeSet nodes) ∧
      nodes.Pairwise (· < ·) ∧ 5 ∈ nodes ∧ 7 ∉ nodes := by
  let selector : Chain :=
    [(.descendant, { tag := some "a".toList }), (.child, { classes := ["y".toList] }),
      (.descendant, ⟨some "c".toList, [], [], [⟨"t".toList, some (.startsWith, "i".toList)⟩]⟩)]
  have read : parse "a > .y c[t^=i]".toList = .ok selector := by decide +kernel
  have selected : (Markup.parseText {}
      "<a><b class='x y'><c t='it'/></b><c t='it'/></a>".toList).toOption.map (fun reading =>
        (selects reading.document selector 5, selects reading.document selector 7)) =
      some (true, false) := by decide +kernel
  cases parsed : Markup.parseText {}
      "<a><b class='x y'><c t='it'/></b><c t='it'/></a>".toList with
  | error _ => rw [parsed] at selected; cases selected
  | ok reading =>
    rw [parsed] at selected
    obtain ⟨inner, outer⟩ := Prod.mk.inj (Option.some.inj selected)
    obtain ⟨expression, nodes, compiled, evaluated, sorted, members⟩ :=
      evaluate_compile read (by decide) (by decide +kernel) parsed 4
    refine ⟨reading, expression, nodes, rfl, compiled, evaluated, sorted, (members 5).mpr inner, ?_⟩
    rw [members, outer]
    exact Bool.false_ne_true

end XmlSelect.Selector
