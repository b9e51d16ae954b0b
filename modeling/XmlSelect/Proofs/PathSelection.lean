import Mathlib.Data.List.Perm.Subperm
import XmlSelect.Proofs.DistinctAttributes
import XmlSelect.Proofs.DoctypePlace
import XmlSelect.Proofs.DocumentOrder
import XmlSelect.Proofs.ExactIntegers
import XmlSelect.Proofs.PathEvaluation
import XmlSelect.Proofs.SubtreeIntervals
import XmlSelect.Proofs.WrittenPath
import XmlSelect.Tree.Path

/-! The path that is written for a node selects the node. Level by level, the siblings that count
for the written position are the nodes that the test in front of it lets through, so that the
position is the one that the evaluation sees. Document type declarations are written without a
position and are not told apart from the nodes beside them. -/
namespace XmlSelect

namespace XPath

variable {document : Document}

private theorem filter_zipIdx (nodes : List Nat) (start position : Nat) :
    ((nodes.zipIdx start).filter fun item => item.2 == position).map Prod.fst =
      if start ≤ position then nodes[position - start]?.toList else [] := by
  induction nodes generalizing start with
  | nil => simp
  | cons first rest ih =>
    rw [List.zipIdx_cons, List.filter_cons]
    rcases Nat.lt_trichotomy start position with before | rfl | behind
    · have next : position - start = position - (start + 1) + 1 := by omega
      rw [if_neg (by simpa using Nat.ne_of_lt before), ih, if_pos (Nat.succ_le_of_lt before),
        if_pos (Nat.le_of_lt before), next, List.getElem?_cons_succ]
    · rw [if_pos (by simp), List.map_cons, ih, if_neg (by omega), if_pos (Nat.le_refl _),
        Nat.sub_self]
      rfl
    · rw [if_neg (by simpa using Nat.ne_of_gt behind), ih, if_neg (by omega), if_neg (by omega)]

/-- A number as the predicate picks the node at that position. -/
theorem evalPredicates_position {nodes : List Nat} {position : Nat} (first : 1 ≤ position)
    (small : position < 2 ^ 53) (few : nodes.length < 2 ^ 53) :
    evalPredicates document nodes [.number (.ofNat position)] =
      .ok nodes[position - 1]?.toList := by
  have picked : filterNodes document (fun context => Expr.eval context (.number (.ofNat position)))
      nodes = .ok (((nodes.zipIdx 1).filter fun item => item.2 == position).map Prod.fst) := by
    refine filterNodes_of_holdsAt fun item member => ⟨_, by rw [Expr.eval], ?_⟩
    have within := (List.mem_zipIdx member).2.1
    have same := Double.equal_ofNat_iff small (show item.2 < 2 ^ 53 by omega)
    refine Bool.eq_iff_iff.mpr (same.trans ?_)
    rw [beq_iff_eq, eq_comm]
  rw [filter_zipIdx, if_pos first] at picked
  rw [evalPredicates, picked]
  simp only [bind, Except.bind, evalPredicates]

end XPath

namespace NodeKind

/-- What the step to a node selects by; none for the document node. -/
def stepTest? : NodeKind → Option (XPath.Axis × XPath.NodeTest)
  | document => none
  | element name _ => some (.child, .name name)
  | attr self => some (.attributes, .name self.name)
  | leaf (.text _) | leaf (.cdata _) => some (.child, .text)
  | leaf (.comment _) => some (.child, .comment)
  | leaf (.instruction ..) => some (.child, .instruction none)
  | leaf (.doctype ..) => some (.child, .node)

/-- The name that a step to a node holds. -/
def stepName? : NodeKind → Option Text
  | element name _ => some name
  | attr self => some self.name
  | _ => none

/-- The siblings that count for a position are the children that the test lets through. -/
theorem stepTest?_of_counted {kind : NodeKind} {text : Text} {alike : NodeKind → Bool}
    (counted : kind.pathTest? = some (text, some alike)) :
    (kind.isAttribute = false ∧ kind.isDoctype = false ∧ alike kind = true) ∧
      ∃ test, kind.stepTest? = some (.child, test) ∧
        ∀ other, XPath.NodeTest.accepts .child other test = alike other := by
  cases kind with
  | document => cases counted
  | element name attributes =>
    cases counted
    exact ⟨⟨rfl, rfl, by simp [isElement, name?]⟩, _, rfl, fun other => rfl⟩
  | attr => cases counted
  | leaf self =>
    cases self <;> cases counted
    · exact ⟨⟨rfl, rfl, rfl⟩, _, rfl, fun other => rfl⟩
    · exact ⟨⟨rfl, rfl, rfl⟩, _, rfl, fun other => rfl⟩
    · exact ⟨⟨rfl, rfl, rfl⟩, _, rfl, fun other => rfl⟩
    · exact ⟨⟨rfl, rfl, rfl⟩, _, rfl, fun other => Bool.and_true _⟩

/-- A test with predicates behind it denotes the step by that test. -/
theorem written_step {kind : NodeKind} (named : ∀ name ∈ kind.stepName?, XPath.IsQualified name)
    {texts : List Text} {values : List XPath.Expr}
    (written : List.Forall₂ (XPath.Written XPath.ladder 0) texts values) :
    Option.Rel (XPath.WrittenStep 1)
      (kind.pathTest?.map fun test => test.1 ++ XPath.bracketedAll texts)
      (kind.stepTest?.map fun test => .mk test.1 test.2 values) := by
  cases kind with
  | document => exact .none
  | element name attributes => exact .some (.child (.qualified (named name rfl)) written)
  | attr self => exact .some (.attribute (.qualified (named self.name rfl)) written)
  | leaf self =>
    cases self with
    | text => exact .some (.child (.nodeType .text) written)
    | cdata => exact .some (.child (.nodeType .text) written)
    | comment => exact .some (.child (.nodeType .comment) written)
    | instruction => exact .some (.child (.nodeType .instruction) written)
    | doctype => exact .some (.child (.nodeType .node) written)

end NodeKind

namespace Document

variable {document : Document} {id parent : Nat}

/-- The siblings that count for the position of a node. -/
def peers (document : Document) (id : Nat) (alike : NodeKind → Bool) : List Nat :=
  (((document.parent? id).map document.children).getD []).filter fun sibling =>
    (document.kind? sibling).any alike

/-- The position in the path to a node, if there is one. -/
def position? (document : Document) (id : Nat) : Option Nat :=
  match (document.kind? id).bind NodeKind.pathTest? with
  | some (_, some alike) =>
    if 1 < (document.peers id alike).length then
      some (((document.peers id alike).takeWhile (· < id)).length + 1) else none
  | _ => none

/-- The predicates of the step to a node. -/
def stepPredicates (document : Document) (id : Nat) : List XPath.Expr :=
  (document.position? id).toList.map fun position => .number (.ofNat position)

/-- The step that the path to a node ends with; none for the document node. -/
def step? (document : Document) (id : Nat) : Option XPath.Step :=
  ((document.kind? id).bind NodeKind.stepTest?).map fun test =>
    .mk test.1 test.2 (document.stepPredicates id)

/-- The steps from the document node to a node. -/
def steps (document : Document) (id : Nat) : List XPath.Step :=
  (id :: document.ancestors id).reverse.filterMap document.step?

/-- Whether the lexer accepts the names on the path to a node. -/
def lexesNames (document : Document) (id : Nat) : Bool :=
  (id :: document.ancestors id).all fun node =>
    ((document.kind? node).bind NodeKind.stepName?).all XPath.lexesName

theorem pathStep?_eq (document : Document) (id : Nat) :
    document.pathStep? id = ((document.kind? id).bind NodeKind.pathTest?).map fun test =>
      test.1 ++ XPath.bracketedAll ((document.position? id).toList.map Text.ofNat) := by
  simp only [pathStep?, position?, peers]
  split
  · rename_i none
    rw [none]
    rfl
  · rename_i alone
    rw [alone]
    simp [XPath.bracketedAll]
  · rename_i counted
    rw [counted]
    split <;> simp [XPath.bracketedAll, *]

/-- What is written for a step denotes it. -/
theorem written_step
    (named : ((document.kind? id).bind NodeKind.stepName?).all XPath.lexesName = true) :
    Option.Rel (XPath.WrittenStep 1) (document.pathStep? id) (document.step? id) := by
  have written : List.Forall₂ (XPath.Written XPath.ladder 0)
      ((document.position? id).toList.map Text.ofNat) (document.stepPredicates id) := by
    refine List.forall₂_map_left_iff.mpr (List.forall₂_map_right_iff.mpr
      (List.forall₂_same.mpr fun position _ => ?_))
    rw [← Double.ofDigits_ofNat]
    exact (XPath.Written.digits position).climb XPath.ladder
  rw [pathStep?_eq, step?]
  cases kind : document.kind? id with
  | none => exact .none
  | some own =>
    rw [kind, Option.bind_some, Option.all_eq_true] at named
    exact own.written_step (fun name member => XPath.lexesName_iff.mp (named name member)) written

/-- The path that is written for a node is read as the steps to it. -/
theorem parse_path (named : document.lexesNames id = true) :
    XPath.parse (document.path id) = .ok (.rootPath (document.steps id)) := by
  have written : List.Forall₂ (XPath.WrittenStep 1)
      ((id :: document.ancestors id).reverse.filterMap document.pathStep?)
      (document.steps id) := by
    refine List.rel_filterMap (R := fun node other => node = other ∧
      node ∈ id :: document.ancestors id) ?_ ?_
    · rintro node _ ⟨rfl, member⟩
      exact written_step (List.all_eq_true.mp named node member)
    · exact List.forall₂_same.mpr fun node member => ⟨rfl, List.mem_reverse.mp member⟩
  rw [path]
  split
  · rename_i none
    rw [none] at written
    rw [List.forall₂_nil_left_iff.mp written]
    exact XPath.parse_slash
  · rename_i some
    exact XPath.parse_steps (by decide) some written

/-- What the path to a node selects: the node itself, but for a document type declaration all that is
beside it, too. -/
def pathTargets (document : Document) (id : Nat) : List Nat :=
  if document.isDoctype id then ((document.parent? id).map document.children).getD [] else [id]

/-- Every child passes the test for any node. -/
theorem select_node (document : Document) (parent : Nat) :
    XPath.Axis.child.select document .node parent = document.children parent := by
  refine List.filter_eq_self.mpr fun child member => ?_
  have above := ((mem_children_iff ..).mp member).1
  obtain ⟨node, found, -⟩ := Option.bind_eq_some_iff.mp above
  rw [kind?, found]
  rfl

theorem pathTargets_pairwise (document : Document) (id : Nat) :
    (document.pathTargets id).Pairwise (· < ·) := by
  rw [pathTargets]
  split
  · cases document.parent? id with
    | none => exact .nil
    | some parent => exact children_pairwise document parent
  · exact List.pairwise_singleton ..

section Level

variable (above : document.parent? id = some parent)

include above

theorem peers_eq (alike : NodeKind → Bool) :
    document.peers id alike =
      (document.children parent).filter fun sibling => (document.kind? sibling).any alike := by
  rw [peers, above]
  rfl

/-- The node at its position among its peers is the node itself. -/
theorem peers_getElem? {alike : NodeKind → Bool} (own : (document.kind? id).any alike = true)
    (inner : document.isAttribute id = false) :
    (document.peers id alike)[((document.peers id alike).takeWhile (· < id)).length]? = some id := by
  have member : id ∈ document.peers id alike := by
    rw [peers_eq above]
    exact List.mem_filter.mpr ⟨(mem_children_iff ..).mpr ⟨above, inner⟩, own⟩
  have sorted : (document.peers id alike).Pairwise (· < ·) := by
    rw [peers_eq above]
    exact (children_pairwise document parent).filter _
  obtain ⟨front, back, split⟩ := List.append_of_mem member
  rw [split, List.pairwise_append] at sorted
  have before : ∀ other ∈ front, decide (other < id) = true := fun other member =>
    decide_eq_true (sorted.2.2 other member id List.mem_cons_self)
  rw [split, List.takeWhile_append_of_pos before, List.takeWhile_cons_of_neg (by simp),
    List.append_nil, List.getElem?_append_right (Nat.le_refl _), Nat.sub_self]
  rfl

theorem length_peers_le (alike : NodeKind → Bool) :
    (document.peers id alike).length ≤ document.nodeCount := by
  have passes : document.peers id alike ⊆ List.range' 1 document.nodeCount := fun other member => by
    rw [peers_eq above] at member
    have bounds := child_bounds (List.mem_filter.mp member).1
    exact List.mem_range'_1.mpr (by omega)
  have distinct : (document.peers id alike).Nodup := by
    rw [peers_eq above]
    exact ((children_pairwise document parent).filter _).imp Nat.ne_of_lt
  have fewer := (List.subperm_of_subset distinct passes).length_le
  rwa [List.length_range'] at fewer

/-- The predicates of a step leave the node alone of its peers. -/
theorem evalPredicates_peers (few : document.nodeCount < 2 ^ 53) {text : Text}
    {alike : NodeKind → Bool}
    (counted : (document.kind? id).bind NodeKind.pathTest? = some (text, some alike))
    (own : (document.kind? id).any alike = true) (inner : document.isAttribute id = false) :
    XPath.evalPredicates document (document.peers id alike) (document.stepPredicates id) =
      .ok [id] := by
  have place := peers_getElem? above own inner
  have most := length_peers_le above alike
  have within := (List.getElem?_eq_some_iff.mp place).1
  rw [stepPredicates, position?, counted]
  dsimp only
  split
  · rw [Option.toList_some, List.map_singleton, XPath.evalPredicates_position (by omega) (by omega)
      (by omega), Nat.add_sub_cancel, place]
    rfl
  · rename_i alone
    obtain ⟨only, single⟩ := List.length_eq_one_iff.mp (Nat.le_antisymm (Nat.le_of_not_lt alone)
      (Nat.lt_of_le_of_lt (Nat.zero_le _) within))
    rw [single] at place
    have same := List.mem_singleton.mp (List.mem_of_getElem? place)
    rw [Option.toList_none, List.map_nil, XPath.evalPredicates, single, same]

/-- The place of an attribute among those of its element. -/
theorem exists_index {self : Attribute} (kind : document.kind? id = some (.attr self)) :
    ∃ index, (document.attributes parent)[index]? = some self ∧ id = parent + 1 + index := by
  have own : document.isAttribute id = true := by rw [isAttribute, kind]; rfl
  obtain ⟨element, index, other, here, listed, place⟩ := attribute_place own
  rw [parent?, here] at above
  cases above
  rw [kind?, here] at kind
  cases kind
  exact ⟨index, listed, place⟩

/-- Attributes of one element that have the same name are the same. -/
theorem attribute_unique (distinct : DistinctNames (document.attributes parent)) {other : Nat}
    (above' : document.parent? other = some parent) {self another : Attribute}
    (kind : document.kind? id = some (.attr self))
    (kind' : document.kind? other = some (.attr another)) (named : another.name = self.name) :
    other = id := by
  obtain ⟨index, here, place⟩ := exists_index above kind
  obtain ⟨index', here', place'⟩ := exists_index above' kind'
  have within := (List.getElem?_eq_some_iff.mp here).1
  have same : ((document.attributes parent).map (·.name))[index]? =
      ((document.attributes parent).map (·.name))[index']? := by
    rw [List.getElem?_map, List.getElem?_map, here, here', Option.map_some, Option.map_some, named]
  have := (List.getElem?_inj (by simpa using within) distinct).mp same
  omega

/-- The test of a name selects one attribute of an element. -/
theorem select_attribute (distinct : DistinctNames (document.attributes parent)) {self : Attribute}
    (kind : document.kind? id = some (.attr self)) :
    XPath.Axis.attributes.select document (.name self.name) parent = [id] := by
  have own : document.isAttribute id = true := by rw [isAttribute, kind]; rfl
  have listed : id ∈ XPath.Axis.attributes.select document (.name self.name) parent := by
    refine List.mem_filter.mpr ⟨(mem_attributeNodes_iff ..).mpr ⟨above, own⟩, ?_⟩
    simp [kind, XPath.NodeTest.accepts, XPath.Axis.isPrincipal, NodeKind.isAttribute,
      NodeKind.name?]
  have once : (XPath.Axis.attributes.select document (.name self.name) parent).Nodup :=
    List.Nodup.filter _ List.nodup_range'
  by_contra others
  rcases (once.ne_singleton_iff id).mp others with none | ⟨other, member, different⟩
  · exact List.ne_nil_of_mem listed none
  · obtain ⟨otherListed, accepted⟩ := List.mem_filter.mp member
    obtain ⟨kind', found, accepted⟩ := (Option.any_eq_true ..).mp accepted
    cases kind' with
    | attr another =>
      have named : another.name = self.name := by
        simpa [XPath.NodeTest.accepts, XPath.Axis.isPrincipal, NodeKind.isAttribute,
          NodeKind.name?] using accepted
      have above' := ((mem_attributeNodes_iff ..).mp otherListed).1
      exact different (attribute_unique above distinct above' kind found named)
    | _ => cases accepted

theorem exists_step_counted (few : document.nodeCount < 2 ^ 53) {kind : NodeKind} {text : Text}
    {alike : NodeKind → Bool} (here : document.kind? id = some kind)
    (counted : kind.pathTest? = some (text, some alike)) :
    ∃ step, document.step? id = some step ∧
      step.eval document parent = .ok (document.pathTargets id) := by
  obtain ⟨⟨inner, plain, own⟩, test, selects, accepts⟩ := NodeKind.stepTest?_of_counted counted
  have alone : document.pathTargets id = [id] := by
    rw [pathTargets, isDoctype, here, Option.any_some, plain]
    rfl
  have select : XPath.Axis.child.select document test parent = document.peers id alike := by
    rw [peers_eq above, XPath.Axis.select]
    simp only [accepts]
    rfl
  refine ⟨_, by rw [step?, here, Option.bind_some, selects]; rfl, ?_⟩
  rw [XPath.Step.eval, select, alone]
  exact evalPredicates_peers above few (by rw [here]; exact counted) (by rw [here]; exact own)
    (by rw [isAttribute, here]; exact inner)

/-- The step to a node leads from the node above to what the path selects. -/
theorem exists_step (few : document.nodeCount < 2 ^ 53)
    (distinct : DistinctNames (document.attributes parent)) :
    ∃ step, document.step? id = some step ∧
      step.eval document parent = .ok (document.pathTargets id) := by
  obtain ⟨node, found, -⟩ := Option.bind_eq_some_iff.mp above
  have here : document.kind? id = some node.kind := by rw [kind?, found]; rfl
  cases kind : node.kind with
  | document =>
    rw [kind] at here
    have first := (kind?_eq_document_iff ..).mp here
    have := parent?_lt above
    omega
  | element => exact exists_step_counted above few here (by rw [kind]; rfl)
  | attr self =>
    rw [kind] at here
    refine ⟨.mk .attributes (.name self.name) [], ?_, ?_⟩
    · rw [step?, stepPredicates, position?, here]
      rfl
    · rw [XPath.Step.eval, select_attribute above distinct here, XPath.evalPredicates, pathTargets,
        isDoctype, here]
      rfl
  | leaf self =>
    cases self with
    | doctype =>
      rw [kind] at here
      refine ⟨.mk .child .node [], ?_, ?_⟩
      · rw [step?, stepPredicates, position?, here]
        rfl
      · rw [XPath.Step.eval, XPath.evalPredicates, select_node, pathTargets, isDoctype, here, above]
        rfl
    | _ => exact exists_step_counted above few here (by rw [kind]; rfl)

end Level

/-- What has something below it can have children. -/
theorem not_isDoctype_of_parent (above : document.parent? id = some parent) :
    document.isDoctype parent = false := by
  by_contra declares
  obtain ⟨kind, here, declares⟩ := (Option.any_eq_true ..).mp (Bool.of_not_eq_false declares)
  cases kind with
  | leaf self =>
    obtain ⟨_, found⟩ := leaf_alone here
    cases isOwn : document.isAttribute id with
    | false =>
      have listed := (mem_children_iff ..).mpr ⟨above, isOwn⟩
      rw [children_eq found] at listed
      cases listed
    | true =>
      have listed := (mem_attributeNodes_iff ..).mpr ⟨above, isOwn⟩
      rw [attributeNodes, attributes_eq found] at listed
      cases listed
  | _ => cases declares

theorem evalSteps_root (document : Document) :
    XPath.evalSteps document [root] (document.steps root) = .ok (document.pathTargets root) := by
  have kind : document.kind? root = some .document := by rw [kind?, node?_root]; rfl
  have top : document.parent? root = none := by rw [parent?, node?_root]; rfl
  have none : document.steps root = [] := by
    rw [steps, ancestors_eq_nil top]
    simp [step?, kind, NodeKind.stepTest?]
  rw [none, XPath.evalSteps, pathTargets, isDoctype, kind]
  rfl

/-- The steps to a node lead from the document node to what the path selects. -/
theorem evalSteps_steps (few : document.nodeCount < 2 ^ 53)
    (distinct : ∀ element, DistinctNames (document.attributes element))
    (known : (document.node? id).isSome = true) :
    XPath.evalSteps document [root] (document.steps id) = .ok (document.pathTargets id) := by
  obtain ⟨first, last⟩ := (isSome_node? document id).mp known
  -- The node above has a smaller number and is no doctype, so that its path leads to it alone.
  induction id using Nat.strongRecOn with
  | ind id ih =>
    rcases Nat.eq_or_lt_of_le first with rfl | below
    · exact evalSteps_root document
    · obtain ⟨parent, above⟩ := parent_of_known below last
      have lower := parent?_lt above
      obtain ⟨step, found, selects⟩ := exists_step above few (distinct parent)
      have all : document.steps id = document.steps parent ++ [step] := by
        rw [steps, ancestors_eq above, List.reverse_cons, List.filterMap_append]
        simp [steps, found]
      have before : XPath.evalSteps document [root] (document.steps parent) = .ok [parent] := by
        rw [ih parent lower.2 ((isSome_node? ..).mpr (by omega)) lower.1 (by omega), pathTargets,
          not_isDoctype_of_parent above]
        rfl
      have onward (node : Nat) (member : node ∈ [parent]) :
          step.eval document node = .ok (document.pathTargets id) :=
        (List.mem_singleton.mp member) ▸ selects
      rw [all, XPath.evalSteps_append before, XPath.evalSteps_cons onward, XPath.evalSteps,
        List.flatMap_singleton, XPath.documentOrder_eq_self (pathTargets_pairwise document id)]

/-- Where the path to a node leads, from whatever node it is evaluated. -/
theorem evaluate_path_eq (few : document.nodeCount < 2 ^ 53)
    (distinct : ∀ element, DistinctNames (document.attributes element))
    (known : (document.node? id).isSome = true) (named : document.lexesNames id = true)
    (start : Nat) :
    XPath.evaluate document start (document.path id) =
      .ok (.nodeSet (document.pathTargets id)) := by
  rw [XPath.evaluate, parse_path named]
  simp only [Except.mapError, bind, Except.bind]
  rw [XPath.Expr.eval, XPath.Context.ofNode, evalSteps_steps few distinct known]
  rfl

end Document

namespace Markup

open Document (root)

variable {options : Options} {source : Text} {reading : Reading} {id : Nat}

/-- The path to a node leads to the node, and to no other one unless the node is a document type
declaration. -/
theorem evaluate_path (read : parseText options source = .ok reading)
    (known : (reading.document.node? id).isSome = true)
    (named : reading.document.lexesNames id = true) (few : reading.document.nodeCount < 2 ^ 53) :
    ∃ nodes, XPath.evaluate reading.document root (reading.document.path id) =
        .ok (.nodeSet nodes) ∧
      id ∈ nodes ∧ (nodes = [id] ↔ reading.document.isDoctype id = false) := by
  have distinct := Document.distinct_attributes (parseText_distinct read)
  refine ⟨_, Document.evaluate_path_eq few distinct known named root, ?_⟩
  cases declares : reading.document.isDoctype id with
  | false => simp [Document.pathTargets, declares]
  | true =>
    obtain ⟨member, element, listed, different⟩ := parseText_doctype read declares
    have above := ((Document.mem_children_iff ..).mp member).1
    have all : reading.document.pathTargets id = reading.document.children root := by
      rw [Document.pathTargets, declares, above]
      rfl
    rw [all]
    refine ⟨member, fun alone => ?_, nofun⟩
    rw [alone] at listed
    exact absurd (List.mem_singleton.mp listed) different

/-- An attribute of an element that stands behind another one of its name. -/
theorem evaluate_path_attribute : ∃ reading,
    parseText {} "<r><a/>x<a i='1'/></r>".toList = .ok reading ∧
      reading.document.path 6 = "/r/a[2]/@i".toList ∧
      (reading.document.node? 6).isSome = true ∧ reading.document.lexesNames 6 = true ∧
      reading.document.nodeCount < 2 ^ 53 ∧
      ∃ nodes, XPath.evaluate reading.document root (reading.document.path 6) =
          .ok (.nodeSet nodes) ∧
        6 ∈ nodes ∧ (nodes = [6] ↔ reading.document.isDoctype 6 = false) := by
  have facts : (parseText {} "<r><a/>x<a i='1'/></r>".toList).toOption.any (fun reading =>
      reading.document.path 6 == "/r/a[2]/@i".toList && (reading.document.node? 6).isSome &&
        reading.document.lexesNames 6 && decide (reading.document.nodeCount < 2 ^ 53)) = true := by
    decide +kernel
  obtain ⟨reading, read, facts⟩ := exists_ok_of_any facts
  simp only [Bool.and_eq_true, beq_iff_eq, decide_eq_true_eq] at facts
  obtain ⟨⟨⟨path, known⟩, named⟩, few⟩ := facts
  exact ⟨reading, read, path, known, named, few, evaluate_path read known named few⟩

/-- The path to a document type declaration leads to the nodes on both sides of it, too, and the
first of these is another one. -/
theorem doctype_path_selects_others : ∃ reading,
    parseText {} "<!--c--><!DOCTYPE a><a/>".toList = .ok reading ∧
      (reading.document.node? 3).isSome = true ∧ reading.document.lexesNames 3 = true ∧
      reading.document.nodeCount < 2 ^ 53 ∧ reading.document.path 3 = "/node()".toList ∧
      XPath.evaluate reading.document root (reading.document.path 3) =
        .ok (.nodeSet [2, 3, 4]) := by
  have facts : (parseText {} "<!--c--><!DOCTYPE a><a/>".toList).toOption.any (fun reading =>
      (reading.document.node? 3).isSome && reading.document.lexesNames 3 &&
        decide (reading.document.nodeCount < 2 ^ 53) &&
        reading.document.path 3 == "/node()".toList &&
        reading.document.pathTargets 3 == [2, 3, 4]) = true := by
    decide +kernel
  obtain ⟨reading, read, facts⟩ := exists_ok_of_any facts
  simp only [Bool.and_eq_true, beq_iff_eq, decide_eq_true_eq] at facts
  obtain ⟨⟨⟨⟨known, named⟩, few⟩, path⟩, targets⟩ := facts
  have distinct := Document.distinct_attributes (parseText_distinct read)
  have leads := Document.evaluate_path_eq few distinct known named root
  exact ⟨reading, read, known, named, few, path, targets ▸ leads⟩

end Markup

end XmlSelect
