import Mathlib.Data.List.Nodup
import Mathlib.Data.List.TakeWhile
import XmlSelect.Markup.Parse
import XmlSelect.Proofs.DepthFirstWalk
import XmlSelect.XPath.Eval

/-! Five axes divide a document: seen from a node, every node is the node itself, above it, below
it, in front of it or behind it. Only the document node has the nodes below it in front of it,
too. -/
namespace XmlSelect

namespace Document

variable {document : Document} {node other : Nat}

section Order

theorem descendants_pairwise (document : Document) (node : Nat) :
    (document.descendants node).Pairwise (· < ·) := by
  rw [descendants_eq]
  exact nodesBetween_pairwise document _ _

theorem ancestors_pairwise (document : Document) (node : Nat) :
    (document.ancestors node).Pairwise (· > ·) := by
  induction node using Nat.strongRecOn with
  | ind node ih =>
    cases up : document.parent? node with
    | none =>
      rw [ancestors_eq_nil up]
      exact List.Pairwise.nil
    | some parent =>
      rw [ancestors_eq up]
      refine List.pairwise_cons.mpr ⟨fun outer above => ?_, ih parent (parent?_lt up).2⟩
      exact (interval_of_mem_ancestors above).1

theorem preceding_pairwise (document : Document) (node : Nat) :
    (document.preceding node).Pairwise (· > ·) := by
  refine List.pairwise_reverse.mpr (List.Pairwise.filter _ ?_)
  exact (descendants_pairwise document root).sublist (List.takeWhile_sublist _)

/-- The part of an ascending list in front of one of its members. -/
private theorem mem_takeWhile_ne {numbers : List Nat} (sorted : numbers.Pairwise (· < ·))
    (member : node ∈ numbers) :
    other ∈ numbers.takeWhile (· != node) ↔ other ∈ numbers ∧ other < node := by
  obtain ⟨front, back, rfl⟩ := List.append_of_mem member
  obtain ⟨-, behind, between⟩ := List.pairwise_append.mp sorted
  have before : ∀ number ∈ front, (number != node) = true := fun number inFront =>
    bne_iff_ne.mpr (Nat.ne_of_lt (between number inFront node List.mem_cons_self))
  rw [List.takeWhile_append_of_pos before, List.takeWhile_cons_of_neg (by simp), List.append_nil]
  constructor
  · intro inFront
    exact ⟨List.mem_append_left _ inFront, between other inFront node List.mem_cons_self⟩
  · rintro ⟨listed, lower⟩
    rcases List.mem_append.mp listed with inFront | inBack
    · exact inFront
    · rcases List.mem_cons.mp inBack with rfl | further
      · exact absurd lower (Nat.lt_irrefl _)
      · exact absurd lower (Nat.lt_asymm ((List.pairwise_cons.mp behind).1 other further))

end Order

section Members

/-- In front of a node other than the document node are the nodes that end before it. -/
theorem mem_preceding (inner : 1 < node) (known : node ≤ document.nodeCount)
    (nodeKind : document.isAttribute node = false) (kind : document.isAttribute other = false) :
    other ∈ document.preceding node ↔
      1 < other ∧ other < node ∧ document.lastInside other < node := by
  have passed : node ∈ document.descendants root := by
    rw [mem_descendants_iff_bounds nodeKind, lastInside_root]
    exact ⟨inner, known⟩
  rw [preceding]
  simp only [nodeKind, Bool.false_eq_true, if_false]
  rw [List.mem_reverse, List.mem_filter, mem_takeWhile_ne (descendants_pairwise ..) passed,
    mem_descendants_iff_bounds kind, lastInside_root]
  simp only [surrounds, root, Bool.not_eq_true', Bool.and_eq_false_iff, decide_eq_false_iff_not]
  omega

/-- The walk for the document node never comes to it, so that it passes all other nodes. -/
theorem preceding_root (document : Document) :
    document.preceding root = (document.descendants root).reverse := by
  have kind : document.isAttribute root = false := by
    rw [isAttribute, kind?, node?_root]
    rfl
  have above : ∀ inside ∈ document.descendants root, root < inside := fun inside member => by
    rw [descendants_eq] at member
    have := (List.mem_range'_1.mp (List.mem_filter.mp member).1).1
    omega
  have all : (document.descendants root).takeWhile (· != root) = document.descendants root :=
    List.takeWhile_eq_self_iff.mpr fun inside member =>
      bne_iff_ne.mpr (Nat.ne_of_gt (above inside member))
  rw [preceding]
  simp only [kind, Bool.false_eq_true, if_false, all]
  rw [List.filter_eq_self.mpr]
  intro inside member
  have := above inside member
  simp only [surrounds, Bool.not_eq_true', Bool.and_eq_false_iff, decide_eq_false_iff_not]
  omega

end Members

/-- The axes that divide a document. -/
def divisions : List XPath.Axis := [.self, .ancestor, .descendant, .preceding, .following]

/-- Seen from one node, another one is on exactly one of the dividing axes, and there once. -/
def ListedOnce (document : Document) (node other : Nat) : Prop :=
  ∃ axis ∈ divisions, (axis.nodes document node).count other = 1 ∧
    ∀ another ∈ divisions, other ∈ another.nodes document node → another = axis

/-- No axis of the five lists a node twice. -/
theorem nodup_nodes {axis : XPath.Axis} (member : axis ∈ divisions) :
    (axis.nodes document node).Nodup := by
  simp only [divisions, List.mem_cons, List.not_mem_nil, or_false] at member
  rcases member with rfl | rfl | rfl | rfl | rfl
  · exact List.nodup_singleton node
  · exact (ancestors_pairwise document node).imp Nat.ne_of_gt
  · exact (descendants_pairwise document node).imp Nat.ne_of_lt
  · exact (preceding_pairwise document node).imp Nat.ne_of_gt
  · exact (nodesBetween_pairwise document _ _).imp Nat.ne_of_lt

/-- A node that is on one of the axes and on no other one. -/
theorem listedOnce_of_mem (axis : XPath.Axis) (member : axis ∈ divisions)
    (listed : other ∈ axis.nodes document node)
    (others : ∀ another ∈ divisions, another ≠ axis → other ∉ another.nodes document node) :
    document.ListedOnce node other := by
  refine ⟨axis, member, List.count_eq_one_of_mem (nodup_nodes member) listed, ?_⟩
  intro another division present
  by_contra different
  exact others another division different present

section Divisions

variable (nodeKind : document.isAttribute node = false)
  (kind : document.isAttribute other = false)
include nodeKind kind

/-- A node other than the document node divides the document by where the others end. -/
theorem listedOnce_of_ne_root (inner : 1 < node) (known : node ≤ document.nodeCount)
    (otherFirst : 1 ≤ other) (otherKnown : other ≤ document.nodeCount) :
    document.ListedOnce node other := by
  have itself : other ∈ XPath.Axis.self.nodes document node ↔ other = node :=
    List.mem_singleton
  have above : other ∈ XPath.Axis.ancestor.nodes document node ↔
      other < node ∧ node ≤ document.lastInside other := mem_ancestors_iff nodeKind
  have below : other ∈ XPath.Axis.descendant.nodes document node ↔
      node < other ∧ other ≤ document.lastInside node := mem_descendants_iff_bounds kind
  have front : other ∈ XPath.Axis.preceding.nodes document node ↔
      1 < other ∧ other < node ∧ document.lastInside other < node :=
    mem_preceding inner known nodeKind kind
  have behind : other ∈ XPath.Axis.following.nodes document node ↔
      document.lastInside node < other ∧ other ≤ document.nodeCount := mem_nodesBetween kind
  have ownEnd := le_lastInside document node
  have whole : other = 1 → document.lastInside other = document.nodeCount := by
    rintro rfl
    exact lastInside_root document
  have alone (axis : XPath.Axis) (member : axis ∈ divisions)
      (listed : other ∈ axis.nodes document node) : document.ListedOnce node other := by
    refine listedOnce_of_mem axis member listed fun another division different present => ?_
    simp only [divisions, List.mem_cons, List.not_mem_nil, or_false] at member division
    rcases member with rfl | rfl | rfl | rfl | rfl <;>
      rcases division with rfl | rfl | rfl | rfl | rfl <;>
      first
        | exact different rfl
        | (simp only [itself, above, below, front, behind] at listed present; omega)
  rcases Nat.lt_trichotomy other node with lower | same | higher
  · by_cases ends : document.lastInside other < node
    · exact alone .preceding (by decide) (front.mpr ⟨by omega, lower, ends⟩)
    · exact alone .ancestor (by decide) (above.mpr ⟨lower, Nat.le_of_not_lt ends⟩)
  · exact alone .self (by decide) (itself.mpr same)
  · by_cases within : other ≤ document.lastInside node
    · exact alone .descendant (by decide) (below.mpr ⟨higher, within⟩)
    · exact alone .following (by decide)
        (behind.mpr ⟨Nat.lt_of_not_le within, otherKnown⟩)

end Divisions

/-- From the document node, each other node is both below and in front. -/
theorem mem_of_root {axis : XPath.Axis} (below : axis = .descendant ∨ axis = .preceding)
    (inner : 1 < other) (known : other ≤ document.nodeCount)
    (kind : document.isAttribute other = false) : other ∈ axis.nodes document root := by
  have inside : other ∈ document.descendants root := by
    rw [mem_descendants_iff_bounds kind, lastInside_root]
    exact ⟨inner, known⟩
  rcases below with rfl | rfl
  · exact inside
  · rw [XPath.Axis.nodes, preceding_root]
    exact List.mem_reverse.mpr inside

theorem not_listedOnce_root (inner : 1 < other) (known : other ≤ document.nodeCount)
    (kind : document.isAttribute other = false) : ¬document.ListedOnce root other := by
  rintro ⟨axis, -, -, alone⟩
  have descendant := alone .descendant (by decide) (mem_of_root (.inl rfl) inner known kind)
  have preceding := alone .preceding (by decide) (mem_of_root (.inr rfl) inner known kind)
  cases descendant.trans preceding.symm

theorem root_listedOnce_root (document : Document) : document.ListedOnce root root := by
  have kind : document.isAttribute root = false := by
    rw [isAttribute, kind?, node?_root]
    rfl
  refine listedOnce_of_mem .self (by decide) List.mem_cons_self ?_
  intro another division different present
  simp only [divisions, List.mem_cons, List.not_mem_nil, or_false] at division
  rcases division with rfl | rfl | rfl | rfl | rfl
  · exact different rfl
  · exact Nat.lt_irrefl _ (interval_of_mem_ancestors present).1
  · exact Nat.lt_irrefl _ ((mem_descendants_iff_bounds kind).mp present).1
  · rw [XPath.Axis.nodes, preceding_root, List.mem_reverse] at present
    exact Nat.lt_irrefl _ ((mem_descendants_iff_bounds kind).mp present).1
  · obtain ⟨beyond, within⟩ := (mem_nodesBetween kind).mp present
    rw [lastInside_root] at beyond
    omega

/-- Each node is on exactly one of the five axes of a node, and there once; but all nodes below the
document node are on two of its axes. -/
theorem listedOnce_iff (nodeKnown : (document.node? node).isSome = true)
    (nodeKind : document.isAttribute node = false)
    (known : (document.node? other).isSome = true)
    (kind : document.isAttribute other = false) :
    document.ListedOnce node other ↔ (node = root → other = root) := by
  obtain ⟨nodeFirst, nodeLast⟩ := (isSome_node? document node).mp nodeKnown
  obtain ⟨first, last⟩ := (isSome_node? document other).mp known
  rcases Nat.eq_or_lt_of_le nodeFirst with rfl | inner
  · constructor
    · intro once _
      by_contra different
      have below : 1 < other := Nat.lt_of_le_of_ne first (Ne.symm different)
      exact not_listedOnce_root below last kind once
    · intro isRoot
      obtain rfl := isRoot rfl
      exact root_listedOnce_root document
  · constructor
    · rintro - rfl
      exact absurd inner (Nat.lt_irrefl _)
    · intro _
      exact listedOnce_of_ne_root nodeKind kind inner nodeLast first last

/-- A text in front of an element, the attribute of the element around them apart. -/
theorem listedOnce_iff_siblings : ∃ reading,
    Markup.parseText {} "<a b='c'>t<d/></a>".toList = .ok reading ∧
      reading.document.isAttribute 3 = true ∧
      (reading.document.ListedOnce 5 4 ↔ (5 = root → 4 = root)) := by
  have kinds : (Markup.parseText {} "<a b='c'>t<d/></a>".toList).toOption.map (fun reading =>
      ([5, 4].map fun id => (reading.document.node? id).isSome,
        [5, 4, 3].map reading.document.isAttribute)) =
      some ([true, true], [false, false, true]) := by decide +kernel
  cases read : Markup.parseText {} "<a b='c'>t<d/></a>".toList with
  | error _ => rw [read] at kinds; cases kinds
  | ok reading =>
    simp only [read, Except.toOption, Option.map_some, List.map_cons, List.map_nil,
      Option.some.injEq, Prod.mk.injEq, List.cons.injEq, and_true] at kinds
    obtain ⟨⟨known, otherKnown⟩, kind, otherKind, own⟩ := kinds
    exact ⟨reading, rfl, own, listedOnce_iff known kind otherKnown otherKind⟩

/-- The one element of a document is below the document node and in front of it. -/
theorem root_divides_twice : ∃ reading,
    Markup.parseText {} "<a/>".toList = .ok reading ∧
      reading.document.isAttribute root = false ∧ (reading.document.node? 2).isSome = true ∧
      reading.document.isAttribute 2 = false ∧ ¬reading.document.ListedOnce root 2 := by
  have kinds : (Markup.parseText {} "<a/>".toList).toOption.map (fun reading =>
      ((reading.document.node? 2).isSome, [root, 2].map reading.document.isAttribute)) =
      some (true, [false, false]) := by decide +kernel
  cases read : Markup.parseText {} "<a/>".toList with
  | error _ => rw [read] at kinds; cases kinds
  | ok reading =>
    simp only [read, Except.toOption, Option.map_some, List.map_cons, List.map_nil,
      Option.some.injEq, Prod.mk.injEq, List.cons.injEq, and_true] at kinds
    obtain ⟨known, rootKind, kind⟩ := kinds
    refine ⟨reading, rfl, rootKind, known, kind, ?_⟩
    exact not_listedOnce_root (by decide) ((isSome_node? _ 2).mp known).2 kind

end Document

end XmlSelect
