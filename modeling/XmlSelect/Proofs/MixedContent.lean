import Mathlib.Data.List.Forall2
import XmlSelect.Proofs.DepthFirstWalk
import XmlSelect.Proofs.Indentation

/-! The text of indented documents. Every element of a document has its counterpart in what is read
back of the indented text; the text of the counterpart is the same where no element inside has white
space put around its children, and longer elsewhere. -/
namespace XmlSelect

namespace Forest

/-- The numbers of the elements among siblings, of which the first one is `next`, and of those
inside them, in document order. -/
def elements (next : Nat) : Forest → List Nat
  | .nil => []
  | .leaf _ rest => rest.elements (next + 1)
  | .element _ attributes content rest =>
    next :: content.elements (next + 1 + attributes.length) ++
      rest.elements (next + 1 + attributes.length + content.size)

/-- Whether there is an element, at any depth, that has children but no character data among
them. -/
def indents : Forest → Bool
  | .nil => false
  | .leaf _ rest => rest.indents
  | .element _ _ content rest =>
    !content.isEmpty && !content.holdsText || content.indents || rest.indents

/-- White space between siblings is text of its own. -/
theorem Apart.text_lt {forest spaced : Forest} (apart : forest.Apart spaced) :
    forest.text.length < spaced.text.length := by
  induction apart with
  | nil blank =>
    have := List.length_pos_iff.mpr blank.nonempty
    simpa [text, Leaf.characterData] using this
  | leaf blank first _ ih =>
    simp only [text, Leaf.characterData, List.length_append]
    omega
  | element blank name attributes content _ ih =>
    simp only [text, Leaf.characterData, List.length_append]
    omega

/-- Text becomes longer where white space is put into it, and stays as it is elsewhere. -/
theorem Spread.text {forest spaced : Forest} (spread : forest.Spread spaced) :
    (forest.indents = false → spaced.text = forest.text) ∧
      (forest.indents = true → forest.text.length < spaced.text.length) := by
  have grows {forest spaced : Forest} (either : (forest.indents = false → spaced.text = forest.text) ∧
      (forest.indents = true → forest.text.length < spaced.text.length)) :
      forest.text.length ≤ spaced.text.length := by
    cases inner : forest.indents with
    | false => exact Nat.le_of_eq (congrArg List.length (either.1 inner)).symm
    | true => exact Nat.le_of_lt (either.2 inner)
  induction spread with
  | nil => exact ⟨fun _ => rfl, nofun⟩
  | leaf first _ ih =>
    simp only [indents, Forest.text, List.length_append]
    exact ⟨fun none => by rw [ih.1 none], fun some => Nat.add_lt_add_left (ih.2 some) _⟩
  | @kept name attributes content _ rest _ text _ _ inside behind =>
    have plain : (!content.isEmpty && !content.holdsText) = false := by
      rcases text with empty | holds
      · rw [empty]; rfl
      · rw [holds]; simp
    have inner := grows inside
    have outer := grows behind
    simp only [indents, plain, Forest.text, List.length_append, Bool.false_or,
      Bool.or_eq_false_iff, Bool.or_eq_true]
    constructor
    · rintro ⟨first, further⟩
      rw [inside.1 first, behind.1 further]
    · rintro (first | further)
      · have := inside.2 first
        omega
      · have := behind.2 further
        omega
  | @spread name attributes content _ spaced rest _ filled markup _ apart _ inside behind =>
    have inner := grows inside
    have outer := grows behind
    have longer := apart.text_lt
    simp only [indents, filled, markup, Forest.text, List.length_append]
    exact ⟨fun none => absurd none (by simp), fun _ => by omega⟩

theorem Spread.text_eq_iff {forest spaced : Forest} (spread : forest.Spread spaced) :
    spaced.text = forest.text ↔ forest.indents = false := by
  refine ⟨fun same => ?_, spread.text.1⟩
  rw [← Bool.not_eq_true]
  intro indents
  have longer := spread.text.2 indents
  rw [same] at longer
  exact Nat.lt_irrefl _ longer

/-- Siblings with more text between them, at any depth; where there was character data among the
children of an element, none is put between those. -/
inductive Laid : Forest → Forest → Prop
  | nil : Laid .nil .nil
  | text (gap : Text) {forest laid : Forest} (behind : Laid forest laid) :
      Laid forest (.leaf (.text gap) laid)
  | leaf (first : Leaf) {rest rest' : Forest} (behind : Laid rest rest') :
      Laid (.leaf first rest) (.leaf first rest')
  | element (name : Text) (attributes : List Attribute) {content laid rest rest' : Forest}
      (inside : Laid content laid) (mixed : content.holdsText = true → content.Spread laid)
      (behind : Laid rest rest') :
      Laid (.element name attributes content rest) (.element name attributes laid rest')

theorem Laid.apart {forest laid spaced : Forest} (before : forest.Laid laid)
    (apart : laid.Apart spaced) : forest.Laid spaced := by
  induction before generalizing spaced with
  | nil =>
    cases apart with
    | nil => exact .text _ .nil
  | text gap _ ih =>
    cases apart with
    | leaf _ _ behind => exact .text _ (.text gap (ih behind))
  | leaf first _ ih =>
    cases apart with
    | leaf _ _ behind => exact .text _ (.leaf first (ih behind))
  | element name attributes inside mixed _ _ ih =>
    cases apart with
    | element _ _ _ _ behind => exact .text _ (.element name attributes inside mixed (ih behind))

theorem Spread.laid {forest spaced : Forest} (spread : forest.Spread spaced) :
    forest.Laid spaced := by
  induction spread with
  | nil => exact .nil
  | leaf first _ ih => exact .leaf first ih
  | kept _ spread _ inside behind => exact .element _ _ inside (fun _ => spread) behind
  | spread _ markup _ apart _ inside behind =>
    refine .element _ _ (inside.apart apart) (fun holds => ?_) behind
    rw [markup] at holds
    cases holds

end Forest

namespace Document

variable {document : Document}

/-- The elements inside a node, in document order. -/
def elementsInside (document : Document) (id : Nat) : List Nat :=
  (document.descendants id).filter document.isElement

/-- Whether there is character data among the children of a node. -/
def isMixed (document : Document) (id : Nat) : Bool := (document.children id).any document.isText

/-- Whether there are children of a node but no character data among them. -/
def isElementOnly (document : Document) (id : Nat) : Bool :=
  !(document.children id).isEmpty && !document.isMixed id

section Places

theorem PlacesAttributes.filter_isElement {element : Nat} {attributes : List Attribute}
    (places : document.PlacesAttributes element attributes) :
    (List.range' (element + 1) attributes.length).filter document.isElement = [] := by
  rw [List.filter_eq_nil_iff]
  intro own member
  obtain ⟨first, last⟩ := List.mem_range'_1.mp member
  obtain ⟨index, rfl⟩ := Nat.exists_eq_add_of_le first
  have listed : attributes[index]? = some attributes[index] := List.getElem?_eq_getElem (by omega)
  simp [isElement, kind?, places index _ listed, NodeKind.isElement]

theorem Places.filter_isElement {parent next : Nat} {forest : Forest}
    (places : document.Places parent next forest) :
    (List.range' next forest.size).filter document.isElement = forest.elements next := by
  induction forest generalizing parent next with
  | nil => rfl
  | leaf first rest ih =>
    have here : document.isElement next = false := by
      simp [isElement, kind?, places.1, NodeKind.isElement]
    rw [Forest.size, List.range'_succ, List.filter_cons_of_neg (by simp [here]), ih places.2,
      Forest.elements]
  | element name attributes content rest inside behind =>
    obtain ⟨place, own, within, further⟩ := places
    have here : document.isElement next = true := by
      simp [isElement, kind?, place, NodeKind.isElement]
    have split : 1 + attributes.length + content.size + rest.size =
        attributes.length + content.size + rest.size + 1 := by omega
    rw [Forest.size, split, List.range'_succ, List.filter_cons_of_pos here,
      ← List.range'_append_1, ← List.range'_append_1, List.filter_append, List.filter_append,
      own.filter_isElement, inside within, ← Nat.add_assoc (next + 1), behind further,
      Forest.elements]
    rfl

/-- The elements inside a node are those that its content lists. -/
theorem elementsInside_eq {id : Nat} {node : Node} (found : document.node? id = some node) :
    document.elementsInside id =
      node.content.elements (id + 1 + node.kind.attributes.length) := by
  obtain ⟨settled, -⟩ := settled_of_node? found
  have length : node.last - id = node.kind.attributes.length + node.content.size := by
    rw [settled.last]
    omega
  have others (id : Nat) : (document.isElement id && !document.isAttribute id) =
      document.isElement id := by
    rw [isElement, isAttribute]
    cases document.kind? id with
    | none => rfl
    | some kind => cases kind <;> rfl
  rw [elementsInside, descendants_eq, nodesBetween, lastInside_eq found, length, List.filter_filter]
  simp only [others]
  rw [← List.range'_append_1, List.filter_append, settled.attributes.filter_isElement,
    settled.content.filter_isElement, List.nil_append]

theorem Places.any_isText {parent next : Nat} {forest : Forest}
    (places : document.Places parent next forest) :
    (forest.starts next).any document.isText = forest.holdsText := by
  induction forest generalizing next with
  | nil => rfl
  | leaf first rest ih =>
    rw [Forest.starts, List.any_cons, ih places.2, Forest.holdsText, isText, kind?, places.1]
    rfl
  | element name attributes content rest _ ih =>
    rw [Forest.starts, List.any_cons, ih places.2.2.2, Forest.holdsText, isText, kind?, places.1]
    rfl

variable {id : Nat} {node : Node} (found : document.node? id = some node)
include found

theorem isMixed_eq : document.isMixed id = node.content.holdsText := by
  rw [isMixed, children_eq found]
  exact (settled_of_node? found).1.content.any_isText

theorem isElementOnly_eq :
    document.isElementOnly id = (!node.content.isEmpty && !node.content.holdsText) := by
  rw [isElementOnly, isMixed_eq found, children_eq found, childStarts]
  cases node.content <;> rfl

end Places

theorem Places.indents_iff {parent next : Nat} {forest : Forest}
    (places : document.Places parent next forest) :
    forest.indents = true ↔ ∃ inner ∈ forest.elements next, document.isElementOnly inner = true := by
  induction forest generalizing parent next with
  | nil => simp [Forest.indents, Forest.elements]
  | leaf first rest ih => exact ih places.2
  | element name attributes content rest inside behind =>
    obtain ⟨place, -, within, further⟩ := places
    simp only [Forest.indents, Forest.elements, Bool.or_eq_true, inside within, behind further,
      List.cons_append, List.mem_cons, List.mem_append, or_and_right, exists_or, exists_eq_left,
      isElementOnly_eq place, or_assoc]

section Counterparts

variable {again : Document}

/-- An element of a document and the element of another one that it was written as. -/
structure Counterpart (document again : Document) (id other : Nat) : Prop where
  kind : again.kind? other = document.kind? id
  depth : (again.ancestors other).length = (document.ancestors id).length
  text : document.isMixed id = true → (again.textContent other = document.textContent id ↔
    ∀ inner ∈ document.elementsInside id, document.isElementOnly inner = false)

theorem textContent_eq {id last : Nat} {name : Text} {attributes : List Attribute}
    {parent : Option Nat} {content : Forest}
    (found : document.node? id = some ⟨.element name attributes, parent, last, content⟩) :
    document.textContent id = content.text := by
  rw [textContent, found]

theorem Places.length_ancestors {parent next : Nat} {name : Text} {attributes : List Attribute}
    {content rest : Forest}
    (places : document.Places parent next (.element name attributes content rest)) :
    (document.ancestors next).length = (document.ancestors parent).length + 1 := by
  have above : document.parent? next = some parent := by
    rw [parent?, places.1]
    rfl
  rw [ancestors_eq above, List.length_cons]

/-- The elements of what was written are those of the document, in the same order. -/
theorem counterparts_of_laid {forest laid : Forest} (written : forest.Laid laid) :
    ∀ {parent next other next' : Nat}, document.Places parent next forest →
      again.Places other next' laid →
        (again.ancestors other).length = (document.ancestors parent).length →
          List.Forall₂ (document.Counterpart again) (forest.elements next)
            (laid.elements next') := by
  induction written with
  | nil => exact fun _ _ _ => .nil
  | text gap _ ih => exact fun places copies depth => ih places copies.2 depth
  | leaf first _ ih => exact fun places copies depth => ih places.2 copies.2 depth
  | @element name attributes content laid rest rest' _ mixed _ inside behind =>
    intro parent next other next' places copies depth
    have deeper : (again.ancestors next').length = (document.ancestors next).length := by
      rw [places.length_ancestors, copies.length_ancestors, depth]
    have within := inside places.2.2.1 copies.2.2.1 deeper
    have further := behind places.2.2.2 copies.2.2.2 depth
    refine .cons ⟨?_, deeper, fun holds => ?_⟩ (List.rel_append within further)
    · simp only [kind?, places.1, copies.1, Option.map_some]
    · rw [isMixed_eq places.1] at holds
      rw [textContent_eq places.1, textContent_eq copies.1, elementsInside_eq places.1,
        (mixed holds).text_eq_iff, ← Bool.not_eq_true, places.2.2.1.indents_iff]
      simp [NodeKind.attributes]

end Counterparts

end Document

namespace Markup

/-- Every element is read back of the indented text, in the same order and at the same depth. One
with character data among its children has the same text there if and only if the elements inside
it are without children or have character data among theirs too. -/
theorem textContent_print_indented {source indentText : Text} {reading : Reading}
    (plain : '\r' ∉ source) (read : parseText {} source = .ok reading)
    (undeclared : reading.document.content.doctypes = []) (blank : Ignorable indentText) :
    ∃ again, parseText {} (print ⟨true, indentText, false⟩ reading.document) = .ok again ∧
      List.Forall₂ (reading.document.Counterpart again.document)
        (reading.document.elementsInside Document.root)
        (again.document.elementsInside Document.root) := by
  obtain ⟨again, reread, spread⟩ := parseText_print_indented plain read undeclared blank
  have top (document : Document) : document.ancestors Document.root = [] := by
    apply Document.ancestors_eq_nil
    rw [Document.parent?, Document.node?_root]
    rfl
  refine ⟨again, reread, ?_⟩
  rw [Document.elementsInside_eq (Document.node?_root reading.document),
    Document.elementsInside_eq (Document.node?_root again.document)]
  exact Document.counterparts_of_laid spread.laid (Document.places_content reading.document)
    (Document.places_content again.document) (by rw [top, top])

/-- Text, an element with text and one without children inside an element, which stands alone in
another one. -/
theorem textContent_print_indented_plain :
    let source := "<r><m>x<e>y</e><f/></m></r>".toList
    ∃ reading again, '\r' ∉ source ∧ parseText {} source = .ok reading ∧
      reading.document.content.doctypes = [] ∧ Ignorable [' ', ' '] ∧
      parseText {} (print ⟨true, [' ', ' '], false⟩ reading.document) = .ok again ∧
      List.Forall₂ (reading.document.Counterpart again.document)
        (reading.document.elementsInside Document.root)
        (again.document.elementsInside Document.root) := by
  intro source
  have plain : '\r' ∉ source := by decide
  have blank : Ignorable [' ', ' '] := by decide
  have doctypes : (parseText {} source).toOption.map (·.document.content.doctypes) = some [] := by
    decide +kernel
  cases read : parseText {} source with
  | error => rw [read] at doctypes; cases doctypes
  | ok reading =>
    rw [read] at doctypes
    have undeclared := Option.some.inj doctypes
    obtain ⟨again, reread, counterparts⟩ :=
      textContent_print_indented plain read undeclared blank
    exact ⟨reading, again, plain, rfl, undeclared, blank, reread, counterparts⟩

/-- White space is put into an element that has an element alone inside it, though text stands
around it. -/
theorem textContent_indented_inside_text :
    let source := "<r>x<e><f/></e></r>".toList
    ∃ reading again, '\r' ∉ source ∧ parseText {} source = .ok reading ∧
      reading.document.content.doctypes = [] ∧ Ignorable [' ', ' '] ∧
      parseText {} (print ⟨true, [' ', ' '], false⟩ reading.document) = .ok again ∧
      reading.document.elementsInside Document.root = [2, 4, 5] ∧
      again.document.elementsInside Document.root = [2, 4, 6] ∧
      reading.document.isMixed 2 = true ∧
      reading.document.textContent 2 = "x".toList ∧
      again.document.textContent 2 = "x\n    \n  ".toList := by
  intro source
  have before : (parseText {} source).toOption.map (fun reading =>
      (reading.document.content.doctypes, reading.document.elementsInside Document.root,
        reading.document.isMixed 2, reading.document.textContent 2,
        print ⟨true, [' ', ' '], false⟩ reading.document)) =
      some ([], [2, 4, 5], true, "x".toList,
        "<r>x<e>\n    <f/>\n  </e></r>\n".toList) := by decide +kernel
  have after : (parseText {} "<r>x<e>\n    <f/>\n  </e></r>\n".toList).toOption.map
      (fun again => (again.document.elementsInside Document.root, again.document.textContent 2)) =
      some ([2, 4, 6], "x\n    \n  ".toList) := by decide +kernel
  cases read : parseText {} source with
  | error => rw [read] at before; cases before
  | ok reading =>
    simp only [read, Except.toOption, Option.map_some, Option.some.injEq, Prod.mk.injEq] at before
    obtain ⟨undeclared, elements, mixed, text, printed⟩ := before
    cases reread : parseText {} "<r>x<e>\n    <f/>\n  </e></r>\n".toList with
    | error => rw [reread] at after; cases after
    | ok again =>
      simp only [reread, Except.toOption, Option.map_some, Option.some.injEq,
        Prod.mk.injEq] at after
      refine ⟨reading, again, by decide, rfl, undeclared, by decide, ?_, elements, after.1, mixed,
        text, after.2⟩
      rw [printed, reread]

end Markup

end XmlSelect
