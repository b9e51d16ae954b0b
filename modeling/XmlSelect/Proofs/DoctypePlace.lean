import XmlSelect.Proofs.DocumentRoundTrip

/-! Where document type declarations stand: at the top of a document, beside the element there. What
elements hold is read by other rules, which yield none. -/
namespace XmlSelect

namespace Forest

variable {wanted : Leaf → Prop}

/-- Whether the nodes without children among siblings, at any depth, are of one kind. -/
def Leaves (wanted : Leaf → Prop) : Forest → Prop
  | .nil => True
  | .leaf first rest => wanted first ∧ rest.Leaves wanted
  | .element _ _ content rest => content.Leaves wanted ∧ rest.Leaves wanted

theorem leaves_append {front back : Forest} :
    (front ++ back).Leaves wanted ↔ front.Leaves wanted ∧ back.Leaves wanted := by
  induction front with
  | nil => simp [Leaves]
  | leaf first rest ih => simp [Leaves, ih, and_assoc]
  | element name attributes content rest _ ih => simp [Leaves, ih, and_assoc]

theorem leaves_reverse {forest : Forest} : forest.reverse.Leaves wanted ↔ forest.Leaves wanted := by
  induction forest with
  | nil => exact Iff.rfl
  | leaf first rest ih => simp [reverse_leaf, leaves_append, Leaves, ih, and_comm]
  | element name attributes content rest _ ih =>
    simp [reverse_element, leaves_append, Leaves, ih, and_comm]

end Forest

namespace Markup

section Content

variable {wanted : Leaf → Prop} {setting : Setting}

/-- What has been read of all open elements has nodes without children of one kind. -/
def ContentState.Leaves (wanted : Leaf → Prop) (state : ContentState) : Prop :=
  state.inner.before.Leaves wanted ∧ ∀ element ∈ state.outer, element.before.Leaves wanted

variable (texts : ∀ text, wanted (.text text))

include texts

theorem OpenElement.leaves_addText {element : OpenElement} (before : element.before.Leaves wanted)
    (pending : Text) : (element.addText pending).before.Leaves wanted := by
  unfold OpenElement.addText
  split
  · exact before
  · exact ⟨texts _, before⟩

variable (leaves : ∀ {source : Text} {leaf : Read source Leaf},
  contentLeaf? source = some (.ok leaf) → wanted leaf.value)

include leaves

/-- Content holds runs of text and what is read as a node without children, and no others. -/
theorem ContentStep.keepsLeaves {whole : Text} {before after : ContentState}
    (step : ContentStep setting whole before after) (held : before.Leaves wanted) :
    after.Leaves wanted := by
  obtain ⟨inner, around⟩ := held
  have settled : before.settled.before.Leaves wanted := OpenElement.leaves_addText texts inner _
  cases step with
  | close outer =>
    rw [outer, List.forall_mem_cons] at around
    exact ⟨⟨Forest.leaves_reverse.mpr settled, around.1⟩, around.2⟩
  | leaf _ found => exact ⟨⟨leaves found, settled⟩, around⟩
  | closed => exact ⟨⟨trivial, settled⟩, around⟩
  | opened => exact ⟨trivial, List.forall_mem_cons.mpr ⟨settled, around⟩⟩
  | reference => exact ⟨inner, around⟩
  | character => exact ⟨inner, around⟩

theorem rootElement_leaves {ledger : Ledger} {source : Text}
    {result : Read source (OpenElement × Ledger)}
    (read : rootElement setting ledger source = .ok result) :
    result.value.1.before.Leaves wanted := by
  obtain ⟨tag, -, closed | ⟨last, steps, -, reached⟩⟩ := rootElement_steps read
  · exact closed ▸ trivial
  · have held : last.Leaves wanted :=
      preserved steps (fun _ _ step => step.keepsLeaves texts leaves) ⟨trivial, nofun⟩
    exact reached ▸ OpenElement.leaves_addText texts held.1 _

end Content

/-- No element of what has been read at the top holds a document type declaration. -/
def Progress.Separate (progress : Progress) : Prop :=
  ∀ element ∈ progress.before.topElements, element.content.Leaves (·.isDoctype = false)

theorem TopStep.keepsSeparate {options : Options} {whole : Text} {before after : Progress}
    (step : TopStep options whole before after) (held : before.Separate) : after.Separate := by
  cases step with
  | leaf => exact held
  | doctype => exact held
  | root _ _ found =>
    refine List.forall_mem_cons.mpr ⟨Forest.leaves_reverse.mpr ?_, held⟩
    exact rootElement_leaves (fun _ => rfl) (fun leaf => (contentLeaf?_ok leaf).proper.isDoctype)
      found

theorem TopStep.keepsRooted {options : Options} {whole : Text} {before after : Progress}
    (step : TopStep options whole before after)
    (held : before.seenRoot = true → before.before.topElements ≠ [])
    (seen : after.seenRoot = true) : after.before.topElements ≠ [] := by
  cases step with
  | leaf => exact held seen
  | doctype => exact held seen
  | root => exact List.cons_ne_nil _ _

/-- A document that was read has an element at its top, and no element in it holds a document type
declaration. -/
theorem parse_separate {options : Options} {source : Text} {reading : Reading}
    (read : parse options source = .ok reading) :
    reading.document.content.topElements ≠ [] ∧
      ∀ element ∈ reading.document.content.topElements,
        element.content.Leaves (·.isDoctype = false) := by
  obtain ⟨progress, steps, seen, content⟩ := parse_steps read
  have separate : progress.Separate := preserved steps (fun _ _ => TopStep.keepsSeparate) nofun
  have rooted : progress.seenRoot = true → progress.before.topElements ≠ [] :=
    preserved steps (fun _ _ => TopStep.keepsRooted) nofun
  rw [content, Forest.topElements_reverse]
  exact ⟨by simpa using rooted seen, fun element member => separate element (by simpa using member)⟩

end Markup

/-- Whether a node is a document type declaration. -/
def NodeKind.isDoctype : NodeKind → Bool
  | .leaf self => self.isDoctype
  | _ => false

namespace Document

variable {document : Document} {parent next id : Nat} {forest : Forest} {self : Leaf}

/-- Whether a node is a document type declaration. -/
def isDoctype (document : Document) (id : Nat) : Bool :=
  (document.kind? id).any NodeKind.isDoctype

theorem Places.leaf_wanted {wanted : Leaf → Prop} (places : document.Places parent next forest)
    (leaves : forest.Leaves wanted) (covers : forest.Covers id next)
    (kind : document.kind? id = some (.leaf self)) : wanted self := by
  induction covers generalizing parent with
  | leaf =>
    simp only [kind?, places.1, Option.map_some, Option.some.injEq, NodeKind.leaf.injEq] at kind
    exact kind ▸ leaves.1
  | afterLeaf _ ih => exact ih places.2 leaves.2
  | element => simp [kind?, places.1] at kind
  | attr found place =>
    subst place
    simp [kind?, places.2.1 _ _ found] at kind
  | inside _ ih => exact ih places.2.2.1 leaves.1
  | afterElement _ ih => exact ih places.2.2.2 leaves.2

/-- If no element among siblings holds a document type declaration, each is one of the siblings. -/
theorem Places.parent_of_isDoctype (places : document.Places parent next forest)
    (separate : ∀ element ∈ forest.topElements, element.content.Leaves (·.isDoctype = false))
    (covers : forest.Covers id next) (kind : document.kind? id = some (.leaf self))
    (declares : self.isDoctype = true) : document.parent? id = some parent := by
  induction covers with
  | leaf => rw [parent?, places.1]; rfl
  | afterLeaf _ ih => exact ih places.2 separate
  | element => simp [kind?, places.1] at kind
  | attr found place =>
    subst place
    simp [kind?, places.2.1 _ _ found] at kind
  | inside within _ =>
    have other := places.2.2.1.leaf_wanted (List.forall_mem_cons.mp separate).1 within kind
    exact absurd declares (by simp [other])
  | afterElement _ ih => exact ih places.2.2.2 (List.forall_mem_cons.mp separate).2

end Document

/-- A document type declaration is a child of the document node, and so is an element. -/
theorem Markup.parseText_doctype {options : Options} {source : Text} {reading : Reading}
    (read : parseText options source = .ok reading) {id : Nat}
    (declares : reading.document.isDoctype id = true) :
    id ∈ reading.document.children Document.root ∧
      ∃ element ∈ reading.document.children Document.root, element ≠ id := by
  rw [parseText_eq] at read
  obtain ⟨rooted, separate⟩ := parse_separate read
  obtain ⟨kind, here, isDoctype⟩ := (Option.any_eq_true ..).mp declares
  obtain ⟨first, others, top⟩ := List.exists_cons_of_ne_nil rooted
  cases kind with
  | leaf self =>
    have above := (Document.places_content _).parent_of_isDoctype separate
      (Document.covers_of_kind here (by simp)) here isDoctype
    have inner : reading.document.isAttribute id = false := by
      rw [Document.isAttribute, here]
      rfl
    refine ⟨(Document.mem_children_iff ..).mpr ⟨above, inner⟩, ?_⟩
    have first : reading.document.content.topElements.head? = some first := by rw [top]; rfl
    obtain ⟨element, first, -⟩ := Document.rootElement?_of_topElements first
    refine ⟨element, List.mem_of_find?_eq_some first, ?_⟩
    rintro rfl
    have isElement : reading.document.isElement element = true := List.find?_some first
    rw [Document.isElement, here] at isElement
    cases isElement
  | document => cases isDoctype
  | element => cases isDoctype
  | attr => cases isDoctype

end XmlSelect
