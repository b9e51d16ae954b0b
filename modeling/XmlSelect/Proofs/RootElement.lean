import XmlSelect.Proofs.NormalContent

/-! The element at the top of a document. Every document that was read has exactly one, it is in
normal form, and it is what `rootElement?` finds. -/
namespace XmlSelect

/-- An element with what belongs to it. -/
structure Element where
  name : Text
  attributes : List Attribute
  content : Forest
deriving DecidableEq

namespace Element

/-- The element as the only one of its siblings. -/
def alone (element : Element) : Forest :=
  .element element.name element.attributes element.content .nil

def kind (element : Element) : NodeKind := .element element.name element.attributes

/-- The element is as documents may have it, and nested no deeper than a limit. -/
structure Normal (wanted : Leaf → Prop) (limit : Nat) (element : Element) : Prop where
  tag : Markup.WellFormedTag element.name element.attributes
  content : element.content.Normal wanted
  height : element.content.height < limit

end Element

namespace Forest

/-- The elements among siblings. -/
def topElements : Forest → List Element
  | .nil => []
  | .leaf _ rest => rest.topElements
  | .element name attributes content rest => ⟨name, attributes, content⟩ :: rest.topElements

theorem topElements_append (front back : Forest) :
    (front ++ back).topElements = front.topElements ++ back.topElements := by
  induction front with
  | nil => rfl
  | leaf first rest ih => exact ih
  | element name attributes content rest _ ih => exact congrArg (_ :: ·) ih

theorem topElements_reverse (forest : Forest) :
    forest.reverse.topElements = forest.topElements.reverse := by
  induction forest with
  | nil => rfl
  | leaf first rest ih => simp [reverse_leaf, topElements_append, topElements, ih]
  | element name attributes content rest _ ih =>
    simp [reverse_element, topElements_append, topElements, ih]

end Forest

namespace Document

variable {document : Document}

/-- A node that is no attribute, with what is inside it; its place in the document left out. -/
def subtree? (document : Document) (id : Nat) : Option (NodeKind × Forest) :=
  (document.node? id).map fun node => (node.kind, node.content)

theorem Places.find?_isElement {parent next : Nat} {forest : Forest} {element : Element}
    (places : document.Places parent next forest)
    (first : forest.topElements.head? = some element) :
    ∃ id, (forest.starts next).find? document.isElement = some id ∧
      document.subtree? id = some (element.kind, element.content) := by
  induction forest generalizing next with
  | nil => cases first
  | leaf self rest ih =>
    obtain ⟨id, found, inside⟩ := ih places.2 first
    refine ⟨id, ?_, inside⟩
    rw [Forest.starts, List.find?_cons_of_neg, found]
    simp [isElement, kind?, places.1, NodeKind.isElement]
  | element name attributes content rest _ _ =>
    cases first
    refine ⟨next, ?_, by rw [subtree?, places.1]; rfl⟩
    rw [Forest.starts, List.find?_cons_of_pos]
    simp [isElement, kind?, places.1, NodeKind.isElement]

theorem rootElement?_of_topElements {element : Element}
    (first : document.content.topElements.head? = some element) :
    ∃ id, document.rootElement? = some id ∧
      document.subtree? id = some (element.kind, element.content) := by
  obtain ⟨id, found, inside⟩ := (places_content document).find?_isElement first
  refine ⟨id, ?_, inside⟩
  rw [rootElement?, children_eq (node?_root document)]
  exact found

end Document

namespace Markup

variable {options : Options} {wanted : Leaf → Prop} {held : Char → Prop}

theorem rootElement_normal {setting : Setting} {ledger : Ledger} {source whole : Text}
    {result : Read source (OpenElement × Ledger)}
    (read : rootElement setting ledger source = .ok result) (here : source <:+ whole)
    (plain : setting.table.Plain) (yields : setting.options.Yields held)
    (texts : ∀ {text}, text ≠ [] → (∀ c ∈ text, held c) → wanted (.text text))
    (leaves : ∀ {leaf : Leaf}, leaf.ReadFrom whole → wanted leaf) :
    result.value.1.Normal wanted := by
  obtain ⟨tag, tagged, closed | ⟨last, steps, -, reached⟩⟩ := rootElement_steps read
  · exact closed ▸ ⟨startTag_wellFormed plain tagged, trivial⟩
  · have normal : last.Normal wanted held :=
      preserved steps (fun _ _ step normal => step.keepsNormal normal plain yields texts fun read =>
          leaves (read.of_suffix here))
        ⟨⟨startTag_wellFormed plain tagged, trivial⟩, nofun, rfl, nofun⟩
    exact reached ▸ normal.settled texts

theorem rootElement_height {setting : Setting} {ledger : Ledger} {source : Text}
    {result : Read source (OpenElement × Ledger)}
    (read : rootElement setting ledger source = .ok result) :
    result.value.1.content.height < setting.options.maxDepth := by
  obtain ⟨tag, tagged, closed | ⟨last, steps, alone, reached⟩⟩ := rootElement_steps read
  · exact closed ▸ startTag_depth tagged
  · have fits : last.Fits setting.options.maxDepth :=
      preserved steps (fun _ _ => ContentStep.keepsFits) ⟨startTag_depth tagged, trivial⟩
    have room := fits.1
    rw [alone] at room
    rw [reached, last.height_settled]
    exact room

/-- What has been read at the top: the entities, and the one element once it has been read. -/
structure Progress.Normal (options : Options) (wanted : Leaf → Prop) (progress : Progress) :
    Prop where
  table : progress.table.Plain
  count : progress.before.topElements.length = if progress.seenRoot then 1 else 0
  each : ∀ element ∈ progress.before.topElements, element.Normal wanted options.maxDepth

theorem TopStep.keepsNormal {whole : Text} {before after : Progress}
    (step : TopStep options whole before after) (normal : before.Normal options wanted)
    (resolves : options.ResolvesPlain)
    (texts : ∀ {text}, text ≠ [] → XmlText text → wanted (.text text))
    (leaves : ∀ {leaf : Leaf}, leaf.ReadFrom whole → wanted leaf) :
    after.Normal options wanted := by
  cases step with
  | leaf => exact ⟨normal.table, normal.count, normal.each⟩
  | doctype _ _ found => exact ⟨doctype_plain found, normal.count, normal.each⟩
  | root here first found =>
    have element := rootElement_normal found here normal.table resolves.yields texts leaves
    have none := normal.count
    rw [if_neg (by simp [first]), List.length_eq_zero_iff] at none
    refine ⟨normal.table, ?_, ?_⟩
    · simp [Forest.topElements, none]
    · rw [Forest.topElements, none, List.forall_mem_singleton]
      exact ⟨element.tag, element.children, rootElement_height found⟩

/-- A document that was read has one element at its top, and it is in normal form. -/
theorem parse_root {source : Text} {reading : Reading} (read : parse options source = .ok reading)
    (resolves : options.ResolvesPlain)
    (texts : ∀ {text}, text ≠ [] → XmlText text → wanted (.text text))
    (leaves : ∀ {leaf : Leaf}, leaf.ReadFrom source → wanted leaf) :
    ∃ element : Element, reading.document.content.topElements = [element] ∧
      element.Normal wanted options.maxDepth := by
  obtain ⟨progress, steps, seen, content⟩ := parse_steps read
  have normal : progress.Normal options wanted :=
    preserved steps (fun _ _ step normal => step.keepsNormal normal resolves texts leaves)
      ⟨EntityTable.plain_nil, rfl, nofun⟩
  have one := normal.count
  rw [seen, if_pos rfl, List.length_eq_one_iff] at one
  obtain ⟨element, one⟩ := one
  refine ⟨element, ?_, normal.each element (one ▸ List.mem_singleton_self element)⟩
  rw [content, Forest.topElements_reverse, one]
  rfl

end Markup

end XmlSelect
