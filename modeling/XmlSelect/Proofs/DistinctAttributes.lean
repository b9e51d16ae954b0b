import Mathlib.Data.List.Nodup
import XmlSelect.Proofs.NumberingInvariant
import XmlSelect.Proofs.ReadingSteps

/-! No element of a document has two attributes of one name: start tags refuse them, and reading
content puts elements together from start tags alone. -/
namespace XmlSelect

/-- Whether the elements among siblings, at any depth, have names and attributes of one kind. -/
def Forest.Elements (allowed : Text → List Attribute → Prop) : Forest → Prop
  | .nil => True
  | .leaf _ rest => rest.Elements allowed
  | .element name attributes content rest =>
    allowed name attributes ∧ content.Elements allowed ∧ rest.Elements allowed

theorem Forest.elements_append {allowed : Text → List Attribute → Prop} {front back : Forest} :
    (front ++ back).Elements allowed ↔ front.Elements allowed ∧ back.Elements allowed := by
  induction front with
  | nil => simp [Elements]
  | leaf first rest ih => simp [Elements, ih]
  | element name attributes content rest _ ih => simp [Elements, ih, and_assoc]

@[simp] theorem Forest.elements_reverse {allowed : Text → List Attribute → Prop}
    {forest : Forest} : forest.reverse.Elements allowed ↔ forest.Elements allowed := by
  induction forest with
  | nil => exact Iff.rfl
  | leaf first rest ih => simp [reverse_leaf, elements_append, Elements, ih]
  | element name attributes content rest _ ih =>
    rw [reverse_element, elements_append, ih]
    simp only [Elements, and_true]
    constructor
    · exact fun ⟨behind, here, inside⟩ => ⟨here, inside, behind⟩
    · exact fun ⟨here, inside, behind⟩ => ⟨behind, here, inside⟩

/-- Attributes with names of their own. -/
def DistinctNames (attributes : List Attribute) : Prop := (attributes.map (·.name)).Nodup

namespace Markup

theorem attributeList_distinct {setting : Setting} {element whole : Text} {ledger : Ledger}
    {done : List Attribute} {spaced : Bool} {source : Text} {within : source <:+ whole}
    {result : Read whole (StartTag × Ledger)}
    (read : attributeList setting element whole ledger done spaced source within = .ok result)
    (distinct : DistinctNames done) : DistinctNames result.value.1.attributes := by
  have reversed (attributes : List Attribute) (distinct : DistinctNames attributes) :
      DistinctNames attributes.reverse := by
    rw [DistinctNames, List.map_reverse]
    exact List.nodup_reverse.mpr distinct
  fun_induction attributeList with
  | case1 =>
    cases read
    exact reversed _ distinct
  | case2 =>
    cases read
    exact reversed _ distinct
  | case3 => cases read
  | case4 => cases read
  | case5 =>
    rename_i ih
    obtain ⟨key, -, read⟩ := bind_ok read
    obtain ⟨sign, -, read⟩ := bind_ok read
    obtain ⟨⟨⟨value, expanded⟩, after, valued⟩, -, read⟩ := bind_ok read
    dsimp only at read
    split at read
    · cases read
    · rename_i fresh
      refine ih _ _ key.suffix _ (List.dropWhile_suffix _) _ sign.suffix _
        (List.dropWhile_suffix _) _ _ _ valued _ _ (List.dropWhile_suffix _) read ?_
      rw [DistinctNames, List.map_cons, List.nodup_cons]
      refine ⟨fun member => fresh ?_, distinct⟩
      obtain ⟨other, present, same⟩ := List.mem_map.mp member
      exact List.any_eq_true.mpr ⟨other, present, by simpa using same⟩

theorem startTag_distinct {setting : Setting} {depth : Nat} {ledger : Ledger} {source : Text}
    {result : Read source (StartTag × Ledger)}
    (read : startTag setting depth ledger source = .ok result) :
    DistinctNames result.value.1.attributes := by
  obtain ⟨name, -, read⟩ := bind_ok read
  dsimp only at read
  split at read
  · cases read
  · exact attributeList_distinct read List.nodup_nil

/-- What has been read of an open element is of the kind that is wanted. -/
def OpenElement.Allowed (allowed : Text → List Attribute → Prop) (element : OpenElement) : Prop :=
  allowed element.name element.attributes ∧ element.before.Elements allowed

section Content

variable {allowed : Text → List Attribute → Prop} {element inner : OpenElement}

theorem OpenElement.Allowed.addLeaf (before : element.Allowed allowed) (leaf : Leaf) :
    (element.addLeaf leaf).Allowed allowed := before

theorem OpenElement.Allowed.addText (before : element.Allowed allowed) (pending : Text) :
    (element.addText pending).Allowed allowed := by
  unfold OpenElement.addText
  split
  · exact before
  · exact before.addLeaf _

theorem OpenElement.Allowed.addElement (before : element.Allowed allowed)
    (inside : inner.Allowed allowed) : (element.addElement inner).Allowed allowed :=
  ⟨before.1, inside.1, Forest.elements_reverse.mpr inside.2, before.2⟩

/-- What has been read of all open elements is of the kind that is wanted. -/
def ContentState.Allowed (allowed : Text → List Attribute → Prop) (state : ContentState) : Prop :=
  state.inner.Allowed allowed ∧ ∀ element ∈ state.outer, element.Allowed allowed

/-- Content holds the elements whose start tags were read, and no others. -/
theorem ContentStep.keepsAllowed {setting : Setting} {whole : Text} {before after : ContentState}
    (tags : ∀ {depth ledger source} {tag : Read source (StartTag × Ledger)},
      startTag setting depth ledger source = .ok tag →
        allowed tag.value.1.name tag.value.1.attributes)
    (step : ContentStep setting whole before after) (held : before.Allowed allowed) :
    after.Allowed allowed := by
  obtain ⟨inner, around⟩ := held
  have settled : before.settled.Allowed allowed := inner.addText _
  cases step with
  | close outer =>
    rw [outer, List.forall_mem_cons] at around
    exact ⟨around.1.addElement settled, around.2⟩
  | leaf => exact ⟨settled.addLeaf _, around⟩
  | closed tagged => exact ⟨settled.addElement ⟨tags tagged, trivial⟩, around⟩
  | opened tagged =>
    exact ⟨⟨tags tagged, trivial⟩, List.forall_mem_cons.mpr ⟨settled, around⟩⟩
  | reference => exact ⟨inner, around⟩
  | character => exact ⟨inner, around⟩

theorem rootElement_allowed {setting : Setting} {ledger : Ledger} {source : Text}
    {result : Read source (OpenElement × Ledger)}
    (tags : ∀ {depth ledger source} {tag : Read source (StartTag × Ledger)},
      startTag setting depth ledger source = .ok tag →
        allowed tag.value.1.name tag.value.1.attributes)
    (read : rootElement setting ledger source = .ok result) : result.value.1.Allowed allowed := by
  obtain ⟨tag, tagged, closed | ⟨last, steps, -, reached⟩⟩ := rootElement_steps read
  · exact closed ▸ ⟨tags tagged, trivial⟩
  · have start : ContentState.Allowed allowed ⟨.ofTag tag.value.1, [], []⟩ :=
      ⟨⟨tags tagged, trivial⟩, nofun⟩
    have held := preserved steps (fun _ _ step => step.keepsAllowed tags) start
    exact reached ▸ held.1.addText _

end Content

/-- The attributes of what has been read have names of their own in each element. -/
def Progress.Distinct (progress : Progress) : Prop :=
  progress.before.Elements fun _ => DistinctNames

theorem TopStep.keepsDistinct {options : Options} {whole : Text} {before after : Progress}
    (step : TopStep options whole before after) (held : before.Distinct) : after.Distinct := by
  cases step with
  | leaf => exact held
  | doctype => exact held
  | @root _ element _ _ found =>
    have inside : element.value.1.Allowed fun _ => DistinctNames :=
      rootElement_allowed (fun tagged => startTag_distinct tagged) found
    exact ⟨inside.1, Forest.elements_reverse.mpr inside.2, held⟩

theorem parse_distinct {options : Options} {source : Text} {reading : Reading}
    (read : parse options source = .ok reading) :
    reading.document.content.Elements fun _ => DistinctNames := by
  obtain ⟨progress, steps, -, content⟩ := parse_steps read
  have held : progress.Distinct := preserved steps (fun _ _ => TopStep.keepsDistinct) trivial
  exact content ▸ Forest.elements_reverse.mpr held

theorem parseText_distinct {options : Options} {source : Text} {reading : Reading}
    (read : parseText options source = .ok reading) :
    reading.document.content.Elements fun _ => DistinctNames := by
  unfold parseText at read
  split at read <;> exact parse_distinct read

end Markup

namespace Document

variable {document : Document}

theorem Places.allowed {allowed : Text → List Attribute → Prop} {parent next id : Nat}
    {forest : Forest} {name : Text} {attributes : List Attribute}
    (places : document.Places parent next forest) (elements : forest.Elements allowed)
    (covers : forest.Covers id next)
    (kind : document.kind? id = some (.element name attributes)) : allowed name attributes := by
  induction covers generalizing parent with
  | leaf => simp [kind?, places.1] at kind
  | afterLeaf _ ih => exact ih places.2 elements
  | element =>
    simp only [kind?, places.1, Option.map_some, Option.some.injEq, NodeKind.element.injEq] at kind
    obtain ⟨rfl, rfl⟩ := kind
    exact elements.1
  | attr found place =>
    subst place
    simp [kind?, places.2.1 _ _ found] at kind
  | inside _ ih => exact ih places.2.2.1 elements.2.1
  | afterElement _ ih => exact ih places.2.2.2 elements.2.2

/-- The attributes of every node have names of their own. -/
theorem distinct_attributes (elements : document.content.Elements fun _ => DistinctNames)
    (id : Nat) : DistinctNames (document.attributes id) := by
  cases kind : document.kind? id with
  | none => simp [attributes, kind, DistinctNames]
  | some outer =>
    cases outer with
    | element name own =>
      have covers := covers_of_kind kind (by simp)
      have distinct := (places_content document).allowed elements covers kind
      simpa [attributes, kind, NodeKind.attributes] using distinct
    | _ => simp [attributes, kind, NodeKind.attributes, DistinctNames]

end Document

end XmlSelect
