import XmlSelect.Proofs.ArenaOrder
import XmlSelect.Proofs.MachineDocument
import XmlSelect.Proofs.NavigationViews
import XmlSelect.Proofs.ReportedPlaces

/-! What the machine builds and reports. The arena that it has filled when it comes to an end is that
of the document that is read of the text, and its counters are at every step those of the place at
which the rest of the text begins. -/
namespace XmlSelect.Machine

open Markup

variable {options : Options} {source : Text} {built : Built}

section Arenas

/-- What was built is what was read. -/
theorem exists_reading (read : parseText options source = some (.ok built)) :
    ∃ reading, Markup.parseText options source = .ok reading ∧ built = .ofReading reading := by
  rw [parseText_eq] at read
  obtain ⟨reading, found, same⟩ := map_ok (Option.some.inj read)
  exact ⟨reading, found, same.symm⟩

theorem exists_built {reading : Reading}
    (read : Markup.parseText options source = .ok reading) :
    parseText options source = some (.ok (.ofReading reading)) := by
  rw [parseText_eq, read]
  rfl

/-- The nodes of every document that was read are numbered in document order, and the attributes of
an element in the order in which they were read. -/
theorem parseText_numbered (read : parseText options source = some (.ok built)) :
    built.arena.Numbered ∧
      ∃ reading, Markup.parseText options source = .ok reading ∧
        ∀ element, (built.arena.attributeNodes element).map built.arena.kind? =
          (reading.document.attributes element).map fun self => some (.attr self) := by
  obtain ⟨reading, found, rfl⟩ := exists_reading read
  exact ⟨reading.document.numbered_arena, reading, found, reading.document.map_kind?_arena⟩

/-- An element with attributes between a comment and the text of another element. -/
theorem parseText_numbered_nested : ∃ built,
    parseText {} "<!--x--><a b='c' d='e'>t<f/>u</a>".toList = some (.ok built) ∧
      built.arena.nodeCount = 8 ∧ built.arena.Numbered := by
  have count : (Markup.parseText {} "<!--x--><a b='c' d='e'>t<f/>u</a>".toList).toOption.any
      (·.document.nodeCount == 8) = true := by
    decide +kernel
  obtain ⟨reading, read, eight⟩ := exists_ok_of_any count
  have built := exists_built read
  refine ⟨_, built, ?_, (parseText_numbered built).1⟩
  exact (Document.nodeCount_arena _).trans (by simpa using eight)

/-- The views on the nodes of every document that was read agree. -/
theorem parseText_viewsAgree (read : parseText options source = some (.ok built)) :
    built.arena.ViewsAgree := by
  obtain ⟨reading, -, rfl⟩ := exists_reading read
  exact reading.document.viewsAgree_arena

/-- Elements among text and a comment. -/
theorem parseText_viewsAgree_mixed : ∃ built,
    parseText {} "<a>t<b/>u<c/><!--x--></a>".toList = some (.ok built) ∧
      built.arena.lastElementChild? 2 = some 6 ∧ built.arena.ViewsAgree := by
  have last : (Markup.parseText {} "<a>t<b/>u<c/><!--x--></a>".toList).toOption.any
      (·.document.lastElementChild? 2 == some 6) = true := by
    decide +kernel
  obtain ⟨reading, read, six⟩ := exists_ok_of_any last
  have built := exists_built read
  refine ⟨_, built, ?_, parseText_viewsAgree built⟩
  exact (Document.lastElementChild?_arena _ _).trans (by simpa using six)

end Arenas

section Places

/-- The places that are reported: those of the warnings and then that of the fault. -/
def reportedPlaces : Except ParseError Built → List Location
  | .ok built => built.diagnostics.map (·.place)
  | .error error => error.diagnostics.map (·.place) ++ [error.place]

/-- Every place that is reported is one of the text, and the offsets never decrease. -/
theorem reportedPlaces_parse (options : Options) (source : Text) :
    ∃ outcome, parse options source = some outcome ∧
      (∀ place ∈ reportedPlaces outcome, place.In source) ∧
      (reportedPlaces outcome).Pairwise (·.offset ≤ ·.offset) := by
  have same : reportedPlaces ((Markup.parse options source).map Built.ofReading) =
      Markup.reportedPlaces (Markup.parse options source) := by
    cases Markup.parse options source <;> rfl
  refine ⟨_, parse_eq options source, ?_⟩
  rw [same]
  exact reportedPlaces_ordered options source

end Places

end XmlSelect.Machine
