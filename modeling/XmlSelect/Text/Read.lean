import XmlSelect.Text.Basic
/-! Reading from the start of a text: what was read, and the end of the text that is left. -/
namespace XmlSelect

/-- What was read from the start of `source`, and the rest. -/
structure Read (source : Text) (α : Type) where
  value : α
  rest : Text
  suffix : rest <:+ source

namespace Read

/-- The same reading, seen as one of a longer text. -/
def within {source whole : Text} {α : Type} (read : Read source α) (suffix : source <:+ whole) :
    Read whole α :=
  ⟨read.value, read.rest, read.suffix.trans suffix⟩

def map {source : Text} {α β : Type} (convert : α → β) (read : Read source α) : Read source β :=
  ⟨convert read.value, read.rest, read.suffix⟩

/-- Passes over characters of a class; the value tells whether there were any. -/
def skip (drop : Char → Bool) (source : Text) : Read source Bool :=
  ⟨source.head?.any drop, source.dropWhile drop, List.dropWhile_suffix _⟩

end Read

section Stretch

variable {holds : Char → Bool} {front : Text}

theorem stops_cons {mark : Char} (other : holds mark = false) (rest : Text) :
    ∀ c ∈ (mark :: rest).head?, holds c = false := by
  rintro c ⟨⟩
  exact other

/-- A stretch of characters of a class ends where another character stands. -/
theorem span_append {tail : Text} (each : ∀ c ∈ front, holds c = true)
    (stops : ∀ c ∈ tail.head?, holds c = false) :
    (front ++ tail).takeWhile holds = front ∧ (front ++ tail).dropWhile holds = tail := by
  have ends : tail.takeWhile holds = [] ∧ tail.dropWhile holds = tail := by
    cases tail with
    | nil => exact ⟨rfl, rfl⟩
    | cons c rest => simp [stops c rfl]
  simp [List.takeWhile_append_of_pos each, List.dropWhile_append_of_pos each, ends]

theorem Read.skip_append (tail : Text) (each : ∀ c ∈ front, holds c = true)
    (stops : ∀ c ∈ tail.head?, holds c = false) :
    ∀ source, source = front ++ tail →
      ∃ suffix, skip holds source = ⟨!front.isEmpty, tail, suffix⟩ := by
  rintro source rfl
  refine ⟨List.suffix_append front tail, ?_⟩
  have some : (front ++ tail).head?.any holds = !front.isEmpty := by
    cases front with
    | nil =>
      cases tail with
      | nil => rfl
      | cons c rest => exact stops c rfl
    | cons c rest => exact each c List.mem_cons_self
  simp only [skip, some, (span_append each stops).2]

end Stretch

section Outcome

variable {ε ε' α β : Type}

@[simp] theorem ok_bind (value : α) (next : α → Except ε β) :
    (Except.ok value >>= next) = next value := rfl

/-- What holds of the value of a reading tells that there is one. -/
theorem exists_ok_of_any {result : Except ε α} {holds : α → Bool}
    (found : result.toOption.any holds = true) :
    ∃ value, result = .ok value ∧ holds value = true := by
  cases result with
  | error error => cases found
  | ok value => exact ⟨value, rfl, found⟩

theorem ok_of_toOption {result : Except ε α} {value : α} (found : result.toOption = some value) :
    result = .ok value := by
  cases result with
  | error error => cases found
  | ok other => exact congrArg Except.ok (Option.some.inj found)

/-- A reading that goes on came to an end before. -/
theorem bind_ok {first : Except ε α} {next : α → Except ε β} {result : β}
    (read : (first >>= next) = .ok result) :
    ∃ value, first = .ok value ∧ next value = .ok result := by
  cases first with
  | error error => cases read
  | ok value => exact ⟨value, rfl, read⟩

theorem bind_of_ok {first : Except ε α} {next : α → Except ε β} {value : α} {result : β}
    (here : first = .ok value) (read : next value = .ok result) :
    (first >>= next) = .ok result := by
  rw [here]
  exact read

/-- Reading that comes to a fault does so in its first part or behind it. -/
theorem bind_error {first : Except ε α} {next : α → Except ε β} {error : ε}
    (stuck : (first >>= next) = .error error) :
    first = .error error ∨ ∃ value, first = .ok value ∧ next value = .error error := by
  cases first with
  | error _ => exact .inl (congrArg Except.error (Except.error.inj stuck))
  | ok value => exact .inr ⟨value, rfl, stuck⟩

theorem map_ok {first : Except ε α} {convert : α → β} {result : β}
    (read : first.map convert = .ok result) :
    ∃ value, first = .ok value ∧ convert value = result := by
  cases first with
  | error error => cases read
  | ok value => exact ⟨value, rfl, Except.ok.inj read⟩

theorem map_error {first : Except ε α} {convert : α → β} {error : ε}
    (stuck : first.map convert = .error error) : first = .error error := by
  cases first with
  | error _ => exact congrArg Except.error (Except.error.inj stuck)
  | ok value => cases stuck

theorem mapError_ok {first : Except ε α} {convert : ε → ε'} {result : α}
    (read : first.mapError convert = .ok result) : first = .ok result := by
  cases first with
  | error error => cases read
  | ok value => exact congrArg Except.ok (Except.ok.inj read)

theorem mapError_error {first : Except ε α} {convert : ε → ε'} {error : ε'}
    (stuck : first.mapError convert = .error error) :
    ∃ before, first = .error before ∧ convert before = error := by
  cases first with
  | error before => exact ⟨before, rfl, Except.error.inj stuck⟩
  | ok value => cases stuck

end Outcome

end XmlSelect
