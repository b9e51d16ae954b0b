import XmlSelect.Text.Basic
/-! Places in a text: lines and columns count characters from one, offsets count bytes from zero. -/
namespace XmlSelect

structure Location where
  line : Nat
  column : Nat
  offset : Nat
deriving DecidableEq

namespace Location

def start : Location := ⟨1, 1, 0⟩

/-- The place behind a character; a line feed starts a new line. -/
def advance (place : Location) (c : Char) : Location :=
  if c == '\n' then ⟨place.line + 1, 1, place.offset + c.utf8Size⟩
  else ⟨place.line, place.column + 1, place.offset + c.utf8Size⟩

/-- The place behind a text that starts at the first place. -/
def after (text : Text) : Location := text.foldl advance start

/-- The place in `source` at which its end `rest` begins. -/
def ofRest (source rest : Text) : Location := after (source.take (source.length - rest.length))

theorem after_append (text : Text) (c : Char) : after (text ++ [c]) = (after text).advance c := by
  simp [after]

theorem ofRest_append (before rest : Text) : ofRest (before ++ rest) rest = after before := by
  simp [ofRest]

private theorem offset_foldl (text : Text) (place : Location) :
    (text.foldl advance place).offset = place.offset + Text.byteLength text := by
  induction text generalizing place with
  | nil => rfl
  | cons c rest ih =>
    rw [List.foldl_cons, ih, Text.byteLength_cons, advance]
    split <;> simp only <;> omega

/-- The offset is the size in bytes of what stands before. -/
theorem offset_after (text : Text) : (after text).offset = Text.byteLength text := by
  simp [after, offset_foldl, start]

private theorem line_foldl (text : Text) (place : Location) :
    (text.foldl advance place).line = place.line + text.count '\n' := by
  induction text generalizing place with
  | nil => rfl
  | cons c rest ih =>
    rw [List.foldl_cons, ih, advance, List.count_cons]
    split
    · simp_all
      omega
    · simp_all

/-- The line is one more than the line feeds before. -/
theorem line_after (text : Text) : (after text).line = 1 + text.count '\n' := by
  simp [after, line_foldl, start]

/-- The line and the column, as they are shown in messages. -/
def text (place : Location) : Text :=
  Text.ofNat place.line ++ ':' :: Text.ofNat place.column

end Location

end XmlSelect
