/-! Text as a list of characters: its size in bytes, and what stands before and after a pattern. -/
namespace XmlSelect

/-- Text, character by character. -/
abbrev Text := List Char

namespace Text

/-- The length in bytes of the UTF-8 form. -/
def byteLength : Text → Nat
  | [] => 0
  | c :: rest => c.utf8Size + byteLength rest

@[simp] theorem byteLength_nil : byteLength [] = 0 := rfl

@[simp] theorem byteLength_cons (c : Char) (text : Text) :
    byteLength (c :: text) = c.utf8Size + byteLength text := rfl

@[simp] theorem byteLength_append (left right : Text) :
    byteLength (left ++ right) = byteLength left + byteLength right := by
  induction left with
  | nil => simp
  | cons c left ih => simp [ih, Nat.add_assoc]

/-- What stands after `pattern`, if the text starts with it. -/
def dropPrefix? : (pattern text : Text) → Option Text
  | [], text => some text
  | _ :: _, [] => none
  | p :: pattern, c :: text => if p = c then dropPrefix? pattern text else none

theorem append_of_dropPrefix? {pattern text after : Text}
    (found : dropPrefix? pattern text = some after) : text = pattern ++ after := by
  induction pattern generalizing text with
  | nil => simpa [dropPrefix?] using found
  | cons p pattern ih =>
    cases text with
    | nil => simp [dropPrefix?] at found
    | cons c text =>
      simp only [dropPrefix?] at found
      split at found
      · rename_i same
        rw [ih found, same, List.cons_append]
      · simp at found

/-- What stands before and after the first occurrence of `pattern`. -/
def breakOn? (pattern : Text) : Text → Option (Text × Text)
  | [] => if pattern.isEmpty then some ([], []) else none
  | c :: rest =>
    match dropPrefix? pattern (c :: rest) with
    | some after => some ([], after)
    | none => (breakOn? pattern rest).map fun (before, after) => (c :: before, after)

/-- The two parts and the pattern between them are the whole text. -/
theorem append_of_breakOn? {pattern text before after : Text}
    (found : breakOn? pattern text = some (before, after)) : text = before ++ pattern ++ after := by
  induction text generalizing before with
  | nil =>
    simp only [breakOn?] at found
    split at found
    · simp_all
    · simp at found
  | cons c rest ih =>
    simp only [breakOn?] at found
    split at found
    · rename_i tail start
      simp only [Option.some.injEq, Prod.mk.injEq] at found
      obtain ⟨rfl, rfl⟩ := found
      simpa using append_of_dropPrefix? start
    · simp only [Option.map_eq_some_iff, Prod.mk.injEq, Prod.exists] at found
      obtain ⟨front, back, later, rfl, rfl⟩ := found
      simp [ih later]

/-- Whether `pattern` occurs. -/
def includes (pattern text : Text) : Bool := (breakOn? pattern text).isSome

/-- Whether the text ends in `ending`. -/
def endsWith (ending text : Text) : Bool := ending.isSuffixOf text

/-- Every occurrence of `pattern` from left to right, none overlapping the one before it: the
character in front of it and the text behind it. The empty pattern occurs at each place. -/
def occurrences (pattern : Text) (text : Text) : List (Option Char × Text) :=
  go 0 none text
where
  /-- Skips as many characters as are left of the last occurrence. -/
  go : Nat → Option Char → Text → List (Option Char × Text)
    | skip, previous, [] => if skip == 0 && pattern.isEmpty then [(previous, [])] else []
    | 0, previous, c :: rest =>
      match dropPrefix? pattern (c :: rest) with
      | some after => (previous, after) :: go (pattern.length - 1) (some c) rest
      | none => go 0 (some c) rest
    | skip + 1, _, c :: rest => go skip (some c) rest

/-- Drops the characters of a class at both ends. -/
def trim (drop : Char → Bool) (text : Text) : Text :=
  ((text.dropWhile drop).reverse.dropWhile drop).reverse

/-- The non-empty runs between characters of the class `gap`. -/
def words (gap : Char → Bool) (text : Text) : List Text :=
  (text.splitOnP gap).filter fun word => !word.isEmpty

/-- The decimal digits of a natural number. -/
def ofNat (n : Nat) : Text := Nat.toDigits 10 n

/-- Letters of the ASCII alphabet in lower case, all else as it is. -/
def toLower (text : Text) : Text := text.map Char.toLower

end Text

end XmlSelect
