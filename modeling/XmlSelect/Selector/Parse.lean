import XmlSelect.Selector.Basic
import XmlSelect.Text.Read
/-! Reading selectors. -/
namespace XmlSelect.Selector

/-- A fault, and the rest of the text at its place. -/
structure Stop where
  fault : Fault
  rest : Text

/-- The identifier behind a mark that stands at `opening`. -/
def identifier (mark : Char) (opening source : Text) : Except Stop (Read source Text) :=
  let name := source.takeWhile isIdentChar
  if name.isEmpty then .error ⟨.missingIdentifier mark, opening⟩
  else .ok ⟨name, source.dropWhile isIdentChar, List.dropWhile_suffix _⟩

/-- The name of an attribute, empty if none can start here. -/
def attributeName (source : Text) : Read source Text :=
  if source.head?.any isIdentStart then
    ⟨source.takeWhile isIdentChar, source.dropWhile isIdentChar, List.dropWhile_suffix _⟩
  else ⟨[], source, List.suffix_refl _⟩

/-- The comparison of an attribute test, or none if its bracket closes here. -/
def comparison (opening source : Text) : Except Stop (Read source (Option Comparison)) :=
  match source with
  | [] => .error ⟨.unterminatedAttribute, opening⟩
  | ']' :: rest => .ok ⟨none, rest, List.suffix_cons _ _⟩
  | '=' :: rest => .ok ⟨some .equals, rest, List.suffix_cons _ _⟩
  | c :: '=' :: rest =>
    match Comparison.ofMark? c with
    | some found => .ok ⟨some found, rest, List.suffix_append [c, '='] rest⟩
    | none => .error ⟨.unsupported c, c :: '=' :: rest⟩
  | c :: rest => .error ⟨.unsupported c, c :: rest⟩

/-- Characters of an operand without quotes. -/
def isBare (c : Char) : Bool := c != ']' && !isSpace c && c != '\'' && c != '"'

/-- The operand of a comparison, between quotes or bare. -/
def operand (opening source : Text) : Except Stop (Read source Text) :=
  match source with
  | [] => .error ⟨.unterminatedAttribute, opening⟩
  | c :: rest =>
    if c == ']' then .error ⟨.missingAttributeValue, c :: rest⟩
    else if c == '\'' || c == '"' then
      match found : Text.breakOn? [c] rest with
      | some (value, after) =>
        .ok ⟨value, after, c :: value ++ [c], by simp [Text.append_of_breakOn? found]⟩
      | none => .error ⟨.unterminatedString, c :: rest⟩
    else .ok ⟨(c :: rest).takeWhile isBare, (c :: rest).dropWhile isBare, List.dropWhile_suffix _⟩

/-- An attribute test from behind its bracket, which stands at `opening`. -/
def attributeTest (opening source : Text) : Except Stop (Read source AttributeTest) := do
  let ⟨_, beforeName, first⟩ := Read.skip isSpace source
  let ⟨name, afterName, named⟩ := attributeName beforeName
  let ⟨_, beforeMark, gap⟩ := Read.skip isSpace afterName
  let ⟨found, afterMark, marked⟩ ← comparison opening beforeMark
  if name.isEmpty then throw ⟨.emptyAttributeName, beforeName⟩
  have suffix : afterMark <:+ source := marked.trans (gap.trans (named.trans first))
  match found with
  | none => return ⟨⟨name, none⟩, afterMark, suffix⟩
  | some compared =>
    let ⟨_, beforeValue, blanks⟩ := Read.skip isSpace afterMark
    let ⟨value, afterValue, valued⟩ ← operand opening beforeValue
    let ⟨_, close, behind⟩ := Read.skip isSpace afterValue
    have suffix : close <:+ source := behind.trans (valued.trans (blanks.trans suffix))
    match close, suffix with
    | ']' :: rest, suffix =>
      return ⟨⟨name, some (compared, value)⟩, rest, (List.suffix_cons _ _).trans suffix⟩
    | [], _ => throw ⟨.unterminatedAttribute, opening⟩
    | c :: rest, _ => throw ⟨.unsupported c, c :: rest⟩

/-- One part of a compound behind its mark: an id, a class that counts once, or an attribute
test. Other characters start no part. -/
def part? (compound : Compound) (mark : Char) (rest : Text) :
    Option (Except Stop (Read rest Compound)) :=
  match mark with
  | '#' => some ((identifier '#' (mark :: rest) rest).map
      (·.map fun id => { compound with ids := compound.ids ++ [id] }))
  | '.' => some ((identifier '.' (mark :: rest) rest).map
      (·.map fun name =>
        if compound.classes.contains name then compound
        else { compound with classes := compound.classes ++ [name] }))
  | '[' => some ((attributeTest (mark :: rest) rest).map
      (·.map fun test => { compound with attributes := compound.attributes ++ [test] }))
  | _ => none

/-- Further parts of a compound. -/
def parts (whole : Text) (compound : Compound) (source : Text) (within : source <:+ whole) :
    Except Stop (Read whole Compound) :=
  match source with
  | [] => .ok ⟨compound, [], within⟩
  | mark :: rest =>
    match part? compound mark rest with
    | none => .ok ⟨compound, mark :: rest, within⟩
    | some result => do
      let ⟨extended, after, suffix⟩ ← result
      have := suffix.length_le
      parts whole extended after (suffix.trans ((List.suffix_cons _ _).trans within))
termination_by source.length

/-- A compound whose first character is at hand. -/
def compound (first : Char) (rest : Text) : Except Stop (Read rest Compound) :=
  if first == '*' then parts _ {} rest (List.suffix_refl _)
  else if isIdentStart first then
    parts _ { tag := some (first :: rest.takeWhile isIdentChar) } (rest.dropWhile isIdentChar)
      (List.dropWhile_suffix _)
  else match part? {} first rest with
    | none => .error ⟨.unsupported first, first :: rest⟩
    | some result => do
      let ⟨started, after, suffix⟩ ← result
      parts _ started after suffix

/-- A chain from the compound on that starts with the given character; `done` are the compounds in
front of it, last first. -/
def chain (done : Chain) (combinator : Combinator) (first : Char) (rest : Text) :
    Except Stop Chain := do
  let ⟨read, after, suffix⟩ ← compound first rest
  have := suffix.length_le
  let done := (combinator, read) :: done
  let ⟨spaced, body, blanks⟩ := Read.skip isSpace after
  have shorter := blanks.length_le
  match body, shorter with
  | [], _ => return done.reverse
  | '>' :: behind, _shorter =>
    let ⟨_, next, gap⟩ := Read.skip isSpace behind
    have nearer := gap.length_le
    match next, nearer with
    | [], _ => throw ⟨.danglingCombinator, '>' :: behind⟩
    | c :: others, _nearer =>
      if c == '>' then throw ⟨.danglingCombinator, '>' :: behind⟩
      chain done .child c others
  | c :: others, _shorter =>
    if !spaced then throw ⟨.unsupported c, c :: others⟩
    chain done .descendant c others
termination_by rest.length
decreasing_by all_goals simp only [List.length_cons] at *; omega

/-- The selector that a text denotes. -/
def parse (source : Text) : Except Error Chain :=
  match source.dropWhile isSpace with
  | [] => .error .empty
  | first :: rest =>
    let outcome :=
      if first == '>' then .error ⟨.danglingCombinator, first :: rest⟩
      else chain [] .descendant first rest
    outcome.mapError fun stop =>
      .malformed stop.fault (Text.byteLength source - Text.byteLength stop.rest)

end XmlSelect.Selector
