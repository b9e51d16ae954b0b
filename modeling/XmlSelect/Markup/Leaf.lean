import XmlSelect.Markup.Lexical
import XmlSelect.Tree.Forest
/-! Comments, CDATA sections and processing instructions. -/
namespace XmlSelect.Markup

/-- A comment from behind `<!--` on. -/
def comment (source : Text) : Except Stop (Read source Leaf) := do
  let ⟨content, rest, suffix⟩ ← takeUntil "-->".toList .comment source
  if Text.includes "--".toList content || Text.endsWith ['-'] content then
    throw ⟨.doubleHyphenInComment, rest⟩
  return ⟨.comment content, rest, suffix⟩

/-- A CDATA section from behind its opening on. -/
def cdataSection (source : Text) : Except Stop (Read source Leaf) := do
  let ⟨content, rest, suffix⟩ ← takeUntil "]]>".toList .cdata source
  return ⟨.cdata content, rest, suffix⟩

/-- A processing instruction from behind `<?` on. Blanks behind the target are not part of the
data, and empty data is none. -/
def instruction (source : Text) : Except Stop (Read source Leaf) := do
  let ⟨target, afterTarget, named⟩ ← name source
  if Text.toLower target == "xml".toList then throw ⟨.misplacedDeclaration, afterTarget⟩
  match take? "?>".toList afterTarget with
  | some ⟨_, rest, closed⟩ => return ⟨.instruction target none, rest, closed.trans named⟩
  | none =>
    let ⟨_, body, blanks⟩ ← requireBlank afterTarget
    let ⟨data, rest, suffix⟩ ← takeUntil "?>".toList .instruction body
    have spaced := blanks.trans named
    return ⟨.instruction target (if data.isEmpty then none else some data), rest,
      suffix.trans spaced⟩

/-- A comment or an instruction from behind `<` on, if one is next. -/
def commentOrInstruction? (source : Text) : Option (Except Stop (Read source Leaf)) :=
  match source with
  | '!' :: '-' :: '-' :: rest =>
    some ((comment rest).map (·.within (List.suffix_append ['!', '-', '-'] rest)))
  | '?' :: rest => some ((instruction rest).map (·.within (List.suffix_cons _ _)))
  | _ => none

/-- What of these may stand in an element, from behind `<` on, if it is next. -/
def contentLeaf? (source : Text) : Option (Except Stop (Read source Leaf)) :=
  match commentOrInstruction? source with
  | some result => some result
  | none => (take? "![CDATA[".toList source).map fun opened =>
    (cdataSection opened.rest).map (·.within opened.suffix)

end XmlSelect.Markup
