import XmlSelect.Markup.Leaf
import XmlSelect.Markup.Tag
/-! The content of elements. The open elements form a stack, so that one loop reads all levels. -/
namespace XmlSelect.Markup

/-- An element whose end has not been reached, and its children so far, last first. -/
structure OpenElement where
  name : Text
  attributes : List Attribute
  before : Forest

namespace OpenElement

def ofTag (tag : StartTag) : OpenElement := ⟨tag.name, tag.attributes, .nil⟩

def addLeaf (element : OpenElement) (leaf : Leaf) : OpenElement :=
  { element with before := .leaf leaf element.before }

/-- Puts a finished element behind the children of the one around it. -/
def addElement (element inner : OpenElement) : OpenElement :=
  { element with
    before := .element inner.name inner.attributes inner.before.reverse element.before }

/-- Puts a run of text, last character first, behind the children; an empty run is no node. -/
def addText (element : OpenElement) (pending : Text) : OpenElement :=
  if pending.isEmpty then element else element.addLeaf (.text pending.reverse)

/-- The children so far, in document order. -/
def content (element : OpenElement) : Forest := element.before.reverse

@[simp] theorem content_ofTag (tag : StartTag) : (ofTag tag).content = .nil := rfl

@[simp] theorem content_addLeaf (element : OpenElement) (leaf : Leaf) :
    (element.addLeaf leaf).content = element.content ++ .leaf leaf .nil :=
  Forest.reverse_leaf leaf element.before

@[simp] theorem content_addElement (element inner : OpenElement) :
    (element.addElement inner).content =
      element.content ++ .element inner.name inner.attributes inner.content .nil :=
  Forest.reverse_element ..

end OpenElement

/-- The end tag of an element, from behind `</` on. -/
def endTag (element : Text) (source : Text) : Except Stop (Read source Unit) := do
  let ⟨found, afterName, named⟩ ← name source
  if found ≠ element then throw ⟨.mismatchedEndTag element found, afterName⟩
  let ⟨_, body, blanks⟩ := skipBlanks afterName
  let ⟨_, rest, closed⟩ ← expect ['>'] body
  have spaced := blanks.trans named
  return ⟨(), rest, closed.trans spaced⟩

/-- Reads up to the end of the outermost of the open elements. `inner` is the innermost of them,
`outer` are those around it, and `pending` is the text since the last markup, last character
first. -/
def content (setting : Setting) (whole : Text) (inner : OpenElement) (outer : List OpenElement)
    (pending : Text) (ledger : Ledger) (source : Text) (within : source <:+ whole) :
    Except Failure (Read whole (OpenElement × Ledger)) :=
  match source with
  | [] => .error ⟨.unclosedElement inner.name, [], ledger⟩
  | c :: rest => do
    if c == '<' then
      let inner := inner.addText pending
      match take? ['/'] rest with
      | some ⟨_, afterSlash, slash⟩ =>
        let ⟨_, after, closed⟩ ← withLedger ledger (endTag inner.name afterSlash)
        have suffix : after <:+ rest := closed.trans slash
        have := suffix.length_le
        have within : after <:+ whole := suffix.trans ((List.suffix_cons _ _).trans within)
        match outer with
        | [] => return ⟨(inner, ledger), after, within⟩
        | parent :: outer =>
          content setting whole (parent.addElement inner) outer [] ledger after within
      | none =>
        match contentLeaf? rest with
        | some result =>
          let ⟨leaf, after, suffix⟩ ← withLedger ledger result
          have := suffix.length_le
          content setting whole (inner.addLeaf leaf) outer [] ledger after
            (suffix.trans ((List.suffix_cons _ _).trans within))
        | none =>
          let ⟨(tag, expanded), after, suffix⟩ ← startTag setting (outer.length + 1) ledger rest
          have := suffix.length_le
          have within : after <:+ whole := suffix.trans ((List.suffix_cons _ _).trans within)
          let element := OpenElement.ofTag tag
          if tag.closed then
            content setting whole (inner.addElement element) outer [] expanded after within
          else content setting whole element (inner :: outer) [] expanded after within
    else if c == '&' then
      let ⟨(value, expanded), after, suffix⟩ ← reference setting .content ledger rest
      have := suffix.length_le
      content setting whole inner outer (value.reverse ++ pending) expanded after
        (suffix.trans ((List.suffix_cons _ _).trans within))
    else if (take? "]]>".toList (c :: rest)).isSome then
      throw ⟨.sectionEndInText, c :: rest, ledger⟩
    else
      let ⟨next, after, suffix⟩ ← withLedger ledger (nextChar c rest)
      have := suffix.length_le
      content setting whole inner outer (next :: pending) ledger after
        (suffix.trans ((List.suffix_cons _ _).trans within))
termination_by source.length

/-- The element at the top of a document, from behind its opening bracket on. -/
def rootElement (setting : Setting) (ledger : Ledger) (source : Text) :
    Except Failure (Read source (OpenElement × Ledger)) := do
  let ⟨(tag, expanded), after, suffix⟩ ← startTag setting 0 ledger source
  let element := OpenElement.ofTag tag
  if tag.closed then return ⟨(element, expanded), after, suffix⟩
  content setting source element [] [] expanded after suffix

end XmlSelect.Markup
