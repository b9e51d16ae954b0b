import XmlSelect.Machine.Entity
/-! Elements and what is inside them, read by the machine. Each node is put into the arena when it
has been read, an element as soon as its name is known. -/
namespace XmlSelect.Machine

open Markup

section Nodes

/-- A new node without links. -/
def createNode (kind : SlotKind) : Parser Nat := do
  let state ← get
  set { state with arena := state.arena.create kind }
  return state.arena.next

def appendChild (parent child : Nat) : Parser Unit :=
  modify fun state => { state with arena := state.arena.append parent child }

/-- A new node behind the children of another one. -/
def appendLeaf (parent : Nat) (leaf : Leaf) : Parser Unit := do
  let node ← createNode (.leaf leaf)
  appendChild parent node

def addAttribute (element : Nat) (self : Attribute) : Parser Unit :=
  modify fun state => { state with arena := state.arena.addAttribute element self }

/-- Puts a run of text behind the children; an empty run is no node. -/
def flushText (parent : Nat) (text : Text) : Parser Unit :=
  if text.isEmpty then return () else appendLeaf parent (.text text)

end Nodes

section Leaves

def comment (parent : Nat) : Parser Unit := do
  expect "<!--".toList
  let content ← takeUntil "-->".toList .comment
  if Text.includes "--".toList content || Text.endsWith ['-'] content then
    fatal .doubleHyphenInComment
  else appendLeaf parent (.comment content)

def cdataSection (parent : Nat) : Parser Unit := do
  expect "<![CDATA[".toList
  let content ← takeUntil "]]>".toList .cdata
  appendLeaf parent (.cdata content)

/-- A processing instruction. Blanks behind the target are not part of the data, and empty data is
none. -/
def instruction (parent : Nat) : Parser Unit := do
  expect "<?".toList
  let target ← name
  if Text.toLower target == "xml".toList then fatal .misplacedDeclaration
  else if ← eat "?>".toList then appendLeaf parent (.instruction target none)
  else
    requireBlank
    let data ← takeUntil "?>".toList .instruction
    appendLeaf parent (.instruction target (if data.isEmpty then none else some data))

/-- A comment or an instruction, if one is next; the value tells whether there was one. -/
def commentOrInstruction (parent : Nat) : Parser Bool := do
  if ← lookingAt "<!--".toList then
    comment parent
    return true
  else if ← lookingAt "<?".toList then
    instruction parent
    return true
  else return false

/-- What of these may stand in an element, if it is next. -/
def contentLeaf (parent : Nat) : Parser Bool := do
  if ← commentOrInstruction parent then return true
  else if ← lookingAt "<![CDATA[".toList then
    cdataSection parent
    return true
  else return false

end Leaves

section Elements

variable (options : Options)

/-- An attribute value up to its closing quote, behind the part `value` of it. -/
def attributeText (quote : Char) : Nat → Text → Parser Text
  | 0, _ => unfinished
  | rounds + 1, value => do
    match ← peek? with
    | none => fatal .unterminatedAttribute
    | some c =>
      if c == quote then
        advance c
        return value
      else if c == '<' then fatal .lessThanInAttribute
      else if c == '&' then
        let expanded ← reference options .attributeValue
        attributeText quote rounds (value ++ expanded)
      else
        let next ← nextChar
        attributeText quote rounds (value ++ [if isBlank next then ' ' else next])

/-- An attribute value with its quotes. -/
def attributeValue : Parser Text := do
  match ← peek? with
  | none => fatal .unquotedAttribute
  | some quote =>
    if isQuote quote then
      advance quote
      attributeText options quote (← rounds) []
    else fatal .unquotedAttribute

/-- An attribute whose name is not among `seen`. -/
def newAttribute (tag : Text) (seen : List Text) : Parser Attribute := do
  let key ← name
  let _ ← skipBlanks
  expect ['=']
  let _ ← skipBlanks
  let value ← attributeValue options
  if seen.any (· == key) then fatal (.duplicateAttribute key tag) else return ⟨key, value⟩

/-- The attributes of an element and the end of its start tag; the value tells whether the element
ends there. `seen` are the names of the attributes so far. -/
def attributeList (element : Nat) (tag : Text) : Nat → List Text → Parser Bool
  | 0, _ => unfinished
  | rounds + 1, seen => do
    let spaced ← skipBlanks
    if ← eat "/>".toList then return true
    else if ← eat ['>'] then return false
    else if ← atEnd then fatal (.unterminatedStartTag tag)
    else if !spaced then fatal .blankRequiredBetweenAttributes
    else
      let self ← newAttribute options tag seen
      addAttribute element self
      attributeList element tag rounds (self.name :: seen)

/-- A start tag. Its element is put behind the children of another node when its name is known. The
value is the element, its name, and whether it ends there. -/
def startTag (parent : Nat) : Parser (Nat × Text × Bool) := do
  expect ['<']
  let tag ← name
  incrementDepth options
  let self ← createNode (.element tag [])
  appendChild parent self
  let closed ← attributeList options self tag (← rounds) []
  return (self, tag, closed)

/-- The end tag of an element, from behind `</` on. -/
def endTag (tag : Text) : Parser Unit := do
  let found ← name
  if found ≠ tag then fatal (.mismatchedEndTag tag found)
  else
    let _ ← skipBlanks
    expect ['>']

mutual

/-- An element with all that is inside, behind the children of another node. -/
def element (parent rounds : Nat) : Parser Unit := do
  let (self, tag, closed) ← startTag options parent
  if closed then decrementDepth
  else
    content self tag rounds []
    decrementDepth
termination_by (rounds, 1)

/-- What is inside an element, with its end tag. `text` is the text since the last markup: it becomes
a node when markup is met. -/
def content (self : Nat) (tag : Text) : Nat → Text → Parser Unit
  | 0, _ => unfinished
  | rounds + 1, text => do
    if ← atEnd then fatal (.unclosedElement tag)
    else if ← lookingAt ['<'] then
      flushText self text
      if ← eat "</".toList then endTag tag
      else if ← contentLeaf self then content self tag rounds []
      else
        element self rounds
        content self tag rounds []
    else if ← lookingAt ['&'] then
      let value ← reference options .content
      content self tag rounds (text ++ value)
    else if ← lookingAt "]]>".toList then fatal .sectionEndInText
    else
      let c ← nextChar
      content self tag rounds (text ++ [c])
termination_by rounds => (rounds, 0)

end

end Elements

end XmlSelect.Machine
