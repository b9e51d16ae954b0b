import XmlSelect.Machine.Doctype
/-! Whole documents, read by the machine. -/
namespace XmlSelect.Machine

open Markup

section Declaration

/-- Keeps one more field of the declaration. -/
def setField (key value : Text) : Parser Unit :=
  if key == "version".toList then
    modify fun state => { state with fields.version := some value }
  else if key == "encoding".toList then
    modify fun state => { state with fields.encoding := some value }
  else if key == "standalone".toList then
    if value == "yes".toList then
      modify fun state => { state with fields.standalone := some true }
    else if value == "no".toList then
      modify fun state => { state with fields.standalone := some false }
    else fatal (.invalidStandalone value)
  else fatal (.unexpectedInDeclaration key)

def declarationField : Parser Unit := do
  let key ← name
  let _ ← skipBlanks
  expect ['=']
  let _ ← skipBlanks
  let value ← quoted
  setField key value

/-- The fields of the declaration and its end. -/
def declarationFields : Nat → Parser Unit
  | 0 => unfinished
  | rounds + 1 => do
    let spaced ← skipBlanks
    if ← eat "?>".toList then return ()
    else if !spaced then fatal .blankRequiredInDeclaration
    else
      declarationField
      declarationFields rounds

def requireVersion : Parser Unit := do
  if (← get).fields.version.isNone then fatal .missingVersion else return ()

def declaration : Parser Unit := do
  expect "<?xml".toList
  declarationFields (← rounds)
  requireVersion

/-- The declaration at the start of a document, if there is one. -/
def optionalDeclaration : Parser Unit := do
  if ← lookingAt "<?xml".toList then
    if (← charAfter 5).any isBlank then declaration else return ()
  else return ()

end Declaration

section Documents

variable (options : Options)

/-- What has been seen at the top of a document. -/
structure Seen where
  doctype : Bool := false
  root : Bool := false

/-- A node at the top of a document. -/
def topLevelNode (seen : Seen) : Parser Seen := do
  if ← commentOrInstruction Arena.root then return seen
  else if ← lookingAt "<!DOCTYPE".toList then
    if seen.doctype || seen.root then fatal .misplacedDoctype
    else
      doctype Arena.root
      return { seen with doctype := true }
  else if ← lookingAt ['<'] then
    if seen.root then fatal .contentAfterRoot
    else
      element options Arena.root (← rounds)
      return { seen with root := true }
  else fatal (if seen.root then .contentAfterRoot else .textOutsideRoot)

/-- The rest of a document at the top. -/
def topLevel : Nat → Seen → Parser Unit
  | 0, _ => unfinished
  | rounds + 1, seen => do
    let _ ← skipBlanks
    if ← atEnd then
      if seen.root then return () else fatal .missingRoot
    else topLevel rounds (← topLevelNode options seen)

def document : Parser Unit := do
  optionalDeclaration
  topLevel options (← rounds) {}

/-- A document that was read: its nodes, and what happened on the way. -/
structure Built where
  fields : DeclarationFields
  arena : Arena
  diagnostics : List Diagnostic
  requests : List EntityRequest
  expansions : Nat

def State.built (state : State) : Built :=
  ⟨state.fields, state.arena, state.diagnostics, state.requests, state.expansions⟩

/-- Reads a document; there is no answer if a loop runs out of rounds. -/
def parse (source : Text) : Option (Except ParseError Built) :=
  (run (document options) { cursor := { input := source } }).map
    (·.map fun (_, state) => state.built)

/-- Reads a document; a byte order mark in front of it is no part of it. -/
def parseText (source : Text) : Option (Except ParseError Built) :=
  match source with
  | '\ufeff' :: rest => parse options rest
  | source => parse options source

end Documents

end XmlSelect.Machine
