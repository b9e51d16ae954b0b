import XmlSelect.Machine.Element
/-! Document type declarations, read by the machine. -/
namespace XmlSelect.Machine

open Markup

/-- The system and public identifiers, if any are next. -/
def externalId : Parser (Option Text × Option Text) := do
  if ← eat "SYSTEM".toList then
    requireBlank
    let system ← quoted
    return (some system, none)
  else if ← eat "PUBLIC".toList then
    requireBlank
    let publicId ← quoted
    requireBlank
    let system ← quoted
    return (some system, some publicId)
  else return (none, none)

/-- Passes over a declaration up to its closing bracket, which does not count inside quotes. -/
def skipDeclaration : Nat → Parser Unit
  | 0 => unfinished
  | rounds + 1 => do
    match ← peek? with
    | none => fatal .unterminatedMarkupDeclaration
    | some c =>
      if c == '>' then expect ['>']
      else if isQuote c then
        let _ ← quoted
        skipDeclaration rounds
      else
        let _ ← nextChar
        skipDeclaration rounds

/-- What an entity is declared to be. -/
def entityDefinition (declared : Text) : Parser Entity := do
  if (← peek?).any isQuote then return .internal (← quoted)
  else
    let (system, publicId) ← externalId
    match system with
    | none => fatal (.entityWithoutValue declared)
    | some systemId =>
      let _ ← skipBlanks
      if ← eat "NDATA".toList then
        requireBlank
        let _ ← name
        return .external systemId publicId
      else return .external systemId publicId

/-- The percent sign of a parameter entity with the blanks behind it, if it is next. -/
def parameterMark : Parser Bool := do
  if ← eat ['%'] then
    requireBlank
    return true
  else return false

/-- The declaration of an entity; the first one of a name is binding, and those of parameter entities
are left out. -/
def entityDeclaration : Parser Unit := do
  expect "<!ENTITY".toList
  requireBlank
  let parameter ← parameterMark
  let declared ← name
  requireBlank
  let entity ← entityDefinition declared
  let _ ← skipBlanks
  expect ['>']
  if !parameter then
    modify fun state => { state with table := state.table.declare declared entity }

/-- A declaration, comment or instruction of the internal subset, if one is next; the value tells
whether there was one. -/
def subsetItem : Parser Bool := do
  if ← lookingAt "<!ENTITY".toList then
    entityDeclaration
    return true
  else if ← eat "<!--".toList then
    let _ ← takeUntil "-->".toList .comment
    return true
  else if ← eat "<?".toList then
    let _ ← takeUntil "?>".toList .instruction
    return true
  else if ← eat "<!".toList then
    skipDeclaration (← rounds)
    return true
  else return false

/-- A reference to a parameter entity, if one is next; it is left out with a warning. -/
def parameterReference : Parser Bool := do
  if ← eat ['%'] then
    let entity ← name
    expect [';']
    warn (.parameterEntityIgnored entity)
    return true
  else return false

/-- The rest of the internal subset with its closing bracket. -/
def internalSubset : Nat → Parser Unit
  | 0 => unfinished
  | rounds + 1 => do
    let _ ← skipBlanks
    if ← eat [']'] then return ()
    else if ← atEnd then fatal .unterminatedSubset
    else if ← subsetItem then internalSubset rounds
    else if ← parameterReference then internalSubset rounds
    else fatal .unexpectedInSubset

/-- The internal subset in its brackets, if one is next. -/
def optionalSubset : Parser Unit := do
  if ← eat ['['] then
    internalSubset (← rounds)
    let _ ← skipBlanks
    return ()
  else return ()

/-- A document type declaration, behind the children of a node. -/
def doctype (parent : Nat) : Parser Unit := do
  expect "<!DOCTYPE".toList
  requireBlank
  let declared ← name
  let _ ← skipBlanks
  let (system, publicId) ← externalId
  let _ ← skipBlanks
  optionalSubset
  expect ['>']
  appendLeaf parent (.doctype declared system publicId)

end XmlSelect.Machine
