import XmlSelect.Markup.Parse
import XmlSelect.Tree.Arena
/-! Reading documents step by step. A cursor with its counters goes over the text, and what has been
read is kept in a state: limits used up, warnings, entities, and the nodes in their arena. -/
namespace XmlSelect

/-- The text from a byte offset on. -/
def Text.dropBytes : Nat → Text → Text
  | 0, text => text
  | _ + 1, [] => []
  | offset + 1, c :: rest => dropBytes (offset + 1 - c.utf8Size) rest

/-- The text up to a byte offset. -/
def Text.takeBytes : Nat → Text → Text
  | 0, _ => []
  | _ + 1, [] => []
  | offset + 1, c :: rest => c :: takeBytes (offset + 1 - c.utf8Size) rest

namespace Machine

open Markup

/-- A place in a text, as it is counted: bytes from zero, lines and columns from one. -/
structure Cursor where
  input : Text
  offset : Nat := 0
  line : Nat := 1
  column : Nat := 1

namespace Cursor

def place (cursor : Cursor) : Location := ⟨cursor.line, cursor.column, cursor.offset⟩

def rest (cursor : Cursor) : Text := Text.dropBytes cursor.offset cursor.input

def atEnd (cursor : Cursor) : Bool := Text.byteLength cursor.input ≤ cursor.offset

/-- The text between an offset and the cursor. -/
def since (cursor : Cursor) (start : Nat) : Text :=
  Text.takeBytes (cursor.offset - start) (Text.dropBytes start cursor.input)

/-- Passes over one character; a line feed starts a new line. -/
def advance (cursor : Cursor) (c : Char) : Cursor :=
  if c == '\n' then
    { cursor with line := cursor.line + 1, column := 1, offset := cursor.offset + c.utf8Size }
  else { cursor with column := cursor.column + 1, offset := cursor.offset + c.utf8Size }

end Cursor

/-- What has been read so far, and the cursor in the text. -/
structure State where
  cursor : Cursor
  depth : Nat := 0
  expansions : Nat := 0
  diagnostics : List Diagnostic := []
  requests : List EntityRequest := []
  fields : DeclarationFields := {}
  table : EntityTable := []
  arena : Arena := .new

/-- A step of reading: it may run out of rounds, stop at an error, or give a value. -/
abbrev Parser := StateT State (ExceptT ParseError Option)

/-- What a step comes to from a state; none if it runs out of rounds. -/
def run {α : Type} (parser : Parser α) (state : State) :
    Option (Except ParseError (α × State)) :=
  (parser.run state).run

/-- What a loop comes to that has run out of rounds. -/
def unfinished {α : Type} : Parser α := liftM (none : Option α)

/-- How often a loop goes round: once for every character that is left, and once more. -/
def rounds : Parser Nat := return (← get).cursor.rest.length + 1

/-- Stops at the cursor. -/
def fatal {α : Type} (fault : Fault) : Parser α := do
  let state ← get
  throw ⟨fault, state.cursor.place, state.diagnostics, state.requests⟩

/-- Keeps a warning with the place of the cursor. -/
def warn (warning : Warning) : Parser Unit :=
  modify fun state =>
    { state with diagnostics := state.diagnostics ++ [⟨warning, state.cursor.place⟩] }

section Limits

variable (options : Options)

def incrementDepth : Parser Unit := do
  modify fun state => { state with depth := state.depth + 1 }
  if options.maxDepth < (← get).depth then fatal (.tooDeep options.maxDepth)

def decrementDepth : Parser Unit :=
  modify fun state => { state with depth := state.depth - 1 }

/-- Counts one more expansion of an entity. -/
def countExpansion : Parser Unit := do
  modify fun state => { state with expansions := state.expansions + 1 }
  if options.maxExpansions < (← get).expansions then
    fatal (.tooManyExpansions options.maxExpansions)

end Limits

section Characters

def atEnd : Parser Bool := return (← get).cursor.atEnd

def peek? : Parser (Option Char) := return (← get).cursor.rest.head?

/-- The character some bytes ahead of the cursor. -/
def charAfter (offset : Nat) : Parser (Option Char) :=
  return (Text.dropBytes offset (← get).cursor.rest).head?

def advance (c : Char) : Parser Unit :=
  modify fun state => { state with cursor := state.cursor.advance c }

/-- Passes over a text, which must be next. -/
def advanceOver (text : Text) : Parser Unit := text.forM advance

def lookingAt (wanted : Text) : Parser Bool :=
  return wanted.isPrefixOf (← get).cursor.rest

/-- Passes over a text if it is next. -/
def eat (wanted : Text) : Parser Bool := do
  if ← lookingAt wanted then
    advanceOver wanted
    return true
  else return false

def expect (wanted : Text) : Parser Unit := do
  if ← eat wanted then return () else fatal (.expected wanted (← peek?))

/-- The next character of running text, line ends read as line feeds. -/
def nextChar : Parser Char := do
  match ← peek? with
  | none => fatal .unexpectedEnd
  | some c =>
    if !isXmlChar c then fatal (.invalidChar c)
    else
      advance c
      if c == '\r' then
        if (← peek?) == some '\n' then advance '\n'
        return '\n'
      else return c

/-- Passes over characters of a class. -/
def skipWhile (drop : Char → Bool) : Parser Unit := do
  advanceOver ((← get).cursor.rest.takeWhile drop)

/-- The characters of a class that are next. -/
def takeWhile (take : Char → Bool) : Parser Text := do
  let start := (← get).cursor.offset
  skipWhile take
  return (← get).cursor.since start

/-- Passes over blanks; the value tells whether there were any. -/
def skipBlanks : Parser Bool := do
  let start := (← get).cursor.offset
  skipWhile isBlank
  return start < (← get).cursor.offset

/-- Passes over blanks, of which there must be one. -/
def requireBlank : Parser Unit := do
  if ← skipBlanks then return () else fatal .blankRequired

/-- Takes everything up to the delimiter and the delimiter. -/
def takeUntil (delimiter : Text) (part : Part) : Parser Text := do
  match Text.breakOn? delimiter (← get).cursor.rest with
  | none => fatal (.unterminated part)
  | some (body, _) =>
    match body.find? (!isXmlChar ·) with
    | some c => fatal (.invalidCharIn part c)
    | none =>
      advanceOver body
      advanceOver delimiter
      return joinLineEnds body

end Characters

section Lexemes

def name : Parser Text := do
  let start := (← get).cursor.offset
  match ← peek? with
  | none => fatal .nameAtEnd
  | some first =>
    if !isNameStart first then fatal (.invalidNameStart first)
    else
      advance first
      skipWhile isNameChar
      return (← get).cursor.since start

/-- A literal between quotes of either kind, taken as it stands. -/
def quoted : Parser Text := do
  match ← peek? with
  | none => fatal .quotedLiteralRequired
  | some quote =>
    if isQuote quote then
      advanceOver [quote]
      takeUntil [quote] .literal
    else fatal .quotedLiteralRequired

/-- The digits of a character reference and the semicolon behind them. -/
def pointReference (base : Nat) (isDigit : Char → Bool) : Parser Char := do
  let digits ← takeWhile isDigit
  if digits.isEmpty then fatal .emptyCharReference
  else
    expect [';']
    let point := pointOfDigits base digits
    if UInt32.size ≤ point then fatal .charReferenceOutOfRange
    else match charOfPoint? point with
      | none => fatal (.charReferenceInvalid point)
      | some c => return c

/-- The rest of a character reference behind `&#`; an `x` announces hexadecimal digits. -/
def charReference : Parser Char := do
  if ← eat ['x'] then pointReference 16 isHexDigit else pointReference 10 Char.isDigit

end Lexemes

end Machine

end XmlSelect
