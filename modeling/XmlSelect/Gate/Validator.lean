import XmlSelect.Gate.Rejection
import XmlSelect.Gate.Tautology
/-! Checks on the text of an expression. They run in a fixed order, and the first that fails
counts. -/
namespace XmlSelect.Gate

/-- The deepest nesting of brackets, and of parentheses. -/
def maxNesting : Nat := 100

/-- Each kind of quote has to occur an even number of times. -/
def quotesBalanced (text : Text) : Bool :=
  text.count '\'' % 2 == 0 && text.count '"' % 2 == 0

/-- Brackets and parentheses are counted apart; none may close before it opens, and at the end none
may be open. -/
def checkNesting (brackets parens : Nat) : Text → Except Rejection Unit
  | [] => if brackets == 0 && parens == 0 then .ok () else .error .unbalancedBrackets
  | c :: rest =>
    match c, brackets, parens with
    | '[', brackets, parens =>
      if maxNesting ≤ brackets then .error .excessiveNesting
      else checkNesting (brackets + 1) parens rest
    | '(', brackets, parens =>
      if maxNesting ≤ parens then .error .excessiveNesting
      else checkNesting brackets (parens + 1) rest
    | ']', 0, _ | ')', _, 0 => .error .unbalancedBrackets
    | ']', brackets + 1, parens => checkNesting brackets parens rest
    | ')', brackets, parens + 1 => checkNesting brackets parens rest
    | _, brackets, parens => checkNesting brackets parens rest

/-- Whether a name stands in front of a parenthesis and no name runs into it from the left. A
prefix does not hide it. -/
def callsFunction (name text : Text) : Bool :=
  (Text.occurrences name text).any fun (previous, after) =>
    !previous.any isNamePart && (after.dropWhile isSpace).head? == some '('

/-- The functions that are always refused: they reach outside the document. -/
def defaultBlocked : List Text :=
  ["document", "doc", "collection", "unparsed-text", "system-property",
    "environment-variable"].map String.toList

/-- The functions that a validator refuses, in lower case and each once. -/
structure Validator where
  blocked : List Text := defaultBlocked
deriving DecidableEq

namespace Validator

/-- Refuses one more function, in letters of either case. -/
def block (validator : Validator) (name : Text) : Validator :=
  let name := Text.toLower name
  if validator.blocked.contains name then validator
  else { validator with blocked := validator.blocked ++ [name] }

/-- Checks an expression. A greatest length of zero is no limit. -/
def validate (validator : Validator) (text : Text) (maxLength : Nat) : Except Rejection Unit := do
  if text.contains '\x00' then throw .nullByte
  if maxLength != 0 && maxLength < text.length then throw (.tooLong maxLength)
  if text.isEmpty then throw .empty
  if !quotesBalanced text then throw .unbalancedQuotes
  checkNesting 0 0 text
  if Text.includes "(:".toList text || Text.includes ":)".toList text then throw .commentPattern
  if Text.includes "&#".toList text || Text.includes "&amp;#".toList text then
    throw .encodedCharacters
  let lower := Text.toLower text
  match validator.blocked.find? (callsFunction · lower) with
  | some name => throw (.dangerousFunction name)
  | none => if hasTautology lower then throw .injectionPattern

end Validator

end XmlSelect.Gate
