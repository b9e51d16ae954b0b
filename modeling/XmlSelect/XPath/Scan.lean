import XmlSelect.Number.Numeral
import XmlSelect.XPath.Error
/-! Cutting an expression into tokens. Reading is by longest match; whether a star or a name is an
operator is decided by the token before it, and what else a name is by the text after it. -/
namespace XmlSelect.XPath

/-- The longest name without a colon at the start of a text; empty if there is none. -/
def localName : Text → Text
  | c :: rest => if isNameStart c then c :: rest.takeWhile isNameChar else []
  | [] => []

/-- The longest name at the start of a text, with a prefix or not. -/
def qualifiedName (text : Text) : Text :=
  let space := localName text
  if space.isEmpty then []
  else match text.drop space.length with
    | ':' :: rest =>
      let name := localName rest
      if name.isEmpty then space else space ++ ':' :: name
    | _ => space

/-- Digits with a decimal point at most; a point before another point is left alone. -/
def numeral (text : Text) : Text × Option Text :=
  let whole := text.takeWhile Char.isDigit
  match text.drop whole.length with
  | '.' :: '.' :: _ => (whole, none)
  | '.' :: rest => (whole, some (rest.takeWhile Char.isDigit))
  | _ => (whole, none)

/-- What a name is that no operand precedes, by the text after it: an axis before two colons, a
function or a node type before a parenthesis, else a name test. -/
def Token.ofName (name after : Text) : Token :=
  match after.dropWhile isSpace with
  | ':' :: ':' :: _ => axis name
  | '(' :: _ =>
    match NodeType.ofName? name with
    | some type => nodeType type
    | none => function name
  | _ => nameTest name

/-- What a name with a star after the prefix is, by the text after it. -/
def Token.ofPrefixWildcard (space after : Text) : Token :=
  match after.dropWhile isSpace with
  | ':' :: ':' :: _ => axis (space ++ ":*".toList)
  | _ => prefixWildcard space

/-- The operator that a name stands for after an operand. -/
def Token.operatorOfName? (name : Text) : Option Token :=
  [Token.and, Token.or, Token.mod, Token.div].find? (·.text == name)

/-- The name at the start of a text as a token, and its length. -/
def Token.readName (operandBefore : Bool) (text : Text) : Token × Nat :=
  let name := qualifiedName text
  match text.drop name.length, name.contains ':' with
  | ':' :: '*' :: after, false => (ofPrefixWildcard name after, name.length + 2)
  | after, _ =>
    match if operandBefore then operatorOfName? name else none with
    | some operator => (operator, name.length)
    | none => (ofName name after, name.length)

/-- The number at the start of a text, and its length. -/
def Token.readNumber (text : Text) : Token × Nat :=
  match numeral text with
  | (whole, none) => (number (Double.ofDigits false whole []), whole.length)
  | (whole, some fraction) =>
    (number (Double.ofDigits false whole fraction), whole.length + 1 + fraction.length)

/-- The literal behind an opening quote, and its length with both quotes. -/
def Token.readLiteral (quote : Char) (rest : Text) : Except SyntaxFault (Token × Nat) :=
  match Text.breakOn? [quote] rest with
  | some (value, _) => .ok (literal value, value.length + 2)
  | none => .error .unterminatedLiteral

/-- The token that a character and the text behind it start with, and its length. -/
def Token.read (operandBefore : Bool) (c : Char) (rest : Text) :
    Except SyntaxFault (Token × Nat) :=
  match c, rest with
  | '(', _ => .ok (leftParen, 1)
  | ')', _ => .ok (rightParen, 1)
  | '[', _ => .ok (leftBracket, 1)
  | ']', _ => .ok (rightBracket, 1)
  | '@', _ => .ok (atSign, 1)
  | ',', _ => .ok (comma, 1)
  | '|', _ => .ok (pipe, 1)
  | '+', _ => .ok (plus, 1)
  | '-', _ => .ok (minus, 1)
  | '=', _ => .ok (equal, 1)
  | '*', _ => .ok (if operandBefore then multiply else star, 1)
  | '/', '/' :: _ => .ok (doubleSlash, 2)
  | '/', _ => .ok (slash, 1)
  | ':', ':' :: _ => .ok (colonColon, 2)
  | ':', _ => .error .strayColon
  | '!', '=' :: _ => .ok (notEqual, 2)
  | '!', _ => .error .strayExclamation
  | '<', '=' :: _ => .ok (lessEq, 2)
  | '<', _ => .ok (less, 1)
  | '>', '=' :: _ => .ok (greaterEq, 2)
  | '>', _ => .ok (greater, 1)
  | '.', '.' :: _ => .ok (dotDot, 2)
  | '.', next :: _ => .ok (if next.isDigit then readNumber ('.' :: rest) else (dot, 1))
  | '.', [] => .ok (dot, 1)
  | '"', _ => readLiteral '"' rest
  | '\'', _ => readLiteral '\'' rest
  | '$', _ =>
    let name := qualifiedName rest
    if name.isEmpty then .error .missingVariableName
    else .ok (reference name, name.length + 1)
  | c, _ =>
    if c.isDigit then .ok (readNumber (c :: rest))
    else if isNameStart c then .ok (readName operandBefore (c :: rest))
    else .error (.strayCharacter c)

/-- The tokens of a text that starts at a byte offset. -/
def scan (operandBefore : Bool) (position : Nat) : Text → Except SyntaxError (List Located)
  | [] => .ok []
  | c :: rest =>
    if isBlank c then scan operandBefore (position + c.utf8Size) rest
    else do
      let (token, width) ← (Token.read operandBefore c rest).mapError (⟨·, position⟩)
      let tokens ← scan token.endsOperand
        (position + Text.byteLength ((c :: rest).take width)) (rest.drop (width - 1))
      return ⟨token, position⟩ :: tokens
termination_by text => text.length
decreasing_by all_goals simp only [List.length_drop, List.length_cons]; omega

/-- The tokens of an expression. -/
def tokenize (text : Text) : Except SyntaxError (List Located) := scan false 0 text

end XmlSelect.XPath
