import XmlSelect.Markup.Fault
import XmlSelect.Text.Read
/-! The smallest parts of documents: names, blanks, quoted literals, character references. -/
namespace XmlSelect.Markup

/-- A fault, and the rest of the text at its place. -/
structure Stop where
  fault : Fault
  rest : Text

/-- Takes the given text if it is next. -/
def take? (wanted source : Text) : Option (Read source Unit) :=
  match found : Text.dropPrefix? wanted source with
  | some rest => some ⟨(), rest, wanted, (Text.append_of_dropPrefix? found).symm⟩
  | none => none

/-- Takes exactly the given text. -/
def expect (wanted source : Text) : Except Stop (Read source Unit) :=
  match take? wanted source with
  | some read => .ok read
  | none => .error ⟨.expected wanted source.head?, source⟩

/-- Passes over blanks; the value tells whether there were any. -/
def skipBlanks (source : Text) : Read source Bool := Read.skip isBlank source

/-- Passes over blanks, of which there must be one. -/
def requireBlank (source : Text) : Except Stop (Read source Unit) :=
  let ⟨spaced, rest, suffix⟩ := skipBlanks source
  if spaced then .ok ⟨(), rest, suffix⟩ else .error ⟨.blankRequired, source⟩

/-- A name whose first character is at hand. -/
def nameFrom (first : Char) (others : Text) : Except Stop (Read others Text) :=
  if isNameStart first then
    .ok ⟨first :: others.takeWhile isNameChar, others.dropWhile isNameChar,
      List.dropWhile_suffix _⟩
  else .error ⟨.invalidNameStart first, first :: others⟩

def name : (source : Text) → Except Stop (Read source Text)
  | [] => .error ⟨.nameAtEnd, []⟩
  | first :: others => (nameFrom first others).map (·.within (List.suffix_cons _ _))

/-- Each carriage return with a line feed behind it becomes the line feed alone. -/
def joinLineEnds : Text → Text
  | '\r' :: '\n' :: rest => '\n' :: joinLineEnds rest
  | c :: rest => c :: joinLineEnds rest
  | [] => []

/-- Takes everything up to the delimiter and the delimiter. -/
def takeUntil (delimiter : Text) (part : Part) (source : Text) :
    Except Stop (Read source Text) :=
  match found : Text.breakOn? delimiter source with
  | none => .error ⟨.unterminated part, source⟩
  | some (body, rest) =>
    match body.find? (!isXmlChar ·) with
    | some c => .error ⟨.invalidCharIn part c, source⟩
    | none => .ok ⟨joinLineEnds body, rest, body ++ delimiter, (Text.append_of_breakOn? found).symm⟩

/-- Whether a character opens a literal. -/
def isQuote (c : Char) : Bool := c == '"' || c == '\''

/-- A literal between quotes of either kind, taken as it stands. -/
def quoted (source : Text) : Except Stop (Read source Text) :=
  match source with
  | [] => .error ⟨.quotedLiteralRequired, []⟩
  | quote :: rest =>
    if isQuote quote then
      (takeUntil [quote] .literal rest).map (·.within (List.suffix_cons quote rest))
    else .error ⟨.quotedLiteralRequired, quote :: rest⟩

/-- Whether a character is a hexadecimal digit. -/
def isHexDigit (c : Char) : Bool :=
  c.isDigit || ('a' ≤ c && c ≤ 'f') || ('A' ≤ c && c ≤ 'F')

def hexDigitValue (c : Char) : Nat :=
  if c.isDigit then c.toNat - '0'.toNat
  else if 'a' ≤ c then c.toNat - 'a'.toNat + 10 else c.toNat - 'A'.toNat + 10

/-- The number that digits of a base denote. -/
def pointOfDigits (base : Nat) (digits : Text) : Nat :=
  digits.foldl (fun value c => base * value + hexDigitValue c) 0

/-- The character with the given code point, if documents may hold it. -/
def charOfPoint? (point : Nat) : Option Char :=
  let c := Char.ofNat point
  if c.toNat == point && isXmlChar c then some c else none

/-- The digits of a character reference and the semicolon behind them. -/
def pointReference (base : Nat) (isDigit : Char → Bool) (source : Text) :
    Except Stop (Read source Char) := do
  let digits := source.takeWhile isDigit
  let after := source.dropWhile isDigit
  if digits.isEmpty then throw ⟨.emptyCharReference, after⟩
  let ⟨_, rest, suffix⟩ ← expect [';'] after
  let point := pointOfDigits base digits
  if UInt32.size ≤ point then throw ⟨.charReferenceOutOfRange, rest⟩
  match charOfPoint? point with
  | none => throw ⟨.charReferenceInvalid point, rest⟩
  | some c => return ⟨c, rest, suffix.trans (List.dropWhile_suffix _)⟩

/-- The rest of a character reference behind `&#`; an `x` announces hexadecimal digits. -/
def charReference (source : Text) : Except Stop (Read source Char) :=
  match source with
  | 'x' :: rest => (pointReference 16 isHexDigit rest).map (·.within (List.suffix_cons _ _))
  | source => pointReference 10 Char.isDigit source

/-- The next character of running text, line ends read as line feeds. -/
def nextChar (first : Char) (others : Text) : Except Stop (Read others Char) :=
  if !isXmlChar first then .error ⟨.invalidChar first, first :: others⟩
  else match first, others with
    | '\r', '\n' :: rest => .ok ⟨'\n', rest, List.suffix_cons _ _⟩
    | '\r', rest => .ok ⟨'\n', rest, List.suffix_refl _⟩
    | c, rest => .ok ⟨c, rest, List.suffix_refl _⟩

end XmlSelect.Markup
