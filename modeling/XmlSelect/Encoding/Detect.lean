import XmlSelect.Encoding.Utf16
import XmlSelect.Text.CharClass
/-! Decoding the bytes of a document: by its byte order mark, else by its declaration, else as
UTF-8. What labels name is left to a library of encodings. -/
namespace XmlSelect.Encoding

/-- The encodings at hand: the one that a label names, and the text that bytes are in it, if all of
them are text. -/
class Library where
  Charset : Type
  ofLabel? : (label : Text) → Option Charset
  decode? : Charset → List UInt8 → Option Text

/-- Why bytes are no text. -/
inductive Error
  | unsupported (label : Text)
  | malformed (label : Text)
deriving DecidableEq

def Error.message : Error → Text
  | unsupported label => "unsupported encoding: ".toList ++ label
  | malformed label => "malformed byte sequence for encoding ".toList ++ label

/-- What the first bytes tell about the encoding: UTF-8 unless a mark of UTF-16 is there. -/
inductive Mark
  | none
  | utf8
  | utf16 (order : Utf16.ByteOrder)
deriving DecidableEq

namespace Mark

/-- The label of the encoding. -/
def label : Mark → Text
  | none | utf8 => "UTF-8".toList
  | utf16 .bigEndian => "UTF-16BE".toList
  | utf16 .littleEndian => "UTF-16LE".toList

/-- The bytes of the mark. -/
def bytes : Mark → List UInt8
  | none => []
  | utf8 => [0xEF, 0xBB, 0xBF]
  | utf16 .bigEndian => [0xFE, 0xFF]
  | utf16 .littleEndian => [0xFF, 0xFE]

/-- The mark at the start of a document. -/
def detect (document : List UInt8) : Mark :=
  ([utf8, utf16 .bigEndian, utf16 .littleEndian].find?
    (·.bytes.isPrefixOf document)).getD none

end Mark

/-- The text that bytes encode in the encoding with the given label. -/
def transcode [Library] (bytes : List UInt8) (label : Text) : Except Error Text :=
  match Library.ofLabel? label with
  | none => .error (.unsupported label)
  | some charset =>
    match Library.decode? charset bytes with
    | none => .error (.malformed label)
    | some text => .ok text

/-- The bytes in front of the first end of an instruction. -/
def beforeInstructionEnd? : List UInt8 → Option (List UInt8)
  | 0x3F :: 0x3E :: _ => some []
  | byte :: rest => (beforeInstructionEnd? rest).map (byte :: ·)
  | [] => none

/-- The label in the declaration at the start of a document, if it can be read as ASCII is. -/
def declaredLabel? (document : List UInt8) : Option Text := do
  if !(Utf8.encode "<?xml".toList).isPrefixOf document then none
  let declaration ← Utf8.decode? (← beforeInstructionEnd? document)
  let (_, after) ← Text.breakOn? "encoding".toList declaration
  let '=' :: value := after.dropWhile isSpace | none
  match value.dropWhile isSpace with
  | '"' :: rest => (Text.breakOn? ['"'] rest).map (·.1)
  | '\'' :: rest => (Text.breakOn? ['\''] rest).map (·.1)
  | _ => none

/-- Whether a label names UTF-8 outright. -/
def isUtf8Label (label : Text) : Bool :=
  Text.toLower label == "utf-8".toList || Text.toLower label == "utf8".toList

/-- What every library does: it has UTF-8 and UTF-16 in both orders, and its labels are words of
ASCII, in letters of either case and with white space around them or not. -/
class LawfulLibrary [Library] : Prop where
  utf8 : ∀ {label}, isUtf8Label label = true →
    ∃ charset, Library.ofLabel? label = some charset ∧ Library.decode? charset = Utf8.decode?
  utf16 : ∀ order, ∃ charset, Library.ofLabel? (Mark.utf16 order).label = some charset ∧
    Library.decode? charset = Utf16.decode? order
  spaced : ∀ label, Library.ofLabel? (Text.trim isAsciiSpace label) = Library.ofLabel? label
  word : ∀ {label charset}, Library.ofLabel? label = some charset →
    Text.trim isAsciiSpace label ≠ [] ∧
      ∀ c ∈ Text.trim isAsciiSpace label, c.toNat < 0x80 ∧ isAsciiSpace c = false

/-- The text of a document. -/
def decode [Library] (document : List UInt8) : Except Error Text :=
  let mark := Mark.detect document
  let body := document.drop mark.bytes.length
  match mark with
  | .utf16 _ => transcode body mark.label
  | .none | .utf8 =>
    match declaredLabel? body with
    | some label =>
      if isUtf8Label label then plain body else transcode body label
    | none => plain body
where
  /-- Bytes that are UTF-8. -/
  plain (body : List UInt8) : Except Error Text :=
    match Utf8.decode? body with
    | some text => .ok text
    | none => .error (.malformed "UTF-8".toList)

end XmlSelect.Encoding
