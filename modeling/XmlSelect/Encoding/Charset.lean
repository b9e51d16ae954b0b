import XmlSelect.Encoding.Detect
/-! A library of encodings by their tables, for the program at work. -/
namespace XmlSelect

/-- An encoding. -/
inductive Charset
  | utf8
  | utf16 (order : Utf16.ByteOrder)
  | windows1252
  | windows1251
  | latin9
  /-- Bytes from 0x80 on stand for private characters. -/
  | userDefined
deriving DecidableEq

namespace Charset

/-- The code points of the bytes 0x80 to 0x9F of windows-1252; later bytes are their own. Bytes
without a character are controls. -/
def windows1252Points : List Nat := [
  0x20AC, 0x81, 0x201A, 0x192, 0x201E, 0x2026, 0x2020, 0x2021, 0x2C6, 0x2030, 0x160, 0x2039, 0x152,
  0x8D, 0x17D, 0x8F, 0x90, 0x2018, 0x2019, 0x201C, 0x201D, 0x2022, 0x2013, 0x2014, 0x2DC, 0x2122,
  0x161, 0x203A, 0x153, 0x9D, 0x17E, 0x178]

/-- The code points of the bytes from 0x80 on of windows-1251. -/
def windows1251Points : List Nat := [
  0x402, 0x403, 0x201A, 0x453, 0x201E, 0x2026, 0x2020, 0x2021, 0x20AC, 0x2030, 0x409, 0x2039,
  0x40A, 0x40C, 0x40B, 0x40F, 0x452, 0x2018, 0x2019, 0x201C, 0x201D, 0x2022, 0x2013, 0x2014, 0x98,
  0x2122, 0x459, 0x203A, 0x45A, 0x45C, 0x45B, 0x45F, 0xA0, 0x40E, 0x45E, 0x408, 0xA4, 0x490, 0xA6,
  0xA7, 0x401, 0xA9, 0x404, 0xAB, 0xAC, 0xAD, 0xAE, 0x407, 0xB0, 0xB1, 0x406, 0x456, 0x491, 0xB5,
  0xB6, 0xB7, 0x451, 0x2116, 0x454, 0xBB, 0x458, 0x405, 0x455, 0x457, 0x410, 0x411, 0x412, 0x413,
  0x414, 0x415, 0x416, 0x417, 0x418, 0x419, 0x41A, 0x41B, 0x41C, 0x41D, 0x41E, 0x41F, 0x420, 0x421,
  0x422, 0x423, 0x424, 0x425, 0x426, 0x427, 0x428, 0x429, 0x42A, 0x42B, 0x42C, 0x42D, 0x42E, 0x42F,
  0x430, 0x431, 0x432, 0x433, 0x434, 0x435, 0x436, 0x437, 0x438, 0x439, 0x43A, 0x43B, 0x43C, 0x43D,
  0x43E, 0x43F, 0x440, 0x441, 0x442, 0x443, 0x444, 0x445, 0x446, 0x447, 0x448, 0x449, 0x44A, 0x44B,
  0x44C, 0x44D, 0x44E, 0x44F]

/-- The bytes at which ISO-8859-15 differs from ISO-8859-1, with their code points. -/
def latin9Points : List (Nat × Nat) :=
  [(0xA4, 0x20AC), (0xA6, 0x160), (0xA8, 0x161), (0xB4, 0x17D), (0xB8, 0x17E), (0xBC, 0x152),
    (0xBD, 0x153), (0xBE, 0x178)]

/-- The code point of a byte in an encoding of single bytes. -/
def bytePoint (charset : Charset) (byte : Nat) : Nat :=
  if byte < 0x80 then byte
  else match charset with
    | windows1252 => windows1252Points.getD (byte - 0x80) byte
    | windows1251 => windows1251Points.getD (byte - 0x80) byte
    | latin9 => (latin9Points.lookup byte).getD byte
    | userDefined => 0xF780 + (byte - 0x80)
    | utf8 | utf16 _ => byte

/-- The text that bytes encode, if all of them do. -/
def decode? : Charset → List UInt8 → Option Text
  | utf8, bytes => Utf8.decode? bytes
  | utf16 order, bytes => Utf16.decode? order bytes
  | charset, bytes => some (bytes.map fun byte => Char.ofNat (charset.bytePoint byte.toNat))

/-- The labels of each encoding, in lower case. -/
def labels : Charset → List Text
  | utf8 => ["unicode-1-1-utf-8", "unicode11utf8", "unicode20utf8", "utf-8", "utf8",
      "x-unicode20utf8"].map String.toList
  | utf16 .bigEndian => ["unicodefffe", "utf-16be"].map String.toList
  | utf16 .littleEndian => ["csunicode", "iso-10646-ucs-2", "ucs-2", "unicode", "unicodefeff",
      "utf-16", "utf-16le"].map String.toList
  | windows1252 => ["ansi_x3.4-1968", "ascii", "cp1252", "cp819", "csisolatin1", "ibm819",
      "iso-8859-1", "iso-ir-100", "iso8859-1", "iso88591", "iso_8859-1", "iso_8859-1:1987", "l1",
      "latin1", "us-ascii", "windows-1252", "x-cp1252"].map String.toList
  | windows1251 => ["cp1251", "windows-1251", "x-cp1251"].map String.toList
  | latin9 => ["csisolatin9", "iso-8859-15", "iso8859-15", "iso885915", "iso_8859-15",
      "l9"].map String.toList
  | userDefined => ["x-user-defined"].map String.toList

def all : List Charset :=
  [utf8, utf16 .bigEndian, utf16 .littleEndian, windows1252, windows1251, latin9, userDefined]

/-- The encoding that a label names, in letters of either case and with white space around it. -/
def ofLabel? (label : Text) : Option Charset :=
  let wanted := Text.toLower (Text.trim isAsciiSpace label)
  all.find? (·.labels.contains wanted)

end Charset

instance : Encoding.Library := ⟨Charset, Charset.ofLabel?, Charset.decode?⟩

end XmlSelect
