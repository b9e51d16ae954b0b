import XmlSelect.Text.Basic
/-! UTF-8: each character in its shortest form of one to four bytes. -/
namespace XmlSelect.Utf8

/-- The character with a code point, unless it is a surrogate or too large. -/
def char? (point : Nat) : Option Char :=
  if (Char.ofNat point).toNat = point then some (Char.ofNat point) else none

/-- The bytes of a character. -/
def encodeChar (c : Char) : List UInt8 :=
  let point := c.toNat
  let continuation (unit : Nat) : UInt8 := (0x80 + point / unit % 0x40).toUInt8
  if point < 0x80 then [point.toUInt8]
  else if point < 0x800 then [(0xC0 + point / 0x40).toUInt8, continuation 1]
  else if point < 0x10000 then
    [(0xE0 + point / 0x1000).toUInt8, continuation 0x40, continuation 1]
  else
    [(0xF0 + point / 0x40000).toUInt8, continuation 0x1000, continuation 0x40, continuation 1]

def encode (text : Text) : List UInt8 := text.flatMap encodeChar

/-- The six bits of a byte that continues a character. -/
def continuation? (byte : UInt8) : Option Nat :=
  if 0x80 ≤ byte.toNat ∧ byte.toNat < 0xC0 then some (byte.toNat - 0x80) else none

/-- The character at the start of some bytes and how many bytes it takes. A form that is longer
than it has to be is no character. -/
def decodeChar? : List UInt8 → Option (Char × Nat)
  | [] => none
  | first :: rest =>
    let lead := first.toNat
    if lead < 0x80 then (char? lead).map (·, 1)
    else if lead < 0xC0 then none
    else if lead < 0xE0 then do
      let [low] ← (rest.take 1).mapM continuation? | none
      let point := (lead - 0xC0) * 0x40 + low
      if point < 0x80 then none else (char? point).map (·, 2)
    else if lead < 0xF0 then do
      let [middle, low] ← (rest.take 2).mapM continuation? | none
      let point := (lead - 0xE0) * 0x1000 + middle * 0x40 + low
      if point < 0x800 then none else (char? point).map (·, 3)
    else if lead < 0xF8 then do
      let [high, middle, low] ← (rest.take 3).mapM continuation? | none
      let point := (lead - 0xF0) * 0x40000 + high * 0x1000 + middle * 0x40 + low
      if point < 0x10000 then none else (char? point).map (·, 4)
    else none

/-- The text that bytes encode, if all of them do. -/
def decode? : List UInt8 → Option Text
  | [] => some []
  | first :: rest => do
    let (c, width) ← decodeChar? (first :: rest)
    let text ← decode? (rest.drop (width - 1))
    return c :: text
termination_by bytes => bytes.length
decreasing_by simp only [List.length_drop, List.length_cons]; omega

end XmlSelect.Utf8
