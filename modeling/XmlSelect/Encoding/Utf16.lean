import XmlSelect.Encoding.Utf8
/-! UTF-16 in both byte orders. -/
namespace XmlSelect.Utf16

/-- Which byte of a unit comes first. -/
inductive ByteOrder
  | bigEndian
  | littleEndian
deriving DecidableEq

/-- The units of a character: one, or a pair of surrogates. -/
def encodeChar (c : Char) : List Nat :=
  let point := c.toNat
  if point < 0x10000 then [point]
  else [0xD800 + (point - 0x10000) / 0x400, 0xDC00 + (point - 0x10000) % 0x400]

/-- The two bytes of a unit. -/
def unitBytes (order : ByteOrder) (unit : Nat) : List UInt8 :=
  let high := (unit / 0x100).toUInt8
  let low := (unit % 0x100).toUInt8
  match order with
  | .bigEndian => [high, low]
  | .littleEndian => [low, high]

def encode (order : ByteOrder) (text : Text) : List UInt8 :=
  (text.flatMap encodeChar).flatMap (unitBytes order)

/-- The units of some bytes; an odd byte at the end is no unit. -/
def units? (order : ByteOrder) : List UInt8 → Option (List Nat)
  | [] => some []
  | [_] => none
  | first :: second :: rest =>
    let unit := match order with
      | .bigEndian => first.toNat * 0x100 + second.toNat
      | .littleEndian => second.toNat * 0x100 + first.toNat
    (units? order rest).map (unit :: ·)

/-- The text of some units; surrogates must come in pairs. -/
def ofUnits? : List Nat → Option Text
  | [] => some []
  | [unit] => (Utf8.char? unit).map ([·])
  | unit :: next :: rest =>
    if 0xD800 ≤ unit ∧ unit < 0xDC00 then
      if 0xDC00 ≤ next ∧ next < 0xE000 then do
        let c ← Utf8.char? (0x10000 + (unit - 0xD800) * 0x400 + (next - 0xDC00))
        return c :: (← ofUnits? rest)
      else none
    else do
      let c ← Utf8.char? unit
      return c :: (← ofUnits? (next :: rest))

/-- The text that bytes encode, if all of them do. -/
def decode? (order : ByteOrder) (bytes : List UInt8) : Option Text :=
  (units? order bytes).bind ofUnits?

end XmlSelect.Utf16
