import XmlSelect.Number.Numeral
import XmlSelect.Text.Quoted
/-! Limits given as integers or as text. -/
namespace XmlSelect.Gate

/-- Why a value is no limit. -/
inductive LimitError
  | negative (setting : Text) (value : Int)
  | notInteger (setting : Text) (text : Text)
deriving DecidableEq

def LimitError.message : LimitError → Text
  | negative setting value =>
    setting ++ " must be non-negative, got -".toList ++ Text.ofNat value.natAbs
  | notInteger setting text => setting ++ " must be an integer, got ".toList ++ Text.quoted text

/-- A limit for a setting, which must not be negative. -/
def checkLimit (setting : Text) (value : Int) : Except LimitError Nat :=
  if value < 0 then .error (.negative setting value) else .ok value.toNat

/-- A limit for a setting from decimal text with white space around it; it has to fit into 64 bits
with a sign. -/
def parseLimit (setting text : Text) : Except LimitError Nat :=
  match readInteger? (Text.trim isSpace text) with
  | none => .error (.notInteger setting text)
  | some value =>
    if Int64.minValue.toInt ≤ value ∧ value ≤ Int64.maxValue.toInt then checkLimit setting value
    else .error (.notInteger setting text)

end XmlSelect.Gate
