import XmlSelect.Encoding.Detect
import XmlSelect.Markup.Parse
/-! Reading documents from bytes. -/
namespace XmlSelect.Markup

/-- Why bytes are no document. -/
inductive BytesError
  | undecodable (error : Encoding.Error)
  | malformed (error : ParseError)

namespace BytesError

/-- Bytes that are no text have no lines; their errors are placed in front of the first one. -/
def place : BytesError → Location
  | undecodable _ => ⟨0, 0, 0⟩
  | malformed error => error.place

def message : BytesError → Text
  | undecodable error => "parse error at 0:0: ".toList ++ error.message
  | malformed error => error.message

/-- What was passed over with a warning before the error. -/
def diagnostics : BytesError → List Diagnostic
  | undecodable _ => []
  | malformed error => error.diagnostics

/-- The external entities that were asked for before the error. -/
def requests : BytesError → List EntityRequest
  | undecodable _ => []
  | malformed error => error.requests

end BytesError

/-- Reads a document from its bytes. -/
def parseBytes [Encoding.Library] (options : Options) (bytes : List UInt8) : Except BytesError Reading :=
  match Encoding.decode bytes with
  | .error error => .error (.undecodable error)
  | .ok source => (parseText options source).mapError .malformed

end XmlSelect.Markup
