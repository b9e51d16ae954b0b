import XmlSelect.Gate.Cache
import XmlSelect.Selector.Compile
import XmlSelect.XPath.Eval
/-! Queries by XPath or CSS. What is to be evaluated has to pass the gate first. -/
namespace XmlSelect

/-- The language of a selector. -/
inductive QueryKind
  | xpath
  | css
deriving DecidableEq

def QueryKind.name : QueryKind → Text
  | xpath => "xpath".toList
  | css => "css".toList

/-- Why a query has no answer. -/
inductive QueryError
  | invalidSelector (error : Selector.Error)
  | rejected (rejection : Gate.Rejection)
  | evaluation (error : XPath.Error)
deriving DecidableEq

namespace QueryError

def message : QueryError → Text
  | invalidSelector error => "invalid CSS selector: ".toList ++ error.message
  | rejected rejection => rejection.message
  | evaluation error => error.message

/-- Whether the query was turned down before anything was evaluated. -/
def isInputValidation : QueryError → Bool
  | invalidSelector _ | rejected _ => true
  | evaluation _ => false

/-- The name of the rule that an expression broke. -/
def rule? : QueryError → Option Text
  | rejected rejection => some rejection.rule
  | _ => none

/-- The byte offset of the error in the selector or expression, if it has one. -/
def position? : QueryError → Option Nat
  | invalidSelector error => error.position?
  | rejected _ => none
  | evaluation error => error.position?

end QueryError

namespace Query

/-- The expression that a selector stands for. -/
def toXPath (kind : QueryKind) (selector : Text) : Except QueryError Text :=
  match kind with
  | .xpath => .ok selector
  | .css => (Selector.compile selector).mapError .invalidSelector

/-- The nodes that an expression selects from a node. -/
def evaluateNodes (document : Document) (node : Nat) (expression : Text) :
    Except QueryError (List Nat) :=
  ((XPath.evaluate document node expression).bind XPath.Value.nodes).mapError .evaluation

/-- The nodes that a selector selects from a node, in document order, and the cache afterwards. -/
def run (cache : Gate.Cache) (document : Document) (node : Nat) (kind : QueryKind)
    (selector : Text) : Except QueryError (List Nat) × Gate.Cache :=
  match toXPath kind selector with
  | .error error => (.error error, cache)
  | .ok expression =>
    match cache.check expression with
    | (.error rejection, after) => (.error (.rejected rejection), after)
    | (.ok (), after) => (evaluateNodes document node expression, after)

end Query

end XmlSelect
