import XmlSelect.XPath.Function
import XmlSelect.XPath.Parse
/-! Evaluation of expressions. The nodes that a step selects are put in document order, each once;
its predicates see positions in the order of the axis. -/
namespace XmlSelect.XPath

/-- The nodes on an axis, in the order of the axis: nearest first on the reverse ones. -/
def Axis.nodes (document : Document) (axis : Axis) (node : Nat) : List Nat :=
  match axis with
  | child => document.children node
  | descendant => document.descendants node
  | parent => (document.parent? node).toList
  | ancestor => document.ancestors node
  | followingSibling => document.followingSiblings node
  | precedingSibling => document.precedingSiblings node
  | following => document.following node
  | preceding => document.preceding node
  | attributes => document.attributeNodes node
  | namespaces => []
  | self => [node]
  | descendantOrSelf => node :: document.descendants node
  | ancestorOrSelf => node :: document.ancestors node

/-- Whether a kind of node is the one that names on an axis stand for. -/
def Axis.isPrincipal (axis : Axis) (kind : NodeKind) : Bool :=
  if axis = attributes then kind.isAttribute else kind.isElement

/-- Whether a node on an axis passes a test. -/
def NodeTest.accepts (axis : Axis) (kind : NodeKind) : NodeTest → Bool
  | .node => true
  | .text => kind.isText
  | .comment => kind.isComment
  | .instruction target => kind.isInstruction && target.all (kind.name? == some ·)
  | .wildcard => axis.isPrincipal kind
  | .prefixWildcard space => axis.isPrincipal kind &&
    kind.name?.any fun full => (Text.breakOn? [':'] full).any (·.1 == space)
  | .name full => axis.isPrincipal kind && kind.name? == some full

/-- The nodes on an axis that pass a test. -/
def Axis.select (document : Document) (axis : Axis) (test : NodeTest) (node : Nat) : List Nat :=
  (axis.nodes document node).filter fun id =>
    (document.kind? id).any fun kind => test.accepts axis kind

/-- Nodes in document order, each once. -/
def documentOrder (nodes : List Nat) : List Nat := (nodes.mergeSort (· ≤ ·)).eraseReps

/-- Whether a predicate holds: a number has to be the position. -/
def Value.holdsAt (position : Nat) : Value → Bool
  | number value => value.equal (.ofNat position)
  | other => other.toBoolean

/-- The nodes at whose position a predicate holds. -/
def filterNodes (document : Document) (predicate : Context → Except Error Value)
    (nodes : List Nat) : Except Error (List Nat) := do
  let kept ← (nodes.zipIdx 1).filterM fun (node, position) => do
    return (← predicate ⟨document, node, position, nodes.length⟩).holdsAt position
  return kept.map (·.1)

/-- The value of an operator other than `and` and `or` for the values of its operands. -/
def Operator.apply (operator : Operator) (document : Document) (left right : Value) : Value :=
  match operator with
  | add => .number ((left.numberIn document).add (right.numberIn document))
  | sub => .number ((left.numberIn document).sub (right.numberIn document))
  | mul => .number ((left.numberIn document).mul (right.numberIn document))
  | div => .number ((left.numberIn document).div (right.numberIn document))
  | mod => .number ((left.numberIn document).mod (right.numberIn document))
  | and => .boolean (left.toBoolean && right.toBoolean)
  | or => .boolean (left.toBoolean || right.toBoolean)
  | comparison => .boolean (left.compare document comparison right)

mutual

/-- The value of an expression in a context. -/
def Expr.eval (context : Context) : Expr → Except Error Value
  | .number value => .ok (.number value)
  | .literal value => .ok (.string value)
  | .reference name => .error (.undefinedVariable name)
  | .binary operator left right => do
    let first ← left.eval context
    match operator, first.toBoolean with
    | .and, false => return .boolean false
    | .or, true => return .boolean true
    | operator, _ => return operator.apply context.document first (← right.eval context)
  | .negate operand => do
    return .number ((← operand.eval context).numberIn context.document).neg
  | .call name arguments =>
    match CoreFunction.ofText? name with
    | none => .error (.undefinedFunction name)
    | some function =>
      if function.arity.accepts arguments.length then do
        function.apply context (← evalAll context arguments)
      else .error (.argumentCount name function.arity arguments.length)
  | .path steps => do return .nodeSet (← evalSteps context.document [context.node] steps)
  | .rootPath steps => do return .nodeSet (← evalSteps context.document [Document.root] steps)
  | .filterPath start steps => do
    return .nodeSet (← evalSteps context.document (← (← start.eval context).nodes) steps)
  | .filter set predicates => do
    return .nodeSet (← evalPredicates context.document (← (← set.eval context).nodes) predicates)
  | .union left right => do
    let first ← (← left.eval context).nodes
    let second ← (← right.eval context).nodes
    return .nodeSet (documentOrder (first ++ second))

/-- The values of expressions in a context, from left to right. -/
def evalAll (context : Context) : List Expr → Except Error (List Value)
  | [] => .ok []
  | first :: rest => do return (← first.eval context) :: (← evalAll context rest)

/-- The nodes that pass predicates, each counting the nodes that are left by those before. -/
def evalPredicates (document : Document) (nodes : List Nat) :
    List Expr → Except Error (List Nat)
  | [] => .ok nodes
  | predicate :: rest => do
    evalPredicates document (← filterNodes document (fun context => predicate.eval context) nodes)
      rest

/-- The nodes that steps lead to from some nodes. -/
def evalSteps (document : Document) (nodes : List Nat) : List Step → Except Error (List Nat)
  | [] => .ok nodes
  | step :: rest => do
    let selected ← nodes.mapM fun node => step.eval document node
    evalSteps document (documentOrder selected.flatten) rest

/-- The nodes that one step selects from a node, in the order of its axis. -/
def Step.eval (document : Document) (node : Nat) : Step → Except Error (List Nat)
  | .mk axis test predicates =>
    evalPredicates document (axis.select document test node) predicates

end

/-- The value of the expression that a text denotes, from a node on its own. -/
def evaluate (document : Document) (node : Nat) (text : Text) : Except Error Value := do
  let expr ← (parse text).mapError .malformed
  expr.eval (.ofNode document node)

end XmlSelect.XPath
