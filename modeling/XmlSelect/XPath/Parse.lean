import XmlSelect.XPath.Expr
import XmlSelect.XPath.Scan
/-! Reading expressions from tokens. Each level of the grammar is a reader made from the reader of
the level below; groups, predicates and arguments come back to the top. `room` is how much deeper
the tree may get: each operator of a chain and each nested expression takes one. -/
namespace XmlSelect.XPath

/-- What was read, with the tokens behind it; fewer than `bound` are left. -/
structure Parsed (bound : Nat) (α : Type) where
  value : α
  rest : List Located
  shorter : rest.length < bound

/-- One token was read. -/
def Parsed.one {α : Type} (value : α) (found : Located) (rest : List Located) :
    Parsed (found :: rest).length α :=
  ⟨value, rest, by simp⟩

/-- Why reading stopped, and the tokens from there on. -/
structure Stuck where
  fault : Option Token → SyntaxFault
  rest : List Located

/-- A reader that takes at least one token. -/
abbrev Reader (α : Type) := (tokens : List Located) → Except Stuck (Parsed tokens.length α)

/-- A reader that may take no token. -/
abbrev OptionalReader (α : Type) :=
  (tokens : List Located) → Except Stuck (Parsed (tokens.length + 1) α)

/-- The fault at the place where reading stopped; at the end it is that of the input. -/
def Stuck.error (stuck : Stuck) (stop : Nat) : SyntaxError :=
  match stuck.rest with
  | found :: _ => ⟨stuck.fault (some found.token), found.position⟩
  | [] => ⟨stuck.fault none, stop⟩

/-- Takes exactly the given token. -/
def expect (wanted : Token) : Reader Unit
  | found :: rest =>
    if found.token = wanted then .ok (.one () found rest)
    else .error ⟨.expected wanted, found :: rest⟩
  | [] => .error ⟨.expected wanted, []⟩

/-- Goes one level deeper, if there is room. -/
def descend {α : Type} (reader : Nat → Reader α) (room : Nat) : Reader α := fun tokens =>
  match room with
  | 0 => .error ⟨fun _ => .tooDeep, tokens⟩
  | room + 1 => reader room tokens

section Steps

variable (nested : Reader Expr)

/-- Predicates, each between brackets. -/
def predicates : OptionalReader (List Expr)
  | ⟨.leftBracket, _⟩ :: tokens => do
    let ⟨predicate, tokens₁, short₁⟩ ← nested tokens
    let ⟨_, tokens₂, short₂⟩ ← expect .rightBracket tokens₁
    let ⟨others, tokens₃, short₃⟩ ← predicates tokens₂
    return ⟨predicate :: others, tokens₃, by simp only [List.length_cons]; omega⟩
  | tokens => .ok ⟨[], tokens, by omega⟩
termination_by tokens => tokens.length

/-- The test that a kind of node stands for, without a target. -/
def NodeType.test : NodeType → NodeTest
  | comment => .comment
  | text => .text
  | instruction => .instruction none
  | node => .node

/-- The parentheses of a test for a kind of node, with the target of an instruction in them. -/
def nodeTypeTest (type : NodeType) : Reader NodeTest := fun tokens => do
  let ⟨_, tokens₁, short₁⟩ ← expect .leftParen tokens
  match tokens₁, short₁, type with
  | ⟨.literal target, _⟩ :: tokens₂, short₂, .instruction =>
    let ⟨_, tokens₃, short₃⟩ ← expect .rightParen tokens₂
    return ⟨.instruction (some target), tokens₃, by simp only [List.length_cons] at short₂; omega⟩
  | tokens₂, short₂, type =>
    let ⟨_, tokens₃, short₃⟩ ← expect .rightParen tokens₂
    return ⟨type.test, tokens₃, by omega⟩

def nodeTest : Reader NodeTest
  | ⟨.star, _⟩ :: tokens => .ok (.one .wildcard _ tokens)
  | ⟨.nameTest name, _⟩ :: tokens => .ok (.one (.name name) _ tokens)
  | ⟨.prefixWildcard space, _⟩ :: tokens => .ok (.one (.prefixWildcard space) _ tokens)
  | ⟨.nodeType type, _⟩ :: tokens => do
    let ⟨test, tokens₁, short₁⟩ ← nodeTypeTest type tokens
    return ⟨test, tokens₁, by simp only [List.length_cons]; omega⟩
  | tokens => .error ⟨.expectedNodeTest, tokens⟩

/-- A node test with its predicates, on an axis that is known. -/
def testOnAxis (axis : Axis) : Reader Step := fun tokens => do
  let ⟨test, tokens₁, short₁⟩ ← nodeTest tokens
  let ⟨conditions, tokens₂, short₂⟩ ← predicates nested tokens₁
  return ⟨.mk axis test conditions, tokens₂, by omega⟩

/-- One step; the abbreviations `.` and `..` take no predicates. -/
def step : Reader Step
  | ⟨.dot, _⟩ :: tokens => .ok (.one (.mk .self .node []) _ tokens)
  | ⟨.dotDot, _⟩ :: tokens => .ok (.one (.mk .parent .node []) _ tokens)
  | ⟨.atSign, _⟩ :: tokens => do
    let ⟨read, tokens₁, short₁⟩ ← testOnAxis nested .attributes tokens
    return ⟨read, tokens₁, by simp only [List.length_cons]; omega⟩
  | ⟨.axis name, position⟩ :: tokens =>
    match Axis.ofName? name with
    | none => .error ⟨fun _ => .unknownAxis name, ⟨.axis name, position⟩ :: tokens⟩
    | some axis => do
      let ⟨_, tokens₁, short₁⟩ ← expect .colonColon tokens
      let ⟨read, tokens₂, short₂⟩ ← testOnAxis nested axis tokens₁
      return ⟨read, tokens₂, by simp only [List.length_cons]; omega⟩
  | tokens => testOnAxis nested .child tokens

/-- Steps, each behind a slash or a double slash. -/
def furtherSteps : OptionalReader (List Step)
  | ⟨.slash, _⟩ :: tokens => do
    let ⟨first, tokens₁, short₁⟩ ← step nested tokens
    let ⟨others, tokens₂, short₂⟩ ← furtherSteps tokens₁
    return ⟨first :: others, tokens₂, by simp only [List.length_cons]; omega⟩
  | ⟨.doubleSlash, _⟩ :: tokens => do
    let ⟨first, tokens₁, short₁⟩ ← step nested tokens
    let ⟨others, tokens₂, short₂⟩ ← furtherSteps tokens₁
    return ⟨.anyDepth :: first :: others, tokens₂, by simp only [List.length_cons]; omega⟩
  | tokens => .ok ⟨[], tokens, by omega⟩
termination_by tokens => tokens.length

/-- A relative location path. -/
def relativePath : Reader (List Step) := fun tokens => do
  let ⟨first, tokens₁, short₁⟩ ← step nested tokens
  let ⟨others, tokens₂, short₂⟩ ← furtherSteps nested tokens₁
  return ⟨first :: others, tokens₂, by omega⟩

/-- The arguments of a call from the first one on, and the closing parenthesis. -/
def someArguments : Reader (List Expr) := fun tokens => do
  let ⟨first, tokens₁, short₁⟩ ← nested tokens
  match tokens₁, short₁ with
  | ⟨.rightParen, _⟩ :: tokens₂, short₂ =>
    return ⟨[first], tokens₂, by simp only [List.length_cons] at short₂; omega⟩
  | tokens₂, short₂ =>
    let ⟨_, tokens₃, short₃⟩ ← expect .comma tokens₂
    let ⟨others, tokens₄, short₄⟩ ← someArguments tokens₃
    return ⟨first :: others, tokens₄, by omega⟩
termination_by tokens => tokens.length

/-- The arguments of a call, with their parentheses. -/
def callArguments : Reader (List Expr) := fun tokens => do
  let ⟨_, tokens₁, short₁⟩ ← expect .leftParen tokens
  match tokens₁, short₁ with
  | ⟨.rightParen, _⟩ :: tokens₂, short₂ =>
    return ⟨[], tokens₂, by simp only [List.length_cons] at short₂; omega⟩
  | tokens₂, short₂ =>
    let ⟨arguments, tokens₃, short₃⟩ ← someArguments nested tokens₂
    return ⟨arguments, tokens₃, by omega⟩

def primary : Reader Expr
  | ⟨.reference name, _⟩ :: tokens => .ok (.one (.reference name) _ tokens)
  | ⟨.literal value, _⟩ :: tokens => .ok (.one (.literal value) _ tokens)
  | ⟨.number value, _⟩ :: tokens => .ok (.one (.number value) _ tokens)
  | ⟨.leftParen, _⟩ :: tokens => do
    let ⟨inner, tokens₁, short₁⟩ ← nested tokens
    let ⟨_, tokens₂, short₂⟩ ← expect .rightParen tokens₁
    return ⟨inner, tokens₂, by simp only [List.length_cons]; omega⟩
  | ⟨.function name, _⟩ :: tokens => do
    let ⟨arguments, tokens₁, short₁⟩ ← callArguments nested tokens
    return ⟨.call name arguments, tokens₁, by simp only [List.length_cons]; omega⟩
  | tokens => .error ⟨.expectedOperand, tokens⟩

/-- A primary expression with the predicates and the steps behind it. -/
def filterPath : Reader Expr := fun tokens => do
  let ⟨start, tokens₁, short₁⟩ ← primary nested tokens
  let ⟨conditions, tokens₂, short₂⟩ ← predicates nested tokens₁
  let ⟨steps, tokens₃, short₃⟩ ← furtherSteps nested tokens₂
  let start := if conditions.isEmpty then start else .filter start conditions
  return ⟨if steps.isEmpty then start else .filterPath start steps, tokens₃, by omega⟩

/-- A location path, or a filter expression where no step can start. -/
def pathOrFilter : Reader Expr
  | ⟨.slash, _⟩ :: tokens =>
    if tokens.head?.any (·.token.startsStep) then do
      let ⟨steps, tokens₁, short₁⟩ ← relativePath nested tokens
      return ⟨.rootPath steps, tokens₁, by simp only [List.length_cons]; omega⟩
    else .ok (.one (.rootPath []) _ tokens)
  | ⟨.doubleSlash, _⟩ :: tokens => do
    let ⟨steps, tokens₁, short₁⟩ ← relativePath nested tokens
    return ⟨.rootPath (.anyDepth :: steps), tokens₁, by simp only [List.length_cons]; omega⟩
  | tokens =>
    if tokens.head?.any (·.token.startsStep) then do
      let ⟨steps, tokens₁, short₁⟩ ← relativePath nested tokens
      return ⟨.path steps, tokens₁, short₁⟩
    else filterPath nested tokens

end Steps

/-- How a token joins two expressions on one level of the grammar. -/
abbrev Level := Token → Option (Expr → Expr → Expr)

def orLevel : Level
  | .or => some (.binary .or)
  | _ => none

def andLevel : Level
  | .and => some (.binary .and)
  | _ => none

def equalityLevel : Level
  | .equal => some (.binary .equal)
  | .notEqual => some (.binary .notEqual)
  | _ => none

def relationalLevel : Level
  | .less => some (.binary .less)
  | .lessEq => some (.binary .lessEq)
  | .greater => some (.binary .greater)
  | .greaterEq => some (.binary .greaterEq)
  | _ => none

def additiveLevel : Level
  | .plus => some (.binary .add)
  | .minus => some (.binary .sub)
  | _ => none

def multiplicativeLevel : Level
  | .multiply => some (.binary .mul)
  | .div => some (.binary .div)
  | .mod => some (.binary .mod)
  | _ => none

def unionLevel : Level
  | .pipe => some .union
  | _ => none

/-- Further operands of a chain, joined to the left. -/
def chainTail (level : Level) (operand : Nat → Reader Expr) (left : Expr) :
    Nat → OptionalReader Expr
  | room, [] => .ok ⟨left, [], by simp⟩
  | room, found :: tokens =>
    match level found.token, room with
    | none, _ => .ok ⟨left, found :: tokens, by simp⟩
    | some _, 0 => .error ⟨fun _ => .tooDeep, tokens⟩
    | some join, room + 1 => do
      let ⟨right, tokens₁, short₁⟩ ← operand room tokens
      let ⟨whole, tokens₂, short₂⟩ ← chainTail level operand (join left right) room tokens₁
      return ⟨whole, tokens₂, by simp only [List.length_cons]; omega⟩

/-- Operands of one level with the operators between them. -/
def chain (level : Level) (operand : Nat → Reader Expr) (room : Nat) : Reader Expr :=
  fun tokens => do
    let ⟨first, tokens₁, short₁⟩ ← operand room tokens
    let ⟨whole, tokens₂, short₂⟩ ← chainTail level operand first room tokens₁
    return ⟨whole, tokens₂, by omega⟩

/-- Minus signs in front of an operand: an odd run negates once, an even run twice. -/
def signed (operand : Nat → Reader Expr) (room : Nat) : Reader Expr := fun tokens =>
  let isMinus : Located → Bool := (·.token = .minus)
  let signs := tokens.takeWhile isMinus
  if signs.isEmpty then operand room tokens
  else do
    let ⟨inner, tokens₁, short₁⟩ ← descend operand room (tokens.dropWhile isMinus)
    let negated := Expr.negate inner
    return ⟨if signs.length % 2 == 0 then .negate negated else negated, tokens₁, by
      have := (List.dropWhile_suffix (l := tokens) isMinus).length_le
      omega⟩

/-- The levels of the grammar from the lowest precedence to the paths. -/
def orExpr (nested : Nat → Reader Expr) : Nat → Reader Expr :=
  chain orLevel <| chain andLevel <| chain equalityLevel <| chain relationalLevel <|
    chain additiveLevel <| chain multiplicativeLevel <| signed <| chain unionLevel fun room =>
      pathOrFilter (nested room)

/-- Expressions that nest at most `layers` deep in groups, predicates and arguments; each layer
takes from the room too, so that as many layers as there is room are enough. -/
def expression : (layers : Nat) → Nat → Reader Expr
  | 0 => fun _ tokens => .error ⟨fun _ => .tooDeep, tokens⟩
  | layers + 1 => orExpr (descend (expression layers))

/-- The expression that a text denotes. -/
def parse (text : Text) : Except SyntaxError Expr := do
  let tokens ← tokenize text
  if tokens.isEmpty then throw ⟨.empty, 0⟩
  let parsed ← (expression (maxDepth + 1) maxDepth tokens).mapError (·.error (Text.byteLength text))
  match parsed.rest with
  | [] => return parsed.value
  | found :: _ => throw ⟨.trailing found.token, found.position⟩

end XmlSelect.XPath
