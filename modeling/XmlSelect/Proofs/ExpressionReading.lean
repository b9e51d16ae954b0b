import XmlSelect.XPath.Parse

/-! What the readers of the grammar make of tokens. Only the tokens count, not their places, and
what a reader leaves is what its callers go on with; tokens that do not continue an expression make
each level of the grammar hand it on. -/
namespace XmlSelect.XPath

/-- The reader takes this value from the tokens and leaves the rest, wherever they stand. -/
def Reads {α : Type} {bound : List Located → Nat}
    (reader : (tokens : List Located) → Except Stuck (Parsed (bound tokens) α))
    (tokens : List Token) (value : α) (rest : List Token) : Prop :=
  ∀ located : List Located, located.map (·.token) = tokens →
    ∃ parsed, reader located = .ok parsed ∧ parsed.value = value ∧
      parsed.rest.map (·.token) = rest

/-- Whether a node test may start here. -/
def Token.startsTest : Token → Bool
  | nameTest _ | prefixWildcard _ | star | nodeType _ => true
  | _ => false

/-- Whether a path or a filter expression goes on here. -/
def Token.continuesPath : Token → Bool
  | leftBracket | slash | doubleSlash => true
  | _ => false

/-- Whether a primary expression may start here. -/
def Token.startsPrimary : Token → Bool
  | reference _ | literal _ | number _ | leftParen | function _ => true
  | _ => false

/-- A level of the grammar above the paths: that of the signs, or one of binary operators. -/
inductive Rung
  | sign
  | binary (level : Level)

/-- The reader of a level, made from that of the level below. -/
def Rung.reader : Rung → (Nat → Reader Expr) → Nat → Reader Expr
  | sign => signed
  | binary level => chain level

/-- Whether no operator of a level comes next. -/
def Rung.stops (rest : List Token) : Rung → Bool
  | sign => true
  | binary level => (rest.head?.bind level).isNone

/-- The level whose operators are those of a table. -/
def Level.ofTable (table : List (Token × (Expr → Expr → Expr))) : Level := fun token =>
  (table.find? (·.1 = token)).map (·.2)

/-- The levels of the grammar from the lowest precedence on, with all their operators. -/
def ladder : List Rung :=
  [.binary (.ofTable [(.or, .binary .or)]),
    .binary (.ofTable [(.and, .binary .and)]),
    .binary (.ofTable [(.equal, .binary .equal), (.notEqual, .binary .notEqual)]),
    .binary (.ofTable [(.less, .binary .less), (.greater, .binary .greater),
      (.lessEq, .binary .lessEq), (.greaterEq, .binary .greaterEq)]),
    .binary (.ofTable [(.plus, .binary .add), (.minus, .binary .sub)]),
    .binary (.ofTable [(.multiply, .binary .mul), (.div, .binary .div), (.mod, .binary .mod)]),
    .sign,
    .binary (.ofTable [(.pipe, .union)])]

/-- The parser has the levels of the grammar. -/
theorem ladder_eq :
    ladder = [.binary orLevel, .binary andLevel, .binary equalityLevel, .binary relationalLevel,
      .binary additiveLevel, .binary multiplicativeLevel, .sign, .binary unionLevel] := by
  simp only [ladder, List.cons.injEq, Rung.binary.injEq, true_and, and_true]
  refine ⟨?_, ?_, ?_, ?_, ?_, ?_, ?_⟩ <;> funext token <;> cases token <;> rfl

/-- The reader of the topmost of some levels on the ground of the paths. -/
def climb (rungs : List Rung) (nested : Nat → Reader Expr) : Nat → Reader Expr :=
  rungs.foldr Rung.reader fun room => pathOrFilter (nested room)

/-- The parser reads expressions by the levels of the grammar. -/
theorem expression_succ (layers : Nat) :
    expression (layers + 1) = climb ladder (descend (expression layers)) := by
  rw [ladder_eq]
  rfl

theorem descend_expression (layers room : Nat) :
    descend (expression (layers + 1)) (room + 1) = climb ladder (descend (expression layers)) room :=
  congrFun (expression_succ layers) room

theorem located_cons {located : List Located} {token : Token} {tokens : List Token}
    (same : located.map (·.token) = token :: tokens) :
    ∃ position behind, located = ⟨token, position⟩ :: behind ∧
      behind.map (·.token) = tokens := by
  cases located with
  | nil => cases same
  | cons first behind =>
    obtain ⟨rfl, left⟩ := List.cons.inj same
    exact ⟨first.position, behind, rfl, left⟩

theorem located_head {located : List Located} {tokens : List Token}
    (same : located.map (·.token) = tokens) : located.head?.map (·.token) = tokens.head? := by
  rw [← same, List.head?_map]

section Recovering

/-- What was read is this value with this rest behind it. Where the room is scarce, it may have
given out before that. -/
def Recovered {α : Type} {bound : Nat} (scarce : Prop) (value : α) (rest : List Token) :
    Except Stuck (Parsed bound α) → Prop
  | .ok parsed => parsed.value = value ∧ parsed.rest.map (·.token) = rest
  | .error stuck => scarce ∧ stuck.fault = fun _ => .tooDeep

theorem Recovered.bind {α β : Type} {bound bound' : Nat} {scarce : Prop} {value : α} {result : β}
    {more rest : List Token} {first : Except Stuck (Parsed bound α)}
    {next : Parsed bound α → Except Stuck (Parsed bound' β)}
    (before : Recovered scarce value more first)
    (after : ∀ located shorter, located.map (·.token) = more →
      Recovered scarce result rest (next ⟨value, located, shorter⟩)) :
    Recovered scarce result rest (first >>= next) := by
  cases first with
  | error stuck => exact before
  | ok parsed =>
    obtain ⟨_, located, shorter⟩ := parsed
    obtain ⟨rfl, left⟩ := before
    exact after located shorter left

/-- A reader takes this value from the tokens and leaves the rest, wherever they stand, unless the
room is scarce and gives out. -/
def Recovers {α : Type} {bound : List Located → Nat} (scarce : Prop)
    (reader : (tokens : List Located) → Except Stuck (Parsed (bound tokens) α))
    (tokens : List Token) (value : α) (rest : List Token) : Prop :=
  ∀ located : List Located, located.map (·.token) = tokens →
    Recovered scarce value rest (reader located)

variable {α : Type} {bound : List Located → Nat}
  {reader : (tokens : List Located) → Except Stuck (Parsed (bound tokens) α)} {value : α}
  {tokens rest : List Token}

theorem Reads.recovers {scarce : Prop} (reads : Reads reader tokens value rest) :
    Recovers scarce reader tokens value rest := by
  intro located same
  obtain ⟨parsed, read, left⟩ := reads located same
  rw [read]
  exact left

/-- Where there is room enough, the value is read. -/
theorem Reads.of_recovers (recovers : Recovers False reader tokens value rest) :
    Reads reader tokens value rest := by
  intro located same
  have outcome := recovers located same
  cases read : reader located with
  | error stuck =>
    rw [read] at outcome
    exact outcome.1.elim
  | ok parsed =>
    rw [read] at outcome
    exact ⟨parsed, rfl, outcome⟩

end Recovering

namespace Recovers

variable {scarce : Prop} {nested : Reader Expr} {tokens more rest : List Token}

theorem expect (wanted : Token) (rest : List Token) :
    Recovers scarce (XPath.expect wanted) (wanted :: rest) () rest := by
  intro located same
  obtain ⟨position, behind, rfl, left⟩ := located_cons same
  rw [XPath.expect, if_pos rfl]
  exact ⟨rfl, left⟩

section Steps

theorem noPredicates (nested : Reader Expr) (stops : tokens.head? ≠ some .leftBracket) :
    Recovers scarce (predicates nested) tokens [] tokens := by
  intro located same
  rw [← located_head same] at stops
  unfold predicates
  split
  · simp at stops
  · exact ⟨rfl, same⟩

theorem predicate {first : Expr} {others : List Expr}
    (inner : Recovers scarce nested tokens first (.rightBracket :: more))
    (further : Recovers scarce (predicates nested) more others rest) :
    Recovers scarce (predicates nested) (.leftBracket :: tokens) (first :: others) rest := by
  intro located same
  obtain ⟨position, behind, rfl, left⟩ := located_cons same
  rw [predicates]
  refine .bind (inner behind left) fun located₁ _ left₁ => ?_
  refine .bind (expect _ more located₁ left₁) fun located₂ _ left₂ => ?_
  refine .bind (further located₂ left₂) fun located₃ _ left₃ => ?_
  exact ⟨rfl, left₃⟩

theorem testOnAxis {test : NodeTest} {conditions : List Expr} (axis : Axis)
    (tested : Recovers scarce nodeTest tokens test more)
    (further : Recovers scarce (predicates nested) more conditions rest) :
    Recovers scarce (testOnAxis nested axis) tokens (.mk axis test conditions) rest := by
  intro located same
  refine .bind (tested located same) fun located₁ _ left₁ => ?_
  refine .bind (further located₁ left₁) fun located₂ _ left₂ => ?_
  exact ⟨rfl, left₂⟩

theorem attributeStep {value : Step}
    (tested : Recovers scarce (XPath.testOnAxis nested .attributes) tokens value rest) :
    Recovers scarce (step nested) (.atSign :: tokens) value rest := by
  intro located same
  obtain ⟨_, behind, rfl, left⟩ := located_cons same
  exact .bind (tested behind left) fun located₁ _ left₁ => ⟨rfl, left₁⟩

theorem childStep {value : Step} (starts : tokens.head?.any Token.startsTest = true)
    (tested : Recovers scarce (XPath.testOnAxis nested .child) tokens value rest) :
    Recovers scarce (step nested) tokens value rest := by
  intro located same
  rw [← located_head same] at starts
  unfold step
  split
  · cases starts
  · cases starts
  · cases starts
  · cases starts
  · exact tested located same

theorem noSteps (nested : Reader Expr) (stops : tokens.head?.any Token.continuesPath = false) :
    Recovers scarce (furtherSteps nested) tokens [] tokens := by
  intro located same
  rw [← located_head same] at stops
  unfold furtherSteps
  split
  · cases stops
  · cases stops
  · exact ⟨rfl, same⟩

theorem slashStep {first : Step} {others : List Step}
    (read : Recovers scarce (step nested) tokens first more)
    (further : Recovers scarce (furtherSteps nested) more others rest) :
    Recovers scarce (furtherSteps nested) (.slash :: tokens) (first :: others) rest := by
  intro located same
  obtain ⟨_, behind, rfl, left⟩ := located_cons same
  rw [furtherSteps]
  refine .bind (read behind left) fun located₁ _ left₁ => ?_
  exact .bind (further located₁ left₁) fun located₂ _ left₂ => ⟨rfl, left₂⟩

theorem doubleSlashStep {first : Step} {others : List Step}
    (read : Recovers scarce (step nested) tokens first more)
    (further : Recovers scarce (furtherSteps nested) more others rest) :
    Recovers scarce (furtherSteps nested) (.doubleSlash :: tokens) (.anyDepth :: first :: others)
      rest := by
  intro located same
  obtain ⟨_, behind, rfl, left⟩ := located_cons same
  rw [furtherSteps]
  refine .bind (read behind left) fun located₁ _ left₁ => ?_
  exact .bind (further located₁ left₁) fun located₂ _ left₂ => ⟨rfl, left₂⟩

theorem relativePath {first : Step} {others : List Step}
    (read : Recovers scarce (step nested) tokens first more)
    (further : Recovers scarce (furtherSteps nested) more others rest) :
    Recovers scarce (relativePath nested) tokens (first :: others) rest := by
  intro located same
  refine .bind (read located same) fun located₁ _ left₁ => ?_
  exact .bind (further located₁ left₁) fun located₂ _ left₂ => ⟨rfl, left₂⟩

end Steps

section Primaries

theorem lastArgument {last : Expr}
    (inner : Recovers scarce nested tokens last (.rightParen :: rest)) :
    Recovers scarce (someArguments nested) tokens [last] rest := by
  intro located same
  rw [someArguments]
  refine .bind (inner located same) fun located₁ _ left₁ => ?_
  obtain ⟨_, _, rfl, left⟩ := located_cons left₁
  exact ⟨rfl, left⟩

theorem argument {first : Expr} {others : List Expr}
    (inner : Recovers scarce nested tokens first (.comma :: more))
    (further : Recovers scarce (someArguments nested) more others rest) :
    Recovers scarce (someArguments nested) tokens (first :: others) rest := by
  intro located same
  rw [someArguments]
  refine .bind (inner located same) fun located₁ _ left₁ => ?_
  obtain ⟨_, _, rfl, _⟩ := located_cons left₁
  refine .bind (expect .comma more _ left₁) fun located₂ _ left₂ => ?_
  exact .bind (further located₂ left₂) fun located₃ _ left₃ => ⟨rfl, left₃⟩

theorem arguments {values : List Expr} (nonempty : tokens.head? ≠ some .rightParen)
    (inner : Recovers scarce (someArguments nested) tokens values rest) :
    Recovers scarce (callArguments nested) (.leftParen :: tokens) values rest := by
  intro located same
  obtain ⟨_, behind, rfl, left⟩ := located_cons same
  rw [← located_head left] at nonempty
  simp only [callArguments, XPath.expect, if_true, bind, Except.bind, Parsed.one]
  split
  · simp at nonempty
  · exact .bind (inner behind left) fun located₁ _ left₁ => ⟨rfl, left₁⟩

theorem call {values : List Expr} (name : Text)
    (inner : Recovers scarce (callArguments nested) tokens values rest) :
    Recovers scarce (primary nested) (.function name :: tokens) (.call name values) rest := by
  intro located same
  obtain ⟨_, behind, rfl, left⟩ := located_cons same
  exact .bind (inner behind left) fun located₁ _ left₁ => ⟨rfl, left₁⟩

/-- A primary expression with the predicates and the steps behind it, if there are any. -/
theorem filterPath {start : Expr} {conditions : List Expr} {steps : List Step}
    {behind : List Token} (first : Recovers scarce (primary nested) tokens start more)
    (filters : Recovers scarce (predicates nested) more conditions behind)
    (further : Recovers scarce (furtherSteps nested) behind steps rest) :
    Recovers scarce (filterPath nested) tokens
      (let start := if conditions.isEmpty then start else .filter start conditions
      if steps.isEmpty then start else .filterPath start steps) rest := by
  intro located same
  refine .bind (first located same) fun located₁ _ left₁ => ?_
  refine .bind (filters located₁ left₁) fun located₂ _ left₂ => ?_
  exact .bind (further located₂ left₂) fun located₃ _ left₃ => ⟨rfl, left₃⟩

theorem steps {steps : List Step} (starts : tokens.head?.any Token.startsStep = true)
    (path : Recovers scarce (XPath.relativePath nested) tokens steps rest) :
    Recovers scarce (pathOrFilter nested) tokens (.path steps) rest := by
  intro located same
  rw [← located_head same, Option.any_map] at starts
  unfold pathOrFilter
  split
  · cases starts
  · cases starts
  · rw [if_pos starts]
    exact .bind (path located same) fun located₁ _ left₁ => ⟨rfl, left₁⟩

theorem anyDepthSteps {steps : List Step}
    (path : Recovers scarce (XPath.relativePath nested) tokens steps rest) :
    Recovers scarce (pathOrFilter nested) (.doubleSlash :: tokens) (.rootPath (.anyDepth :: steps))
      rest := by
  intro located same
  obtain ⟨_, behind, rfl, left⟩ := located_cons same
  exact .bind (path behind left) fun located₁ _ left₁ => ⟨rfl, left₁⟩

theorem filter {value : Expr} (starts : tokens.head?.any Token.startsPrimary = true)
    (inner : Recovers scarce (XPath.filterPath nested) tokens value rest) :
    Recovers scarce (pathOrFilter nested) tokens value rest := by
  intro located same
  rw [← located_head same, Option.any_map] at starts
  have noStep : ¬(located.head?.any fun found => found.token.startsStep) = true := by
    cases located with
    | nil => cases starts
    | cons found behind =>
      simp only [List.head?_cons, Option.any_some] at starts ⊢
      cases kind : found.token <;> simp_all [Token.startsPrimary, Token.startsStep]
  unfold pathOrFilter
  split
  · cases starts
  · cases starts
  · rw [if_neg noStep]
    exact inner located same

end Primaries

section Levels

variable {operand : Nat → Reader Expr} {level : Level} {room : Nat}

/-- No operator of the level follows. -/
theorem chainEnd (value : Expr) (room : Nat) (stops : rest.head?.bind level = none) :
    Recovers scarce (chainTail level operand value room) rest value rest := by
  intro located same
  rw [← located_head same] at stops
  cases located with
  | nil =>
    unfold chainTail
    exact ⟨rfl, same⟩
  | cons found behind =>
    have other : level found.token = none := stops
    unfold chainTail
    simp only [other]
    exact ⟨rfl, same⟩

/-- An operator of the level with its right operand; it takes one from the room. -/
theorem chainLink {left right whole : Expr} {operator : Token} {join : Expr → Expr → Expr}
    (joins : level operator = some join)
    (inner : Recovers scarce (operand room) tokens right more)
    (further : Recovers scarce (chainTail level operand (join left right) room) more whole rest) :
    Recovers scarce (chainTail level operand left (room + 1)) (operator :: tokens) whole rest := by
  intro located same
  obtain ⟨_, behind, rfl, left⟩ := located_cons same
  unfold chainTail
  simp only [joins]
  refine .bind (inner behind left) fun located₁ _ left₁ => ?_
  exact .bind (further located₁ left₁) fun located₂ _ left₂ => ⟨rfl, left₂⟩

theorem chain {first whole : Expr} (inner : Recovers scarce (operand room) tokens first more)
    (further : Recovers scarce (chainTail level operand first room) more whole rest) :
    Recovers scarce (XPath.chain level operand room) tokens whole rest := by
  intro located same
  refine .bind (inner located same) fun located₁ _ left₁ => ?_
  exact .bind (further located₁ left₁) fun located₂ _ left₂ => ⟨rfl, left₂⟩

theorem unsigned {value : Expr} (noMinus : tokens.head? ≠ some .minus)
    (inner : Recovers scarce (operand room) tokens value rest) :
    Recovers scarce (XPath.signed operand room) tokens value rest := by
  intro located same
  rw [← located_head same] at noMinus
  have noSigns : located.takeWhile (fun found => decide (found.token = .minus)) = [] := by
    cases located with
    | nil => rfl
    | cons found behind => simp_all
  rw [XPath.signed]
  simp only [noSigns, List.isEmpty_nil, if_true]
  exact inner located same

end Levels

end Recovers

namespace Reads

variable {nested : Reader Expr} {tokens more rest : List Token}

section Steps

theorem noPredicates (nested : Reader Expr) (stops : tokens.head? ≠ some .leftBracket) :
    Reads (predicates nested) tokens [] tokens :=
  of_recovers (.noPredicates nested stops)

theorem predicate {first : Expr} {others : List Expr}
    (inner : Reads nested tokens first (.rightBracket :: more))
    (further : Reads (predicates nested) more others rest) :
    Reads (predicates nested) (.leftBracket :: tokens) (first :: others) rest :=
  of_recovers (.predicate inner.recovers further.recovers)

theorem star (rest : List Token) : Reads nodeTest (.star :: rest) .wildcard rest := by
  intro located same
  obtain ⟨position, behind, rfl, left⟩ := located_cons same
  exact ⟨_, rfl, rfl, left⟩

theorem nameTest (name : Text) (rest : List Token) :
    Reads nodeTest (.nameTest name :: rest) (.name name) rest := by
  intro located same
  obtain ⟨position, behind, rfl, left⟩ := located_cons same
  exact ⟨_, rfl, rfl, left⟩

theorem testOnAxis {test : NodeTest} {conditions : List Expr} (axis : Axis)
    (tested : Reads nodeTest tokens test more)
    (further : Reads (predicates nested) more conditions rest) :
    Reads (testOnAxis nested axis) tokens (.mk axis test conditions) rest :=
  of_recovers (.testOnAxis axis tested.recovers further.recovers)

theorem childStep {read : Step} (starts : tokens.head?.any Token.startsTest = true)
    (tested : Reads (XPath.testOnAxis nested .child) tokens read rest) :
    Reads (step nested) tokens read rest :=
  of_recovers (.childStep starts tested.recovers)

theorem attributeStep {read : Step}
    (tested : Reads (XPath.testOnAxis nested .attributes) tokens read rest) :
    Reads (step nested) (.atSign :: tokens) read rest :=
  of_recovers (.attributeStep tested.recovers)

theorem noSteps (nested : Reader Expr) (stops : tokens.head?.any Token.continuesPath = false) :
    Reads (furtherSteps nested) tokens [] tokens :=
  of_recovers (.noSteps nested stops)

theorem slashStep {first : Step} {others : List Step}
    (read : Reads (step nested) tokens first more)
    (further : Reads (furtherSteps nested) more others rest) :
    Reads (furtherSteps nested) (.slash :: tokens) (first :: others) rest :=
  of_recovers (.slashStep read.recovers further.recovers)

theorem doubleSlashStep {first : Step} {others : List Step}
    (read : Reads (step nested) tokens first more)
    (further : Reads (furtherSteps nested) more others rest) :
    Reads (furtherSteps nested) (.doubleSlash :: tokens) (.anyDepth :: first :: others) rest :=
  of_recovers (.doubleSlashStep read.recovers further.recovers)

theorem relativePath {first : Step} {others : List Step}
    (read : Reads (step nested) tokens first more)
    (further : Reads (furtherSteps nested) more others rest) :
    Reads (relativePath nested) tokens (first :: others) rest :=
  of_recovers (.relativePath read.recovers further.recovers)

end Steps

section Primaries

theorem lastArgument {last : Expr} (inner : Reads nested tokens last (.rightParen :: rest)) :
    Reads (someArguments nested) tokens [last] rest :=
  of_recovers (.lastArgument inner.recovers)

theorem argument {first : Expr} {others : List Expr}
    (inner : Reads nested tokens first (.comma :: more))
    (further : Reads (someArguments nested) more others rest) :
    Reads (someArguments nested) tokens (first :: others) rest :=
  of_recovers (.argument inner.recovers further.recovers)

theorem noArguments (rest : List Token) :
    Reads (callArguments nested) (.leftParen :: .rightParen :: rest) [] rest := by
  intro located same
  obtain ⟨_, _, rfl, left₁⟩ := located_cons same
  obtain ⟨_, _, rfl, left₂⟩ := located_cons left₁
  exact ⟨_, rfl, rfl, left₂⟩

theorem arguments {arguments : List Expr} (nonempty : tokens.head? ≠ some .rightParen)
    (inner : Reads (someArguments nested) tokens arguments rest) :
    Reads (callArguments nested) (.leftParen :: tokens) arguments rest :=
  of_recovers (.arguments nonempty inner.recovers)

theorem literal (value : Text) (rest : List Token) :
    Reads (primary nested) (.literal value :: rest) (.literal value) rest := by
  intro located same
  obtain ⟨position, behind, rfl, left⟩ := located_cons same
  exact ⟨_, rfl, rfl, left⟩

theorem number (value : Double) (rest : List Token) :
    Reads (primary nested) (.number value :: rest) (.number value) rest := by
  intro located same
  obtain ⟨position, behind, rfl, left⟩ := located_cons same
  exact ⟨_, rfl, rfl, left⟩

theorem call {arguments : List Expr} (name : Text)
    (inner : Reads (callArguments nested) tokens arguments rest) :
    Reads (primary nested) (.function name :: tokens) (.call name arguments) rest :=
  of_recovers (.call name inner.recovers)

/-- A primary expression with nothing behind it. -/
theorem filterPath {value : Expr} (inner : Reads (primary nested) tokens value rest)
    (stops : rest.head?.any Token.continuesPath = false) :
    Reads (filterPath nested) tokens value rest := by
  have noPredicate : rest.head? ≠ some .leftBracket := by
    intro bracket
    simp [bracket, Token.continuesPath] at stops
  exact of_recovers
    (.filterPath inner.recovers (.noPredicates nested noPredicate) (.noSteps nested stops))

theorem path {steps : List Step} (starts : tokens.head?.any Token.startsStep = true)
    (inner : Reads (XPath.relativePath nested) tokens steps rest) :
    Reads (pathOrFilter nested) tokens (.path steps) rest :=
  of_recovers (.steps starts inner.recovers)

theorem rootPath {first : Step} {others : List Step}
    (read : Reads (step nested) tokens first more)
    (further : Reads (furtherSteps nested) more others rest) :
    Reads (pathOrFilter nested) (.doubleSlash :: tokens)
      (.rootPath (.anyDepth :: first :: others)) rest :=
  of_recovers (.anyDepthSteps (.relativePath read.recovers further.recovers))

theorem filter {value : Expr} (starts : tokens.head?.any Token.startsPrimary = true)
    (inner : Reads (XPath.filterPath nested) tokens value rest) :
    Reads (pathOrFilter nested) tokens value rest :=
  of_recovers (.filter starts inner.recovers)

end Primaries

section Levels

variable {operand : Nat → Reader Expr} {level : Level} {room : Nat}

theorem chainEnd (value : Expr) (room : Nat) (stops : rest.head?.bind level = none) :
    Reads (chainTail level operand value room) rest value rest :=
  of_recovers (.chainEnd value room stops)

theorem chainLink {left right whole : Expr} {operator : Token} {join : Expr → Expr → Expr}
    (joins : level operator = some join) (inner : Reads (operand room) tokens right more)
    (further : Reads (chainTail level operand (join left right) room) more whole rest) :
    Reads (chainTail level operand left (room + 1)) (operator :: tokens) whole rest :=
  of_recovers (.chainLink joins inner.recovers further.recovers)

theorem chain {first whole : Expr} (inner : Reads (operand room) tokens first more)
    (further : Reads (chainTail level operand first room) more whole rest) :
    Reads (XPath.chain level operand room) tokens whole rest :=
  of_recovers (.chain inner.recovers further.recovers)

/-- One more level hands an expression on if it does not go on there. -/
theorem up {nested : Nat → Reader Expr} {rungs : List Rung} {value : Expr} (rung : Rung)
    (inner : Reads (climb rungs nested room) tokens value rest)
    (noMinus : tokens.head? ≠ some .minus) (stops : rung.stops rest = true) :
    Reads (climb (rung :: rungs) nested room) tokens value rest := by
  cases rung with
  | sign => exact of_recovers (.unsigned noMinus inner.recovers)
  | binary level => exact chain inner (chainEnd value room (Option.isNone_iff_eq_none.mp stops))

end Levels

end Reads

end XmlSelect.XPath
