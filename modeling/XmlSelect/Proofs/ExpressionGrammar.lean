import XmlSelect.Proofs.ExpressionReading
import XmlSelect.Text.Read

/-! The grammar of expressions as derivations of token sequences. Whatever the readers make of
tokens, the tokens that they took derive it. -/
namespace XmlSelect.XPath

/-- Signs in front of an operand: an odd number of them negates it once, an even one twice. -/
def Expr.signed (count : Nat) (operand : Expr) : Expr :=
  if count % 2 == 0 then .negate (.negate operand) else .negate operand

/-- An expression with the predicates behind it. -/
def Expr.filteredBy (nodes : Expr) (predicates : List Expr) : Expr :=
  if predicates.isEmpty then nodes else .filter nodes predicates

/-- An expression with the steps behind it. -/
def Expr.followedBy (start : Expr) (steps : List Step) : Expr :=
  if steps.isEmpty then start else .filterPath start steps

/-- The names of the axes. -/
def axisNames : List (Text × Axis) :=
  [("ancestor".toList, .ancestor),
    ("ancestor-or-self".toList, .ancestorOrSelf),
    ("attribute".toList, .attributes),
    ("child".toList, .child),
    ("descendant".toList, .descendant),
    ("descendant-or-self".toList, .descendantOrSelf),
    ("following".toList, .following),
    ("following-sibling".toList, .followingSibling),
    ("namespace".toList, .namespaces),
    ("parent".toList, .parent),
    ("preceding".toList, .preceding),
    ("preceding-sibling".toList, .precedingSibling),
    ("self".toList, .self)]

/-- The tests that the kinds of nodes stand for where no target is given. -/
def nodeTypeTests : List (NodeType × NodeTest) :=
  [(.comment, .comment), (.text, .text), (.instruction, .instruction none), (.node, .node)]

/-- The parser knows the axes by their names. -/
theorem ofName?_eq_some_iff {name : Text} {axis : Axis} :
    Axis.ofName? name = some axis ↔ (name, axis) ∈ axisNames := by
  constructor
  · intro known
    obtain rfl := Axis.name_of_ofName? known
    cases axis <;> decide
  · intro member
    simp only [axisNames, List.mem_cons, Prod.mk.injEq, List.not_mem_nil, or_false] at member
    rcases member with ⟨rfl, rfl⟩ | ⟨rfl, rfl⟩ | ⟨rfl, rfl⟩ | ⟨rfl, rfl⟩ | ⟨rfl, rfl⟩ | ⟨rfl, rfl⟩ |
      ⟨rfl, rfl⟩ | ⟨rfl, rfl⟩ | ⟨rfl, rfl⟩ | ⟨rfl, rfl⟩ | ⟨rfl, rfl⟩ | ⟨rfl, rfl⟩ | ⟨rfl, rfl⟩ <;> rfl

/-- The parser makes the tests of the grammar of the kinds of nodes. -/
theorem test_eq_iff {type : NodeType} {test : NodeTest} :
    type.test = test ↔ (type, test) ∈ nodeTypeTests := by
  cases type <;> simp [nodeTypeTests, NodeType.test, eq_comm]

/-- What tokens may stand for, by the categories of the grammar. -/
inductive Phrase
  /-- An expression of the topmost of some levels. -/
  | level (rungs : List Rung) (value : Expr)
  /-- A location path or a filter expression. -/
  | path (value : Expr)
  | primary (value : Expr)
  /-- One argument at least, with commas between them. -/
  | arguments (values : List Expr)
  | predicates (values : List Expr)
  /-- A relative location path. -/
  | relative (steps : List Step)
  /-- Steps, each behind a slash or a double slash. -/
  | further (steps : List Step)
  | step (value : Step)
  /-- A node test and predicates, on an axis that was named before. -/
  | tested (axis : Axis) (value : Step)
  | test (value : NodeTest)

/-- The phrases that tokens stand for. -/
inductive Derives : Phrase → List Token → Prop
  | star : Derives (.test .wildcard) [.star]
  | nameTest (name : Text) : Derives (.test (.name name)) [.nameTest name]
  | prefixWildcard (space : Text) : Derives (.test (.prefixWildcard space)) [.prefixWildcard space]
  | nodeType {type : NodeType} {test : NodeTest} (stands : (type, test) ∈ nodeTypeTests) :
      Derives (.test test) [.nodeType type, .leftParen, .rightParen]
  | instruction (target : Text) :
      Derives (.test (.instruction (some target)))
        [.nodeType .instruction, .leftParen, .literal target, .rightParen]
  | noPredicates : Derives (.predicates []) []
  | predicate {first : Expr} {others : List Expr} {inside behind : List Token}
      (condition : Derives (.level ladder first) inside)
      (more : Derives (.predicates others) behind) :
      Derives (.predicates (first :: others)) (.leftBracket :: inside ++ .rightBracket :: behind)
  | tested {axis : Axis} {test : NodeTest} {conditions : List Expr} {front back : List Token}
      (tests : Derives (.test test) front) (filters : Derives (.predicates conditions) back) :
      Derives (.tested axis (.mk axis test conditions)) (front ++ back)
  | dot : Derives (.step (.mk .self .node [])) [.dot]
  | dotDot : Derives (.step (.mk .parent .node [])) [.dotDot]
  | attributeTest {value : Step} {tokens : List Token}
      (tests : Derives (.tested .attributes value) tokens) :
      Derives (.step value) (.atSign :: tokens)
  | axis {name : Text} {axis : Axis} {value : Step} {tokens : List Token}
      (known : (name, axis) ∈ axisNames) (tests : Derives (.tested axis value) tokens) :
      Derives (.step value) (.axis name :: .colonColon :: tokens)
  | child {value : Step} {tokens : List Token} (tests : Derives (.tested .child value) tokens) :
      Derives (.step value) tokens
  | noSteps : Derives (.further []) []
  | slash {steps : List Step} {tokens : List Token} (path : Derives (.relative steps) tokens) :
      Derives (.further steps) (.slash :: tokens)
  | doubleSlash {steps : List Step} {tokens : List Token}
      (path : Derives (.relative steps) tokens) :
      Derives (.further (.mk .descendantOrSelf .node [] :: steps)) (.doubleSlash :: tokens)
  | relative {first : Step} {others : List Step} {front back : List Token}
      (step : Derives (.step first) front) (more : Derives (.further others) back) :
      Derives (.relative (first :: others)) (front ++ back)
  | lastArgument {value : Expr} {tokens : List Token}
      (inside : Derives (.level ladder value) tokens) : Derives (.arguments [value]) tokens
  | argument {first : Expr} {others : List Expr} {front back : List Token}
      (inside : Derives (.level ladder first) front) (more : Derives (.arguments others) back) :
      Derives (.arguments (first :: others)) (front ++ .comma :: back)
  | reference (name : Text) : Derives (.primary (.reference name)) [.reference name]
  | literal (value : Text) : Derives (.primary (.literal value)) [.literal value]
  | number (value : Double) : Derives (.primary (.number value)) [.number value]
  | group {value : Expr} {tokens : List Token} (inside : Derives (.level ladder value) tokens) :
      Derives (.primary value) (.leftParen :: tokens ++ [.rightParen])
  | callNothing (name : Text) :
      Derives (.primary (.call name [])) [.function name, .leftParen, .rightParen]
  | call {name : Text} {values : List Expr} {tokens : List Token}
      (inside : Derives (.arguments values) tokens) :
      Derives (.primary (.call name values))
        (.function name :: .leftParen :: tokens ++ [.rightParen])
  | root : Derives (.path (.rootPath [])) [.slash]
  | rootSteps {steps : List Step} {tokens : List Token} (path : Derives (.relative steps) tokens) :
      Derives (.path (.rootPath steps)) (.slash :: tokens)
  | anyDepthSteps {steps : List Step} {tokens : List Token}
      (path : Derives (.relative steps) tokens) :
      Derives (.path (.rootPath (.mk .descendantOrSelf .node [] :: steps)))
        (.doubleSlash :: tokens)
  | steps {steps : List Step} {tokens : List Token} (path : Derives (.relative steps) tokens) :
      Derives (.path (.path steps)) tokens
  | filter {start : Expr} {conditions : List Expr} {steps : List Step}
      {front middle back : List Token} (first : Derives (.primary start) front)
      (filters : Derives (.predicates conditions) middle) (more : Derives (.further steps) back) :
      Derives (.path ((start.filteredBy conditions).followedBy steps)) (front ++ middle ++ back)
  | ground {value : Expr} {tokens : List Token} (path : Derives (.path value) tokens) :
      Derives (.level [] value) tokens
  | handOn {rung : Rung} {rungs : List Rung} {value : Expr} {tokens : List Token}
      (lower : Derives (.level rungs value) tokens) : Derives (.level (rung :: rungs) value) tokens
  | join {level : Level} {rungs : List Rung} {operator : Token} {joined : Expr → Expr → Expr}
      {left right : Expr} {front back : List Token} (joins : level operator = some joined)
      (first : Derives (.level (.binary level :: rungs) left) front)
      (second : Derives (.level rungs right) back) :
      Derives (.level (.binary level :: rungs) (joined left right)) (front ++ operator :: back)
  | signs {rungs : List Rung} {value : Expr} {tokens : List Token} (count : Nat)
      (operand : Derives (.level rungs value) tokens) :
      Derives (.level (.sign :: rungs) (value.signed (count + 1)))
        (List.replicate (count + 1) .minus ++ tokens)

/-- A double slash stands for a step to any depth. -/
theorem Derives.anyDepth {steps : List Step} {tokens : List Token}
    (path : Derives (.relative steps) tokens) :
    Derives (.further (.anyDepth :: steps)) (.doubleSlash :: tokens) :=
  .doubleSlash path

/-- Whenever the reader comes to a value, the tokens that it took derive the phrase of the value. -/
def Explains {α : Type} {bound : List Located → Nat} (phrase : α → Phrase)
    (reader : (tokens : List Located) → Except Stuck (Parsed (bound tokens) α)) : Prop :=
  ∀ tokens value rest shorter, reader tokens = .ok ⟨value, rest, shorter⟩ →
    ∃ used, tokens = used ++ rest ∧ Derives (phrase value) (used.map (·.token))

theorem expect_ok {wanted : Token} {tokens rest : List Located}
    {shorter : rest.length < tokens.length}
    (read : expect wanted tokens = .ok ⟨(), rest, shorter⟩) :
    ∃ position, tokens = ⟨wanted, position⟩ :: rest := by
  cases tokens with
  | nil => cases read
  | cons found tokens =>
    rw [expect] at read
    split at read
    · rename_i same
      cases read
      exact ⟨found.position, by rw [← same]⟩
    · cases read

section Steps

variable {nested : Reader Expr}

theorem explains_predicates (inner : Explains (.level ladder) nested) :
    Explains .predicates (predicates nested) := by
  intro tokens value rest shorter read
  fun_induction predicates nested tokens generalizing value with
  | case1 position tokens ih =>
    obtain ⟨⟨condition, tokens₁, short₁⟩, read₁, read⟩ := bind_ok read
    obtain ⟨⟨_, tokens₂, short₂⟩, read₂, read⟩ := bind_ok read
    obtain ⟨⟨others, tokens₃, short₃⟩, read₃, read⟩ := bind_ok read
    cases read
    obtain ⟨inside, rfl, condition⟩ := inner _ _ _ _ read₁
    obtain ⟨closing, rfl⟩ := expect_ok read₂
    obtain ⟨behind, rfl, more⟩ := ih _ short₁ _ short₂ _ _ read₃
    refine ⟨⟨.leftBracket, position⟩ :: inside ++ ⟨.rightBracket, closing⟩ :: behind, ?_, ?_⟩
    · simp
    · simpa using Derives.predicate condition more
  | case2 tokens other =>
    cases read
    exact ⟨[], rfl, .noPredicates⟩

theorem explains_nodeTypeTest (type : NodeType) {tokens rest : List Located} {value : NodeTest}
    {shorter : rest.length < tokens.length}
    (read : nodeTypeTest type tokens = .ok ⟨value, rest, shorter⟩) :
    ∃ used, tokens = used ++ rest ∧
      Derives (.test value) (.nodeType type :: used.map (·.token)) := by
  obtain ⟨⟨_, tokens₁, short₁⟩, read₁, read⟩ := bind_ok read
  obtain ⟨opening, rfl⟩ := expect_ok read₁
  simp only at read
  split at read
  · obtain ⟨⟨_, tokens₂, short₂⟩, read₂, read⟩ := bind_ok read
    cases read
    obtain ⟨closing, rfl⟩ := expect_ok read₂
    exact ⟨[_, _, _], rfl, .instruction _⟩
  · obtain ⟨⟨_, tokens₂, short₂⟩, read₂, read⟩ := bind_ok read
    cases read
    obtain ⟨closing, rfl⟩ := expect_ok read₂
    exact ⟨[_, _], rfl, .nodeType (test_eq_iff.mp rfl)⟩

theorem explains_nodeTest : Explains .test nodeTest := by
  intro tokens value rest shorter read
  unfold nodeTest at read
  split at read
  · cases read
    exact ⟨[_], rfl, .star⟩
  · cases read
    exact ⟨[_], rfl, .nameTest _⟩
  · cases read
    exact ⟨[_], rfl, .prefixWildcard _⟩
  · obtain ⟨⟨test, tokens₁, short₁⟩, read₁, read⟩ := bind_ok read
    cases read
    obtain ⟨used, rfl, test⟩ := explains_nodeTypeTest _ read₁
    exact ⟨_ :: used, rfl, test⟩
  · cases read

theorem explains_testOnAxis (inner : Explains (.level ladder) nested) (axis : Axis) :
    Explains (.tested axis) (testOnAxis nested axis) := by
  intro tokens value rest shorter read
  obtain ⟨⟨test, tokens₁, short₁⟩, read₁, read⟩ := bind_ok read
  obtain ⟨⟨conditions, tokens₂, short₂⟩, read₂, read⟩ := bind_ok read
  cases read
  obtain ⟨front, rfl, tests⟩ := explains_nodeTest _ _ _ _ read₁
  obtain ⟨back, rfl, filters⟩ := explains_predicates inner _ _ _ _ read₂
  exact ⟨front ++ back, by simp, by simpa using Derives.tested tests filters⟩

theorem explains_step (inner : Explains (.level ladder) nested) :
    Explains .step (step nested) := by
  intro tokens value rest shorter read
  unfold step at read
  split at read
  · cases read
    exact ⟨[_], rfl, .dot⟩
  · cases read
    exact ⟨[_], rfl, .dotDot⟩
  · obtain ⟨⟨value, tokens₁, short₁⟩, read₁, read⟩ := bind_ok read
    cases read
    obtain ⟨used, rfl, tests⟩ := explains_testOnAxis inner _ _ _ _ _ read₁
    exact ⟨_ :: used, rfl, .attributeTest tests⟩
  · split at read
    · cases read
    · rename_i known
      obtain ⟨⟨_, tokens₁, short₁⟩, read₁, read⟩ := bind_ok read
      obtain ⟨⟨value, tokens₂, short₂⟩, read₂, read⟩ := bind_ok read
      cases read
      obtain ⟨colons, rfl⟩ := expect_ok read₁
      obtain ⟨used, rfl, tests⟩ := explains_testOnAxis inner _ _ _ _ _ read₂
      exact ⟨_ :: _ :: used, rfl, .axis (ofName?_eq_some_iff.mp known) tests⟩
  · obtain ⟨used, same, tests⟩ := explains_testOnAxis inner _ _ _ _ _ read
    exact ⟨used, same, .child tests⟩

theorem explains_furtherSteps (inner : Explains (.level ladder) nested) :
    Explains .further (furtherSteps nested) := by
  intro tokens value rest shorter read
  fun_induction furtherSteps nested tokens generalizing value with
  | case1 position tokens ih =>
    obtain ⟨⟨first, tokens₁, short₁⟩, read₁, read⟩ := bind_ok read
    obtain ⟨⟨others, tokens₂, short₂⟩, read₂, read⟩ := bind_ok read
    cases read
    obtain ⟨front, rfl, step⟩ := explains_step inner _ _ _ _ read₁
    obtain ⟨back, rfl, more⟩ := ih _ short₁ _ _ read₂
    exact ⟨⟨.slash, position⟩ :: (front ++ back), by simp,
      by simpa using Derives.slash (.relative step more)⟩
  | case2 position tokens ih =>
    obtain ⟨⟨first, tokens₁, short₁⟩, read₁, read⟩ := bind_ok read
    obtain ⟨⟨others, tokens₂, short₂⟩, read₂, read⟩ := bind_ok read
    cases read
    obtain ⟨front, rfl, step⟩ := explains_step inner _ _ _ _ read₁
    obtain ⟨back, rfl, more⟩ := ih _ short₁ _ _ read₂
    exact ⟨⟨.doubleSlash, position⟩ :: (front ++ back), by simp,
      by simpa using Derives.anyDepth (.relative step more)⟩
  | case3 tokens =>
    cases read
    exact ⟨[], rfl, .noSteps⟩

theorem explains_relativePath (inner : Explains (.level ladder) nested) :
    Explains .relative (relativePath nested) := by
  intro tokens value rest shorter read
  obtain ⟨⟨first, tokens₁, short₁⟩, read₁, read⟩ := bind_ok read
  obtain ⟨⟨others, tokens₂, short₂⟩, read₂, read⟩ := bind_ok read
  cases read
  obtain ⟨front, rfl, step⟩ := explains_step inner _ _ _ _ read₁
  obtain ⟨back, rfl, more⟩ := explains_furtherSteps inner _ _ _ _ read₂
  exact ⟨front ++ back, by simp, by simpa using Derives.relative step more⟩

/-- The reader of arguments takes the closing parenthesis too. -/
theorem someArguments_ok (inner : Explains (.level ladder) nested) {tokens rest : List Located}
    {values : List Expr} {shorter : rest.length < tokens.length}
    (read : someArguments nested tokens = .ok ⟨values, rest, shorter⟩) :
    ∃ used closing, tokens = used ++ ⟨.rightParen, closing⟩ :: rest ∧
      Derives (.arguments values) (used.map (·.token)) := by
  induction size : tokens.length using Nat.strongRecOn generalizing tokens values with
  | ind length ih =>
    rw [someArguments] at read
    obtain ⟨⟨first, tokens₁, short₁⟩, read₁, read⟩ := bind_ok read
    obtain ⟨front, rfl, first⟩ := inner _ _ _ _ read₁
    simp only at read
    split at read
    · cases read
      exact ⟨front, _, rfl, .lastArgument first⟩
    · obtain ⟨⟨_, tokens₂, short₂⟩, read₂, read⟩ := bind_ok read
      obtain ⟨⟨others, tokens₃, short₃⟩, read₃, read⟩ := bind_ok read
      cases read
      obtain ⟨comma, rfl⟩ := expect_ok read₂
      have fewer : tokens₂.length < length := by
        simp only [← size, List.length_append, List.length_cons]
        omega
      obtain ⟨back, closing, same, more⟩ := ih _ fewer read₃ rfl
      simp only at same
      subst same
      exact ⟨front ++ ⟨.comma, comma⟩ :: back, closing, by simp,
        by simpa using Derives.argument first more⟩

theorem explains_primary (inner : Explains (.level ladder) nested) :
    Explains .primary (primary nested) := by
  intro tokens value rest shorter read
  unfold primary at read
  split at read
  · cases read
    exact ⟨[_], rfl, .reference _⟩
  · cases read
    exact ⟨[_], rfl, .literal _⟩
  · cases read
    exact ⟨[_], rfl, .number _⟩
  · obtain ⟨⟨value, tokens₁, short₁⟩, read₁, read⟩ := bind_ok read
    obtain ⟨⟨_, tokens₂, short₂⟩, read₂, read⟩ := bind_ok read
    cases read
    obtain ⟨used, rfl, inside⟩ := inner _ _ _ _ read₁
    obtain ⟨closing, rfl⟩ := expect_ok read₂
    exact ⟨_ :: (used ++ [⟨.rightParen, closing⟩]),
      by rw [List.cons_append, List.append_assoc]; rfl, by simpa using Derives.group inside⟩
  · obtain ⟨⟨values, tokens₁, short₁⟩, read₁, read⟩ := bind_ok read
    cases read
    obtain ⟨⟨_, tokens₂, short₂⟩, read₂, read⟩ := bind_ok read₁
    obtain ⟨opening, rfl⟩ := expect_ok read₂
    simp only at read
    split at read
    · cases read
      exact ⟨[_, _, _], rfl, .callNothing _⟩
    · obtain ⟨⟨values, tokens₃, short₃⟩, read₃, read⟩ := bind_ok read
      cases read
      obtain ⟨used, closing, rfl, inside⟩ := someArguments_ok inner read₃
      exact ⟨_ :: _ :: (used ++ [⟨.rightParen, closing⟩]),
        by rw [List.cons_append, List.cons_append, List.append_assoc]; rfl,
        by simpa using Derives.call inside⟩
  · cases read

theorem explains_filterPath (inner : Explains (.level ladder) nested) :
    Explains .path (filterPath nested) := by
  intro tokens value rest shorter read
  obtain ⟨⟨start, tokens₁, short₁⟩, read₁, read⟩ := bind_ok read
  obtain ⟨⟨conditions, tokens₂, short₂⟩, read₂, read⟩ := bind_ok read
  obtain ⟨⟨steps, tokens₃, short₃⟩, read₃, read⟩ := bind_ok read
  cases read
  obtain ⟨front, rfl, start⟩ := explains_primary inner _ _ _ _ read₁
  obtain ⟨middle, rfl, filters⟩ := explains_predicates inner _ _ _ _ read₂
  obtain ⟨back, rfl, more⟩ := explains_furtherSteps inner _ _ _ _ read₃
  refine ⟨front ++ middle ++ back, by simp, ?_⟩
  rw [List.map_append, List.map_append]
  exact .filter start filters more

theorem explains_pathOrFilter (inner : Explains (.level ladder) nested) :
    Explains .path (pathOrFilter nested) := by
  intro tokens value rest shorter read
  unfold pathOrFilter at read
  split at read
  · split at read
    · obtain ⟨⟨steps, tokens₁, short₁⟩, read₁, read⟩ := bind_ok read
      cases read
      obtain ⟨used, rfl, path⟩ := explains_relativePath inner _ _ _ _ read₁
      exact ⟨_ :: used, rfl, .rootSteps path⟩
    · cases read
      exact ⟨[_], rfl, .root⟩
  · obtain ⟨⟨steps, tokens₁, short₁⟩, read₁, read⟩ := bind_ok read
    cases read
    obtain ⟨used, rfl, path⟩ := explains_relativePath inner _ _ _ _ read₁
    exact ⟨_ :: used, rfl, .anyDepthSteps path⟩
  · split at read
    · obtain ⟨⟨steps, tokens₁, short₁⟩, read₁, read⟩ := bind_ok read
      cases read
      obtain ⟨used, rfl, path⟩ := explains_relativePath inner _ _ _ _ read₁
      exact ⟨used, rfl, .steps path⟩
    · exact explains_filterPath inner _ _ _ _ read

end Steps

section Levels

variable {rungs : List Rung} {operand : Nat → Reader Expr}

/-- The operands behind the first one of a chain, for which there are tokens already. -/
theorem chainTail_ok {level : Level} (lower : ∀ room, Explains (.level rungs) (operand room))
    {room : Nat} {left value : Expr} {tokens rest : List Located}
    {shorter : rest.length < tokens.length + 1} {front : List Token}
    (before : Derives (.level (.binary level :: rungs) left) front)
    (read : chainTail level operand left room tokens = .ok ⟨value, rest, shorter⟩) :
    ∃ used, tokens = used ++ rest ∧
      Derives (.level (.binary level :: rungs) value) (front ++ used.map (·.token)) := by
  fun_induction chainTail level operand left room tokens generalizing front with
  | case1 left room =>
    cases read
    exact ⟨[], rfl, by simpa using before⟩
  | case2 left room found tokens stops =>
    cases read
    exact ⟨[], rfl, by simpa using before⟩
  | case3 => cases read
  | case4 left found tokens join room joins ih =>
    obtain ⟨⟨right, tokens₁, short₁⟩, read₁, read⟩ := bind_ok read
    obtain ⟨⟨whole, tokens₂, short₂⟩, read₂, read⟩ := bind_ok read
    cases read
    obtain ⟨middle, rfl, right⟩ := lower _ _ _ _ _ read₁
    obtain ⟨back, rfl, whole⟩ := ih _ _ (.join joins before right) read₂
    exact ⟨found :: (middle ++ back), by simp, by simpa using whole⟩

theorem explains_chain {level : Level} (lower : ∀ room, Explains (.level rungs) (operand room))
    (room : Nat) : Explains (.level (.binary level :: rungs)) (chain level operand room) := by
  intro tokens value rest shorter read
  obtain ⟨⟨first, tokens₁, short₁⟩, read₁, read⟩ := bind_ok read
  obtain ⟨⟨whole, tokens₂, short₂⟩, read₂, read⟩ := bind_ok read
  cases read
  obtain ⟨front, rfl, first⟩ := lower _ _ _ _ _ read₁
  obtain ⟨back, rfl, whole⟩ := chainTail_ok lower (.handOn first) read₂
  exact ⟨front ++ back, by simp, by simpa using whole⟩

theorem explains_descend {phrase : Expr → Phrase} (lower : ∀ room, Explains phrase (operand room))
    (room : Nat) : Explains phrase (descend operand room) := by
  intro tokens value rest shorter read
  cases room with
  | zero => cases read
  | succ room => exact lower room _ _ _ _ read

theorem explains_signed (lower : ∀ room, Explains (.level rungs) (operand room)) (room : Nat) :
    Explains (.level (.sign :: rungs)) (signed operand room) := by
  intro tokens value rest shorter read
  unfold signed at read
  simp only at read
  split at read
  · obtain ⟨used, rfl, value⟩ := lower _ _ _ _ _ read
    exact ⟨used, rfl, .handOn value⟩
  · rename_i some
    obtain ⟨⟨inner, tokens₁, short₁⟩, read₁, read⟩ := bind_ok read
    cases read
    obtain ⟨used, same, operand⟩ := explains_descend lower _ _ _ _ _ read₁
    have whole : tokens.takeWhile (·.token = .minus) ++ (used ++ tokens₁) = tokens := by
      rw [← same, List.takeWhile_append_dropWhile]
    have minus : ∀ sign ∈ tokens.takeWhile (·.token = .minus), sign.token = .minus :=
      fun sign member => by
        simpa using List.all_eq_true.mp List.all_takeWhile sign member
    generalize tokens.takeWhile (·.token = .minus) = signs at *
    obtain ⟨first, others, rfl⟩ := List.exists_cons_of_ne_nil (by simpa using some)
    refine ⟨first :: others ++ used, by simpa using whole.symm, ?_⟩
    have signs : (first :: others).map (·.token) = List.replicate (others.length + 1) .minus :=
      List.eq_replicate_iff.mpr ⟨by simp, by simpa using minus⟩
    rw [List.map_append, signs]
    exact .signs others.length operand

theorem explains_climb {nested : Nat → Reader Expr}
    (inner : ∀ room, Explains (.level ladder) (nested room)) (rungs : List Rung) (room : Nat) :
    Explains (.level rungs) (climb rungs nested room) := by
  induction rungs generalizing room with
  | nil =>
    intro tokens value rest shorter read
    obtain ⟨used, same, path⟩ := explains_pathOrFilter (inner room) _ _ _ _ read
    exact ⟨used, same, .ground path⟩
  | cons rung rungs ih =>
    cases rung with
    | sign => exact explains_signed ih room
    | binary level => exact explains_chain ih room

theorem explains_expression (layers room : Nat) :
    Explains (.level ladder) (expression layers room) := by
  induction layers generalizing room with
  | zero =>
    intro tokens value rest shorter read
    cases read
  | succ layers ih =>
    rw [expression_succ]
    exact explains_climb (explains_descend ih) ladder room

end Levels

/-- What is read is what the tokens of the text are read as, to their end. -/
theorem parse_ok {text : Text} {expr : Expr} (read : parse text = .ok expr) :
    ∃ located shorter, tokenize text = .ok located ∧
      expression (maxDepth + 1) maxDepth located = .ok ⟨expr, [], shorter⟩ := by
  obtain ⟨located, scanned, read⟩ := bind_ok read
  simp only [bind, Except.bind] at read
  split at read
  · cases read
  · split at read
    · cases read
    · rename_i parsed came
      obtain ⟨value, rest, shorter⟩ := parsed
      split at read
      · rename_i none
        cases read
        cases none
        exact ⟨located, shorter, scanned, mapError_ok came⟩
      · cases read

/-- The tokens of a text that is read as an expression derive the expression. -/
theorem parse_derives {text : Text} {expr : Expr} (read : parse text = .ok expr) :
    ∃ located, tokenize text = .ok located ∧
      Derives (.level ladder expr) (located.map (·.token)) := by
  obtain ⟨located, shorter, scanned, read⟩ := parse_ok read
  obtain ⟨used, rfl, whole⟩ := explains_expression _ _ _ _ _ _ read
  exact ⟨_, scanned, by simpa using whole⟩

end XmlSelect.XPath
