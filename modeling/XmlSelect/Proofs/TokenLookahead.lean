import XmlSelect.Proofs.ExpressionReading

/-! How far the readers of expressions look ahead. What they come to depends on the tokens that they
take and on the next one; whatever stands behind that one can be replaced. -/
namespace XmlSelect.XPath

/-- The value or the fault that a reader comes to, and the tokens from where it stopped on. -/
abbrev Outcome (α : Type) := Except (Option Token → SyntaxFault) α × List Located

/-- The outcome of reading, without the count of the tokens that are left. -/
def outcome {α : Type} {bound : Nat} : Except Stuck (Parsed bound α) → Outcome α
  | .ok parsed => (.ok parsed.value, parsed.rest)
  | .error stuck => (.error stuck.fault, stuck.rest)

/-- A reader as the outcomes that it comes to. -/
abbrev Run (α : Type) := List Located → Outcome α

namespace Run

variable {α β : Type}

/-- What a reader comes to from each list of tokens. -/
def of {bound : List Located → Nat}
    (reader : (tokens : List Located) → Except Stuck (Parsed (bound tokens) α)) : Run α :=
  fun tokens => outcome (reader tokens)

/-- Stops at once. -/
def stop (answer : Except (Option Token → SyntaxFault) α) : Run α := fun tokens => (answer, tokens)

/-- Goes on with another run where the first one has stopped, unless that is stuck. -/
def bind (run : Run α) (next : α → Run β) : Run β := fun tokens =>
  match run tokens with
  | (.ok value, rest) => next value rest
  | (.error fault, rest) => (.error fault, rest)

theorem of_ok {bound : List Located → Nat}
    {reader : (tokens : List Located) → Except Stuck (Parsed (bound tokens) α)}
    {tokens rest : List Located} {value : α} (came : of reader tokens = (.ok value, rest)) :
    ∃ shorter, reader tokens = .ok ⟨value, rest, shorter⟩ := by
  unfold of at came
  cases read : reader tokens with
  | error stuck =>
    rw [read] at came
    cases came
  | ok parsed =>
    rw [read] at came
    cases came
    exact ⟨parsed.shorter, rfl⟩

/-- One reader behind another one. -/
theorem outcome_bind {bound bound' : Nat} {first : Except Stuck (Parsed bound α)}
    {next : Parsed bound α → Except Stuck (Parsed bound' β)} {run : Run α} {more : α → Run β}
    {tokens : List Located} (same : outcome first = run tokens)
    (each : ∀ value rest shorter, outcome (next ⟨value, rest, shorter⟩) = more value rest) :
    outcome (first >>= next) = run.bind more tokens := by
  unfold bind
  rw [← same]
  cases first with
  | error stuck => rfl
  | ok parsed => exact each parsed.value parsed.rest parsed.shorter

end Run

/-- The run from some tokens takes some of them. It does the same in front of other tokens that
start with the same one. -/
def PeeksAt {α : Type} (run : Run α) (tokens : List Located) : Prop :=
  ∃ front, tokens = front ++ (run tokens).2 ∧
    ∀ rest, rest.head? = (run tokens).2.head? → run (front ++ rest) = ((run tokens).1, rest)

/-- The reader looks no further ahead than to the next token. -/
def Peeks {α : Type} {bound : List Located → Nat}
    (reader : (tokens : List Located) → Except Stuck (Parsed (bound tokens) α)) : Prop :=
  ∀ tokens, PeeksAt (.of reader) tokens

theorem head?_append_congr {front rest rest' : List Located} (same : rest'.head? = rest.head?) :
    (front ++ rest').head? = (front ++ rest).head? := by
  rw [List.head?_append, List.head?_append, same]

namespace PeeksAt

variable {α β : Type} {run run' : Run α} {more : α → Run β} {tokens : List Located}
  {found : Located}

theorem stop (answer : Except (Option Token → SyntaxFault) α) (tokens : List Located) :
    PeeksAt (.stop answer) tokens := ⟨[], rfl, fun _ _ => rfl⟩

theorem bind (first : PeeksAt run tokens)
    (next : ∀ value rest, run tokens = (.ok value, rest) → PeeksAt (more value) rest) :
    PeeksAt (run.bind more) tokens := by
  obtain ⟨front, same, again⟩ := first
  rcases came : run tokens with ⟨fault | value, rest⟩ <;> rw [came] at same again
  · have whole : run.bind more tokens = (.error fault, rest) := by simp [Run.bind, came]
    unfold PeeksAt
    rw [whole]
    refine ⟨front, same, fun rest' head => ?_⟩
    simp [Run.bind, again rest' head]
  · obtain ⟨front', same', again'⟩ := next value rest came
    have whole : run.bind more tokens = more value rest := by simp [Run.bind, came]
    unfold PeeksAt
    rw [whole]
    refine ⟨front ++ front', by rw [List.append_assoc, ← same', same], fun rest' head => ?_⟩
    have behind : (front' ++ rest').head? = rest.head? := by rw [head?_append_congr head, ← same']
    rw [List.append_assoc, Run.bind, again _ behind]
    exact again' rest' head

/-- Some tokens are taken, then another run goes on. What is done may depend on the next token. -/
theorem append {front : List Located} (on : PeeksAt run' tokens)
    (same : ∀ others, others.head? = tokens.head? → run (front ++ others) = run' others) :
    PeeksAt run (front ++ tokens) := by
  obtain ⟨used, split, again⟩ := on
  have here := same tokens rfl
  rw [← here] at split again
  refine ⟨front ++ used, by rw [List.append_assoc, ← split], fun rest head => ?_⟩
  have first : (used ++ rest).head? = tokens.head? := by rw [head?_append_congr head, ← split]
  rw [List.append_assoc, same _ first]
  exact again rest head

theorem cons (behind : PeeksAt run' tokens)
    (same : ∀ tokens, run (found :: tokens) = run' tokens) : PeeksAt run (found :: tokens) :=
  @append _ _ _ _ [found] behind fun others _ => same others

theorem hand (on : PeeksAt run' tokens)
    (same : ∀ others, others.head? = tokens.head? → run others = run' others) :
    PeeksAt run tokens :=
  @append _ _ _ _ [] on same

theorem hand_cons (on : PeeksAt run' (found :: tokens))
    (same : ∀ others, run (found :: others) = run' (found :: others)) :
    PeeksAt run (found :: tokens) := by
  refine .hand on fun others head => ?_
  obtain ⟨behind, rfl⟩ := List.head?_eq_some_iff.mp head
  exact same behind

theorem nil (none : (run []).2 = []) : PeeksAt run [] := by
  refine ⟨[], none.symm, fun rest head => ?_⟩
  rw [none] at head
  obtain rfl := List.head?_eq_none_iff.mp head
  exact Prod.ext rfl none

end PeeksAt

theorem Peeks.bind {α β : Type} {bound : List Located → Nat}
    {reader : (tokens : List Located) → Except Stuck (Parsed (bound tokens) α)}
    {more : α → Run β} (first : Peeks reader) (next : ∀ value tokens, PeeksAt (more value) tokens)
    (tokens : List Located) : PeeksAt ((Run.of reader).bind more) tokens :=
  (first tokens).bind fun value rest _ => next value rest

section Steps

variable {nested : Reader Expr}

theorem peeks_expect (wanted : Token) : Peeks (expect wanted) := by
  rintro (_ | ⟨found, tokens⟩)
  · exact .nil rfl
  · by_cases same : found.token = wanted
    · refine .cons (.stop (.ok ()) _) fun _ => ?_
      simp only [Run.of, expect, if_pos same]
      rfl
    · refine .hand_cons (.stop (.error (.expected wanted)) _) fun _ => ?_
      simp only [Run.of, expect, if_neg same]
      rfl

/-- The closing parenthesis of a test for a kind of node, with the target of an instruction in front
of it. -/
def closingTest (type : NodeType) : Run NodeTest := fun tokens =>
  match tokens, type with
  | ⟨.literal target, _⟩ :: tokens, .instruction =>
    ((Run.of (expect .rightParen)).bind fun _ => .stop (.ok (.instruction (some target)))) tokens
  | tokens, type => ((Run.of (expect .rightParen)).bind fun _ => .stop (.ok type.test)) tokens

theorem peeksAt_closingTest (type : NodeType) (tokens : List Located) :
    PeeksAt (closingTest type) tokens := by
  have closes (test : NodeTest) (tokens : List Located) :
      PeeksAt ((Run.of (expect .rightParen)).bind fun _ => .stop (.ok test)) tokens :=
    (peeks_expect _).bind (fun _ => .stop _) tokens
  rcases tokens with _ | ⟨⟨token, position⟩, tokens⟩
  · exact .nil rfl
  · cases token with
    | literal target =>
      cases type with
      | comment => exact .hand_cons (closes .comment _) fun _ => rfl
      | text => exact .hand_cons (closes .text _) fun _ => rfl
      | instruction => exact .cons (closes (.instruction (some target)) _) fun _ => rfl
      | node => exact .hand_cons (closes .node _) fun _ => rfl
    | _ => exact .hand_cons (closes type.test _) fun _ => rfl

theorem peeks_nodeTypeTest (type : NodeType) : Peeks (nodeTypeTest type) := by
  intro tokens
  have shape : Run.of (nodeTypeTest type) =
      (Run.of (expect .leftParen)).bind fun _ => closingTest type := by
    refine funext fun tokens => Run.outcome_bind rfl fun _ rest _ => ?_
    rcases rest with _ | ⟨⟨token, position⟩, rest⟩
    · rfl
    · cases token with
      | literal target =>
        cases type <;> (dsimp only [closingTest]; exact Run.outcome_bind rfl fun _ _ _ => rfl)
      | _ => dsimp only [closingTest]; exact Run.outcome_bind rfl fun _ _ _ => rfl
  rw [shape]
  exact (peeks_expect _).bind (fun _ => peeksAt_closingTest type) tokens

theorem peeks_nodeTest : Peeks nodeTest := by
  rintro (_ | ⟨⟨token, position⟩, tokens⟩)
  · exact .nil rfl
  · cases token with
    | star => exact .cons (.stop (.ok .wildcard) _) fun _ => rfl
    | nameTest name => exact .cons (.stop (.ok (.name name)) _) fun _ => rfl
    | prefixWildcard space => exact .cons (.stop (.ok (.prefixWildcard space)) _) fun _ => rfl
    | nodeType type =>
      exact .cons ((peeks_nodeTypeTest type).bind (fun _ => .stop (.ok _)) tokens) fun _ =>
        Run.outcome_bind rfl fun _ _ _ => rfl
    | _ => exact .hand_cons (.stop (.error .expectedNodeTest) _) fun _ => rfl

theorem peeks_predicates (inner : Peeks nested) : Peeks (predicates nested) := by
  intro tokens
  induction size : tokens.length using Nat.strongRecOn generalizing tokens with
  | ind length ih =>
    rcases tokens with _ | ⟨⟨token, position⟩, tokens⟩
    · exact .nil (by simp [Run.of, predicates, outcome])
    · cases token with
      | leftBracket =>
        have behind : PeeksAt ((Run.of nested).bind fun first =>
            (Run.of (expect .rightBracket)).bind fun _ =>
              (Run.of (predicates nested)).bind fun others => .stop (.ok (first :: others)))
            tokens := by
          refine (inner tokens).bind fun _ rest came => ?_
          refine (peeks_expect _ rest).bind fun _ rest' came' => ?_
          obtain ⟨shorter, -⟩ := Run.of_ok came
          obtain ⟨shorter', -⟩ := Run.of_ok came'
          refine (ih rest'.length ?_ rest' rfl).bind fun _ _ _ => .stop _ _
          rw [← size, List.length_cons]
          omega
        refine .cons behind fun tokens => ?_
        rw [Run.of, predicates]
        exact Run.outcome_bind rfl fun _ _ _ => Run.outcome_bind rfl fun _ _ _ =>
          Run.outcome_bind rfl fun _ _ _ => rfl
      | _ =>
        refine .hand_cons (.stop (.ok []) _) fun _ => ?_
        simp [Run.of, predicates, outcome, Run.stop]

theorem peeks_testOnAxis (inner : Peeks nested) (axis : Axis) : Peeks (testOnAxis nested axis) := by
  intro tokens
  have shape : Run.of (testOnAxis nested axis) = (Run.of nodeTest).bind fun test =>
      (Run.of (predicates nested)).bind fun conditions => .stop (.ok (.mk axis test conditions)) :=
    funext fun _ => Run.outcome_bind rfl fun _ _ _ => Run.outcome_bind rfl fun _ _ _ => rfl
  rw [shape]
  exact peeks_nodeTest.bind (fun _ => (peeks_predicates inner).bind fun _ => .stop _) tokens

theorem peeks_step (inner : Peeks nested) : Peeks (step nested) := by
  have tests := peeks_testOnAxis inner
  rintro (_ | ⟨⟨token, position⟩, tokens⟩)
  · exact .nil rfl
  · cases token with
    | dot => exact .cons (.stop (.ok (.mk .self .node [])) _) fun _ => rfl
    | dotDot => exact .cons (.stop (.ok (.mk .parent .node [])) _) fun _ => rfl
    | atSign =>
      exact .cons ((tests .attributes).bind (fun _ => .stop (.ok _)) tokens) fun _ =>
        Run.outcome_bind rfl fun _ _ _ => rfl
    | axis name =>
      cases known : Axis.ofName? name with
      | none =>
        refine .hand_cons (.stop (.error fun _ => .unknownAxis name) _) fun _ => ?_
        simp [Run.of, step, known, outcome, Run.stop]
      | some axis =>
        have behind : PeeksAt ((Run.of (expect .colonColon)).bind fun _ =>
            (Run.of (testOnAxis nested axis)).bind fun read => .stop (.ok read)) tokens :=
          (peeks_expect _).bind (fun _ => (tests axis).bind fun _ => .stop _) tokens
        refine .cons behind fun _ => ?_
        simp only [Run.of, step, known]
        exact Run.outcome_bind rfl fun _ _ _ => Run.outcome_bind rfl fun _ _ _ => rfl
    | _ => exact .hand_cons (tests .child _) fun _ => rfl

theorem peeks_furtherSteps (inner : Peeks nested) : Peeks (furtherSteps nested) := by
  intro tokens
  induction size : tokens.length using Nat.strongRecOn generalizing tokens with
  | ind length ih =>
    rcases tokens with _ | ⟨slash, tokens⟩
    · exact .nil (by simp [Run.of, furtherSteps, outcome])
    · have steps (add : Step → List Step → List Step) :
          PeeksAt ((Run.of (step nested)).bind fun first =>
            (Run.of (furtherSteps nested)).bind fun others => .stop (.ok (add first others)))
            tokens := by
        refine (peeks_step inner tokens).bind fun _ rest came => ?_
        obtain ⟨shorter, -⟩ := Run.of_ok came
        refine (ih rest.length ?_ rest rfl).bind fun _ _ _ => .stop _ _
        rw [← size, List.length_cons]
        omega
      obtain ⟨token, position⟩ := slash
      cases token with
      | slash =>
        refine .cons (steps fun first others => first :: others) fun tokens => ?_
        rw [Run.of, furtherSteps]
        exact Run.outcome_bind rfl fun _ _ _ => Run.outcome_bind rfl fun _ _ _ => rfl
      | doubleSlash =>
        refine .cons (steps fun first others => .anyDepth :: first :: others) fun tokens => ?_
        rw [Run.of, furtherSteps]
        exact Run.outcome_bind rfl fun _ _ _ => Run.outcome_bind rfl fun _ _ _ => rfl
      | _ =>
        refine .hand_cons (.stop (.ok []) _) fun _ => ?_
        simp [Run.of, furtherSteps, outcome, Run.stop]

theorem peeks_relativePath (inner : Peeks nested) : Peeks (relativePath nested) := by
  intro tokens
  have shape : Run.of (relativePath nested) = (Run.of (step nested)).bind fun first =>
      (Run.of (furtherSteps nested)).bind fun others => .stop (.ok (first :: others)) :=
    funext fun _ => Run.outcome_bind rfl fun _ _ _ => Run.outcome_bind rfl fun _ _ _ => rfl
  rw [shape]
  exact (peeks_step inner).bind (fun _ => (peeks_furtherSteps inner).bind fun _ => .stop _) tokens

/-- What stands behind an argument: the closing parenthesis, or a comma and further arguments. -/
def behindArgument (nested : Reader Expr) (first : Expr) : Run (List Expr)
  | ⟨.rightParen, _⟩ :: tokens => (.ok [first], tokens)
  | tokens => ((Run.of (expect .comma)).bind fun _ =>
    (Run.of (someArguments nested)).bind fun others => .stop (.ok (first :: others))) tokens

theorem run_someArguments (nested : Reader Expr) :
    Run.of (someArguments nested) = (Run.of nested).bind (behindArgument nested) := by
  funext tokens
  rw [Run.of, someArguments]
  refine Run.outcome_bind rfl fun first rest _ => ?_
  rcases rest with _ | ⟨⟨token, position⟩, rest⟩
  · rfl
  · cases token with
    | rightParen => rfl
    | _ =>
      dsimp only [behindArgument]
      exact Run.outcome_bind rfl fun _ _ _ => Run.outcome_bind rfl fun _ _ _ => rfl

theorem peeks_someArguments (inner : Peeks nested) : Peeks (someArguments nested) := by
  intro tokens
  induction size : tokens.length using Nat.strongRecOn generalizing tokens with
  | ind length ih =>
    rw [run_someArguments]
    refine (inner tokens).bind fun first rest came => ?_
    obtain ⟨shorter, -⟩ := Run.of_ok came
    have further : PeeksAt ((Run.of (expect .comma)).bind fun _ =>
        (Run.of (someArguments nested)).bind fun others => .stop (.ok (first :: others))) rest := by
      refine (peeks_expect _ rest).bind fun _ rest' came' => ?_
      obtain ⟨shorter', -⟩ := Run.of_ok came'
      refine (ih rest'.length ?_ rest' rfl).bind fun _ _ _ => .stop _ _
      rw [← size]
      omega
    rcases rest with _ | ⟨⟨token, position⟩, rest⟩
    · exact .nil rfl
    · cases token with
      | rightParen => exact .cons (.stop (.ok [first]) _) fun _ => rfl
      | _ => exact .hand_cons further fun _ => rfl

/-- What stands behind the opening parenthesis of a call. -/
def behindOpening (nested : Reader Expr) : Run (List Expr)
  | ⟨.rightParen, _⟩ :: tokens => (.ok [], tokens)
  | tokens => ((Run.of (someArguments nested)).bind fun arguments => .stop (.ok arguments)) tokens

theorem peeks_callArguments (inner : Peeks nested) : Peeks (callArguments nested) := by
  have shape : Run.of (callArguments nested) =
      (Run.of (expect .leftParen)).bind fun _ => behindOpening nested := by
    refine funext fun tokens => Run.outcome_bind rfl fun _ rest _ => ?_
    rcases rest with _ | ⟨⟨token, position⟩, rest⟩
    · exact Run.outcome_bind rfl fun _ _ _ => rfl
    · cases token with
      | rightParen => rfl
      | _ => dsimp only [behindOpening]; exact Run.outcome_bind rfl fun _ _ _ => rfl
  intro tokens
  rw [shape]
  refine (peeks_expect _).bind (fun _ rest => ?_) tokens
  have some : PeeksAt ((Run.of (someArguments nested)).bind fun arguments =>
      .stop (.ok arguments)) rest := (peeks_someArguments inner).bind (fun _ => .stop _) rest
  rcases rest with _ | ⟨⟨token, position⟩, rest⟩
  · exact .hand some fun others head => by rw [List.head?_eq_none_iff.mp head]; rfl
  · cases token with
    | rightParen => exact .cons (.stop (.ok []) _) fun _ => rfl
    | _ => exact .hand_cons some fun _ => rfl

theorem peeks_primary (inner : Peeks nested) : Peeks (primary nested) := by
  rintro (_ | ⟨⟨token, position⟩, tokens⟩)
  · exact .nil rfl
  · cases token with
    | reference name => exact .cons (.stop (.ok (.reference name)) _) fun _ => rfl
    | literal value => exact .cons (.stop (.ok (.literal value)) _) fun _ => rfl
    | number value => exact .cons (.stop (.ok (.number value)) _) fun _ => rfl
    | leftParen =>
      have behind : PeeksAt ((Run.of nested).bind fun inner =>
          (Run.of (expect .rightParen)).bind fun _ => .stop (.ok inner)) tokens :=
        inner.bind (fun _ => (peeks_expect _).bind fun _ => .stop _) tokens
      exact .cons behind fun _ =>
        Run.outcome_bind rfl fun _ _ _ => Run.outcome_bind rfl fun _ _ _ => rfl
    | function name =>
      have behind : PeeksAt ((Run.of (callArguments nested)).bind fun arguments =>
          .stop (.ok (Expr.call name arguments))) tokens :=
        (peeks_callArguments inner).bind (fun _ => .stop _) tokens
      exact .cons behind fun _ => Run.outcome_bind rfl fun _ _ _ => rfl
    | _ => exact .hand_cons (.stop (.error .expectedOperand) _) fun _ => rfl

theorem peeks_filterPath (inner : Peeks nested) : Peeks (filterPath nested) := by
  intro tokens
  have shape : Run.of (filterPath nested) = (Run.of (primary nested)).bind fun start =>
      (Run.of (predicates nested)).bind fun conditions =>
        (Run.of (furtherSteps nested)).bind fun steps =>
          .stop (.ok (
            let start := if conditions.isEmpty then start else .filter start conditions
            if steps.isEmpty then start else .filterPath start steps)) :=
    funext fun _ => Run.outcome_bind rfl fun _ _ _ => Run.outcome_bind rfl fun _ _ _ =>
      Run.outcome_bind rfl fun _ _ _ => rfl
  rw [shape]
  exact (peeks_primary inner).bind (fun _ => (peeks_predicates inner).bind fun _ =>
    (peeks_furtherSteps inner).bind fun _ => .stop _) tokens

/-- What stands behind a slash that starts a path. -/
def behindSlash (nested : Reader Expr) : Run Expr := fun tokens =>
  if tokens.head?.any (·.token.startsStep) then
    ((Run.of (relativePath nested)).bind fun steps => .stop (.ok (.rootPath steps))) tokens
  else (.ok (.rootPath []), tokens)

theorem peeksAt_behindSlash (inner : Peeks nested) (tokens : List Located) :
    PeeksAt (behindSlash nested) tokens := by
  by_cases starts : tokens.head?.any (·.token.startsStep) = true
  · have steps : PeeksAt ((Run.of (relativePath nested)).bind fun steps =>
        .stop (.ok (Expr.rootPath steps))) tokens :=
      (peeks_relativePath inner).bind (fun _ => .stop _) tokens
    refine .hand steps fun others head => ?_
    rw [behindSlash, head, if_pos starts]
  · refine .hand (.stop (.ok (.rootPath [])) _) fun others head => ?_
    rw [behindSlash, head, if_neg starts]
    rfl

theorem peeks_pathOrFilter (inner : Peeks nested) : Peeks (pathOrFilter nested) := by
  have steps (path : List Step → Expr) (tokens : List Located) :
      PeeksAt ((Run.of (relativePath nested)).bind fun steps => .stop (.ok (path steps))) tokens :=
    (peeks_relativePath inner).bind (fun _ => .stop _) tokens
  rintro (_ | ⟨⟨token, position⟩, tokens⟩)
  · exact .nil rfl
  · cases token with
    | slash =>
      refine .cons (peeksAt_behindSlash inner tokens) fun tokens => ?_
      simp only [Run.of, pathOrFilter, behindSlash]
      split
      · exact Run.outcome_bind rfl fun _ _ _ => rfl
      · rfl
    | doubleSlash =>
      exact .cons (steps (fun steps => .rootPath (.anyDepth :: steps)) tokens) fun _ =>
        Run.outcome_bind rfl fun _ _ _ => rfl
    | dot | dotDot | atSign | star | nameTest | prefixWildcard | axis | nodeType =>
      exact .hand_cons (steps .path _) fun _ => Run.outcome_bind rfl fun _ _ _ => rfl
    | _ => exact .hand_cons (peeks_filterPath inner _) fun _ => rfl

end Steps

section Levels

variable {operand : Nat → Reader Expr}

theorem peeks_chainTail {level : Level} (lower : ∀ room, Peeks (operand room)) (left : Expr)
    (room : Nat) : Peeks (chainTail level operand left room) := by
  have ends (left : Expr) (room : Nat) {found : Located} (none : level found.token = none)
      (tokens : List Located) :
      PeeksAt (.of (chainTail level operand left room)) (found :: tokens) := by
    refine .hand_cons (.stop (.ok left) _) fun _ => ?_
    simp [Run.of, chainTail, none, outcome, Run.stop]
  induction room generalizing left with
  | zero =>
    rintro (_ | ⟨found, tokens⟩)
    · exact .nil rfl
    · cases joins : level found.token with
      | none => exact ends left 0 joins tokens
      | some join =>
        refine .cons (.stop (.error fun _ => .tooDeep) _) fun _ => ?_
        simp [Run.of, chainTail, joins, outcome, Run.stop]
  | succ room ih =>
    rintro (_ | ⟨found, tokens⟩)
    · exact .nil rfl
    · cases joins : level found.token with
      | none => exact ends left (room + 1) joins tokens
      | some join =>
        have behind : PeeksAt ((Run.of (operand room)).bind fun right =>
            (Run.of (chainTail level operand (join left right) room)).bind fun whole =>
              .stop (.ok whole)) tokens :=
          (lower room).bind (fun _ => (ih _).bind fun _ => .stop _) tokens
        refine .cons behind fun _ => ?_
        conv => lhs; unfold Run.of chainTail
        simp only [joins]
        exact Run.outcome_bind rfl fun _ _ _ => Run.outcome_bind rfl fun _ _ _ => rfl

theorem peeks_chain {level : Level} (lower : ∀ room, Peeks (operand room)) (room : Nat) :
    Peeks (chain level operand room) := by
  intro tokens
  have shape : Run.of (chain level operand room) = (Run.of (operand room)).bind fun first =>
      (Run.of (chainTail level operand first room)).bind fun whole => .stop (.ok whole) :=
    funext fun _ => Run.outcome_bind rfl fun _ _ _ => Run.outcome_bind rfl fun _ _ _ => rfl
  rw [shape]
  exact (lower room).bind (fun _ => (peeks_chainTail lower _ _).bind fun _ => .stop _) tokens

theorem peeks_descend (lower : ∀ room, Peeks (operand room)) (room : Nat) :
    Peeks (descend operand room) := by
  cases room with
  | zero => exact .stop (.error fun _ => .tooDeep)
  | succ room => exact lower room

theorem peeks_signed (lower : ∀ room, Peeks (operand room)) (room : Nat) :
    Peeks (signed operand room) := by
  intro tokens
  let isMinus : Located → Bool := (·.token = .minus)
  have split : tokens.takeWhile isMinus ++ tokens.dropWhile isMinus = tokens :=
    List.takeWhile_append_dropWhile
  have minus : ∀ sign ∈ tokens.takeWhile isMinus, isMinus sign = true :=
    fun sign member => List.all_eq_true.mp List.all_takeWhile sign member
  have stops : ∀ found ∈ (tokens.dropWhile isMinus).head?, isMinus found = false := by
    intro found head
    have stops := List.head?_dropWhile_not isMinus tokens
    rw [Option.mem_def.mp head] at stops
    simpa using stops
  generalize tokens.takeWhile isMinus = signs at *
  generalize tokens.dropWhile isMinus = behind at *
  subst split
  -- the signs end at the same place in front of whatever starts with the same token
  have same (rest : List Located) (head : rest.head? = behind.head?) :
      (signs ++ rest).takeWhile isMinus = signs ∧ (signs ++ rest).dropWhile isMinus = rest := by
    rw [List.takeWhile_append_of_pos minus, List.dropWhile_append_of_pos minus]
    cases rest with
    | nil => simp
    | cons found rest => simp [stops found (by rw [← head]; rfl)]
  cases none : signs.isEmpty with
  | true =>
    refine .append (lower room behind) fun rest head => ?_
    simp only [Run.of, signed]
    rw [(same rest head).1, if_pos none]
    obtain rfl := List.isEmpty_iff.mp none
    rfl
  | false =>
    have negated : PeeksAt ((Run.of (descend operand room)).bind fun inner =>
        .stop (.ok (if signs.length % 2 == 0 then Expr.negate (.negate inner) else .negate inner)))
        behind :=
      (peeks_descend lower room).bind (fun _ => .stop _) behind
    refine .append negated fun rest head => ?_
    simp only [Run.of, signed]
    rw [if_neg (by rw [(same rest head).1, none]; exact Bool.false_ne_true)]
    refine Run.outcome_bind ?_ fun inner left _ => ?_
    · rw [(same rest head).2]
      rfl
    · rw [(same rest head).1]
      rfl

theorem peeks_climb {nested : Nat → Reader Expr} (inner : ∀ room, Peeks (nested room))
    (rungs : List Rung) (room : Nat) : Peeks (climb rungs nested room) := by
  induction rungs generalizing room with
  | nil => exact peeks_pathOrFilter (inner room)
  | cons rung rungs ih =>
    cases rung with
    | sign => exact peeks_signed ih room
    | binary level => exact peeks_chain ih room

/-- No reader of expressions looks further ahead than to the next token. -/
theorem peeks_expression (layers room : Nat) : Peeks (expression layers room) := by
  induction layers generalizing room with
  | zero => exact .stop (.error fun _ => .tooDeep)
  | succ layers ih =>
    rw [expression_succ]
    exact peeks_climb (peeks_descend ih) ladder room

end Levels

end XmlSelect.XPath
