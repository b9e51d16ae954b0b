import XmlSelect.Proofs.GrammarCompleteness
import XmlSelect.Proofs.TokenLookahead

/-! Where expressions are reported to be wrong. The tokens in front of that place can be completed
to an expression, and with the token at that place they cannot be completed any more. -/
namespace XmlSelect.XPath

/-- Reading stops at some place, and with some tokens behind them, the tokens in front of that place
make the phrase of some value. -/
def Halts {α : Type} (phrase : α → Phrase) (tokens : List Located) (stuck : Stuck) : Prop :=
  ∃ front, tokens = front ++ stuck.rest ∧
    ∃ value behind, Derives (phrase value) (front.map (·.token) ++ behind)

/-- Wherever the reader gets stuck, the tokens in front of that place can be completed. -/
def Viable {α : Type} {bound : List Located → Nat} (phrase : α → Phrase)
    (reader : (tokens : List Located) → Except Stuck (Parsed (bound tokens) α)) : Prop :=
  ∀ tokens stuck, reader tokens = .error stuck → Halts phrase tokens stuck

section Halting

variable {α β : Type} {phrase : α → Phrase} {outer : β → Phrase} {tokens whole : List Located}
  {stuck : Stuck}

theorem Halts.here {value : α} (front : List Located) (behind : List Token)
    (same : whole = front ++ stuck.rest)
    (derived : Derives (phrase value) (front.map (·.token) ++ behind)) :
    Halts phrase whole stuck := ⟨front, same, value, behind, derived⟩

/-- A phrase within another one. -/
theorem Halts.within (front : List Located) (behind : List Token)
    (halts : Halts phrase tokens stuck) (same : whole = front ++ tokens)
    (wrap : ∀ value inside, Derives (phrase value) inside →
      ∃ value, Derives (outer value) (front.map (·.token) ++ (inside ++ behind))) :
    Halts outer whole stuck := by
  obtain ⟨inside, rfl, value, rest, derived⟩ := halts
  obtain ⟨value, derived⟩ := wrap value _ derived
  refine ⟨front ++ inside, by rw [same, List.append_assoc], value, rest ++ behind, ?_⟩
  simpa using derived

/-- A phrase that is nothing but another one. -/
theorem Halts.only (halts : Halts phrase tokens stuck)
    (wrap : ∀ value inside, Derives (phrase value) inside → ∃ value, Derives (outer value) inside) :
    Halts outer tokens stuck := by
  obtain ⟨front, same, value, behind, derived⟩ := halts
  obtain ⟨value, derived⟩ := wrap value _ derived
  exact ⟨front, same, value, behind, derived⟩

end Halting

/-! A star alone is a phrase of each category for which something has to be there. -/

section Stars

theorem star_tested (axis : Axis) : Derives (.tested axis (.mk axis .wildcard [])) [.star] := by
  simpa using Derives.tested .star .noPredicates

theorem star_step : Derives (.step (.mk .child .wildcard [])) [.star] := .child (star_tested .child)

theorem star_relative : Derives (.relative [.mk .child .wildcard []]) [.star] := by
  simpa using Derives.relative star_step .noSteps

theorem star_path : Derives (.path (.path [.mk .child .wildcard []])) [.star] :=
  .steps star_relative

theorem Derives.climb {value : Expr} {tokens : List Token} (path : Derives (.path value) tokens)
    (rungs : List Rung) : Derives (.level rungs value) tokens := by
  induction rungs with
  | nil => exact .ground path
  | cons rung rungs ih => exact .handOn ih

end Stars

theorem expect_error {wanted : Token} {tokens : List Located} {stuck : Stuck}
    (failed : expect wanted tokens = .error stuck) : stuck.rest = tokens := by
  cases tokens with
  | nil =>
    cases failed
    rfl
  | cons found tokens =>
    rw [expect] at failed
    split at failed
    · cases failed
    · cases failed
      rfl

section Steps

variable {nested : Reader Expr}

theorem viable_predicates (inner : Explains (.level ladder) nested)
    (viable : Viable (.level ladder) nested) : Viable .predicates (predicates nested) := by
  intro tokens stuck failed
  fun_induction predicates nested tokens with
  | case1 position tokens ih =>
    rcases bind_error failed with failed | ⟨⟨first, tokens₁, short₁⟩, read₁, failed⟩
    · exact .within [⟨.leftBracket, position⟩] [.rightBracket] (viable _ _ failed) rfl
        fun first _ condition => ⟨[first], .predicate condition .noPredicates⟩
    obtain ⟨inside, rfl, condition⟩ := inner _ _ _ _ read₁
    rcases bind_error failed with failed | ⟨⟨_, tokens₂, short₂⟩, read₂, failed⟩
    · obtain rfl := expect_error failed
      exact .here (⟨.leftBracket, position⟩ :: inside) [.rightBracket] rfl
        (Derives.predicate condition .noPredicates)
    obtain ⟨closing, rfl⟩ := expect_ok read₂
    rcases bind_error failed with failed | ⟨_, _, ⟨⟩⟩
    exact .within (⟨.leftBracket, position⟩ :: inside ++ [⟨.rightBracket, closing⟩]) []
      (ih _ short₁ _ short₂ failed) (by simp)
      fun others _ more => ⟨first :: others, by simpa using Derives.predicate condition more⟩
  | case2 => cases failed

/-- The tokens behind that of the kind of node. -/
theorem viable_nodeTypeTest (type : NodeType) {tokens : List Located} {stuck : Stuck}
    (position : Nat) (failed : nodeTypeTest type tokens = .error stuck) :
    Halts .test (⟨.nodeType type, position⟩ :: tokens) stuck := by
  rcases bind_error failed with failed | ⟨⟨_, tokens₁, short₁⟩, read₁, failed⟩
  · obtain rfl := expect_error failed
    exact .here [_] [.leftParen, .rightParen] rfl (.nodeType (test_eq_iff.mp rfl))
  obtain ⟨opening, rfl⟩ := expect_ok read₁
  simp only at failed
  split at failed
  · rcases bind_error failed with failed | ⟨_, _, ⟨⟩⟩
    obtain rfl := expect_error failed
    exact .here [_, _, _] [.rightParen] rfl (.instruction _)
  · rcases bind_error failed with failed | ⟨_, _, ⟨⟩⟩
    obtain rfl := expect_error failed
    exact .here [_, _] [.rightParen] rfl (.nodeType (test_eq_iff.mp rfl))

theorem viable_nodeTest : Viable .test nodeTest := by
  intro tokens stuck failed
  unfold nodeTest at failed
  split at failed
  · cases failed
  · cases failed
  · cases failed
  · rcases bind_error failed with failed | ⟨_, _, ⟨⟩⟩
    exact viable_nodeTypeTest _ _ failed
  · cases failed
    exact .here [] [.star] rfl .star

theorem viable_testOnAxis (inner : Explains (.level ladder) nested)
    (viable : Viable (.level ladder) nested) (axis : Axis) :
    Viable (.tested axis) (testOnAxis nested axis) := by
  intro tokens stuck failed
  rcases bind_error failed with failed | ⟨⟨test, tokens₁, short₁⟩, read₁, failed⟩
  · exact .only (viable_nodeTest _ _ failed)
      fun test _ tests => ⟨.mk axis test [], by simpa using Derives.tested tests .noPredicates⟩
  obtain ⟨front, rfl, tests⟩ := explains_nodeTest _ _ _ _ read₁
  rcases bind_error failed with failed | ⟨_, _, ⟨⟩⟩
  exact .within front [] (viable_predicates inner viable _ _ failed) rfl
    fun conditions _ filters =>
      ⟨.mk axis test conditions, by simpa using Derives.tested tests filters⟩

theorem viable_step (inner : Explains (.level ladder) nested)
    (viable : Viable (.level ladder) nested) : Viable .step (step nested) := by
  have tests := viable_testOnAxis inner viable
  intro tokens stuck failed
  unfold step at failed
  split at failed
  · cases failed
  · cases failed
  · rcases bind_error failed with failed | ⟨_, _, ⟨⟩⟩
    exact .within [_] [] (tests _ _ _ failed) rfl
      fun value _ tests => ⟨value, by simpa using .attributeTest tests⟩
  · split at failed
    · cases failed
      exact .here [] [.star] rfl star_step
    · rename_i axis known
      have named := ofName?_eq_some_iff.mp known
      rcases bind_error failed with failed | ⟨⟨_, tokens₁, short₁⟩, read₁, failed⟩
      · obtain rfl := expect_error failed
        exact .here [_] [.colonColon, .star] rfl (.axis named (star_tested axis))
      obtain ⟨colons, rfl⟩ := expect_ok read₁
      rcases bind_error failed with failed | ⟨_, _, ⟨⟩⟩
      exact .within [_, _] [] (tests _ _ _ failed) rfl
        fun value _ tests => ⟨value, by simpa using .axis named tests⟩
  · exact .only (tests _ _ _ failed) fun value _ tests => ⟨value, .child tests⟩

theorem viable_furtherSteps (inner : Explains (.level ladder) nested)
    (viable : Viable (.level ladder) nested) : Viable .further (furtherSteps nested) := by
  intro tokens stuck failed
  fun_induction furtherSteps nested tokens with
  | case1 position tokens ih =>
    rcases bind_error failed with failed | ⟨⟨first, tokens₁, short₁⟩, read₁, failed⟩
    · exact .within [⟨.slash, position⟩] [] (viable_step inner viable _ _ failed) rfl
        fun first _ step => ⟨[first], by simpa using Derives.slash (.relative step .noSteps)⟩
    obtain ⟨front, rfl, step⟩ := explains_step inner _ _ _ _ read₁
    rcases bind_error failed with failed | ⟨_, _, ⟨⟩⟩
    exact .within (⟨.slash, position⟩ :: front) [] (ih _ short₁ failed) rfl
      fun others _ more => ⟨first :: others, by simpa using .slash (.relative step more)⟩
  | case2 position tokens ih =>
    rcases bind_error failed with failed | ⟨⟨first, tokens₁, short₁⟩, read₁, failed⟩
    · exact .within [⟨.doubleSlash, position⟩] [] (viable_step inner viable _ _ failed) rfl
        fun first _ step =>
          ⟨[.anyDepth, first], by simpa using Derives.anyDepth (.relative step .noSteps)⟩
    obtain ⟨front, rfl, step⟩ := explains_step inner _ _ _ _ read₁
    rcases bind_error failed with failed | ⟨_, _, ⟨⟩⟩
    exact .within (⟨.doubleSlash, position⟩ :: front) [] (ih _ short₁ failed) rfl
      fun others _ more =>
        ⟨.anyDepth :: first :: others, by simpa using .anyDepth (.relative step more)⟩
  | case3 => cases failed

theorem viable_relativePath (inner : Explains (.level ladder) nested)
    (viable : Viable (.level ladder) nested) : Viable .relative (relativePath nested) := by
  intro tokens stuck failed
  rcases bind_error failed with failed | ⟨⟨first, tokens₁, short₁⟩, read₁, failed⟩
  · exact .only (viable_step inner viable _ _ failed)
      fun first _ step => ⟨[first], by simpa using Derives.relative step .noSteps⟩
  obtain ⟨front, rfl, step⟩ := explains_step inner _ _ _ _ read₁
  rcases bind_error failed with failed | ⟨_, _, ⟨⟩⟩
  exact .within front [] (viable_furtherSteps inner viable _ _ failed) rfl
    fun others _ more => ⟨first :: others, by simpa using .relative step more⟩

theorem viable_someArguments (inner : Explains (.level ladder) nested)
    (viable : Viable (.level ladder) nested) : Viable .arguments (someArguments nested) := by
  intro tokens stuck failed
  induction size : tokens.length using Nat.strongRecOn generalizing tokens with
  | ind length ih =>
    rw [someArguments] at failed
    rcases bind_error failed with failed | ⟨⟨first, tokens₁, short₁⟩, read₁, failed⟩
    · exact .only (viable _ _ failed) fun first _ inside => ⟨[first], .lastArgument inside⟩
    obtain ⟨front, rfl, inside⟩ := inner _ _ _ _ read₁
    simp only at failed
    split at failed
    · cases failed
    · rcases bind_error failed with failed | ⟨⟨_, tokens₂, short₂⟩, read₂, failed⟩
      · obtain rfl := expect_error failed
        exact .here front [] rfl (by simpa using .lastArgument inside)
      obtain ⟨comma, rfl⟩ := expect_ok read₂
      rcases bind_error failed with failed | ⟨_, _, ⟨⟩⟩
      have fewer : tokens₂.length < length := by
        simp only [← size, List.length_append, List.length_cons]
        omega
      exact .within (front ++ [⟨.comma, comma⟩]) [] (ih _ fewer _ failed rfl) (by simp)
        fun others _ more => ⟨first :: others, by simpa using .argument inside more⟩

theorem viable_primary (inner : Explains (.level ladder) nested)
    (viable : Viable (.level ladder) nested) : Viable .primary (primary nested) := by
  intro tokens stuck failed
  unfold primary at failed
  split at failed
  · cases failed
  · cases failed
  · cases failed
  · rcases bind_error failed with failed | ⟨⟨value, tokens₁, short₁⟩, read₁, failed⟩
    · exact .within [_] [.rightParen] (viable _ _ failed) rfl
        fun value _ inside => ⟨value, .group inside⟩
    obtain ⟨front, rfl, inside⟩ := inner _ _ _ _ read₁
    rcases bind_error failed with failed | ⟨_, _, ⟨⟩⟩
    obtain rfl := expect_error failed
    exact .here (_ :: front) [.rightParen] rfl (.group inside)
  · rename_i name position tokens
    rcases bind_error failed with failed | ⟨_, _, ⟨⟩⟩
    rcases bind_error failed with failed | ⟨⟨_, tokens₁, short₁⟩, read₁, failed⟩
    · obtain rfl := expect_error failed
      exact .here [_] [.leftParen, .rightParen] rfl (.callNothing name)
    obtain ⟨opening, rfl⟩ := expect_ok read₁
    simp only at failed
    split at failed
    · cases failed
    · rcases bind_error failed with failed | ⟨_, _, ⟨⟩⟩
      exact .within [_, _] [.rightParen] (viable_someArguments inner viable _ _ failed) rfl
        fun values _ inside => ⟨.call name values, .call inside⟩
  · cases failed
    exact .here [] [.literal []] rfl (.literal [])

theorem viable_filterPath (inner : Explains (.level ladder) nested)
    (viable : Viable (.level ladder) nested) : Viable .path (filterPath nested) := by
  intro tokens stuck failed
  rcases bind_error failed with failed | ⟨⟨start, tokens₁, short₁⟩, read₁, failed⟩
  · exact .only (viable_primary inner viable _ _ failed)
      fun start _ first =>
        ⟨(start.filteredBy []).followedBy [], by
          simpa using Derives.filter first .noPredicates .noSteps⟩
  obtain ⟨front, rfl, first⟩ := explains_primary inner _ _ _ _ read₁
  rcases bind_error failed with failed | ⟨⟨conditions, tokens₂, short₂⟩, read₂, failed⟩
  · exact .within front [] (viable_predicates inner viable _ _ failed) rfl
      fun conditions _ filters =>
        ⟨(start.filteredBy conditions).followedBy [], by
          simpa using Derives.filter first filters .noSteps⟩
  obtain ⟨middle, rfl, filters⟩ := explains_predicates inner _ _ _ _ read₂
  rcases bind_error failed with failed | ⟨_, _, ⟨⟩⟩
  exact .within (front ++ middle) [] (viable_furtherSteps inner viable _ _ failed) (by simp)
    fun steps _ more =>
      ⟨(start.filteredBy conditions).followedBy steps, by
        simpa using Derives.filter first filters more⟩

theorem viable_pathOrFilter (inner : Explains (.level ladder) nested)
    (viable : Viable (.level ladder) nested) : Viable .path (pathOrFilter nested) := by
  have paths := viable_relativePath inner viable
  intro tokens stuck failed
  unfold pathOrFilter at failed
  split at failed
  · split at failed
    · rcases bind_error failed with failed | ⟨_, _, ⟨⟩⟩
      exact .within [_] [] (paths _ _ failed) rfl
        fun steps _ path => ⟨.rootPath steps, by simpa using .rootSteps path⟩
    · cases failed
  · rcases bind_error failed with failed | ⟨_, _, ⟨⟩⟩
    exact .within [_] [] (paths _ _ failed) rfl
      fun steps _ path => ⟨.rootPath (.anyDepth :: steps), by simpa using .anyDepthSteps path⟩
  · split at failed
    · rcases bind_error failed with failed | ⟨_, _, ⟨⟩⟩
      exact .only (paths _ _ failed) fun steps _ path => ⟨.path steps, .steps path⟩
    · exact viable_filterPath inner viable _ _ failed

end Steps

section Levels

variable {rungs : List Rung} {operand : Nat → Reader Expr}

/-- The operands behind the first one of a chain, for which there are tokens already. -/
theorem viable_chainTail {level : Level} (lower : ∀ room, Explains (.level rungs) (operand room))
    (viable : ∀ room, Viable (.level rungs) (operand room)) {room : Nat} {left : Expr}
    {front tokens : List Located} {stuck : Stuck}
    (before : Derives (.level (.binary level :: rungs) left) (front.map (·.token)))
    (failed : chainTail level operand left room tokens = .error stuck) :
    Halts (.level (.binary level :: rungs)) (front ++ tokens) stuck := by
  fun_induction chainTail level operand left room tokens generalizing front with
  | case1 => cases failed
  | case2 => cases failed
  | case3 left found tokens join joins =>
    cases failed
    have more := Derives.join joins before (star_path.climb rungs)
    exact .here (front ++ [found]) [.star] (by simp) (by simpa using more)
  | case4 left found tokens join room joins ih =>
    rcases bind_error failed with failed | ⟨⟨right, tokens₁, short₁⟩, read₁, failed⟩
    · exact .within (front ++ [found]) [] (viable _ _ _ failed) (by simp)
        fun right _ operand => ⟨join left right, by simpa using .join joins before operand⟩
    obtain ⟨middle, rfl, operand⟩ := lower _ _ _ _ _ read₁
    rcases bind_error failed with failed | ⟨_, _, ⟨⟩⟩
    have joined := Derives.join joins before operand
    have taken : front.map (·.token) ++ found.token :: middle.map (·.token) =
        (front ++ found :: middle).map (·.token) := by simp
    rw [taken] at joined
    simpa using ih _ _ joined failed

theorem viable_chain {level : Level} (lower : ∀ room, Explains (.level rungs) (operand room))
    (viable : ∀ room, Viable (.level rungs) (operand room)) (room : Nat) :
    Viable (.level (.binary level :: rungs)) (chain level operand room) := by
  intro tokens stuck failed
  rcases bind_error failed with failed | ⟨⟨first, tokens₁, short₁⟩, read₁, failed⟩
  · exact .only (viable _ _ _ failed) fun first _ operand => ⟨first, .handOn operand⟩
  obtain ⟨front, rfl, operand⟩ := lower _ _ _ _ _ read₁
  rcases bind_error failed with failed | ⟨_, _, ⟨⟩⟩
  exact viable_chainTail lower viable (.handOn operand) failed

theorem viable_descend (viable : ∀ room, Viable (.level rungs) (operand room)) (room : Nat) :
    Viable (.level rungs) (descend operand room) := by
  intro tokens stuck failed
  cases room with
  | zero =>
    cases failed
    exact .here [] [.star] rfl (star_path.climb rungs)
  | succ room => exact viable room _ _ failed

theorem viable_signed (viable : ∀ room, Viable (.level rungs) (operand room)) (room : Nat) :
    Viable (.level (.sign :: rungs)) (signed operand room) := by
  intro tokens stuck failed
  unfold signed at failed
  simp only at failed
  split at failed
  · exact .only (viable _ _ _ failed) fun value _ operand => ⟨value, .handOn operand⟩
  · rename_i some
    rcases bind_error failed with failed | ⟨_, _, ⟨⟩⟩
    have whole : tokens =
        tokens.takeWhile (·.token = .minus) ++ tokens.dropWhile (·.token = .minus) :=
      List.takeWhile_append_dropWhile.symm
    have minus : ∀ sign ∈ tokens.takeWhile (·.token = .minus), sign.token = .minus :=
      fun sign member => by
        simpa using List.all_eq_true.mp List.all_takeWhile sign member
    have halts := viable_descend viable room _ _ failed
    generalize tokens.takeWhile (·.token = .minus) = signs at *
    obtain ⟨first, others, rfl⟩ := List.exists_cons_of_ne_nil (by simpa using some)
    have signs : (first :: others).map (·.token) = List.replicate (others.length + 1) .minus :=
      List.eq_replicate_iff.mpr ⟨by simp, by simpa using minus⟩
    refine .within (first :: others) [] halts whole fun value inside operand =>
      ⟨value.signed (others.length + 1), ?_⟩
    rw [signs, List.append_nil]
    exact .signs others.length operand

theorem viable_climb {nested : Nat → Reader Expr}
    (inner : ∀ room, Explains (.level ladder) (nested room))
    (viable : ∀ room, Viable (.level ladder) (nested room)) (rungs : List Rung) (room : Nat) :
    Viable (.level rungs) (climb rungs nested room) := by
  induction rungs generalizing room with
  | nil =>
    intro tokens stuck failed
    exact .only (viable_pathOrFilter (inner room) (viable room) _ _ failed)
      fun value _ path => ⟨value, .ground path⟩
  | cons rung rungs ih =>
    cases rung with
    | sign => exact viable_signed ih room
    | binary level => exact viable_chain (explains_climb inner rungs) ih room

theorem viable_expression (layers room : Nat) :
    Viable (.level ladder) (expression layers room) := by
  induction layers generalizing room with
  | zero =>
    intro tokens stuck failed
    cases failed
    exact .here [] [.star] rfl (star_path.climb ladder)
  | succ layers ih =>
    rw [expression_succ]
    exact viable_climb (explains_descend (explains_expression layers)) (viable_descend ih) ladder
      room

end Levels

section Reports

variable {layers room : Nat} {front rest : List Located}
  {answer : Except (Option Token → SyntaxFault) Expr}

/-- Reading has stopped in front of a token that it does not take, or for want of one. The depth is
not the reason. -/
def Stops (answer : Except (Option Token → SyntaxFault) Expr) (rest : List Located) : Prop :=
  match answer with
  | .ok _ => rest ≠ []
  | .error fault => fault ≠ fun _ => .tooDeep

/-- From where reading stops, no expression goes on with the next token. -/
theorem not_derives_of_stops
    (came : Run.of (expression (layers + 1) room) (front ++ rest) = (answer, rest))
    (stops : Stops answer rest) (others : List Located) (next : others.head? = rest.head?) :
    ¬∃ expr, Derives (.level ladder expr) ((front ++ others).map (·.token)) := by
  rintro ⟨expr, derived⟩
  have again : Run.of (expression (layers + 1) room) (front ++ others) = (answer, others) := by
    obtain ⟨taken, same, again⟩ := peeks_expression (layers + 1) room (front ++ rest)
    rw [came] at same again
    obtain rfl := List.append_cancel_right same
    exact again others next
  have read : Recovered True expr [] (expression (layers + 1) room (front ++ others)) :=
    expression_succ layers ▸
      (derived.readBack (.top expr)).stop layers room [] rfl rfl _ (List.append_nil _).symm
  unfold Run.of at again
  generalize expression (layers + 1) room (front ++ others) = result at again read
  cases result with
  | error stuck =>
    cases again
    exact stops read.2
  | ok parsed =>
    obtain ⟨rfl, left⟩ := Prod.mk.inj again
    have none : others = [] := left.symm.trans (List.map_eq_nil_iff.mp read.2)
    rw [none] at next
    exact stops (List.head?_eq_none_iff.mp next.symm)

/-- A syntax error points to the place where reading stops, and the tokens in front of it are the
start of an expression. -/
theorem parse_error_stops {text : Text} {located : List Located} {error : SyntaxError}
    (scanned : tokenize text = .ok located) (some : located ≠ [])
    (failed : parse text = .error error) (shallow : error.fault ≠ .tooDeep) :
    ∃ front rest answer, located = front ++ rest ∧
      (∃ expr behind, Derives (.level ladder expr) (front.map (·.token) ++ behind)) ∧
      Run.of (expression (maxDepth + 1) maxDepth) located = (answer, rest) ∧ Stops answer rest ∧
      error.position = (rest.head?.map (·.position)).getD (Text.byteLength text) := by
  have nonempty : located.isEmpty = false := List.isEmpty_eq_false_iff.mpr some
  simp only [parse, scanned, nonempty, bind, Except.bind] at failed
  cases came : expression (maxDepth + 1) maxDepth located with
  | error stuck =>
    rw [came] at failed
    obtain rfl : stuck.error (Text.byteLength text) = error := Except.error.inj failed
    obtain ⟨front, same, viable⟩ := viable_expression _ _ _ _ came
    refine ⟨front, stuck.rest, .error stuck.fault, same, viable, by rw [Run.of, came]; rfl, ?_, ?_⟩
    · rintro deep
      refine shallow ?_
      unfold Stuck.error
      split <;> rw [deep]
    · unfold Stuck.error
      split <;> rename_i rest <;> rw [rest] <;> rfl
  | ok parsed =>
    obtain ⟨value, rest, shorter⟩ := parsed
    rw [came] at failed
    obtain ⟨front, same, derived⟩ := explains_expression _ _ _ _ _ _ came
    cases rest with
    | nil => cases failed
    | cons found rest =>
      cases failed
      refine ⟨front, found :: rest, .ok value, same, ⟨value, [], by simpa using derived⟩, ?_, ?_,
        rfl⟩
      · rw [Run.of, came]
        rfl
      · exact List.cons_ne_nil found rest

/-- The place is that of the first wrong token: those in front of it are the start of an expression,
and with it they are the start of none. It is the end of the text if the tokens are the start of an
expression but are none. -/
def FirstWrong (text : Text) (located : List Located) (place : Nat) : Prop :=
  ∃ front rest, located = front ++ rest ∧
    (∃ expr behind, Derives (.level ladder expr) (front.map (·.token) ++ behind)) ∧
    match rest with
    | found :: _ => place = found.position ∧
      ¬∃ expr behind, Derives (.level ladder expr) (front.map (·.token) ++ found.token :: behind)
    | [] => place = Text.byteLength text ∧
      ¬∃ expr, Derives (.level ladder expr) (front.map (·.token))

/-- Syntax errors point to the first wrong token, the depth apart. -/
theorem parse_error_firstWrong {text : Text} {located : List Located} {error : SyntaxError}
    (scanned : tokenize text = .ok located) (some : located ≠ [])
    (failed : parse text = .error error) (shallow : error.fault ≠ .tooDeep) :
    FirstWrong text located error.position := by
  obtain ⟨front, rest, answer, rfl, viable, came, stops, place⟩ :=
    parse_error_stops scanned some failed shallow
  refine ⟨front, rest, rfl, viable, ?_⟩
  cases rest with
  | nil =>
    refine ⟨place, ?_⟩
    simpa using not_derives_of_stops came stops [] rfl
  | cons found rest =>
    refine ⟨place, ?_⟩
    rintro ⟨expr, behind, derived⟩
    -- only the tokens count, so that those behind may stand anywhere
    refine not_derives_of_stops came stops (found :: behind.map (⟨·, 0⟩)) rfl ⟨expr, ?_⟩
    simpa [Function.comp_def] using derived

/-- A bracket that is closed in place of an operand, and one that is not closed. -/
theorem parse_error_firstWrong_bracket :
    (∃ located error, tokenize "a[b or ]/c".toList = .ok located ∧ located ≠ [] ∧
      parse "a[b or ]/c".toList = .error error ∧ error.fault ≠ .tooDeep ∧
      FirstWrong "a[b or ]/c".toList located error.position ∧ error.position = 7) ∧
    ∃ located error, tokenize "//book[1".toList = .ok located ∧ located ≠ [] ∧
      parse "//book[1".toList = .error error ∧ error.fault ≠ .tooDeep ∧
      FirstWrong "//book[1".toList located error.position ∧ error.position = 8 := by
  have reported {text : Text} {error : SyntaxError} (shallow : error.fault ≠ .tooDeep)
      (lexes : (tokenize text).toOption.any (!·.isEmpty) = true)
      (wrong : (match parse text with | .error error => some error | .ok _ => none) = some error) :
      ∃ located error', tokenize text = .ok located ∧ located ≠ [] ∧
        parse text = .error error' ∧ error'.fault ≠ .tooDeep ∧
        FirstWrong text located error'.position ∧ error'.position = error.position := by
    obtain ⟨located, scanned, some⟩ := exists_ok_of_any lexes
    have some : located ≠ [] := by simpa using some
    cases read : parse text with
    | error found =>
      rw [read] at wrong
      obtain rfl := Option.some.inj wrong
      exact ⟨located, found, scanned, some, rfl, shallow,
        parse_error_firstWrong scanned some read shallow, rfl⟩
    | ok _ =>
      rw [read] at wrong
      cases wrong
  constructor
  · exact @reported _ ⟨.expectedOperand (some .rightBracket), 7⟩ nofun (by decide +kernel)
      (by decide +kernel)
  · exact @reported _ ⟨.expected .rightBracket none, 8⟩ nofun (by decide +kernel)
      (by decide +kernel)

end Reports

end XmlSelect.XPath
