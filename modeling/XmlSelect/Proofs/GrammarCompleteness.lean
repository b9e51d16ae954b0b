import XmlSelect.Proofs.PhraseShape
import XmlSelect.Proofs.WrittenExpression

/-! Whatever derives an expression is read as it. Where a derivation splits its tokens, the readers
split them in the same place, because what a phrase can start with never continues the phrase in
front of it; only the room for nested expressions can give out on the way. -/
namespace XmlSelect.XPath

section Openings

/-- The phrase may start with the token. -/
def Phrase.Opens (token : Token) : Phrase → Prop
  | test _ | tested _ _ => token.startsTest = true
  | step _ | relative _ => token.startsStep = true
  | primary _ => token.startsPrimary = true
  | path _ => token.startsOperand = true
  | level rungs _ => token.startsOperand = true ∨ .sign ∈ rungs ∧ token = .minus
  | arguments _ => token.startsOperand = true ∨ token = .minus
  | predicates _ => token = .leftBracket
  | further _ => token = .slash ∨ token = .doubleSlash

theorem Token.startsOperand_of_startsStep {token : Token} (starts : token.startsStep = true) :
    token.startsOperand = true := by cases token <;> first | rfl | cases starts

theorem Token.startsOperand_of_startsPrimary {token : Token}
    (starts : token.startsPrimary = true) : token.startsOperand = true := by
  cases token <;> first | rfl | cases starts

/-- The phrase takes a first token, or it takes none and may do so. -/
def Phrase.Begins (phrase : Phrase) (tokens : List Token) : Prop :=
  tokens = [] ∧ phrase.IsTail ∨ ∃ token behind, tokens = token :: behind ∧ phrase.Opens token

theorem Phrase.Begins.cons {phrase : Phrase} {token : Token} (behind : List Token)
    (opens : phrase.Opens token) : phrase.Begins (token :: behind) :=
  .inr ⟨token, behind, rfl, opens⟩

/-- A phrase that takes a token is begun by that one in front of whatever follows. -/
theorem Phrase.Begins.append {first whole : Phrase} {front : List Token}
    (begins : first.Begins front) (back : List Token) (some : ¬first.IsTail)
    (opens : ∀ token, first.Opens token → whole.Opens token) : whole.Begins (front ++ back) := by
  obtain ⟨-, tail⟩ | ⟨token, behind, rfl, opened⟩ := begins
  · exact absurd tail some
  · exact .cons _ (opens token opened)

/-- A phrase that is nothing but another one begins as that does. -/
theorem Phrase.Begins.only {inner whole : Phrase} {tokens : List Token}
    (begins : inner.Begins tokens) (some : ¬inner.IsTail)
    (opens : ∀ token, inner.Opens token → whole.Opens token) : whole.Begins tokens := by
  rw [← List.append_nil tokens]
  exact begins.append [] some opens

theorem Derives.begins {phrase : Phrase} {tokens : List Token} (derived : Derives phrase tokens) :
    phrase.Begins tokens := by
  induction derived with
  | star | nameTest | prefixWildcard | nodeType | instruction | dot | dotDot | reference | literal
  | number | callNothing | root => exact .cons _ rfl
  | noPredicates | noSteps => exact .inl ⟨rfl, trivial⟩
  | predicate | attributeTest | axis | group | call | rootSteps | anyDepthSteps => exact .cons _ rfl
  | slash => exact .cons _ (.inl rfl)
  | doubleSlash => exact .cons _ (.inr rfl)
  | tested _ _ front => exact front.append _ nofun fun _ => id
  | child _ front => exact front.only nofun fun _ => Token.startsStep_of_startsTest
  | relative _ _ front => exact front.append _ nofun fun _ => id
  | steps _ front => exact front.only nofun fun _ => Token.startsOperand_of_startsStep
  | filter _ _ _ front =>
    rw [List.append_assoc]
    exact front.append _ nofun fun _ => Token.startsOperand_of_startsPrimary
  | ground _ front => exact front.only nofun fun _ => Or.inl
  | handOn _ front =>
    exact front.only nofun fun _ => Or.imp id fun opened =>
      ⟨List.mem_cons_of_mem _ opened.1, opened.2⟩
  | join _ _ _ front => exact front.append _ nofun fun _ => id
  | signs => exact .cons _ (.inr ⟨List.mem_cons_self, rfl⟩)
  | lastArgument _ front => exact front.only nofun fun _ => Or.imp id And.right
  | argument _ _ front => exact front.append _ nofun fun _ => Or.imp id And.right

end Openings

section Recovering

namespace Recovers

variable {scarce : Prop} {nested : Reader Expr} {tokens rest : List Token}

theorem nodeType {type : NodeType} {test : NodeTest} (stands : (type, test) ∈ nodeTypeTests)
    (rest : List Token) :
    Recovers scarce nodeTest (.nodeType type :: .leftParen :: .rightParen :: rest) test rest := by
  intro located same
  obtain rfl := test_eq_iff.mpr stands
  obtain ⟨_, _, rfl, left₁⟩ := located_cons same
  obtain ⟨_, _, rfl, left₂⟩ := located_cons left₁
  obtain ⟨_, _, rfl, left₃⟩ := located_cons left₂
  exact ⟨rfl, left₃⟩

theorem instruction (target : Text) (rest : List Token) :
    Recovers scarce nodeTest
      (.nodeType .instruction :: .leftParen :: .literal target :: .rightParen :: rest)
      (.instruction (some target)) rest := by
  intro located same
  obtain ⟨_, _, rfl, left₁⟩ := located_cons same
  obtain ⟨_, _, rfl, left₂⟩ := located_cons left₁
  obtain ⟨_, _, rfl, left₃⟩ := located_cons left₂
  obtain ⟨_, _, rfl, left₄⟩ := located_cons left₃
  exact ⟨rfl, left₄⟩

theorem prefixWildcard (space : Text) (rest : List Token) :
    Recovers scarce nodeTest (.prefixWildcard space :: rest) (.prefixWildcard space) rest := by
  intro located same
  obtain ⟨_, _, rfl, left⟩ := located_cons same
  exact ⟨rfl, left⟩

theorem dot (nested : Reader Expr) (rest : List Token) :
    Recovers scarce (step nested) (.dot :: rest) (.mk .self .node []) rest := by
  intro located same
  obtain ⟨_, _, rfl, left⟩ := located_cons same
  exact ⟨rfl, left⟩

theorem dotDot (nested : Reader Expr) (rest : List Token) :
    Recovers scarce (step nested) (.dotDot :: rest) (.mk .parent .node []) rest := by
  intro located same
  obtain ⟨_, _, rfl, left⟩ := located_cons same
  exact ⟨rfl, left⟩

theorem axisStep {name : Text} {axis : Axis} {value : Step}
    (known : (name, axis) ∈ axisNames)
    (tested : Recovers scarce (XPath.testOnAxis nested axis) tokens value rest) :
    Recovers scarce (step nested) (.axis name :: .colonColon :: tokens) value rest := by
  intro located same
  obtain ⟨_, behind, rfl, left⟩ := located_cons same
  simp only [step, ofName?_eq_some_iff.mpr known]
  refine .bind (expect _ tokens behind left) fun located₁ _ left₁ => ?_
  exact .bind (tested located₁ left₁) fun located₂ _ left₂ => ⟨rfl, left₂⟩

theorem group {value : Expr} (inner : Recovers scarce nested tokens value (.rightParen :: rest)) :
    Recovers scarce (primary nested) (.leftParen :: tokens) value rest := by
  intro located same
  obtain ⟨_, behind, rfl, left⟩ := located_cons same
  refine .bind (inner behind left) fun located₁ _ left₁ => ?_
  exact .bind (expect _ rest located₁ left₁) fun located₂ _ left₂ => ⟨rfl, left₂⟩

theorem reference (name : Text) (rest : List Token) :
    Recovers scarce (primary nested) (.reference name :: rest) (.reference name) rest := by
  intro located same
  obtain ⟨_, _, rfl, left⟩ := located_cons same
  exact ⟨rfl, left⟩

theorem root (nested : Reader Expr) (stops : rest.head?.any Token.startsStep = false) :
    Recovers scarce (pathOrFilter nested) (.slash :: rest) (.rootPath []) rest := by
  intro located same
  obtain ⟨_, behind, rfl, left⟩ := located_cons same
  rw [← located_head left, Option.any_map] at stops
  rw [pathOrFilter, if_neg (by rw [Bool.not_eq_true]; exact stops)]
  exact ⟨rfl, left⟩

theorem rootSteps {steps : List Step} (starts : tokens.head?.any Token.startsStep = true)
    (path : Recovers scarce (XPath.relativePath nested) tokens steps rest) :
    Recovers scarce (pathOrFilter nested) (.slash :: tokens) (.rootPath steps) rest := by
  intro located same
  obtain ⟨_, behind, rfl, left⟩ := located_cons same
  rw [← located_head left, Option.any_map] at starts
  rw [pathOrFilter, if_pos starts]
  exact .bind (path behind left) fun located₁ _ left₁ => ⟨rfl, left₁⟩

variable {operand : Nat → Reader Expr} {level : Level} {more : List Token}

/-- The room gives out at an operator, or its right operand and the rest of the chain follow. -/
theorem scarceLink {left right whole : Expr} {operator : Token} {join : Expr → Expr → Expr}
    (joins : level operator = some join)
    (inner : ∀ room, Recovers True (operand room) tokens right more)
    (further : ∀ room,
      Recovers True (chainTail level operand (join left right) room) more whole rest)
    (room : Nat) :
    Recovers True (chainTail level operand left room) (operator :: tokens) whole rest := by
  cases room with
  | zero =>
    intro located same
    obtain ⟨_, behind, rfl, left⟩ := located_cons same
    unfold chainTail
    simp only [joins]
    exact ⟨trivial, rfl⟩
  | succ room => exact .chainLink joins (inner room) (further room)

theorem descend {value : Expr} (inner : ∀ room, Recovers True (operand room) tokens value rest)
    (room : Nat) : Recovers True (XPath.descend operand room) tokens value rest := by
  intro located same
  cases room with
  | zero => exact ⟨trivial, rfl⟩
  | succ room => exact inner room located same

theorem signed {value : Expr} (count : Nat) (noMinus : tokens.head? ≠ some .minus)
    (inner : ∀ room, Recovers True (operand room) tokens value rest) (room : Nat) :
    Recovers True (XPath.signed operand room) (List.replicate (count + 1) .minus ++ tokens)
      (value.signed (count + 1)) rest := by
  intro located same
  have isMinus : ∀ sign ∈ List.replicate (count + 1) Token.minus, decide (sign = .minus) = true :=
    fun sign member => decide_eq_true (List.eq_of_mem_replicate member)
  have none : tokens.takeWhile (· = .minus) = [] ∧ tokens.dropWhile (· = .minus) = tokens := by
    cases tokens with
    | nil => exact ⟨rfl, rfl⟩
    | cons token tokens =>
      have other : ¬decide (token = .minus) = true := by simpa using noMinus
      exact ⟨List.takeWhile_cons_of_neg other, List.dropWhile_cons_of_neg other⟩
  have signs : (located.takeWhile (·.token = .minus)).length = count + 1 := by
    have taken := congrArg (List.takeWhile (· = Token.minus)) same
    rw [List.takeWhile_map, List.takeWhile_append_of_pos isMinus, none.1] at taken
    have counted := congrArg List.length taken
    rw [List.length_map, List.append_nil, List.length_replicate] at counted
    exact counted
  have behind : (located.dropWhile (·.token = .minus)).map (·.token) = tokens := by
    have dropped := congrArg (List.dropWhile (· = Token.minus)) same
    rw [List.dropWhile_map, List.dropWhile_append_of_pos isMinus, none.2] at dropped
    exact dropped
  simp only [XPath.signed]
  rw [if_neg (by simp [← List.length_eq_zero_iff, signs])]
  refine .bind (descend inner room _ behind) fun located₁ _ left₁ => ?_
  rw [signs]
  exact ⟨rfl, left₁⟩

end Recovers

end Recovering

section Completeness

/-- Whether a path ends in front of these tokens. -/
def endsPath (rest : List Token) : Bool :=
  !rest.head?.any Token.continuesPath && !rest.head?.any Token.startsStep

theorem not_continuesPath {rest : List Token} (ends : endsPath rest = true) :
    rest.head?.any Token.continuesPath = false := by
  rw [endsPath, Bool.and_eq_true, Bool.not_eq_true'] at ends
  exact ends.1

theorem not_startsStep {rest : List Token} (ends : endsPath rest = true) :
    rest.head?.any Token.startsStep = false := by
  rw [endsPath, Bool.and_eq_true, Bool.not_eq_true', Bool.not_eq_true'] at ends
  exact ends.2

/-- Whatever the level goes on with behind a value that it has read already. -/
def Continues (rungs : List Rung) (nested : Nat → Reader Expr) (value : Expr) (rest : List Token)
    (whole : Expr) (final : List Token) : Prop :=
  match rungs with
  | .binary level :: lower =>
    ∀ room, Recovers True (chainTail level (climb lower nested) value room) rest whole final
  | _ => value = whole ∧ rest = final

theorem Continues.stop {rungs : List Rung} {rest : List Token} (nested : Nat → Reader Expr)
    (value : Expr) (stops : rungs.all (Rung.stops rest) = true) :
    Continues rungs nested value rest value rest := by
  match rungs with
  | [] | .sign :: _ => exact ⟨rfl, rfl⟩
  | .binary level :: lower =>
    rw [List.all_cons, Bool.and_eq_true] at stops
    exact fun room => .chainEnd value room (Option.isNone_iff_eq_none.mp stops.1)

/-- The readers take the phrase from the tokens in front of whatever may follow it. A level may go
on with operators of its own, which then join what it goes on with to the phrase. -/
def ReadBack (tokens : List Token) : Phrase → Prop
  | .test value => ∀ rest, Recovers True nodeTest (tokens ++ rest) value rest
  | .predicates values => ∀ layers room rest, rest.head? ≠ some .leftBracket →
    Recovers True (predicates (descend (expression layers) room)) (tokens ++ rest) values rest
  | .tested axis value => ∀ layers room rest, rest.head? ≠ some .leftBracket →
    Recovers True (testOnAxis (descend (expression layers) room) axis) (tokens ++ rest) value rest
  | .step value => ∀ layers room rest, rest.head? ≠ some .leftBracket →
    Recovers True (step (descend (expression layers) room)) (tokens ++ rest) value rest
  | .further values => ∀ layers room rest, rest.head?.any Token.continuesPath = false →
    Recovers True (furtherSteps (descend (expression layers) room)) (tokens ++ rest) values rest
  | .relative values => ∀ layers room rest, rest.head?.any Token.continuesPath = false →
    Recovers True (relativePath (descend (expression layers) room)) (tokens ++ rest) values rest ∧
    Recovers True (furtherSteps (descend (expression layers) room)) (.slash :: tokens ++ rest)
      values rest ∧
    Recovers True (furtherSteps (descend (expression layers) room)) (.doubleSlash :: tokens ++ rest)
      (.anyDepth :: values) rest
  | .arguments values => ∀ layers room rest,
    Recovers True (someArguments (descend (expression layers) room)) (tokens ++ .rightParen :: rest)
      values rest
  | .primary value => ∀ layers room rest,
    Recovers True (primary (descend (expression layers) room)) (tokens ++ rest) value rest
  | .path value => ∀ layers room rest, endsPath rest = true →
    Recovers True (pathOrFilter (descend (expression layers) room)) (tokens ++ rest) value rest
  | .level rungs value => ∀ layers room rest whole final, endsPath rest = true →
    rungs.tail.all (Rung.stops rest) = true →
    Continues rungs (descend (expression layers)) value rest whole final →
    Recovers True (climb rungs (descend (expression layers)) room) (tokens ++ rest) whole final

/-- An operator of a level is none of the levels below, and no path goes on at it. -/
theorem stops_ladder {level : Level} {rungs : List Rung} {value : Expr} {token : Token}
    {joined : Expr → Expr → Expr} (behind : List Token)
    (onLadder : (Phrase.level (.binary level :: rungs) value).OnLadder)
    (joins : level token = some joined) :
    endsPath (token :: behind) = true ∧ rungs.all (Rung.stops (token :: behind)) = true := by
  simp only [Phrase.OnLadder, ladder_eq, List.suffix_cons_iff, List.cons.injEq, Rung.binary.injEq,
    reduceCtorEq, List.suffix_nil, false_and, or_false, false_or] at onLadder
  rcases onLadder with ⟨rfl, rfl⟩ | ⟨rfl, rfl⟩ | ⟨rfl, rfl⟩ | ⟨rfl, rfl⟩ | ⟨rfl, rfl⟩ |
    ⟨rfl, rfl⟩ | ⟨rfl, rfl⟩ <;> cases token <;> cases joins <;> exact ⟨rfl, rfl⟩

/-- A level that does not go on leaves what stands behind the phrase. -/
theorem ReadBack.stop {rungs : List Rung} {value : Expr} {tokens : List Token}
    (back : ReadBack tokens (.level rungs value)) (layers room : Nat) (rest : List Token)
    (ends : endsPath rest = true) (stops : rungs.all (Rung.stops rest) = true) :
    Recovers True (climb rungs (descend (expression layers)) room) (tokens ++ rest) value rest := by
  refine back layers room rest value rest ends ?_ (.stop _ value stops)
  exact List.all_eq_true.mpr fun rung member =>
    List.all_eq_true.mp stops rung (List.mem_of_mem_tail member)

/-- Within brackets, parentheses or between commas, a whole expression is read. -/
theorem ReadBack.nested {value : Expr} {tokens : List Token}
    (back : ReadBack tokens (.level ladder value)) (layers room : Nat) (rest : List Token)
    (ends : endsPath rest = true) (stops : ladder.all (Rung.stops rest) = true) :
    Recovers True (descend (expression layers) room) (tokens ++ rest) value rest := by
  refine .descend (fun room => ?_) room
  cases layers with
  | zero => exact fun _ _ => ⟨trivial, rfl⟩
  | succ layers =>
    rw [expression_succ]
    exact back.stop layers room rest ends stops

/-- The first token of a phrase that is never empty. -/
theorem Derives.head {phrase : Phrase} {tokens : List Token} (derived : Derives phrase tokens)
    (some : ¬phrase.IsTail) (rest : List Token) :
    ∃ token, (tokens ++ rest).head? = .some token ∧ phrase.Opens token := by
  obtain ⟨-, tail⟩ | ⟨token, behind, rfl, opens⟩ := derived.begins
  · exact absurd tail some
  · exact ⟨token, rfl, opens⟩

theorem Derives.starts {phrase : Phrase} {tokens : List Token} {kind : Token → Bool}
    (derived : Derives phrase tokens) (some : ¬phrase.IsTail) (rest : List Token)
    (opens : ∀ token, phrase.Opens token → kind token = true) :
    (tokens ++ rest).head?.any kind = true := by
  obtain ⟨token, head, opened⟩ := derived.head some rest
  rw [head]
  exact opens token opened

/-- No predicate stands in front of further steps. -/
theorem Derives.noBracket {steps : List Step} {tokens rest : List Token}
    (derived : Derives (.further steps) tokens)
    (stops : rest.head?.any Token.continuesPath = false) :
    (tokens ++ rest).head? ≠ some .leftBracket := by
  obtain ⟨rfl, -⟩ | ⟨token, behind, rfl, rfl | rfl⟩ := derived.begins
  · intro bracket
    rw [List.nil_append] at bracket
    rw [bracket] at stops
    cases stops
  · nofun
  · nofun

/-- What stands behind the signs has none of its own. -/
theorem Derives.noMinus {rungs : List Rung} {value signed : Expr} {tokens : List Token}
    (derived : Derives (.level rungs value) tokens)
    (onLadder : (Phrase.level (.sign :: rungs) signed).OnLadder) (rest : List Token) :
    (tokens ++ rest).head? ≠ some .minus := by
  obtain ⟨token, head, opens | ⟨sign, -⟩⟩ := derived.head nofun rest
  · rw [head]
    rintro ⟨⟩
    cases opens
  · exact absurd sign onLadder.noSign

/-- Whatever derives a phrase is read as it. -/
theorem Derives.readBack {phrase : Phrase} {tokens : List Token} (derived : Derives phrase tokens)
    (onLadder : phrase.OnLadder) : ReadBack tokens phrase := by
  induction derived with
  | star => exact fun rest => (Reads.star rest).recovers
  | nameTest name => exact fun rest => (Reads.nameTest name rest).recovers
  | prefixWildcard space => exact .prefixWildcard space
  | nodeType stands => exact .nodeType stands
  | instruction target => exact .instruction target
  | noPredicates => exact fun _ _ _ stops => .noPredicates _ stops
  | @predicate first others inside behind condition more ih₁ ih₂ =>
    intro layers room rest stops
    have inner := (ih₁ (.top _)).nested layers room (.rightBracket :: (behind ++ rest)) rfl rfl
    simpa using Recovers.predicate inner (ih₂ trivial layers room rest stops)
  | tested tests filters ih₁ ih₂ =>
    intro layers room rest stops
    rw [List.append_assoc]
    exact .testOnAxis _ (ih₁ trivial _) (ih₂ trivial layers room rest stops)
  | dot => exact fun _ _ rest _ => .dot _ rest
  | dotDot => exact fun _ _ rest _ => .dotDot _ rest
  | attributeTest tests ih =>
    exact fun layers room rest stops => .attributeStep (ih trivial layers room rest stops)
  | axis known tests ih =>
    exact fun layers room rest stops => .axisStep known (ih trivial layers room rest stops)
  | child tests ih =>
    exact fun layers room rest stops =>
      .childStep (tests.starts nofun rest fun _ => id) (ih trivial layers room rest stops)
  | noSteps => exact fun _ _ _ stops => .noSteps _ stops
  | slash path ih => exact fun layers room rest stops => (ih trivial layers room rest stops).2.1
  | doubleSlash path ih =>
    exact fun layers room rest stops => (ih trivial layers room rest stops).2.2
  | relative step more ih₁ ih₂ =>
    intro layers room rest stops
    have first := ih₁ trivial layers room _ (more.noBracket stops)
    have others := ih₂ trivial layers room rest stops
    rw [← List.append_assoc] at first
    exact ⟨.relativePath first others, .slashStep first others, .doubleSlashStep first others⟩
  | lastArgument inside ih =>
    exact fun layers room rest =>
      .lastArgument ((ih (.top _)).nested layers room (.rightParen :: rest) rfl rfl)
  | @argument first others front back inside more ih₁ ih₂ =>
    intro layers room rest
    have first := (ih₁ (.top _)).nested layers room (.comma :: (back ++ .rightParen :: rest)) rfl
      rfl
    simpa using Recovers.argument first (ih₂ trivial layers room rest)
  | reference name => exact fun _ _ rest => .reference name rest
  | literal value => exact fun _ _ rest => (Reads.literal value rest).recovers
  | number value => exact fun _ _ rest => (Reads.number value rest).recovers
  | group inside ih =>
    intro layers room rest
    have inner := (ih (.top _)).nested layers room (.rightParen :: rest) rfl rfl
    simpa using Recovers.group inner
  | callNothing name => exact fun _ _ rest => (Reads.call name (.noArguments rest)).recovers
  | call inside ih =>
    intro layers room rest
    obtain ⟨token, head, opens⟩ := inside.head nofun (.rightParen :: rest)
    have nonempty : token ≠ .rightParen := by
      rintro rfl
      rcases opens with opens | opens <;> cases opens
    simpa using Recovers.call _ (.arguments (by simpa [head] using nonempty)
      (ih trivial layers room rest))
  | root =>
    intro layers room rest ends
    exact .root _ (not_startsStep ends)
  | rootSteps path ih =>
    exact fun layers room rest ends => .rootSteps (path.starts nofun rest fun _ => id)
      (ih trivial layers room rest (not_continuesPath ends)).1
  | anyDepthSteps path ih =>
    exact fun layers room rest ends =>
      .anyDepthSteps (ih trivial layers room rest (not_continuesPath ends)).1
  | steps path ih =>
    exact fun layers room rest ends => .steps (path.starts nofun rest fun _ => id)
      (ih trivial layers room rest (not_continuesPath ends)).1
  | filter first filters more ih₁ ih₂ ih₃ =>
    intro layers room rest ends
    have stops := not_continuesPath ends
    rw [List.append_assoc, List.append_assoc]
    exact .filter (first.starts nofun _ fun _ => id) (.filterPath (ih₁ trivial layers room _)
      (ih₂ trivial layers room _ (more.noBracket stops)) (ih₃ trivial layers room rest stops))
  | ground path ih =>
    rintro layers room rest whole final ends - ⟨rfl, rfl⟩
    exact ih trivial layers room rest ends
  | @handOn rung rungs value tokens lower ih =>
    intro layers room rest whole final ends stops goesOn
    have inner := (ih onLadder.lower).stop layers room rest ends stops
    cases rung with
    | binary level => exact .chain inner (goesOn room)
    | sign =>
      obtain ⟨rfl, rfl⟩ := goesOn
      exact .unsigned (lower.noMinus onLadder rest) inner
  | @join level rungs operator joined left right front back joins first second ih₁ ih₂ =>
    intro layers room rest whole final ends stops goesOn
    have right := fun room => (ih₂ onLadder.lower).stop layers room rest ends stops
    obtain ⟨endsLeft, stopsLeft⟩ := stops_ladder (back ++ rest) onLadder joins
    rw [List.append_assoc]
    -- The chain that has come to the left operand takes the operator and goes on as before.
    exact ih₁ onLadder layers room _ whole final endsLeft stopsLeft (.scarceLink joins right goesOn)
  | signs count operand ih =>
    rintro layers room rest whole final ends stops ⟨rfl, rfl⟩
    have inner := fun room => (ih onLadder.lower).stop layers room rest ends stops
    rw [List.append_assoc]
    exact .signed count (operand.noMinus onLadder rest) inner room

/-- A text whose tokens derive an expression is read as it, unless it is nested too deeply. -/
theorem parse_of_derives {text : Text} {located : List Located} {expr : Expr}
    (scanned : tokenize text = .ok located)
    (derived : Derives (.level ladder expr) (located.map (·.token))) :
    parse text = .ok expr ∨ ∃ position, parse text = .error ⟨.tooDeep, position⟩ := by
  have nonempty : located.isEmpty = false := by
    obtain ⟨token, head, -⟩ := derived.head nofun []
    cases located with
    | nil => cases head
    | cons found located => rfl
  have read : Recovered True expr [] (expression (maxDepth + 1) maxDepth located) :=
    expression_succ maxDepth ▸
      (derived.readBack (.top expr)).stop maxDepth maxDepth [] rfl rfl located (by simp)
  simp only [parse, scanned, nonempty, bind, Except.bind]
  generalize expression (maxDepth + 1) maxDepth located = outcome at read
  cases outcome with
  | error stuck =>
    refine .inr ?_
    obtain ⟨fault, rest⟩ := stuck
    obtain rfl : fault = fun _ => .tooDeep := read.2
    cases rest with
    | nil => exact ⟨_, rfl⟩
    | cons found rest => exact ⟨_, rfl⟩
  | ok parsed =>
    obtain ⟨_, rest, shorter⟩ := parsed
    obtain ⟨rfl, left⟩ := read
    obtain rfl := List.map_eq_nil_iff.mp left
    exact .inl rfl

/-- An expression that is read is the only one that its tokens derive. -/
theorem parse_unambiguous {text : Text} {located : List Located} {expr other : Expr}
    (scanned : tokenize text = .ok located) (read : parse text = .ok expr)
    (derived : Derives (.level ladder other) (located.map (·.token))) : other = expr := by
  obtain same | ⟨position, deep⟩ := parse_of_derives scanned derived
  · exact Except.ok.inj (same.symm.trans read)
  · cases read.symm.trans deep

/-- The tokens of a text derive the expression that is read from them, and if reading fails for
any reason but the depth, they derive none. -/
theorem parse_iff_derives {text : Text} {located : List Located}
    (scanned : tokenize text = .ok located) :
    (∀ expr, parse text = .ok expr → Derives (.level ladder expr) (located.map (·.token))) ∧
      ∀ error, parse text = .error error → error.fault ≠ .tooDeep →
        ¬∃ expr, Derives (.level ladder expr) (located.map (·.token)) := by
  constructor
  · intro expr read
    obtain ⟨located', scanned', derived⟩ := parse_derives read
    obtain rfl := Except.ok.inj (scanned.symm.trans scanned')
    exact derived
  · rintro error stuck shallow ⟨expr, derived⟩
    obtain read | ⟨position, deep⟩ := parse_of_derives scanned derived
    · cases stuck.symm.trans read
    · obtain rfl := Except.error.inj (stuck.symm.trans deep)
      exact shallow rfl

/-- No predicate can follow a dot, which is a step by itself; two signs belong to one operand. -/
theorem parse_iff_derives_dot :
    (∃ located, tokenize ".[a]".toList = .ok located ∧
      ¬∃ expr, Derives (.level ladder expr) (located.map (·.token))) ∧
    ∃ located operand, tokenize "--a".toList = .ok located ∧
      Derives (.level ladder (.negate (.negate operand))) (located.map (·.token)) := by
  have dot : ((tokenize ".[a]".toList).toOption.isSome = true) ∧
      (match parse ".[a]".toList with
      | .error error => some error
      | .ok _ => none) = some ⟨.trailing .leftBracket, 1⟩ := by decide +kernel
  have signs : ((tokenize "--a".toList).toOption.isSome = true) ∧
      (match parse "--a".toList with
      | .ok (.negate (.negate _)) => true
      | _ => false) = true := by decide +kernel
  constructor
  · cases scanned : tokenize ".[a]".toList with
    | error _ => rw [scanned] at dot; cases dot.1
    | ok located =>
      refine ⟨located, rfl, ?_⟩
      have stuck := dot.2
      split at stuck
      · rename_i stuck'
        cases stuck
        exact (parse_iff_derives scanned).2 _ stuck' nofun
      · cases stuck
  · cases scanned : tokenize "--a".toList with
    | error _ => rw [scanned] at signs; cases signs.1
    | ok located =>
      have shape := signs.2
      split at shape
      · rename_i operand read
        exact ⟨located, operand, rfl, (parse_iff_derives scanned).1 _ read⟩
      · cases shape

end Completeness

end XmlSelect.XPath
