import Mathlib.Data.List.Chain
import XmlSelect.Proofs.ExpressionGrammar

/-! What derivations say of their tokens. No operand stands right behind another one; each part of
an expression has a stretch of the tokens to itself; and the parentheses apart, the tokens show
which rule made the expression. -/
namespace XmlSelect.XPath

/-- Whether a token may stand behind an operand. -/
def Token.followsOperand : Token → Bool
  | rightParen | rightBracket | leftBracket | comma | slash | doubleSlash | pipe | plus | minus
  | multiply | equal | notEqual | less | lessEq | greater | greaterEq | and | or | mod | div => true
  | _ => false

/-- The token of an operator. -/
def Operator.token : Operator → Token
  | or => .or
  | and => .and
  | equal => .equal
  | notEqual => .notEqual
  | less => .less
  | lessEq => .lessEq
  | greater => .greater
  | greaterEq => .greaterEq
  | add => .plus
  | sub => .minus
  | mul => .multiply
  | div => .div
  | mod => .mod

theorem Operator.followsOperand_token (operator : Operator) :
    operator.token.followsOperand = true := by cases operator <;> rfl

theorem Operator.endsOperand_token (operator : Operator) :
    operator.token.endsOperand = false := by cases operator <;> rfl

/-- The levels of a phrase are those of the ladder from some place on. -/
def Phrase.OnLadder : Phrase → Prop
  | level rungs _ => rungs <:+ ladder
  | _ => True

theorem Phrase.OnLadder.top (value : Expr) : (Phrase.level ladder value).OnLadder :=
  List.suffix_rfl

theorem Phrase.OnLadder.lower {rung : Rung} {rungs : List Rung} {upper lower : Expr}
    (onLadder : (Phrase.level (rung :: rungs) upper).OnLadder) :
    (Phrase.level rungs lower).OnLadder :=
  (List.suffix_cons rung rungs).trans onLadder

/-- No level below the signs has signs of its own. -/
theorem Phrase.OnLadder.noSign {rungs : List Rung} {value : Expr}
    (onLadder : (Phrase.level (.sign :: rungs) value).OnLadder) : .sign ∉ rungs := by
  simp only [OnLadder, ladder_eq, List.suffix_cons_iff, List.cons.injEq, reduceCtorEq,
    List.suffix_nil, false_and, true_and, or_false, false_or] at onLadder
  rw [onLadder]
  simp

/-- A level of the ladder joins by an operator or by the union. -/
theorem joins_of_mem {level : Level} {token : Token} {joined : Expr → Expr → Expr}
    (member : Rung.binary level ∈ ladder) (joins : level token = some joined) :
    (∃ operator : Operator, token = operator.token ∧ joined = .binary operator) ∨
      token = .pipe ∧ joined = .union := by
  simp only [ladder_eq, List.mem_cons, Rung.binary.injEq, reduceCtorEq, List.not_mem_nil, or_false,
    false_or] at member
  rcases member with rfl | rfl | rfl | rfl | rfl | rfl | rfl <;> cases token <;> cases joins <;>
    first
      | exact .inr ⟨rfl, rfl⟩
      | exact .inl ⟨_, rfl, rfl⟩

theorem joins_ladder {level : Level} {rungs : List Rung} {value : Expr} {token : Token}
    {joined : Expr → Expr → Expr}
    (onLadder : (Phrase.level (.binary level :: rungs) value).OnLadder)
    (joins : level token = some joined) :
    (∃ operator : Operator, token = operator.token ∧ joined = .binary operator) ∨
      token = .pipe ∧ joined = .union :=
  joins_of_mem (onLadder.subset List.mem_cons_self) joins

private theorem separates_ladder {level : Level} {rungs : List Rung} {value : Expr} {token : Token}
    {joined : Expr → Expr → Expr}
    (onLadder : (Phrase.level (.binary level :: rungs) value).OnLadder)
    (joins : level token = some joined) :
    token.followsOperand = true ∧ token.endsOperand = false := by
  obtain ⟨operator, rfl, -⟩ | ⟨rfl, -⟩ := joins_ladder onLadder joins
  · exact ⟨operator.followsOperand_token, operator.endsOperand_token⟩
  · exact ⟨rfl, rfl⟩

section Adjacency

/-- If the first of two tokens may end an operand, the second may follow one. -/
def Adjacent (first second : Token) : Prop :=
  first.endsOperand = true → second.followsOperand = true

/-- The phrases that stand behind an operand. -/
def Phrase.IsTail : Phrase → Prop
  | predicates _ | further _ => True
  | _ => False

private theorem adjacent_cons {first : Token} {tokens : List Token}
    (opens : first.endsOperand = false) (chain : tokens.IsChain Adjacent) :
    (first :: tokens).IsChain Adjacent :=
  List.isChain_cons.mpr ⟨fun _ _ ends => absurd (opens.symm.trans ends) (by decide), chain⟩

private theorem adjacent_append {front back : List Token} (first : front.IsChain Adjacent)
    (second : back.IsChain Adjacent) (follows : ∀ token ∈ back.head?, token.followsOperand = true) :
    (front ++ back).IsChain Adjacent :=
  List.isChain_append.mpr ⟨first, second, fun _ _ _ head _ => follows _ head⟩

private theorem adjacent_bracket {inside : List Token} {closing : Token}
    (chain : inside.IsChain Adjacent) (follows : closing.followsOperand = true) :
    (inside ++ [closing]).IsChain Adjacent :=
  adjacent_append chain (.singleton _) (by simpa using follows)

private theorem adjacent_signs {count : Nat} {tokens : List Token}
    (chain : tokens.IsChain Adjacent) :
    (List.replicate count Token.minus ++ tokens).IsChain Adjacent := by
  induction count with
  | zero => exact chain
  | succ count ih => exact adjacent_cons rfl ih

/-- Between two operands there is a token that is none. -/
theorem Derives.adjacent {phrase : Phrase} {tokens : List Token} (derived : Derives phrase tokens)
    (onLadder : phrase.OnLadder) :
    tokens.IsChain Adjacent ∧
      (phrase.IsTail → ∀ token ∈ tokens.head?, token.followsOperand = true) := by
  induction derived with
  | star | nameTest | prefixWildcard | dot | dotDot | reference | literal | number | root =>
    exact ⟨.singleton _, False.elim⟩
  | nodeType | instruction | callNothing =>
    exact ⟨by simp [Adjacent, Token.endsOperand, Token.followsOperand], False.elim⟩
  | noPredicates | noSteps => exact ⟨.nil, by simp⟩
  | predicate condition more ih₁ ih₂ =>
    obtain ⟨behind, follows⟩ := ih₂ trivial
    refine ⟨?_, fun _ => by simp [Token.followsOperand]⟩
    refine adjacent_cons rfl (adjacent_append (ih₁ (.top _)).1 ?_ (by simp [Token.followsOperand]))
    exact List.isChain_cons.mpr ⟨fun token head _ => follows trivial token head, behind⟩
  | tested tests filters ih₁ ih₂ =>
    obtain ⟨behind, follows⟩ := ih₂ trivial
    exact ⟨adjacent_append (ih₁ trivial).1 behind (follows trivial), False.elim⟩
  | attributeTest tests ih => exact ⟨adjacent_cons rfl (ih trivial).1, False.elim⟩
  | axis known tests ih =>
    exact ⟨adjacent_cons rfl (adjacent_cons rfl (ih trivial).1), False.elim⟩
  | child tests ih => exact ⟨(ih trivial).1, False.elim⟩
  | slash path ih | doubleSlash path ih =>
    exact ⟨adjacent_cons rfl (ih trivial).1, fun _ => by simp [Token.followsOperand]⟩
  | relative step more ih₁ ih₂ =>
    obtain ⟨behind, follows⟩ := ih₂ trivial
    exact ⟨adjacent_append (ih₁ trivial).1 behind (follows trivial), False.elim⟩
  | lastArgument inside ih => exact ⟨(ih (.top _)).1, False.elim⟩
  | argument inside more ih₁ ih₂ =>
    exact ⟨adjacent_append (ih₁ (.top _)).1 (adjacent_cons rfl (ih₂ trivial).1)
      (by simp [Token.followsOperand]), False.elim⟩
  | group inside ih =>
    exact ⟨adjacent_cons rfl (adjacent_bracket (ih (.top _)).1 rfl), False.elim⟩
  | call inside ih =>
    exact ⟨adjacent_cons rfl (adjacent_cons rfl (adjacent_bracket (ih trivial).1 rfl)), False.elim⟩
  | rootSteps path ih | anyDepthSteps path ih =>
    exact ⟨adjacent_cons rfl (ih trivial).1, False.elim⟩
  | steps path ih => exact ⟨(ih trivial).1, False.elim⟩
  | filter first filters more ih₁ ih₂ ih₃ =>
    obtain ⟨middle, follows⟩ := ih₂ trivial
    obtain ⟨behind, follows'⟩ := ih₃ trivial
    exact ⟨adjacent_append (adjacent_append (ih₁ trivial).1 middle (follows trivial)) behind
      (follows' trivial), False.elim⟩
  | ground path ih => exact ⟨(ih trivial).1, False.elim⟩
  | handOn lower ih => exact ⟨(ih onLadder.lower).1, False.elim⟩
  | join joins first second ih₁ ih₂ =>
    obtain ⟨follows, opens⟩ := separates_ladder onLadder joins
    exact ⟨adjacent_append (ih₁ onLadder).1 (adjacent_cons opens (ih₂ onLadder.lower).1)
      (by simpa using follows), False.elim⟩
  | signs count operand ih => exact ⟨adjacent_signs (ih onLadder.lower).1, False.elim⟩

/-- The tokens on both sides of a place. -/
theorem adjacent_of_isChain {front back : List Token} {first second : Token}
    (chain : (front ++ first :: second :: back).IsChain Adjacent) : Adjacent first second :=
  (List.isChain_cons_cons.mp (List.isChain_append.mp chain).2.1).1

end Adjacency

section Parts

/-- The expressions right inside an expression: its operands and arguments, and the predicates
of it and of its steps. -/
def Expr.children : Expr → List Expr
  | number _ | literal _ | reference _ => []
  | binary _ left right | union left right => [left, right]
  | negate operand => [operand]
  | call _ arguments => arguments
  | path steps | rootPath steps => steps.flatMap Step.predicates
  | filterPath start steps => start :: steps.flatMap Step.predicates
  | filter nodes predicates => nodes :: predicates

/-- An expression is somewhere inside another one, or is the whole of it. -/
inductive Expr.Inside (part : Expr) : Expr → Prop
  | whole : Inside part part
  | child {whole child : Expr} (member : child ∈ whole.children) (inside : Inside part child) :
      Inside part whole

/-- The outermost expressions of a phrase. -/
def Phrase.exprs : Phrase → List Expr
  | level _ value | path value | primary value => [value]
  | arguments values | predicates values => values
  | relative steps | further steps => steps.flatMap Step.predicates
  | step value | tested _ value => value.predicates
  | test _ => []

/-- Some stretch of the tokens derives the expression. -/
def Covers (tokens : List Token) (part : Expr) : Prop :=
  ∃ rungs used, rungs <:+ ladder ∧ used <:+: tokens ∧ Derives (.level rungs part) used

/-- The tokens cover whatever is inside the expression. -/
def CoversAll (tokens : List Token) (value : Expr) : Prop :=
  ∀ part, Expr.Inside part value → Covers tokens part

variable {value : Expr} {used tokens : List Token}

theorem CoversAll.within (covers : CoversAll used value) (stretch : used <:+: tokens) :
    CoversAll tokens value := by
  intro part inside
  obtain ⟨rungs, used', onLadder, stretch', derived⟩ := covers part inside
  exact ⟨rungs, used', onLadder, stretch'.trans stretch, derived⟩

theorem CoversAll.of_children {rungs : List Rung} (onLadder : rungs <:+ ladder)
    (derived : Derives (.level rungs value) tokens)
    (covers : ∀ child ∈ value.children, CoversAll tokens child) : CoversAll tokens value := by
  rintro part (_ | ⟨member, inside⟩)
  · exact ⟨rungs, tokens, onLadder, List.infix_rfl, derived⟩
  · exact covers _ member part inside

/-- What is on the ground is on the lowest place of the ladder. -/
theorem CoversAll.of_path (derived : Derives (.path value) tokens)
    (covers : ∀ child ∈ value.children, CoversAll tokens child) : CoversAll tokens value :=
  of_children List.nil_suffix (.ground derived) covers

/-- A primary expression is a filter expression without predicates and steps. -/
theorem CoversAll.of_primary (derived : Derives (.primary value) tokens)
    (covers : ∀ child ∈ value.children, CoversAll tokens child) : CoversAll tokens value := by
  refine of_path ?_ covers
  simpa [Expr.filteredBy, Expr.followedBy] using Derives.filter derived .noPredicates .noSteps

/-- With their predicates, the tokens of a primary expression cover the filter expression. -/
theorem CoversAll.filteredBy {conditions : List Expr} {front back : List Token}
    (first : Derives (.primary value) front) (filters : Derives (.predicates conditions) back)
    (covers : CoversAll front value)
    (covers' : ∀ condition ∈ conditions, CoversAll back condition) :
    CoversAll (front ++ back) (value.filteredBy conditions) := by
  have derived := Derives.filter first filters .noSteps
  simp only [Expr.filteredBy, Expr.followedBy, List.isEmpty_nil, if_true,
    List.append_nil] at derived ⊢
  split
  · exact covers.within (List.prefix_append _ _).isInfix
  · rename_i some
    rw [if_neg some] at derived
    refine .of_path derived fun child member => ?_
    rcases List.mem_cons.mp member with rfl | member
    · exact covers.within (List.prefix_append _ _).isInfix
    · exact (covers' child member).within (List.suffix_append _ _).isInfix

/-- With the steps behind it too, they cover the whole. -/
theorem CoversAll.followedBy {steps : List Step} {front back : List Token}
    (derived : Derives (.path (value.followedBy steps)) (front ++ back))
    (covers : CoversAll front value)
    (covers' : ∀ condition ∈ steps.flatMap Step.predicates, CoversAll back condition) :
    CoversAll (front ++ back) (value.followedBy steps) := by
  unfold Expr.followedBy at derived ⊢
  split
  · exact covers.within (List.prefix_append _ _).isInfix
  · rename_i some
    rw [if_neg some] at derived
    refine .of_path derived fun child member => ?_
    rcases List.mem_cons.mp member with rfl | member
    · exact covers.within (List.prefix_append _ _).isInfix
    · exact (covers' child member).within (List.suffix_append _ _).isInfix

/-- Of an even number of signs, one is left for the operand that is negated twice. -/
theorem CoversAll.signed {rungs : List Rung} (onLadder : (.sign :: rungs) <:+ ladder) (count : Nat)
    (operand : Derives (.level rungs value) tokens) (covers : CoversAll tokens value) :
    CoversAll (List.replicate (count + 1) .minus ++ tokens) (value.signed (count + 1)) := by
  have last : Token.minus :: tokens <:+: List.replicate (count + 1) .minus ++ tokens :=
    ⟨List.replicate count .minus, [], by simp [List.replicate_succ']⟩
  have once := Derives.signs 0 operand
  have derived := Derives.signs count operand
  have inner : CoversAll (List.replicate (count + 1) .minus ++ tokens) value :=
    covers.within (List.suffix_append _ _).isInfix
  unfold Expr.signed at derived once ⊢
  split
  · rename_i even
    rw [if_pos even] at derived
    refine .of_children onLadder derived fun child member => ?_
    rw [List.mem_singleton.mp member]
    refine CoversAll.within (.of_children onLadder once fun child member => ?_) last
    rw [List.mem_singleton.mp member]
    exact covers.within (List.suffix_cons _ _).isInfix
  · rename_i odd
    rw [if_neg odd] at derived
    refine .of_children onLadder derived fun child member => ?_
    rw [List.mem_singleton.mp member]
    exact inner

/-- Whatever is inside the expressions of a phrase has tokens of its own. -/
theorem Derives.coversAll {phrase : Phrase} (derived : Derives phrase tokens)
    (onLadder : phrase.OnLadder) : ∀ value ∈ phrase.exprs, CoversAll tokens value := by
  induction derived with
  | star | nameTest | prefixWildcard | nodeType | instruction | noPredicates | dot | dotDot
  | noSteps => exact List.forall_mem_nil _
  | predicate condition more ih₁ ih₂ =>
    rw [Phrase.exprs, List.forall_mem_cons]
    exact ⟨(ih₁ (.top _) _ (List.mem_singleton_self _)).within ⟨[_], _, rfl⟩,
      fun value member => (ih₂ trivial value member).within
        ((List.suffix_cons _ _).trans (List.suffix_append _ _)).isInfix⟩
  | tested tests filters ih₁ ih₂ =>
    exact fun value member => (ih₂ trivial value member).within (List.suffix_append _ _).isInfix
  | attributeTest tests ih | slash path ih =>
    exact fun value member => (ih trivial value member).within (List.suffix_cons _ _).isInfix
  | axis known tests ih =>
    exact fun value member => (ih trivial value member).within
      ((List.suffix_cons _ _).trans (List.suffix_cons _ _)).isInfix
  | child tests ih => exact ih trivial
  | doubleSlash path ih =>
    exact fun value member => (ih trivial value member).within (List.suffix_cons _ _).isInfix
  | relative step more ih₁ ih₂ =>
    intro value member
    rw [Phrase.exprs, List.flatMap_cons, List.mem_append] at member
    rcases member with member | member
    · exact (ih₁ trivial value member).within (List.prefix_append _ _).isInfix
    · exact (ih₂ trivial value member).within (List.suffix_append _ _).isInfix
  | lastArgument inside ih => exact ih (.top _)
  | argument inside more ih₁ ih₂ =>
    rw [Phrase.exprs, List.forall_mem_cons]
    exact ⟨(ih₁ (.top _) _ (List.mem_singleton_self _)).within (List.prefix_append _ _).isInfix,
      fun value member => (ih₂ trivial value member).within
        ((List.suffix_cons _ _).trans (List.suffix_append _ _)).isInfix⟩
  | reference name | literal value | number value | callNothing name =>
    exact List.forall_mem_singleton.mpr (.of_primary (by constructor) (List.forall_mem_nil _))
  | group inside ih =>
    exact fun value member => (ih (.top _) value member).within ⟨[_], [_], rfl⟩
  | call inside ih =>
    exact List.forall_mem_singleton.mpr (.of_primary (.call inside) fun child member =>
      (ih trivial child member).within ⟨[_, _], [_], rfl⟩)
  | root =>
    exact List.forall_mem_singleton.mpr (.of_path .root (List.forall_mem_nil _))
  | rootSteps path ih =>
    exact List.forall_mem_singleton.mpr (.of_path (.rootSteps path) fun child member =>
      (ih trivial child member).within (List.suffix_cons _ _).isInfix)
  | anyDepthSteps path ih =>
    exact List.forall_mem_singleton.mpr (.of_path (.anyDepthSteps path) fun child member =>
      (ih trivial child member).within (List.suffix_cons _ _).isInfix)
  | steps path ih =>
    exact List.forall_mem_singleton.mpr (.of_path (.steps path) (ih trivial))
  | filter first filters more ih₁ ih₂ ih₃ =>
    exact List.forall_mem_singleton.mpr (.followedBy (.filter first filters more)
      (.filteredBy first filters (ih₁ trivial _ (List.mem_singleton_self _)) (ih₂ trivial))
      (ih₃ trivial))
  | ground path ih => exact ih trivial
  | handOn lower ih =>
    exact fun value member => ih onLadder.lower value member
  | @join _ _ _ joined left right _ _ joins first second ih₁ ih₂ =>
    refine fun value member => ?_
    rw [List.mem_singleton.mp member]
    refine .of_children onLadder (.join joins first second) fun child member => ?_
    have operands : child = left ∨ child = right := by
      obtain ⟨operator, -, rfl⟩ | ⟨-, rfl⟩ := joins_ladder onLadder joins <;>
        simpa [Expr.children] using member
    rcases operands with rfl | rfl
    · exact (ih₁ onLadder _ (List.mem_singleton_self _)).within (List.prefix_append _ _).isInfix
    · exact (ih₂ onLadder.lower _ (List.mem_singleton_self _)).within
        ((List.suffix_cons _ _).trans (List.suffix_append _ _)).isInfix
  | signs count operand ih =>
    exact List.forall_mem_singleton.mpr (.signed onLadder count operand
      (ih onLadder.lower _ (List.mem_singleton_self _)))

end Parts

section Outermost

/-- Tokens between as many opening as closing parentheses. -/
def grouped (count : Nat) (tokens : List Token) : List Token :=
  List.replicate count .leftParen ++ tokens ++ List.replicate count .rightParen

theorem grouped_zero (tokens : List Token) : grouped 0 tokens = tokens := by simp [grouped]

theorem grouped_succ (count : Nat) (tokens : List Token) :
    grouped (count + 1) tokens = .leftParen :: grouped count tokens ++ [.rightParen] := by
  rw [grouped, List.replicate_succ, List.replicate_succ', grouped]
  simp

/-- What the tokens of an expression look like by the rule that made it, if it is none of the path
and filter expressions, the unions and the negations. -/
def Made : Expr → List Token → Prop
  | .number value, tokens => tokens = [.number value]
  | .literal value, tokens => tokens = [.literal value]
  | .reference name, tokens => tokens = [.reference name]
  | .call name arguments, tokens => ∃ inside,
    tokens = .function name :: .leftParen :: inside ++ [.rightParen] ∧
      (arguments = [] → inside = [])
  | .binary operator left right, tokens => ∃ upper lower front back,
    tokens = front ++ operator.token :: back ∧ upper <:+ ladder ∧ lower <:+ ladder ∧
      Derives (.level upper left) front ∧ Derives (.level lower right) back
  | _, _ => True

/-- The expression that a phrase stands for, if it stands for one. -/
def Phrase.value? : Phrase → Option Expr
  | level _ value | path value | primary value => some value
  | _ => none

private theorem ne_nil_of_arguments {values : List Expr} {tokens : List Token}
    (derived : Derives (.arguments values) tokens) : values ≠ [] := by
  cases derived <;> exact List.cons_ne_nil _ _

private theorem grouped_of_made {value : Expr} {tokens : List Token} (made : Made value tokens) :
    ∃ count inner, tokens = grouped count inner ∧ Made value inner :=
  ⟨0, tokens, (grouped_zero tokens).symm, made⟩

private theorem made_signed (count : Nat) (value : Expr) (tokens : List Token) :
    Made (value.signed count) tokens := by
  unfold Expr.signed
  split <;> trivial

private theorem made_filter {start : Expr} (conditions : List Expr) (steps : List Step)
    (tokens : List Token) :
    Made ((start.filteredBy conditions).followedBy steps) tokens ∨
      conditions = [] ∧ steps = [] := by
  unfold Expr.followedBy
  split
  · unfold Expr.filteredBy
    split <;> simp_all [Made]
  · exact .inl trivial

/-- The parentheses around it apart, an expression has the tokens of the rule that made it. -/
theorem Derives.outermost {phrase : Phrase} {tokens : List Token} (derived : Derives phrase tokens)
    (onLadder : phrase.OnLadder) : ∀ value ∈ phrase.value?,
      ∃ count inner, tokens = grouped count inner ∧ Made value inner := by
  induction derived with
  | star | nameTest | prefixWildcard | nodeType | instruction | noPredicates | predicate | tested
  | dot | dotDot | attributeTest | axis | child | noSteps | slash | doubleSlash | relative
  | lastArgument | argument =>
    intro value same
    cases same
  | reference | literal | number =>
    intro value same
    cases same
    exact grouped_of_made rfl
  | group inside ih =>
    intro value same
    cases same
    obtain ⟨count, inner, rfl, made⟩ := ih (.top _) _ rfl
    exact ⟨count + 1, inner, (grouped_succ count inner).symm, made⟩
  | callNothing name =>
    intro value same
    cases same
    exact grouped_of_made ⟨[], rfl, fun _ => rfl⟩
  | call inside ih =>
    intro value same
    cases same
    exact grouped_of_made ⟨_, rfl, fun none => absurd none (ne_nil_of_arguments inside)⟩
  | root | rootSteps | anyDepthSteps | steps =>
    intro value same
    cases same
    exact grouped_of_made trivial
  | @filter start conditions steps _ _ _ first filters more ih₁ ih₂ ih₃ =>
    intro value same
    cases same
    rcases made_filter conditions steps _ with made | ⟨rfl, rfl⟩
    · exact grouped_of_made made
    · cases filters
      cases more with
      | noSteps => simpa [Expr.filteredBy, Expr.followedBy] using ih₁ trivial _ rfl
      | slash path => cases path
  | ground path ih => exact ih trivial
  | handOn lower ih => exact ih onLadder.lower
  | join joins first second ih₁ ih₂ =>
    intro value same
    cases same
    refine grouped_of_made ?_
    obtain ⟨operator, rfl, rfl⟩ | ⟨rfl, rfl⟩ := joins_ladder onLadder joins
    · exact ⟨_, _, _, _, rfl, onLadder, (List.suffix_cons _ _).trans onLadder, first, second⟩
    · trivial
  | signs count operand ih =>
    intro value same
    cases same
    exact grouped_of_made (made_signed _ _ _)

end Outermost

end XmlSelect.XPath
