import XmlSelect.Proofs.ExpressionDepth
import XmlSelect.Proofs.GrammarCompleteness

/-! When the limit on the depth of expressions is kept. A tree needs tokens for its depth, so that
short expressions keep it; so do those in which only flat operands stand in front of operators and
no two signs follow each other, because there the room that is left counts all that is above. -/
namespace XmlSelect.XPath

section Length

/-- So many tokens are enough for the depth of the phrase. The least that makes three levels is a
predicate or an argument on an operand with two signs, which takes five. -/
def Phrase.Pays (count : Nat) : Phrase → Prop
  | test _ => 1 ≤ count
  | tested _ value | step value => 5 * value.depth + 3 ≤ 3 * count
  | relative steps => 5 * stepsDepth steps + 3 ≤ 3 * count
  | further steps => 5 * stepsDepth steps ≤ 3 * count
  | predicates values => 5 * nestedDepth values ≤ 3 * count
  | arguments values => 5 * nestedDepth values ≤ 3 * count + 6
  | primary value | path value => 5 * value.depth + 3 ≤ 3 * count
  | level rungs value =>
    1 ≤ count ∧ 5 * value.depth ≤ 3 * count + 1 ∧
      (.sign ∉ rungs → 5 * value.depth + 3 ≤ 3 * count)

theorem Derives.pays {phrase : Phrase} {tokens : List Token} (derived : Derives phrase tokens)
    (onLadder : phrase.OnLadder) : phrase.Pays tokens.length := by
  induction derived with
  | star | nameTest | prefixWildcard | nodeType | instruction => simp [Phrase.Pays]
  | noPredicates | noSteps => exact Nat.zero_le _
  | dot | dotDot => exact Nat.le_refl 3
  | reference | literal | number | root => exact Nat.le_refl 3
  | callNothing => simp [Phrase.Pays, Expr.depth, nestedDepth]
  | predicate _ _ ih₁ ih₂ =>
    have first := (ih₁ (.top _)).2.1
    have others := ih₂ trivial
    simp only [Phrase.Pays, nestedDepth, List.cons_append, List.length_append,
      List.length_cons] at others ⊢
    omega
  | tested _ _ ih₁ ih₂ =>
    have front := ih₁ trivial
    have back := ih₂ trivial
    simp only [Phrase.Pays, Step.depth, List.length_append] at front back ⊢
    omega
  | attributeTest _ ih | axis _ _ ih =>
    have test := ih trivial
    simp only [Phrase.Pays, List.length_cons] at test ⊢
    omega
  | child _ ih => exact ih trivial
  | slash _ ih =>
    have path := ih trivial
    simp only [Phrase.Pays, List.length_cons] at path ⊢
    omega
  | doubleSlash _ ih =>
    have path := ih trivial
    simp only [Phrase.Pays, stepsDepth, Step.depth, nestedDepth, List.length_cons] at path ⊢
    omega
  | relative _ _ ih₁ ih₂ =>
    have front := ih₁ trivial
    have back := ih₂ trivial
    simp only [Phrase.Pays, stepsDepth, List.length_append] at front back ⊢
    omega
  | lastArgument _ ih =>
    have inside := (ih (.top _)).2.1
    simp only [Phrase.Pays, nestedDepth]
    omega
  | argument _ _ ih₁ ih₂ =>
    have first := (ih₁ (.top _)).2.1
    have others := ih₂ trivial
    simp only [Phrase.Pays, nestedDepth, List.length_append, List.length_cons] at others ⊢
    omega
  | group _ ih =>
    have inside := (ih (.top _)).2.1
    simp only [Phrase.Pays, List.cons_append, List.length_append, List.length_cons,
      List.length_nil]
    omega
  | call _ ih =>
    have inside := ih trivial
    simp only [Phrase.Pays, Expr.depth, List.cons_append, List.length_append, List.length_cons,
      List.length_nil] at inside ⊢
    omega
  | rootSteps _ ih =>
    have path := ih trivial
    simp only [Phrase.Pays, Expr.depth, List.length_cons] at path ⊢
    omega
  | anyDepthSteps _ ih =>
    have path := ih trivial
    simp only [Phrase.Pays, Expr.depth, stepsDepth, Step.depth, nestedDepth, List.length_cons]
      at path ⊢
    omega
  | steps _ ih => exact ih trivial
  | @filter start conditions steps _ _ _ _ _ _ ih₁ ih₂ ih₃ =>
    have first := ih₁ trivial
    have filters := ih₂ trivial
    have more := ih₃ trivial
    have whole := depth_filter start conditions steps
    simp only [Phrase.Pays, List.length_append] at first filters more ⊢
    omega
  | ground _ ih =>
    have path := ih trivial
    simp only [Phrase.Pays] at path ⊢
    omega
  | handOn _ ih =>
    obtain ⟨some, most, unsigned⟩ := ih onLadder.lower
    exact ⟨some, most, fun absent => unsigned fun member => absent (List.mem_cons_of_mem _ member)⟩
  | join joins _ _ ih₁ ih₂ =>
    obtain ⟨some₁, most₁, unsigned₁⟩ := ih₁ onLadder
    obtain ⟨some₂, most₂, unsigned₂⟩ := ih₂ onLadder.lower
    have depth := depth_join (onLadder.subset List.mem_cons_self) joins
    simp only [Phrase.Pays, depth, List.length_append, List.length_cons]
    refine ⟨by omega, by omega, fun absent => ?_⟩
    have left := unsigned₁ absent
    have right := unsigned₂ fun member => absent (List.mem_cons_of_mem _ member)
    omega
  | signs count _ ih =>
    obtain ⟨-, -, unsigned⟩ := ih onLadder.lower
    have operand := unsigned onLadder.noSign
    simp only [Phrase.Pays, List.length_append, List.length_replicate, List.mem_cons_self,
      not_true_eq_false, false_implies, and_true, Expr.signed]
    refine ⟨by omega, ?_⟩
    split
    · rename_i even
      have two : 1 ≤ count := by
        rw [beq_iff_eq] at even
        omega
      simp only [Expr.depth]
      omega
    · simp only [Expr.depth]
      omega

end Length

/-- Whatever stands in front of an operator as its operand is flat, and no two signs follow each
other. -/
structure Plain (tokens : List Token) : Prop where
  operands : ∀ {level : Level} {rungs : List Rung} {operator : Token}
    {joined : Expr → Expr → Expr} {operand : Expr} {used : List Token},
    (.binary level :: rungs) <:+ ladder → level operator = some joined →
      used ++ [operator] <:+: tokens → Derives (.level rungs operand) used → operand.depth = 0
  signs : ¬[.minus, .minus] <:+: tokens

section Room

variable {whole tokens : List Located} (plain : Plain (whole.map (·.token)))

include plain

/-- An operand is flat if an operator of the level above is next. -/
theorem operand_flat {level : Level} {rungs : List Rung} {room : Nat} {reader : Reader Expr}
    (onLadder : (.binary level :: rungs) <:+ ladder) (explains : Explains (.level rungs) reader)
    (within : tokens <:+ whole) (yields : Yields (Shallow whole Expr.depth room) (reader tokens)) :
    Yields (fun value rest => Shallow whole Expr.depth room value rest ∧
      ∀ found ∈ rest.head?, level found.token ≠ none → value.depth = 0) (reader tokens) := by
  cases read : reader tokens with
  | error stuck => trivial
  | ok parsed =>
    rw [read] at yields
    refine ⟨yields, ?_⟩
    intro found next joins
    obtain ⟨used, same, derived⟩ := explains _ _ _ _ read
    obtain ⟨behind, rest⟩ := List.head?_eq_some_iff.mp next
    obtain ⟨joined, joins⟩ := Option.ne_none_iff_exists'.mp joins
    refine plain.operands onLadder joins ?_ derived
    obtain ⟨front, rfl⟩ := within
    rw [same, rest]
    exact ⟨front.map (·.token), behind.map (·.token), by simp⟩

section Chains

variable {level : Level} {rungs : List Rung} {operand : Nat → Reader Expr}
  (onLadder : (.binary level :: rungs) <:+ ladder)
  (explains : ∀ room, Explains (.level rungs) (operand room))
  (operands : ∀ room tokens, tokens <:+ whole →
    Yields (Shallow whole Expr.depth room) (operand room tokens))

include onLadder explains operands

/-- As long as a chain goes on, it is no deeper than the operators that it has used up. -/
theorem chainTail_room {done room : Nat} {left : Expr} (shallow : left.depth ≤ done + room)
    (flat : ∀ found ∈ tokens.head?, level found.token ≠ none → left.depth ≤ done)
    (within : tokens <:+ whole) :
    Yields (Shallow whole Expr.depth (done + room))
      (chainTail level operand left room tokens) := by
  fun_induction chainTail level operand left room tokens generalizing done with
  | case1 left room => exact ⟨shallow, within⟩
  | case2 left room found tokens stops => exact ⟨shallow, within⟩
  | case3 => trivial
  | case4 left found tokens join room joins ih =>
    have within := (List.suffix_cons found tokens).trans within
    have used : left.depth ≤ done := flat found rfl (by simp [joins])
    have depth := depth_join (onLadder.subset List.mem_cons_self) joins left
    refine .bind (operand_flat plain onLadder (explains room) within
      (operands room tokens within)) ?_
    rintro right tokens₁ short₁ ⟨⟨bounded, within₁⟩, last⟩
    have deeper : (join left right).depth ≤ done + 1 + room := by
      rw [depth]
      omega
    refine .bind (ih _ _ deeper ?_ within₁) ?_
    · intro found next another
      rw [depth, last found next another]
      omega
    · rintro chained tokens₂ short₂ ⟨bounded', within₂⟩
      exact ⟨bounded'.trans_eq (Nat.succ_add_eq_add_succ done room), within₂⟩

theorem chain_room (room : Nat) (within : tokens <:+ whole) :
    Yields (Shallow whole Expr.depth room) (chain level operand room tokens) := by
  refine .bind (operand_flat plain onLadder (explains room) within
    (operands room tokens within)) ?_
  rintro first tokens₁ short₁ ⟨⟨bounded, within₁⟩, last⟩
  have tail := chainTail_room plain onLadder explains operands
    (bounded.trans_eq (Nat.zero_add room).symm)
    (fun found next joins => (last found next joins).le) within₁
  rw [Nat.zero_add] at tail
  exact .bind tail fun chained tokens₂ short₂ bounded' => bounded'

end Chains

theorem length_signs (some : tokens.takeWhile (·.token = .minus) ≠ [])
    (within : tokens <:+ whole) : (tokens.takeWhile (·.token = .minus)).length = 1 := by
  obtain ⟨front, rfl⟩ := within
  obtain ⟨rest, same⟩ := List.takeWhile_prefix (l := tokens) (·.token = .minus)
  have isMinus := List.all_eq_true.mp (List.all_takeWhile (l := tokens) (p := (·.token = .minus)))
  generalize tokens.takeWhile (·.token = .minus) = signs at some same isMinus ⊢
  match signs with
  | [] => exact absurd rfl some
  | [_] => rfl
  | first :: second :: others =>
    have minus₁ : first.token = .minus := by simpa using isMinus first (by simp)
    have minus₂ : second.token = .minus := by simpa using isMinus second (by simp)
    refine absurd ⟨front.map (·.token), (others ++ rest).map (·.token), ?_⟩ plain.signs
    simp [← same, minus₁, minus₂]

/-- The only sign takes as much from the room as it makes the expression deeper. -/
theorem signed_room {operand : Nat → Reader Expr}
    (operands : ∀ room tokens, tokens <:+ whole →
      Yields (Shallow whole Expr.depth room) (operand room tokens))
    (room : Nat) (within : tokens <:+ whole) :
    Yields (Shallow whole Expr.depth room) (signed operand room tokens) := by
  unfold signed
  simp only
  split
  · exact operands room tokens within
  · rename_i signs
    cases room with
    | zero => trivial
    | succ room =>
      refine .bind (operands room _ ((List.dropWhile_suffix _).trans within)) ?_
      rintro inner tokens₁ short₁ ⟨bounded, within₁⟩
      rw [length_signs plain (by simpa using signs) within]
      exact ⟨Nat.succ_le_succ bounded, within₁⟩

theorem climb_room {nested : Nat → Reader Expr} {rungs : List Rung} (onLadder : rungs <:+ ladder)
    (explains : ∀ room, Explains (.level ladder) (nested room))
    (inner : ∀ room tokens, tokens <:+ whole →
      Yields (Shallow whole (·.depth + 1) room) (nested room tokens))
    (room : Nat) (tokens : List Located) (within : tokens <:+ whole) :
    Yields (Shallow whole Expr.depth room) (climb rungs nested room tokens) := by
  induction rungs generalizing room tokens with
  | nil => exact pathOrFilter_depth (inner room) within
  | cons rung rungs ih =>
    have operands := ih ((List.suffix_cons rung rungs).trans onLadder)
    cases rung with
    | sign => exact signed_room plain operands room within
    | binary level =>
      exact chain_room plain onLadder (explains_climb explains rungs) operands room within

theorem expression_room (layers room : Nat) (tokens : List Located) (within : tokens <:+ whole) :
    Yields (Shallow whole Expr.depth room) (expression layers room tokens) := by
  induction layers generalizing room tokens with
  | zero => trivial
  | succ layers ih =>
    rw [expression_succ]
    refine climb_room plain List.suffix_rfl
      (explains_descend (explains_expression layers)) (fun room tokens within => ?_) room tokens
      within
    cases room with
    | zero => trivial
    | succ room =>
      exact (ih room tokens within).imp fun _ _ => And.imp_left Nat.succ_le_succ

end Room

/-- Short expressions are no deeper than the limit, and neither are plain ones of any length. -/
theorem depth_le_maxDepth {text : Text} {located : List Located} {expr : Expr}
    (scanned : tokenize text = .ok located) (read : parse text = .ok expr)
    (tame : 3 * located.length < 5 * maxDepth + 4 ∨ Plain (located.map (·.token))) :
    expr.depth ≤ maxDepth := by
  rcases tame with short | plain
  · have derived := (parse_iff_derives scanned).1 expr read
    have pays := (derived.pays (.top expr)).2.1
    rw [List.length_map] at pays
    omega
  · obtain ⟨located', shorter, scanned', read⟩ := parse_ok read
    obtain rfl := Except.ok.inj (scanned.symm.trans scanned')
    have bounded := expression_room plain (maxDepth + 1) maxDepth located List.suffix_rfl
    rw [read] at bounded
    exact bounded.1

/-- Signs, a predicate and a sum; and a call in which there are no operators. -/
theorem depth_le_maxDepth_signs :
    (∃ located expr, tokenize "--a[1 + --2]".toList = .ok located ∧
      parse "--a[1 + --2]".toList = .ok expr ∧ expr.depth = 6 ∧ expr.depth ≤ maxDepth) ∧
    ∃ located expr, tokenize "f(a[b])".toList = .ok located ∧
      parse "f(a[b])".toList = .ok expr ∧ Plain (located.map (·.token)) ∧
      expr.depth ≤ maxDepth := by
  constructor
  · have short : (tokenize "--a[1 + --2]".toList).toOption.map List.length = some 10 ∧
        (parse "--a[1 + --2]".toList).toOption.map Expr.depth = some 6 := by decide +kernel
    cases scanned : tokenize "--a[1 + --2]".toList with
    | error _ => rw [scanned] at short; cases short.1
    | ok located =>
      cases read : parse "--a[1 + --2]".toList with
      | error _ => rw [read] at short; cases short.2
      | ok expr =>
        rw [scanned, read] at short
        have length : located.length = 10 := Option.some.inj short.1
        refine ⟨located, expr, rfl, rfl, Option.some.inj short.2, ?_⟩
        exact depth_le_maxDepth scanned read (.inl (by rw [length]; decide))
  · have call : (tokenize "f(a[b])".toList).toOption.map (·.map (·.token)) =
          some [.function ['f'], .leftParen, .nameTest ['a'], .leftBracket, .nameTest ['b'],
            .rightBracket, .rightParen] ∧
        (parse "f(a[b])".toList).toOption.isSome = true := by decide +kernel
    cases scanned : tokenize "f(a[b])".toList with
    | error _ => rw [scanned] at call; cases call.1
    | ok located =>
      cases read : parse "f(a[b])".toList with
      | error _ => rw [read] at call; cases call.2
      | ok expr =>
        rw [scanned] at call
        have tokens : located.map (·.token) = _ := Option.some.inj call.1
        have plain : Plain (located.map (·.token)) := by
          rw [tokens]
          constructor
          · intro level rungs operator joined operand used onLadder joins stretch _
            have member := stretch.subset (List.mem_append_right used List.mem_cons_self)
            obtain ⟨operator, rfl, -⟩ | ⟨rfl, -⟩ :=
              joins_of_mem (onLadder.subset List.mem_cons_self) joins
            · cases operator <;> simp [Operator.token] at member
            · simp at member
          · intro stretch
            have member := stretch.subset List.mem_cons_self
            simp at member
        exact ⟨located, expr, rfl, rfl, plain, depth_le_maxDepth scanned read (.inr plain)⟩

/-- One token more than what is short can be too much. -/
example :
    let text := (List.replicate 85 "--a[".toList).flatten ++ "--a".toList ++ List.replicate 85 ']'
    ((tokenize text).toOption.map fun located => 3 * located.length) = some (5 * maxDepth + 4) ∧
      (parse text).toOption.map Expr.depth = some (maxDepth + 1) := by decide +kernel

/-- The products use up the room, and the sum that they are the left operand of is above them. -/
theorem product_chain_too_deep :
    ∃ expr, parse ('1' :: (List.replicate maxDepth "*1".toList).flatten ++ "+1".toList) = .ok expr ∧
      maxDepth < expr.depth := by
  have depth : (parse ('1' :: (List.replicate maxDepth "*1".toList).flatten ++
      "+1".toList)).toOption.map Expr.depth = some (maxDepth + 1) := by decide +kernel
  generalize '1' :: (List.replicate maxDepth "*1".toList).flatten ++ "+1".toList = text at depth ⊢
  cases read : parse text with
  | error _ => rw [read] at depth; cases depth
  | ok expr =>
    rw [read] at depth
    exact ⟨expr, rfl, Nat.lt_of_succ_le (Option.some.inj depth).ge⟩

end XmlSelect.XPath
