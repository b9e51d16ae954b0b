import XmlSelect.Proofs.LiteralReading
import XmlSelect.Proofs.PhraseShape
import XmlSelect.XPath.Value

/-! Constant operands of `or` and `and` in accepted expressions. The check reads them off the text
in lower case; where it reads literals as the grammar does, none that decides the whole gets past
it. -/
namespace XmlSelect

namespace XPath

/-- The value of a number or a string literal. -/
def Expr.atom? : Expr → Option Value
  | number value => some (.number value)
  | literal value => some (.string value)
  | _ => none

/-- The value of an operand that is a call of `true` or `false`, or a test of two literals for
equality. -/
def Expr.constant? : Expr → Option Bool
  | call name [] =>
    if name = "true".toList then some true else if name = "false".toList then some false else none
  | binary operator left right =>
    if operator = .equal ∨ operator = .notEqual then do
      let left ← left.atom?
      let right ← right.atom?
      return Value.compareAtoms operator left right
    else none
  | _ => none

/-- The value of one operand that settles the value of the whole. -/
def Operator.decisive? : Operator → Option Bool
  | or => some true
  | and => some false
  | _ => none

/-- One of two literals with the sign of a comparison between them is in parentheses of its own. -/
def GroupedLiteral (tokens : List Token) : Prop :=
  ∃ count literal rest, tokens = List.replicate count .leftParen ++ literal :: rest ∧
    literal.endsOperand = true ∧
    (rest.head? = some .rightParen ∨ ∃ sign rest', rest = sign :: .leftParen :: rest')

end XPath

namespace Gate

open XPath

section Operands

/-- Whether a literal starts with the character. -/
def startsLiteral (c : Char) : Bool := "0123456789.'\"".toList.contains c

theorem of_startsLiteral (holds : Char → Bool) {c : Char}
    (all : "0123456789.'\"".toList.all holds = true) (starts : startsLiteral c = true) :
    holds c = true :=
  List.all_eq_true.mp all c (by simpa [startsLiteral] using starts)

theorem startsLiteral_of_isDigit {c : Char} (digit : c.isDigit = true) :
    startsLiteral c = true := by
  have code : 48 ≤ c.toNat ∧ c.toNat ≤ 57 := Char.isDigit_iff_toNat.mp digit
  have all : ((List.range 10).all fun n => startsLiteral (Char.ofNat (48 + n))) = true := by decide
  have same : Char.ofNat (48 + (c.toNat - 48)) = c := by
    rw [Nat.add_sub_cancel' code.1, Char.ofNat_toNat]
  rw [← same]
  exact List.all_eq_true.mp all _ (List.mem_range.mpr (by omega))

variable {operandBefore : Bool} {position : Nat} {text written after : Text} {token : Token}
  {back : List Located} {rest : List Token}

/-- A literal starts with a digit, a point or a quote. -/
theorem head_of_literal {literal : Literal} (lexeme : Lexeme operandBefore token written after)
    (known : literalOf? token = some literal) :
    ∃ first others, written = first :: others ∧ startsLiteral first = true := by
  cases lexeme with
  | mark isMark => cases token <;> cases known <;> cases isMark
  | integer nonempty digits =>
    obtain ⟨first, others, rfl⟩ := List.exists_cons_of_ne_nil nonempty
    exact ⟨first, others, rfl, startsLiteral_of_isDigit (digits first List.mem_cons_self)⟩
  | @decimal whole fraction _ _ digits =>
    cases whole with
    | nil => exact ⟨'.', fraction, rfl, by decide⟩
    | cons first whole =>
      exact ⟨first, _, rfl, startsLiteral_of_isDigit (digits first List.mem_cons_self)⟩
  | literal isQuote => exact ⟨_, _, rfl, by rcases isQuote with rfl | rfl <;> decide⟩
  | reference => cases known
  | operator known' => rcases operator_cases known' with rfl | rfl | rfl | rfl <;> cases known
  | name => rw [literalOf?_ofName] at known; cases known
  | prefixWildcard => rw [literalOf?_ofPrefixWildcard] at known; cases known

/-- The next token and the text from it on. -/
theorem scan_cons_token (scanned : scan operandBefore position text = .ok back)
    (tokens : back.map (·.token) = token :: rest) :
    ∃ gap written after position' back', text = gap ++ (written ++ after) ∧
      (∀ c ∈ gap, isBlank c = true) ∧ Lexeme operandBefore token written after ∧
      scan token.endsOperand position' after = .ok back' ∧ back'.map (·.token) = rest := by
  cases back with
  | nil => cases tokens
  | cons found back =>
    obtain ⟨rfl, rfl⟩ := List.cons.inj tokens
    obtain ⟨gap, written, after, same, blanks, -, lexeme, behind⟩ := scan_cons_ok scanned
    exact ⟨gap, written, after, _, back, same, blanks, lexeme, behind, rfl⟩

/-- Opening parentheses, and the token behind them. -/
theorem scan_opened {count : Nat} (scanned : scan operandBefore position text = .ok back)
    (tokens : back.map (·.token) = List.replicate count .leftParen ++ token :: rest) :
    ∃ opened operandBefore written after position' back', text = opened ++ (written ++ after) ∧
      (∀ c ∈ opened, isBlank c = true ∨ c = '(') ∧ Lexeme operandBefore token written after ∧
      scan token.endsOperand position' after = .ok back' ∧ back'.map (·.token) = rest := by
  induction count generalizing operandBefore position text back with
  | zero =>
    obtain ⟨gap, written, after, position', back', same, blanks, lexeme, behind, tokens⟩ :=
      scan_cons_token scanned tokens
    exact ⟨gap, _, written, after, position', back', same, fun c member => .inl (blanks c member),
      lexeme, behind, tokens⟩
  | succ count ih =>
    obtain ⟨gap, _, after, position', back', rfl, blanks, lexeme, behind, tokens⟩ :=
      scan_cons_token scanned tokens
    obtain rfl : _ = ['('] := lexeme.text_of_isMark rfl
    obtain ⟨opened, operandBefore', written, after', position'', back'', rfl, blanks', lexeme',
      behind', tokens'⟩ := ih behind tokens
    refine ⟨gap ++ '(' :: opened, operandBefore', written, after', position'', back'', by simp, ?_,
      lexeme', behind', tokens'⟩
    intro c member
    rcases List.mem_append.mp member with member | member
    · exact .inl (blanks c member)
    · rcases List.mem_cons.mp member with rfl | member
      · exact .inr rfl
      · exact blanks' c member

/-- What may stand behind an operand does not start with a point. -/
theorem noPoint_of_follows (scanned : scan operandBefore position text = .ok back)
    (follows : ∀ token ∈ (back.map (·.token)).head?, token.followsOperand = true) :
    text.head? ≠ some '.' := by
  intro point
  obtain ⟨others, rfl⟩ := List.head?_eq_some_iff.mp point
  cases back with
  | nil => exact absurd (scan_nil_ok scanned '.' List.mem_cons_self) (by decide)
  | cons found back =>
    obtain ⟨gap, written, after, same, blanks, -, lexeme, -⟩ := scan_cons_ok scanned
    cases gap with
    | nil =>
      obtain ⟨first, tail, rfl⟩ := List.exists_cons_of_ne_nil lexeme.ne_nil
      cases same
      have pointed := lexeme.isPointed_of_head rfl
      have follows := follows found.token rfl
      generalize found.token = token at pointed follows
      cases token <;> cases pointed <;> cases follows
    | cons c gap =>
      cases same
      exact absurd (blanks '.' List.mem_cons_self) (by decide)

private theorem dropWhile_gap {gap : Text} (blanks : ∀ c ∈ gap, isBlank c = true) {c : Char}
    (printed : isSpace c = false) (behind : Text) :
    (Text.toLower (gap ++ c :: behind)).dropWhile isSpace = Text.toLower (c :: behind) := by
  have spaces : ∀ c ∈ gap, isSpace c = true := fun c member =>
    isSpace_of_isAsciiSpace (isAsciiSpace_of_isBlank (blanks c member))
  rw [Text.dropWhile_toLower isSpace_toLower, List.dropWhile_append_of_pos spaces,
    List.dropWhile_cons, printed]
  rfl

/-- A call of a function without arguments is seen by its name. -/
theorem startsWithCall_of_scan {name : Text} (small : Text.toLower name = name)
    (scanned : scan false position after = .ok back)
    (tokens : back.map (·.token) = .leftParen :: .rightParen :: rest) :
    startsWithCall name (Text.toLower (name ++ after)) = true := by
  obtain ⟨gap, opening, behind, _, _, same, blanks, lexeme, scanned₁, tokens₁⟩ :=
    scan_cons_token scanned tokens
  obtain ⟨gap', closing, behind', _, _, same', blanks', lexeme', -, -⟩ :=
    scan_cons_token scanned₁ tokens₁
  rw [lexeme.text_of_isMark rfl] at same
  rw [lexeme'.text_of_isMark rfl] at same'
  have opens := dropWhile_gap blanks (c := '(') (by decide) behind
  have closes := dropWhile_gap blanks' (c := ')') (by decide) behind'
  have call : (Text.toLower after).dropWhile isSpace = '(' :: Text.toLower behind := by
    rw [same]
    exact opens
  have close : ((Text.toLower behind).dropWhile isSpace).head? = some ')' := by
    rw [same']
    exact congrArg List.head? closes
  simp [startsWithCall, Text.toLower_append, small, call, close]

/-- Two literals with a sign between them are compared by what the check takes them for. -/
theorem constantComparison?_of_scan {sign second : Token} {left right : Literal}
    (lexeme : Lexeme operandBefore token written after) (known : literalOf? token = some left)
    (isSign : sign = .equal ∨ sign = .notEqual) (known' : literalOf? second = some right)
    (scanned : scan token.endsOperand position after = .ok back)
    (tokens : back.map (·.token) = sign :: second :: rest)
    (follows : ∀ token ∈ rest.head?, token.followsOperand = true) :
    constantComparison? (Text.toLower (written ++ after)) =
      some (left.equals right != (sign == .notEqual)) := by
  have noPoint : after.head? ≠ some '.' := by
    refine noPoint_of_follows scanned ?_
    rw [tokens]
    rintro _ ⟨⟩
    rcases isSign with rfl | rfl <;> rfl
  obtain ⟨gap, comparison, behind, _, _, same, blanks, lexeme₁, scanned₁, tokens₁⟩ :=
    scan_cons_token scanned tokens
  obtain ⟨gap', written', after', _, _, same', blanks', lexeme', scanned₂, tokens₂⟩ :=
    scan_cons_token scanned₁ tokens₁
  have noPoint' : after'.head? ≠ some '.' := noPoint_of_follows scanned₂ (tokens₂ ▸ follows)
  obtain ⟨first, others, rfl, starts⟩ := head_of_literal lexeme' known'
  have printed : isSpace first = false := by
    simpa using of_startsLiteral (fun c => !isSpace c) (by decide) starts
  have read := read?_of_lexeme lexeme known noPoint
  have read' := read?_of_lexeme lexeme' known' noPoint'
  have operand : (Text.toLower behind).dropWhile isSpace =
      Text.toLower (first :: others ++ after') := by
    rw [same']
    exact dropWhile_gap blanks' printed (others ++ after')
  rcases isSign with rfl | rfl
  · rw [lexeme₁.text_of_isMark rfl] at same
    have operator : (Text.toLower after).dropWhile isSpace = '=' :: Text.toLower behind := by
      rw [same]
      exact dropWhile_gap blanks (c := '=') (by decide) behind
    simp only [constantComparison?, read, operator, operand, read', bind, Option.bind, pure]
    rfl
  · rw [lexeme₁.text_of_isMark rfl] at same
    have operator : (Text.toLower after).dropWhile isSpace = '!' :: '=' :: Text.toLower behind := by
      rw [same]
      exact dropWhile_gap blanks (c := '!') (by decide) ('=' :: behind)
    simp only [constantComparison?, read, operator, operand, read', bind, Option.bind, pure]
    rfl

/-- The characters that an operand of a word may start with, if the check is to see it. -/
def startsConstant (c : Char) : Bool := XPath.isNameChar c || c == '\'' || c == '"'

private theorem not_opening_of_startsConstant {c : Char} (starts : startsConstant c = true) :
    (isAsciiSpace c || c == '(') = false := by
  rw [Bool.eq_false_iff]
  intro opening
  simp only [isAsciiSpace, isBlank, Bool.or_eq_true, beq_iff_eq] at opening
  rcases opening with ((((rfl | rfl) | rfl) | rfl) | rfl) | rfl <;> revert starts <;> decide

/-- A word in front of a constant operand is seen unless a character of a name touches it. -/
theorem decides_append {keyword before opened operand : Text} {first : Char} {value : Bool}
    (lexical : isName keyword = true) (small : Text.toLower keyword = keyword)
    (separated : ∀ c ∈ before.getLast?, XPath.isNameChar c = false)
    (opens : ∀ c ∈ opened, isBlank c = true ∨ c = '(') (starts : startsConstant first = true)
    (stops : StopsName (opened ++ first :: operand))
    (constant : constantOperand? (Text.toLower (first :: operand)) = some value) :
    decides keyword value
      (Text.toLower (before ++ (keyword ++ (opened ++ first :: operand)))) = true := by
  obtain ⟨previous, bounded, found⟩ := mem_occurrences_toLower
    (ne_nil_of_isName lexical) (fun c member => isNameChar_of_mem lexical member) separated
    (opened ++ first :: operand)
  rw [small] at found
  have skipped : (Text.toLower (opened ++ first :: operand)).dropWhile
      (fun c => isAsciiSpace c || c == '(') = Text.toLower (first :: operand) := by
    rw [Text.dropWhile_toLower, List.dropWhile_append_of_pos, List.dropWhile_cons,
      not_opening_of_startsConstant starts]
    · rfl
    · intro c member
      rcases opens c member with blank | rfl
      · simp [isAsciiSpace_of_isBlank blank]
      · rfl
    · exact same_toLower (fun c => isAsciiSpace c || c == '(') (by decide)
  have ends : (Text.toLower (opened ++ first :: operand)).head?.any (fun c =>
      isAsciiSpace c || c.isDigit || c == '(' || c == '\'' || c == '"') = true := by
    cases opened with
    | nil =>
      have quote : first = '\'' ∨ first = '"' := by
        simpa [startsConstant, stops first rfl] using starts
      rcases quote with rfl | rfl <;> rfl
    | cons c opened =>
      rcases opens c List.mem_cons_self with blank | rfl
      · simp [Text.toLower, isAsciiSpace, isBlank_toLower, blank]
      · rfl
  rw [decides, List.any_eq_true]
  exact ⟨_, found, by simp [isBounded, bounded, ends, skipped, constant]⟩

end Operands

section Comparison

/-- What the check takes a value for. -/
def literalOf : Value → Literal
  | .string value => .string (Text.toLower value)
  | value => .number value.toNumber

/-- The one token of a number or a string literal. -/
theorem atom_token {operand : Expr} {value : Value} (known : operand.atom? = some value) :
    ∃ token, token.endsOperand = true ∧ literalOf? token = some (literalOf value) ∧
      ∀ tokens, Made operand tokens → tokens = [token] := by
  cases operand <;> cases known
  · exact ⟨.number _, rfl, rfl, fun _ => id⟩
  · exact ⟨.literal _, rfl, rfl, fun _ => id⟩

/-- The check compares literals as XPath does, but for strings that differ in the case of letters
only. -/
theorem equals_literalOf {left right : Expr} {first second : Value}
    (known : left.atom? = some first) (known' : right.atom? = some second) :
    (literalOf first).equals (literalOf second) = first.equals second ∨
      ∃ text text', left = .literal text ∧ right = .literal text' ∧ text ≠ text' ∧
        Text.toLower text = Text.toLower text' := by
  cases left <;> cases known <;> cases right <;> cases known'
  · exact .inl rfl
  · exact .inl (congrArg (Double.equal _) (readNumber_toLower _))
  · exact .inl (congrArg (Double.equal · _) (readNumber_toLower _))
  · rename_i text text'
    by_cases same : text = text'
    · rw [same]
      exact .inl ((beq_self_eq_true _).trans (beq_self_eq_true _).symm)
    · by_cases folded : Text.toLower text = Text.toLower text'
      · exact .inr ⟨text, text', rfl, rfl, same, folded⟩
      · exact .inl ((beq_false_of_ne folded).trans (beq_false_of_ne same).symm)

/-- A constant operand is a call, or a comparison of two literals. -/
theorem constant?_cases {operand : Expr} {value : Bool}
    (constant : operand.constant? = some value) :
    operand = .call (booleanText value) [] ∨
      ∃ operator left right first second, operand = .binary operator left right ∧
        (operator = .equal ∨ operator = .notEqual) ∧ left.atom? = some first ∧
        right.atom? = some second ∧ Value.compareAtoms operator first second = value := by
  unfold Expr.constant? at constant
  split at constant
  · left
    split at constant
    · rename_i same
      cases constant
      rw [same]
      rfl
    · split at constant
      · rename_i same
        cases constant
        rw [same]
        rfl
      · cases constant
  · right
    rename_i operator left right
    split at constant
    · rename_i sign
      cases first : left.atom? with
      | none => simp [first] at constant
      | some first' =>
        cases second : right.atom? with
        | none => simp [first, second] at constant
        | some second' =>
          refine ⟨operator, left, right, first', second', rfl, sign, first, second, ?_⟩
          simpa [first, second] using constant
    · cases constant
  · cases constant

end Comparison

/-- How a constant operand behind a word gets past the check: the word touches a number or a step
written with points, a literal is in parentheses of its own, or two strings that differ in the case
of letters only are taken for equal. -/
inductive Overlooked (text : Text) (place : Nat) (operand : Expr) (behind : List Token) : Prop
  | joined {before after : Text} {c : Char} (same : text = before ++ after)
      (here : place = Text.byteLength before) (last : c ∈ before.getLast?)
      (pointed : c.isDigit = true ∨ c = '.')
  | grouped (grouped : GroupedLiteral behind)
  | folded {operator : Operator} {first second : Text}
      (comparison : operand = .binary operator (.literal first) (.literal second))
      (differ : first ≠ second) (folded : Text.toLower first = Text.toLower second)

section Reading

variable {position : Nat} {after : Text} {back : List Located} {rest : List Token} {value : Bool}

/-- The check finds the constant value of an operand at the start of a text. -/
def Finds (value : Bool) (after : Text) : Prop :=
  ∃ opened first operand, after = opened ++ first :: operand ∧
    (∀ c ∈ opened, isBlank c = true ∨ c = '(') ∧ startsConstant first = true ∧
    constantOperand? (Text.toLower (first :: operand)) = some value

private theorem startsWithCall_cons {c d : Char} {name text : Text} (differ : d ≠ c) :
    startsWithCall (d :: name) (c :: text) = false := by
  simp [startsWithCall, Text.dropPrefix?, differ]

/-- A call of `true` or `false` is found. -/
theorem finds_call {count : Nat} (scanned : scan false position after = .ok back)
    (tokens : back.map (·.token) = List.replicate count .leftParen ++
      .function (booleanText value) :: .leftParen :: .rightParen :: rest) : Finds value after := by
  obtain ⟨opened, _, written, behind, _, _, rfl, opens, lexeme, scanned₁, tokens₁⟩ :=
    scan_opened scanned tokens
  obtain ⟨rfl, -, -, -⟩ := lexeme.function_ok
  have small : Text.toLower (booleanText value) = booleanText value := by cases value <;> decide
  have call := startsWithCall_of_scan small scanned₁ tokens₁
  cases value with
  | true =>
    refine ⟨opened, 't', "rue".toList ++ behind, rfl, opens, by decide, ?_⟩
    exact if_pos call
  | false =>
    refine ⟨opened, 'f', "alse".toList ++ behind, rfl, opens, by decide, ?_⟩
    have other : startsWithCall "true".toList (Text.toLower ('f' :: ("alse".toList ++ behind))) =
        false := startsWithCall_cons (by decide)
    exact (if_neg (Bool.eq_false_iff.mp other)).trans (if_pos call)

/-- A comparison of literals is found, with the value of what the check takes them for. -/
theorem finds_comparison {count : Nat} {first sign second : Token} {left right : Literal}
    (known : literalOf? first = some left) (isSign : sign = .equal ∨ sign = .notEqual)
    (known' : literalOf? second = some right) (scanned : scan false position after = .ok back)
    (tokens : back.map (·.token) =
      List.replicate count .leftParen ++ first :: sign :: second :: rest)
    (follows : ∀ token ∈ rest.head?, token.followsOperand = true) :
    Finds (left.equals right != (sign == .notEqual)) after := by
  obtain ⟨opened, _, written, behind, _, _, rfl, opens, lexeme, scanned₁, tokens₁⟩ :=
    scan_opened scanned tokens
  have comparison := constantComparison?_of_scan lexeme known isSign known' scanned₁ tokens₁ follows
  obtain ⟨first, others, rfl, starts⟩ := head_of_literal lexeme known
  refine ⟨opened, first, others ++ behind, rfl, opens,
    of_startsLiteral startsConstant (by decide) starts, ?_⟩
  have small := of_startsLiteral (fun c => 't' != c.toLower && 'f' != c.toLower) (by decide) starts
  obtain ⟨notTrue, notFalse⟩ : 't' ≠ first.toLower ∧ 'f' ≠ first.toLower := by simpa using small
  have true_ : startsWithCall "true".toList (Text.toLower (first :: others ++ behind)) = false :=
    startsWithCall_cons notTrue
  have false_ : startsWithCall "false".toList (Text.toLower (first :: others ++ behind)) = false :=
    startsWithCall_cons notFalse
  exact (if_neg (Bool.eq_false_iff.mp true_)).trans
    ((if_neg (Bool.eq_false_iff.mp false_)).trans comparison)

private theorem groupedLiteral_left {count inside : Nat} {token : Token} {rest : List Token}
    (literal : token.endsOperand = true) : GroupedLiteral
      (List.replicate count .leftParen ++ (grouped (inside + 1) [token] ++ rest)) := by
  refine ⟨count + (inside + 1), token, List.replicate (inside + 1) .rightParen ++ rest, ?_, literal,
    .inl rfl⟩
  simp [grouped, List.replicate_add]

private theorem groupedLiteral_right {count inside : Nat} {token sign : Token}
    {tokens rest : List Token} (literal : token.endsOperand = true) :
    GroupedLiteral (List.replicate count .leftParen ++
      ([token] ++ sign :: (grouped (inside + 1) tokens ++ rest))) := by
  refine ⟨count, token, sign :: (grouped (inside + 1) tokens ++ rest), rfl, literal,
    .inr ⟨sign, grouped inside tokens ++ .rightParen :: rest, ?_⟩⟩
  rw [grouped_succ]
  simp

/-- A comparison of literals without parentheses is found with its value in XPath, or of two strings
that are equal in lower case only. -/
theorem finds_of_literals {count : Nat} {operator : Operator} {left right : Expr}
    {first second : Value} {token token' : Token}
    (isSign : operator = .equal ∨ operator = .notEqual)
    (known : left.atom? = some first) (known' : right.atom? = some second)
    (literal : literalOf? token = some (literalOf first))
    (literal' : literalOf? token' = some (literalOf second)) (ends' : token'.endsOperand = true)
    (scanned : scan false position after = .ok back)
    (tokens : back.map (·.token) =
      List.replicate count .leftParen ++ token :: operator.token :: token' :: rest)
    (chain : (back.map (·.token)).IsChain Adjacent) :
    (∃ text text', left = .literal text ∧ right = .literal text' ∧ text ≠ text' ∧
      Text.toLower text = Text.toLower text') ∨
        Finds (Value.compareAtoms operator first second) after := by
  refine (equals_literalOf known known').symm.imp_right fun agree => ?_
  have isSign' : operator.token = .equal ∨ operator.token = .notEqual :=
    isSign.imp (congrArg Operator.token) (congrArg Operator.token)
  have follows : ∀ token ∈ rest.head?, token.followsOperand = true := by
    intro next head
    obtain ⟨others, rfl⟩ := List.head?_eq_some_iff.mp head
    have chain : (List.replicate count Token.leftParen ++ [token, operator.token] ++
        token' :: next :: others).IsChain Adjacent := by simpa [tokens] using chain
    exact adjacent_of_isChain chain ends'
  have found := finds_comparison literal isSign' literal' scanned tokens follows
  rw [agree] at found
  have value : (first.equals second != (operator.token == .notEqual)) =
      Value.compareAtoms operator first second := by
    rcases isSign with rfl | rfl
    · exact Bool.xor_false _
    · exact Bool.xor_true _
  exact value ▸ found

/-- Tokens that derive a constant operand are overlooked for one of two reasons, or the operand is
found. -/
theorem finds_of_derives {text : Text} {place : Nat} {lower : List Rung} {operand : Expr}
    {tokens : List Token} (constant : operand.constant? = some value) (onLadder : lower <:+ ladder)
    (derived : Derives (.level lower operand) tokens)
    (scanned : scan false position after = .ok back)
    (same : back.map (·.token) = tokens ++ rest)
    (chain : (back.map (·.token)).IsChain Adjacent) :
    Overlooked text place operand (back.map (·.token)) ∨ Finds value after := by
  obtain ⟨count, inner, rfl, made⟩ := derived.outermost onLadder _ rfl
  obtain rfl | ⟨operator, left, right, first, second, rfl, isSign, known, known', rfl⟩ :=
    constant?_cases constant
  · obtain ⟨inside, rfl, none⟩ := made
    rw [none rfl] at same
    exact .inr (finds_call scanned (by simpa [grouped] using same))
  · obtain ⟨upper, lower, front, behind, rfl, onLadder₁, onLadder₂, derived₁, derived₂⟩ := made
    obtain ⟨count₁, inner₁, rfl, made₁⟩ := derived₁.outermost onLadder₁ _ rfl
    obtain ⟨count₂, inner₂, rfl, made₂⟩ := derived₂.outermost onLadder₂ _ rfl
    obtain ⟨token₁, ends₁, literal₁, single₁⟩ := atom_token known
    obtain ⟨token₂, ends₂, literal₂, single₂⟩ := atom_token known'
    obtain rfl := single₁ _ made₁
    obtain rfl := single₂ _ made₂
    have tokens : back.map (·.token) = List.replicate count .leftParen ++
        (grouped count₁ [token₁] ++ operator.token :: (grouped count₂ [token₂] ++
          (List.replicate count .rightParen ++ rest))) := by
      rw [same, grouped]
      simp
    cases count₁ with
    | succ count₁ => exact .inl (.grouped (tokens ▸ groupedLiteral_left ends₁))
    | zero =>
      cases count₂ with
      | succ count₂ => exact .inl (.grouped (tokens ▸ groupedLiteral_right ends₁))
      | zero =>
        refine (finds_of_literals isSign known known' literal₁ literal₂ ends₂ scanned tokens
          chain).imp_left ?_
        rintro ⟨text, text', rfl, rfl, differ, folded⟩
        exact .folded rfl differ folded

end Reading

/-- An operator inside an expression has its token, and behind it those of its right operand. -/
theorem operator_of_inside {text : Text} {expr left right : Expr} {operator : Operator}
    (read : parse text = .ok expr) (inside : Expr.Inside (.binary operator left right) expr) :
    ∃ front place back, tokenize text = .ok (front ++ ⟨operator.token, place⟩ :: back) ∧
      (back.map (·.token)).IsChain Adjacent ∧
      ∃ lower tokens rest, lower <:+ ladder ∧ Derives (.level lower right) tokens ∧
        back.map (·.token) = tokens ++ rest := by
  obtain ⟨located, scanned, derived⟩ := parse_derives read
  have chain := (derived.adjacent (.top _)).1
  obtain ⟨rungs, used, onLadder, ⟨start, end_, same⟩, part⟩ :=
    derived.coversAll (.top _) expr (List.mem_singleton_self _) _ inside
  obtain ⟨count, inner, rfl, upper, lower, front₁, back₁, rfl, -, onLadder₁, -, derived₁⟩ :=
    part.outermost onLadder _ rfl
  have tokens : located.map (·.token) =
      (start ++ (List.replicate count .leftParen ++ front₁)) ++ operator.token ::
        (back₁ ++ (List.replicate count .rightParen ++ end_)) := by
    rw [← same, grouped]
    simp
  obtain ⟨front, behind, rfl, -, split⟩ := List.map_eq_append_iff.mp tokens
  obtain ⟨⟨token, place⟩, back, rfl, here, operands⟩ := List.map_eq_cons_iff.mp split
  obtain rfl : token = operator.token := here
  rw [List.map_append, List.map_cons] at chain
  exact ⟨front, place, back, scanned, (List.isChain_append.mp chain).2.1.tail, _, _, _, onLadder₁,
    derived₁, operands⟩

/-- In an accepted expression a constant operand that settles an `or` or an `and` is overlooked for
one of three reasons. -/
theorem overlooked_of_decisive {validator : Validator} {text : Text} {maxLength : Nat}
    {expr left right : Expr} {operator : Operator} {value : Bool}
    (accepted : validator.validate text maxLength = .ok ()) (read : parse text = .ok expr)
    (inside : Expr.Inside (.binary operator left right) expr)
    (decisive : operator.decisive? = some value) (constant : right.constant? = some value) :
    ∃ front place back, tokenize text = .ok (front ++ ⟨operator.token, place⟩ :: back) ∧
      Overlooked text place right (back.map (·.token)) := by
  obtain ⟨front, place, back, scanned, chain, lower, tokens, rest, onLadder, derived, operands⟩ :=
    operator_of_inside read inside
  refine ⟨front, place, back, scanned, ?_⟩
  obtain ⟨before, written, after, rfl, rfl, lexeme, behind, previous⟩ := tokenize_ok scanned
  have word : operator.token = .or ∨ operator.token = .and := by
    cases operator <;> cases decisive <;> first | exact .inl rfl | exact .inr rfl
  have lexical : isName operator.token.text = true ∧
      Text.toLower operator.token.text = operator.token.text := by
    rcases word with word | word <;> rw [word] <;> decide
  obtain ⟨rfl, expected, stops⟩ := lexeme.word_ok word
  rw [operator.endsOperand_token] at behind
  rcases finds_of_derives constant onLadder derived behind operands chain with overlooked | found
  · exact overlooked
  · obtain ⟨c, last, named⟩ : ∃ c ∈ before.getLast?, XPath.isNameChar c = true := by
      obtain ⟨opened, first, others, rfl, opens, starts, found⟩ := found
      have silent := (validate_ok accepted).2
      rw [hasTautology, Bool.or_eq_false_iff] at silent
      cases operator <;> cases decisive
      · exact isNameChar_of_missed silent.1 fun separated =>
          decides_append lexical.1 lexical.2 separated opens starts stops found
      · exact isNameChar_of_missed silent.2 fun separated =>
          decides_append lexical.1 lexical.2 separated opens starts stops found
    refine .joined rfl rfl last ?_
    rcases previous with blank | touches
    · exact absurd named (by simp [not_isNameChar_of_isBlank (blank c last)])
    · obtain ⟨others, previous, rfl, ⟨minus, -⟩ | ⟨-, pointed⟩⟩ :=
        touches.last_cases (not_stopsName lexical.1 after) last named
      · -- A word is no operator behind a sign.
        rw [operandBehind_concat, minus] at expected
        cases expected
      · exact pointed

/-- The word touches the number in front of it. -/
theorem overlooked_of_decisive_joined :
    ({} : Validator).validate "1or 1=1".toList 0 = .ok () ∧
      ∃ right front place back, right.constant? = some true ∧
        tokenize "1or 1=1".toList = .ok (front ++ ⟨.or, place⟩ :: back) ∧
        Overlooked "1or 1=1".toList place right (back.map (·.token)) := by
  have accepted : ({} : Validator).validate "1or 1=1".toList 0 = .ok () := by decide +kernel
  have shape : (match parse "1or 1=1".toList with
      | .ok (.binary .or _ right) => right.constant?
      | _ => none) = some true := by decide +kernel
  refine ⟨accepted, ?_⟩
  split at shape
  · rename_i left right read
    obtain ⟨front, place, back, scanned, overlooked⟩ :=
      overlooked_of_decisive accepted read .whole rfl shape
    exact ⟨right, front, place, back, shape, scanned, overlooked⟩
  · cases shape

/-- In lower case the two strings are equal. -/
theorem constant_operand_accepted : ∃ left right,
    ({} : Validator).validate "1 or 'A'!='a'".toList 0 = .ok () ∧
    parse "1 or 'A'!='a'".toList = .ok (.binary .or left right) ∧
    right.constant? = some true := by
  have shape : (match parse "1 or 'A'!='a'".toList with
      | .ok (.binary .or _ right) => right.constant?
      | _ => none) = some true := by decide +kernel
  split at shape
  · rename_i left right read
    exact ⟨left, right, by decide +kernel, read, shape⟩
  · cases shape

end Gate

end XmlSelect
