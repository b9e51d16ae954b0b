import Mathlib.Data.List.Forall2
import Mathlib.Logic.Function.Iterate
import XmlSelect.Proofs.ExpressionReading
import XmlSelect.Proofs.TokenScan

/-! Texts that denote expressions. A text is put together from pieces that are scanned and read in
front of whatever ends them, so that each construct of the grammar has one rule here and a whole
expression is read back by applying the rules along its structure. -/
namespace XmlSelect.XPath

/-- Whether an operand may start here without a sign. -/
def Token.startsOperand : Token → Bool
  | slash | doubleSlash => true
  | token => token.startsStep || token.startsPrimary

/-- Whether an expression that has reached a level ends in front of these tokens. -/
def ends (rungs : List Rung) (rest : List Token) : Bool :=
  rungs.all (Rung.stops rest) && !rest.head?.any Token.continuesPath

/-- The text denotes the expression on the topmost of some levels. At most `depth` operators and
nested expressions are above one another in it. -/
def Written (rungs : List Rung) (depth : Nat) (text : Text) (value : Expr) : Prop :=
  ∀ (rest : Text) (tokens : List Token), endsTest rest = true → Scans true rest tokens →
    ends rungs tokens = true →
      ∃ taken, Scans false (text ++ rest) taken ∧
        taken.head?.any Token.startsOperand = true ∧
        ∀ layers room, depth ≤ layers → depth ≤ room →
          Reads (climb rungs (descend (expression layers)) room) taken value tokens

private theorem noMinus_of_startsOperand {tokens : List Token}
    (starts : tokens.head?.any Token.startsOperand = true) : tokens.head? ≠ some .minus := by
  intro minus
  rw [minus] at starts
  cases starts

private theorem noRightParen_of_startsOperand {tokens : List Token}
    (starts : tokens.head?.any Token.startsOperand = true) : tokens.head? ≠ some .rightParen := by
  intro closing
  rw [closing] at starts
  cases starts

namespace Written

variable {rungs : List Rung} {depth : Nat} {text : Text} {value : Expr}

theorem weaken {deeper : Nat} (written : Written rungs depth text value) (le : depth ≤ deeper) :
    Written rungs deeper text value := by
  intro rest tokens endsTest scans ends
  obtain ⟨taken, scanned, starts, reads⟩ := written rest tokens endsTest scans ends
  exact ⟨taken, scanned, starts, fun layers room inLayers inRoom =>
    reads layers room (Nat.le_trans le inLayers) (Nat.le_trans le inRoom)⟩

theorem of_eq {other : Text} (written : Written rungs depth text value) (same : other = text) :
    Written rungs depth other value := same ▸ written

theorem up (rung : Rung) (written : Written rungs depth text value) :
    Written (rung :: rungs) depth text value := by
  intro rest tokens endsTest scans ends
  simp only [XPath.ends, List.all_cons, Bool.and_eq_true] at ends
  obtain ⟨⟨stops, others⟩, path⟩ := ends
  obtain ⟨taken, scanned, starts, reads⟩ := written rest tokens endsTest scans (by
    simp only [XPath.ends, Bool.and_eq_true]
    exact ⟨others, path⟩)
  exact ⟨taken, scanned, starts, fun layers room inLayers inRoom =>
    (reads layers room inLayers inRoom).up rung (noMinus_of_startsOperand starts) stops⟩

theorem climb (above : List Rung) (written : Written rungs depth text value) :
    Written (above ++ rungs) depth text value := by
  induction above with
  | nil => exact written
  | cons rung above ih => exact ih.up rung

/-- A whole expression inside another one takes one of the layers and of the room. -/
theorem nested (written : Written ladder depth text value) {rest : Text} {tokens : List Token}
    (endsTest : endsTest rest = true) (scans : Scans true rest tokens)
    (ends : ends ladder tokens = true) :
    ∃ taken, Scans false (text ++ rest) taken ∧
      taken.head?.any Token.startsOperand = true ∧
      ∀ layers room, depth < layers → depth < room →
        Reads (descend (expression layers) room) taken value tokens := by
  obtain ⟨taken, scanned, starts, reads⟩ := written rest tokens endsTest scans ends
  refine ⟨taken, scanned, starts, fun layers room inLayers inRoom => ?_⟩
  obtain ⟨layers, rfl⟩ := Nat.exists_eq_add_of_lt inLayers
  obtain ⟨room, rfl⟩ := Nat.exists_eq_add_of_lt inRoom
  rw [descend_expression]
  exact reads _ _ (Nat.le_add_right _ _) (Nat.le_add_right _ _)

/-- A text that denotes an expression is read as that expression. -/
theorem parse (written : Written ladder depth text value) (shallow : depth ≤ maxDepth) :
    XPath.parse text = .ok value := by
  obtain ⟨taken, scans, starts, reads⟩ := written [] [] rfl (.nil true) rfl
  rw [List.append_nil] at scans
  obtain ⟨located, scanned, same⟩ := scans.tokenize
  have nonempty : located.isEmpty = false := by
    cases located with
    | nil =>
      subst same
      cases starts
    | cons found behind => rfl
  obtain ⟨⟨_, behind, _⟩, read, rfl, last⟩ := reads maxDepth maxDepth shallow shallow located same
  obtain rfl := List.map_eq_nil_iff.mp last
  simp only [XPath.parse, scanned, nonempty, expression_succ, read, bind, Except.bind]
  rfl

section Operands

/-- A primary expression and a rest that ends it. -/
private theorem primary {rest : Text} {taken tokens : List Token}
    (scanned : Scans false (text ++ rest) taken)
    (starts : taken.head?.any Token.startsPrimary = true)
    (stops : tokens.head?.any Token.continuesPath = false)
    (reads : ∀ layers room, depth ≤ layers → depth ≤ room →
      Reads (XPath.primary (descend (expression layers) room)) taken value tokens) :
    ∃ taken, Scans false (text ++ rest) taken ∧
      taken.head?.any Token.startsOperand = true ∧
      ∀ layers room, depth ≤ layers → depth ≤ room →
        Reads (XPath.climb [] (descend (expression layers)) room) taken value tokens := by
  refine ⟨taken, scanned, ?_, fun layers room inLayers inRoom =>
    .filter starts (.filterPath (reads layers room inLayers inRoom) stops)⟩
  cases head : taken.head? with
  | none => simp [head] at starts
  | some token =>
    rw [head] at starts
    cases token <;> simp_all [Token.startsOperand]

theorem literal {quote : Char} {value : Text} (isQuote : quote = '\'' ∨ quote = '"')
    (absent : quote ∉ value) : Written [] 0 (quote :: value ++ [quote]) (.literal value) := by
  intro rest tokens _ scans ends
  have scanned : Scans false (quote :: value ++ [quote] ++ rest) (.literal value :: tokens) := by
    rw [List.append_assoc]
    exact .literal isQuote absent scans
  exact primary scanned rfl (by simpa [XPath.ends] using ends)
    fun _ _ _ _ => .literal value tokens

theorem digits (number : Nat) :
    Written [] 0 (Text.ofNat number) (.number (Double.ofDigits false (Text.ofNat number) [])) := by
  intro rest tokens endsTest scans ends
  have apart : rest.head?.all (fun c => !c.isDigit && c != '.') = true := by
    cases rest with
    | nil => rfl
    | cons c rest =>
      simp only [XPath.endsTest, endsName, List.head?_cons, Option.all_some, Bool.and_eq_true,
        Bool.not_eq_true'] at endsTest
      have other := endsTest.1.1
      simp only [List.head?_cons, Option.all_some, Bool.and_eq_true, Bool.not_eq_true', bne_iff_ne]
      refine ⟨Bool.eq_false_iff.mpr fun digit => ?_, ?_⟩
      · rw [isNameChar_of_isDigit digit] at other
        cases other
      · rintro rfl
        exact absurd other (by decide)
  exact primary (Scans.digits number apart scans) rfl (by simpa [XPath.ends] using ends)
    fun _ _ _ _ => .number _ tokens

/-- The test of an attribute by its name alone. -/
theorem attributePath {name : Text} (lexical : isName name = true) :
    Written [] 0 ('@' :: name) (.path [.mk .attributes (.name name) []]) := by
  intro rest tokens endsTest scans ends
  refine ⟨.atSign :: .nameTest name :: tokens,
    .cons (by decide) rfl (.nameTest lexical endsTest scans), rfl, fun layers room _ _ => ?_⟩
  have stops : tokens.head?.any Token.continuesPath = false := by simpa [XPath.ends] using ends
  have noPredicate : tokens.head? ≠ some .leftBracket := by
    intro bracket
    simp [bracket, Token.continuesPath] at stops
  exact .path rfl (.relativePath (.attributeStep (.testOnAxis _ (.nameTest name tokens)
    (.noPredicates _ noPredicate))) (.noSteps _ stops))

/-- What stands between two arguments. -/
private theorem scans_comma {rest : Text} {tokens : List Token} (scans : Scans false rest tokens) :
    Scans true (", ".toList ++ rest) (.comma :: tokens) :=
  .cons (by decide) rfl (.blank rfl scans)

private theorem someArguments {first : Text} {texts : List Text} {start : Expr}
    {values : List Expr} (written : Written ladder depth first start)
    (others : List.Forall₂ (Written ladder depth) texts values) {rest : Text}
    {tokens : List Token} (scans : Scans true rest tokens) :
    ∃ taken, Scans false (List.intercalate ", ".toList (first :: texts) ++ ')' :: rest) taken ∧
      taken.head?.any Token.startsOperand = true ∧
      ∀ layers room, depth < layers → depth < room →
        Reads (XPath.someArguments (descend (expression layers) room)) taken (start :: values)
          tokens := by
  induction others generalizing first start with
  | nil =>
    have closing : Scans true (')' :: rest) (.rightParen :: tokens) := .cons (by decide) rfl scans
    obtain ⟨taken, scanned, starts, reads⟩ := written.nested rfl closing rfl
    refine ⟨taken, ?_, starts, fun layers room inLayers inRoom =>
      .lastArgument (reads layers room inLayers inRoom)⟩
    rw [List.intercalate_singleton]
    exact scanned
  | cons next _ ih =>
    obtain ⟨behind, scannedBehind, _, readsBehind⟩ := ih next
    obtain ⟨taken, scanned, starts, reads⟩ := written.nested rfl (scans_comma scannedBehind) rfl
    refine ⟨taken, ?_, starts, fun layers room inLayers inRoom =>
      .argument (reads layers room inLayers inRoom) (readsBehind layers room inLayers inRoom)⟩
    rw [List.intercalate_cons_cons]
    simpa using scanned

/-- A call of a function with some arguments. -/
theorem call (name : Text) {texts : List Text} {values : List Expr} (lexical : isName name = true)
    (noType : NodeType.ofName? name = none) (nonempty : texts ≠ [])
    (written : List.Forall₂ (Written ladder depth) texts values) :
    Written [] (depth + 1) (name ++ '(' :: List.intercalate ", ".toList texts ++ [')'])
      (.call name values) := by
  intro rest tokens _ scans ends
  cases written with
  | nil => exact absurd rfl nonempty
  | @cons first start texts values writtenFirst writtenOthers =>
    obtain ⟨taken, scanned, starts, reads⟩ := someArguments writtenFirst writtenOthers scans
    have whole : Scans false
        (name ++ '(' :: List.intercalate ", ".toList (first :: texts) ++ [')'] ++ rest)
        (.function name :: .leftParen :: taken) := by
      simpa using Scans.call lexical noType scanned
    exact primary whole rfl (by simpa [XPath.ends] using ends) fun layers room inLayers inRoom =>
      .call name (.arguments (noRightParen_of_startsOperand starts)
        (reads layers room inLayers inRoom))

/-- A call of a function without arguments. -/
theorem callNothing (name : Text) (lexical : isName name = true)
    (noType : NodeType.ofName? name = none) :
    Written [] 0 (name ++ "()".toList) (.call name []) := by
  intro rest tokens _ scans ends
  have whole : Scans false (name ++ "()".toList ++ rest)
      (.function name :: .leftParen :: .rightParen :: tokens) := by
    have closing : Scans false (')' :: rest) (.rightParen :: tokens) :=
      .cons (by decide) rfl scans
    simpa using Scans.call lexical noType closing
  exact primary whole rfl (by simpa [XPath.ends] using ends) fun _ _ _ _ =>
    .call name (.noArguments tokens)

end Operands

section Chains

variable {level : Level} {operator : Token} {between left right : Text} {first second : Expr}
  {make : Expr → Expr → Expr} (joins : level operator = some make)
  (scansBetween : ∀ rest tokens, Scans false rest tokens →
    Scans true (between ++ rest) (operator :: tokens))
  (endsBetween : ∀ rest, XPath.endsTest (between ++ rest) = true)
  (endsLeft : ∀ rest, XPath.ends rungs (operator :: rest) = true)

include joins scansBetween endsBetween endsLeft

/-- The same operand again and again, each time with the operator in front of it. -/
private theorem chainTail (count : Nat) (writtenRight : Written rungs depth right second)
    {rest : Text} {tokens : List Token} (endsTest : endsTest rest = true)
    (scans : Scans true rest tokens) (stops : tokens.head?.bind level = none)
    (ends : XPath.ends rungs tokens = true) :
    ∃ taken, Scans true ((List.replicate count (between ++ right)).flatten ++ rest) taken ∧
      XPath.endsTest ((List.replicate count (between ++ right)).flatten ++ rest) = true ∧
      XPath.ends rungs taken = true ∧
      ∀ value layers room, depth ≤ layers → count + depth ≤ room →
        Reads (XPath.chainTail level (XPath.climb rungs (descend (expression layers))) value room)
          taken ((make · second)^[count] value) tokens := by
  induction count with
  | zero =>
    exact ⟨tokens, scans, endsTest, ends, fun value _ room _ _ => .chainEnd value room stops⟩
  | succ count ih =>
    obtain ⟨behind, scannedBehind, endsBehind, stopsBehind, readsBehind⟩ := ih
    obtain ⟨taken, scanned, _, reads⟩ :=
      writtenRight _ behind endsBehind scannedBehind stopsBehind
    refine ⟨operator :: taken, ?_, ?_, endsLeft taken, fun value layers room inLayers inRoom => ?_⟩
    · simpa [List.replicate_succ] using scansBetween _ _ scanned
    · simpa [List.replicate_succ] using
        endsBetween (right ++ ((List.replicate count (between ++ right)).flatten ++ rest))
    · obtain ⟨room, rfl⟩ := Nat.exists_eq_add_of_lt (Nat.lt_of_succ_le (by omega : 1 ≤ room))
      exact .chainLink joins (reads layers _ inLayers (by omega))
        (readsBehind (make value second) layers _ inLayers (by omega))

/-- A chain takes from the room for each operator, but not from that of its first operand. -/
theorem chain {least : Nat} (count : Nat) (enough : count + least ≤ depth)
    (writtenLeft : Written rungs depth left first)
    (writtenRight : Written rungs least right second) :
    Written (.binary level :: rungs) depth
      (left ++ (List.replicate count (between ++ right)).flatten)
      ((make · second)^[count] first) := by
  intro rest tokens endsTest scans ends
  simp only [XPath.ends, List.all_cons, Bool.and_eq_true] at ends
  obtain ⟨⟨stops, others⟩, path⟩ := ends
  obtain ⟨behind, scannedBehind, endsBehind, stopsBehind, readsBehind⟩ :=
    chainTail joins scansBetween endsBetween endsLeft count writtenRight endsTest scans
      (Option.isNone_iff_eq_none.mp stops) (by
        simp only [XPath.ends, Bool.and_eq_true]
        exact ⟨others, path⟩)
  obtain ⟨taken, scanned, starts, reads⟩ :=
    writtenLeft _ behind endsBehind scannedBehind stopsBehind
  refine ⟨taken, by simpa using scanned, starts, fun layers room inLayers inRoom => ?_⟩
  exact .chain (reads layers room inLayers inRoom)
    (readsBehind first layers room (by omega) (by omega))

/-- Two operands with an operator of a level between them. -/
theorem join (writtenLeft : Written rungs depth left first)
    (writtenRight : Written rungs depth right second) :
    Written (.binary level :: rungs) (depth + 1) (left ++ between ++ right)
      (make first second) := by
  have chained := chain joins scansBetween endsBetween endsLeft 1 (Nat.le_of_eq (Nat.add_comm 1 _))
    (writtenLeft.weaken (Nat.le_succ depth)) writtenRight
  simpa using chained

end Chains

end Written

theorem Token.startsStep_of_startsTest {token : Token} (starts : token.startsTest = true) :
    token.startsStep = true := by cases token <;> first | rfl | cases starts

/-- The text denotes the node test. -/
def WrittenTest (text : Text) (test : NodeTest) : Prop :=
  ∀ (rest : Text) (tokens : List Token), endsTest rest = true → Scans true rest tokens →
    ∃ taken, Scans false (text ++ rest) taken ∧ (text ++ rest).head? ≠ some '/' ∧
      taken.head?.any Token.startsTest = true ∧ Reads nodeTest taken test tokens

/-- The text denotes the step. -/
def WrittenStep (depth : Nat) (text : Text) (step : Step) : Prop :=
  ∀ (rest : Text) (tokens : List Token), endsTest rest = true → Scans true rest tokens →
    tokens.head? ≠ some .leftBracket →
      ∃ taken, Scans false (text ++ rest) taken ∧ (text ++ rest).head? ≠ some '/' ∧
        taken.head?.any Token.startsStep = true ∧
        ∀ layers room, depth ≤ layers → depth ≤ room →
          Reads (XPath.step (descend (expression layers) room)) taken step tokens

/-- The text denotes steps that continue a path. -/
def WrittenSteps (depth : Nat) (text : Text) (steps : List Step) : Prop :=
  ∀ (rest : Text) (tokens : List Token), endsTest rest = true → Scans true rest tokens →
    tokens.head?.any Token.continuesPath = false →
      endsTest (text ++ rest) = true ∧ ∃ taken, Scans true (text ++ rest) taken ∧
        taken.head? ≠ some .leftBracket ∧
        ∀ layers room, depth ≤ layers → depth ≤ room →
          Reads (furtherSteps (descend (expression layers) room)) taken steps tokens

/-- Tests in brackets, as they stand behind a node test. -/
def bracketedAll (texts : List Text) : Text := texts.flatMap fun text => '[' :: text ++ [']']

theorem endsTest_bracketedAll (texts : List Text) {rest : Text} (ends : endsTest rest = true) :
    endsTest (bracketedAll texts ++ rest) = true := by
  cases texts with
  | nil => exact ends
  | cons first others => rfl

section Steps

variable {depth : Nat} {tag text : Text} {texts : List Text} {values : List Expr} {step : Step}
  {steps : List Step}

theorem Written.predicates (written : List.Forall₂ (Written ladder depth) texts values)
    {rest : Text} {tokens : List Token} (scans : Scans true rest tokens)
    (stops : tokens.head? ≠ some .leftBracket) :
    ∃ taken, Scans true (bracketedAll texts ++ rest) taken ∧
      ∀ layers room, depth < layers → depth < room →
        Reads (XPath.predicates (descend (expression layers) room)) taken values tokens := by
  induction written with
  | nil => exact ⟨tokens, scans, fun _ _ _ _ => .noPredicates _ stops⟩
  | cons first _ ih =>
    obtain ⟨behind, scannedBehind, readsBehind⟩ := ih
    have closing : Scans true (']' :: _) (.rightBracket :: behind) :=
      .cons (by decide) rfl scannedBehind
    obtain ⟨taken, scanned, _, reads⟩ := first.nested rfl closing rfl
    refine ⟨.leftBracket :: taken, ?_, fun layers room inLayers inRoom =>
      .predicate (reads layers room inLayers inRoom) (readsBehind layers room inLayers inRoom)⟩
    have opening : Scans true ('[' :: _) (.leftBracket :: taken) := .cons (by decide) rfl scanned
    simpa [bracketedAll] using opening

theorem WrittenTest.name (lexical : isName tag = true) : WrittenTest tag (.name tag) := by
  intro rest tokens endsTest scans
  refine ⟨.nameTest tag :: tokens, .nameTest lexical endsTest scans, ?_, rfl, .nameTest tag tokens⟩
  obtain ⟨first, tail, rfl, start, -⟩ := isName_iff.mp lexical
  intro slash
  cases slash
  exact absurd start (by decide)

theorem WrittenTest.star : WrittenTest ['*'] .wildcard := fun rest tokens _ scans =>
  ⟨.star :: tokens, .cons (by decide) rfl scans, nofun, rfl, .star tokens⟩

section Tests

variable {test : NodeTest} (tested : WrittenTest tag test)
  (written : List.Forall₂ (Written ladder depth) texts values)

include tested written

/-- A step to children. -/
theorem WrittenStep.child :
    WrittenStep (depth + 1) (tag ++ bracketedAll texts) (.mk .child test values) := by
  intro rest tokens endsTest scans stops
  obtain ⟨behind, scannedBehind, readsBehind⟩ := Written.predicates written scans stops
  obtain ⟨taken, scanned, noSlash, starts, reads⟩ :=
    tested _ behind (endsTest_bracketedAll texts endsTest) scannedBehind
  refine ⟨taken, ?_, ?_, ?_, fun layers room inLayers inRoom =>
    .childStep starts (.testOnAxis _ reads (readsBehind layers room inLayers inRoom))⟩
  · rwa [List.append_assoc]
  · rwa [List.append_assoc]
  · cases head : taken.head? with
    | none => simp [head] at starts
    | some token =>
      rw [head] at starts
      exact Token.startsStep_of_startsTest starts

/-- A step to attributes. -/
theorem WrittenStep.attribute :
    WrittenStep (depth + 1) ('@' :: tag ++ bracketedAll texts) (.mk .attributes test values) := by
  intro rest tokens endsTest scans stops
  obtain ⟨behind, scannedBehind, readsBehind⟩ := Written.predicates written scans stops
  obtain ⟨taken, scanned, -, -, reads⟩ :=
    tested _ behind (endsTest_bracketedAll texts endsTest) scannedBehind
  refine ⟨.atSign :: taken, ?_, nofun, rfl, fun layers room inLayers inRoom =>
    .attributeStep (.testOnAxis _ reads (readsBehind layers room inLayers inRoom))⟩
  rw [List.append_assoc]
  exact .cons (by decide) rfl scanned

end Tests

/-- A step to the children of a name. -/
theorem WrittenStep.name (lexical : isName tag = true)
    (written : List.Forall₂ (Written ladder depth) texts values) :
    WrittenStep (depth + 1) (tag ++ bracketedAll texts) (.mk .child (.name tag) values) :=
  .child (.name lexical) written

/-- A step to all child elements. -/
theorem WrittenStep.star (written : List.Forall₂ (Written ladder depth) texts values) :
    WrittenStep (depth + 1) (['*'] ++ bracketedAll texts) (.mk .child .wildcard values) :=
  .child .star written

theorem WrittenSteps.nil (depth : Nat) : WrittenSteps depth [] [] := by
  intro rest tokens endsTest scans stops
  refine ⟨endsTest, tokens, scans, ?_, fun _ _ _ _ => .noSteps _ stops⟩
  intro bracket
  simp [bracket, Token.continuesPath] at stops

theorem WrittenSteps.slash (first : WrittenStep depth tag step)
    (others : WrittenSteps depth text steps) :
    WrittenSteps depth ('/' :: tag ++ text) (step :: steps) := by
  intro rest tokens endsTest scans stops
  obtain ⟨ends, behind, scannedBehind, noBracket, readsBehind⟩ :=
    others rest tokens endsTest scans stops
  obtain ⟨taken, scanned, noSlash, -, reads⟩ := first _ behind ends scannedBehind noBracket
  refine ⟨rfl, .slash :: taken, ?_, nofun, fun layers room inLayers inRoom =>
    .slashStep (reads layers room inLayers inRoom) (readsBehind layers room inLayers inRoom)⟩
  have slash : Scans true ('/' :: (tag ++ (text ++ rest))) (.slash :: taken) :=
    .slash noSlash scanned
  simpa using slash

theorem WrittenSteps.doubleSlash (first : WrittenStep depth tag step)
    (others : WrittenSteps depth text steps) :
    WrittenSteps depth ("//".toList ++ tag ++ text) (.anyDepth :: step :: steps) := by
  intro rest tokens endsTest scans stops
  obtain ⟨ends, behind, scannedBehind, noBracket, readsBehind⟩ :=
    others rest tokens endsTest scans stops
  obtain ⟨taken, scanned, noSlash, -, reads⟩ := first _ behind ends scannedBehind noBracket
  refine ⟨rfl, .doubleSlash :: taken, ?_, nofun, fun layers room inLayers inRoom =>
    .doubleSlashStep (reads layers room inLayers inRoom) (readsBehind layers room inLayers inRoom)⟩
  have slashes : Scans true ("//".toList ++ (tag ++ (text ++ rest))) (.doubleSlash :: taken) :=
    .doubleSlash scanned
  simpa using slashes

/-- A path from the document node that starts at any depth. -/
theorem Written.rootPath (first : WrittenStep depth tag step)
    (others : WrittenSteps depth text steps) :
    Written [] depth ("//".toList ++ tag ++ text) (.rootPath (.anyDepth :: step :: steps)) := by
  intro rest tokens endsTest scans stops
  obtain ⟨ends, behind, scannedBehind, noBracket, readsBehind⟩ :=
    others rest tokens endsTest scans (by simpa [XPath.ends] using stops)
  obtain ⟨taken, scanned, noSlash, -, reads⟩ := first _ behind ends scannedBehind noBracket
  refine ⟨.doubleSlash :: taken, ?_, rfl, fun layers room inLayers inRoom =>
    .rootPath (reads layers room inLayers inRoom) (readsBehind layers room inLayers inRoom)⟩
  have slashes : Scans false ("//".toList ++ (tag ++ (text ++ rest))) (.doubleSlash :: taken) :=
    .doubleSlash scanned
  simpa using slashes

end Steps

end XmlSelect.XPath
