import Mathlib.Data.List.Infix
import XmlSelect.Proofs.CompiledSyntax
import XmlSelect.Proofs.DistinctAttributes
import XmlSelect.Proofs.PathEvaluation
import XmlSelect.Proofs.WordSearch

/-! What the predicates of compiled selectors ask of an element. The values of their pieces are told
in terms of the attributes of the element, and from these the tests of a compound are matched with
the predicates that are emitted for it. -/
namespace XmlSelect.Selector

open XPath (Expr Context CoreFunction Value Decides)

section Matching

/-- Whether the value of an attribute meets a comparison with an operand. -/
def Comparison.holds (comparison : Comparison) (operand value : Text) : Bool :=
  match comparison with
  | equals => value == operand
  | includesWord =>
    !operand.isEmpty && !operand.any isSpace && (Text.words isAsciiSpace value).contains operand
  | startsWith => !operand.isEmpty && operand.isPrefixOf value
  | endsWith => !operand.isEmpty && operand.isSuffixOf value
  | contains => !operand.isEmpty && decide (operand <:+: value)
  | dashMatch => value == operand || (operand ++ ['-']).isPrefixOf value

/-- Whether an element has the attribute, with a value that meets the condition. -/
def AttributeTest.accepts (document : Document) (id : Nat) (test : AttributeTest) : Bool :=
  (document.attribute? id test.name).any fun value =>
    test.condition.all fun (comparison, operand) => comparison.holds operand value

/-- Whether a node is an element that a compound describes: its tag, its id, its classes and its
attributes. -/
def Compound.accepts (document : Document) (compound : Compound) (id : Nat) : Bool :=
  document.isElement id && compound.tag.all (document.name? id == some ·) &&
    compound.ids.all (document.attribute? id "id".toList == some ·) &&
    compound.classes.all (fun name => (document.attribute? id "class".toList).any fun value =>
      (Text.words isAsciiSpace value).contains name) &&
    compound.attributes.all (AttributeTest.accepts document id)

end Matching

section Calls

theorem eval_call {context : Context} {arguments : List Expr} {values : List Value}
    (function : CoreFunction) (accepted : function.arity.accepts arguments.length = true)
    (evaluated : XPath.evalAll context arguments = .ok values) :
    (Expr.call function.text arguments).eval context = function.apply context values := by
  rw [Expr.eval, CoreFunction.ofText?_text]
  simp only [accepted, if_true, evaluated]
  rfl

theorem evalAll_cons {context : Context} {first : Expr} {rest : List Expr} {value : Value}
    {values : List Value} (evaluated : first.eval context = .ok value)
    (others : XPath.evalAll context rest = .ok values) :
    XPath.evalAll context (first :: rest) = .ok (value :: values) := by
  rw [XPath.evalAll, evaluated, others]
  rfl

theorem evalAll_singleton {context : Context} {only : Expr} {value : Value}
    (evaluated : only.eval context = .ok value) :
    XPath.evalAll context [only] = .ok [value] := evalAll_cons evaluated rfl

private theorem evalAll_literals (context : Context) (texts : List Text) :
    XPath.evalAll context (texts.map Expr.literal) = .ok (texts.map Value.string) := by
  induction texts with
  | nil => rfl
  | cons text texts ih =>
    refine evalAll_cons ?_ ih
    rw [Expr.eval]

private theorem intersperse_map {α β : Type} (convert : α → β) (between : α) (items : List α) :
    (items.map convert).intersperse (convert between) =
      (items.intersperse between).map convert := by
  induction items with
  | nil => rfl
  | cons first rest ih =>
    cases rest with
    | nil => rfl
    | cons second rest =>
      rw [List.map_cons, List.map_cons, List.intersperse_cons_cons, ← List.map_cons, ih,
        List.intersperse_cons_cons]
      rfl

/-- The call that puts two pieces and more together. -/
private theorem eval_concat (context : Context) (first second : Text) (others : List Text) :
    (Expr.call "concat".toList ((first :: second :: others).map Expr.literal)).eval context =
      .ok (.string (first :: second :: others).flatten) := by
  have accepted : CoreFunction.concat.arity.accepts
      ((first :: second :: others).map Expr.literal).length = true := by
    simp [CoreFunction.arity, XPath.Arity.accepts]
  have flat (texts : List Text) :
      (texts.map Value.string).flatMap (Value.textIn context.document) = texts.flatten := by
    rw [List.flatMap_map]
    simp [Value.textIn, Value.toText, List.flatMap_id']
  refine (eval_call .concat accepted (evalAll_literals context _)).trans ?_
  exact congrArg (fun text => Except.ok (Value.string text)) (flat (first :: second :: others))

/-- A value comes out as it was, whatever it holds. -/
theorem eval_literalExpr (context : Context) (value : Text) :
    (literalExpr value).eval context = .ok (.string value) := by
  rw [literalExpr]
  split
  · rw [Expr.eval]
  · rename_i quotes
    have apostrophe : '\'' ∈ value := by
      simp only [Bool.or_eq_true, Bool.not_eq_true', not_or, Bool.not_eq_false] at quotes
      simpa using quotes.1
    have whole : List.intercalate ['\''] (value.splitOn '\'') = value :=
      List.intercalate_splitOn '\''
    obtain ⟨first, rest, split⟩ :=
      List.exists_cons_of_ne_nil (List.splitOnP_ne_nil (· == '\'') value)
    rw [intersperse_map]
    have pieces : value.splitOn '\'' = first :: rest := split
    rw [pieces] at whole ⊢
    cases rest with
    | nil =>
      rw [List.intercalate_singleton] at whole
      have member : first ∈ value.splitOn '\'' := pieces ▸ List.mem_cons_self
      exact absurd (Text.not_gap_of_mem_splitOnP member (whole ▸ apostrophe)) (by decide)
    | cons second rest =>
      rw [List.intersperse_cons_cons, eval_concat]
      exact congrArg (fun text => Except.ok (Value.string text)) whole

/-- Nothing of a value stands outside of literals. -/
theorem literalExpr_form (value : Text) : literalExpr value = .literal value ∨
    ∃ pieces : List Text, literalExpr value = .call "concat".toList (pieces.map Expr.literal) := by
  rw [literalExpr]
  split
  · exact .inl rfl
  · exact .inr ⟨(value.splitOn '\'').intersperse ['\''], by rw [intersperse_map]⟩

/-- The expression that is written for a string is read as one literal or as one call that puts
literals together, and its value is the string, wherever it is evaluated. -/
theorem parse_literal (value : Text) : ∃ expr, XPath.parse (literal value) = .ok expr ∧
    (expr = .literal value ∨
      ∃ pieces : List Text, expr = .call "concat".toList (pieces.map Expr.literal)) ∧
    ∀ context, expr.eval context = .ok (.string value) :=
  ⟨literalExpr value, ((written_literal value).climb XPath.ladder).parse (by decide),
    literalExpr_form value, fun context => eval_literalExpr context value⟩

/-- Apostrophes at both ends and side by side leave empty pieces between them. -/
example : literal "''\"or'".toList = "concat('', \"'\", '', \"'\", '\"or', \"'\", '')".toList := by
  decide

end Calls

section Attributes

variable {document : Document} {node : Nat} {name : Text}

/-- The nodes that stand for an attribute: none, or the one node with its value. -/
def Stands (document : Document) (nodes : List Nat) : Option Text → Prop
  | none => nodes = []
  | some value => ∃ id, nodes = [id] ∧ document.textContent id = value

private theorem stands_filter {attributes : List Attribute} {start : Nat}
    (distinct : DistinctNames attributes)
    (placed : ∀ index self, attributes[index]? = some self →
      ∃ above, document.node? (start + index) = some ⟨.attr self, above, start + index, .nil⟩) :
    Stands document
      ((List.range' start attributes.length).filter fun id =>
        (document.kind? id).any fun kind => (XPath.NodeTest.name name).accepts .attributes kind)
      ((attributes.find? (·.name == name)).map (·.value)) := by
  induction attributes generalizing start with
  | nil => rfl
  | cons first rest ih =>
    obtain ⟨above, here⟩ := placed 0 first rfl
    rw [DistinctNames, List.map_cons, List.nodup_cons] at distinct
    have behind (index : Nat) (self : Attribute) (found : rest[index]? = some self) :
        ∃ above, document.node? (start + 1 + index) =
          some ⟨.attr self, above, start + 1 + index, .nil⟩ := by
      have place : start + (index + 1) = start + 1 + index := by omega
      exact place ▸ placed (index + 1) self found
    have further := ih distinct.2 behind
    have accepts : ((document.kind? start).any fun kind =>
        (XPath.NodeTest.name name).accepts .attributes kind) = (first.name == name) := by
      rw [Document.kind?, ← Nat.add_zero start, here]
      simp [XPath.NodeTest.accepts, XPath.Axis.isPrincipal, NodeKind.isAttribute, NodeKind.name?]
    rw [List.length_cons, List.range'_succ, List.filter_cons, accepts, List.find?_cons]
    cases same : first.name == name with
    | false => exact further
    | true =>
      have none : rest.find? (·.name == name) = none := by
        rw [List.find?_eq_none]
        intro other member again
        refine distinct.1 (List.mem_map.mpr ⟨other, member, ?_⟩)
        rw [eq_of_beq again, eq_of_beq same]
      rw [none] at further
      simp only [if_true]
      refine ⟨start, by rw [further], ?_⟩
      rw [Document.textContent, ← Nat.add_zero start, here]
      rfl

/-- The path to an attribute leads to the node that stands for it. -/
theorem eval_attributePath (distinct : DistinctNames (document.attributes node)) (name : Text)
    (position size : Nat) :
    ∃ nodes, (attributePath name).eval ⟨document, node, position, size⟩ = .ok (.nodeSet nodes) ∧
      Stands document nodes (document.attribute? node name) := by
  have placed (index : Nat) (self : Attribute)
      (found : (document.attributes node)[index]? = some self) :
      ∃ above, document.node? (node + 1 + index) =
        some ⟨.attr self, above, node + 1 + index, .nil⟩ := by
    cases known : document.node? node with
    | none => simp [Document.attributes, Document.kind?, known] at found
    | some outer =>
      rw [Document.attributes_eq known] at found
      exact ⟨some node, (Document.settled_of_node? known).1.attributes index self found⟩
  have stands : Stands document (XPath.Axis.select document .attributes (.name name) node)
      (document.attribute? node name) := stands_filter distinct placed
  have selects (id : Nat) (_ : id ∈ [node]) :
      (XPath.Step.mk .attributes (.name name) []).eval document id =
        .ok (XPath.Axis.select document .attributes (.name name) id) := by
    rw [XPath.Step.eval_eq .nil]
    simp
  refine ⟨XPath.Axis.select document .attributes (.name name) node, ?_, stands⟩
  rw [attributePath, Expr.eval, XPath.evalSteps_cons selects, XPath.evalSteps]
  have sorted : (XPath.Axis.select document .attributes (.name name) node).Pairwise (· < ·) :=
    List.Pairwise.filter _ (List.pairwise_lt_range' ..)
  rw [List.flatMap_singleton, XPath.documentOrder_eq_self sorted]
  rfl

section Standing

variable {nodes : List Nat} {value : Option Text}

theorem Stands.toBoolean (stands : Stands document nodes value) :
    (Value.nodeSet nodes).toBoolean = value.isSome := by
  cases value with
  | none => exact stands ▸ rfl
  | some text =>
    obtain ⟨id, rfl, -⟩ := stands
    rfl

theorem Stands.textIn (stands : Stands document nodes value) :
    (Value.nodeSet nodes).textIn document = value.getD [] := by
  cases value with
  | none => exact stands ▸ rfl
  | some text =>
    obtain ⟨id, rfl, rfl⟩ := stands
    rfl

theorem Stands.equal (stands : Stands document nodes value) (operand : Text) :
    (Value.nodeSet nodes).compare document .equal (.string operand) =
      value.any (· == operand) := by
  cases value with
  | none => exact stands ▸ rfl
  | some text =>
    obtain ⟨id, rfl, rfl⟩ := stands
    simp [Value.compare, Value.compareNodes, Value.compareAtoms, Value.equals, Value.toText]

end Standing

end Attributes

section Decisions

variable {document : Document} (distinct : ∀ id, DistinctNames (document.attributes id))
  (name : Text)

include distinct

theorem decides_attribute :
    Decides document (attributePath name) fun id => (document.attribute? id name).isSome := by
  intro node position size
  obtain ⟨nodes, evaluated, stands⟩ := eval_attributePath (distinct node) name position size
  exact ⟨.nodeSet nodes, evaluated, nofun, stands.toBoolean⟩

theorem decides_equal (operand : Text) :
    Decides document (.binary .equal (attributePath name) (literalExpr operand)) fun id =>
      (document.attribute? id name).any (· == operand) := by
  intro node position size
  obtain ⟨nodes, evaluated, stands⟩ := eval_attributePath (distinct node) name position size
  refine ⟨.boolean ((Value.nodeSet nodes).compare document .equal (.string operand)), ?_, nofun,
    stands.equal operand⟩
  rw [Expr.eval, evaluated, eval_literalExpr]
  rfl

/-- A function of the text of an attribute and a literal. -/
private theorem eval_call₂ (function : CoreFunction) (operand : Text) (node position size : Nat)
    (accepted : function.arity.accepts 2 = true) :
    ∃ nodes, (Expr.call function.text [attributePath name, literalExpr operand]).eval
        ⟨document, node, position, size⟩ =
        function.apply ⟨document, node, position, size⟩ [.nodeSet nodes, .string operand] ∧
      Stands document nodes (document.attribute? node name) := by
  obtain ⟨nodes, evaluated, stands⟩ := eval_attributePath (distinct node) name position size
  refine ⟨nodes, ?_, stands⟩
  exact eval_call function accepted
    (evalAll_cons evaluated (evalAll_singleton (eval_literalExpr _ operand)))

theorem decides_startsWith {operand : Text} (nonempty : operand ≠ []) :
    Decides document (.call "starts-with".toList [attributePath name, literalExpr operand])
      fun id => (document.attribute? id name).any (operand.isPrefixOf ·) := by
  intro node position size
  obtain ⟨nodes, evaluated, stands⟩ :=
    eval_call₂ distinct name .startsWith operand node position size rfl
  refine ⟨.boolean (operand.isPrefixOf ((Value.nodeSet nodes).textIn document)), evaluated,
    nofun, ?_⟩
  beta_reduce
  rw [stands.textIn]
  cases document.attribute? node name with
  | none => cases operand <;> simp_all [Value.toBoolean]
  | some value => rfl

theorem decides_contains {operand : Text} (nonempty : operand ≠ []) :
    Decides document (.call "contains".toList [attributePath name, literalExpr operand])
      fun id => (document.attribute? id name).any fun value => decide (operand <:+: value) := by
  intro node position size
  obtain ⟨nodes, evaluated, stands⟩ :=
    eval_call₂ distinct name .contains operand node position size rfl
  refine ⟨.boolean (Text.includes operand ((Value.nodeSet nodes).textIn document)), evaluated,
    nofun, ?_⟩
  beta_reduce
  rw [stands.textIn, Value.toBoolean, Bool.eq_iff_iff, Text.includes_iff]
  cases document.attribute? node name with
  | none => simp [nonempty]
  | some value => simp

theorem decides_word {token : Text} (nonempty : token ≠ []) (noSpace : ' ' ∉ token) :
    Decides document (wordExpr name token) fun id =>
      (document.attribute? id name).any fun value =>
        (Text.words isAsciiSpace value).contains token := by
  intro node position size
  obtain ⟨nodes, evaluated, stands⟩ := eval_attributePath (distinct node) name position size
  let context : Context := ⟨document, node, position, size⟩
  let text := (Value.nodeSet nodes).textIn document
  let padded : Text := ' ' :: XPath.normalizeSpace text ++ [' ']
  have blank : (Expr.literal [' ']).eval context = .ok (.string [' ']) := by rw [Expr.eval]
  have normalized : (Expr.call "normalize-space".toList [attributePath name]).eval context =
      .ok (.string (XPath.normalizeSpace text)) :=
    eval_call .normalizeSpace rfl (evalAll_singleton evaluated)
  have joined : (Expr.call "concat".toList [.literal [' '],
      .call "normalize-space".toList [attributePath name], .literal [' ']]).eval context =
      .ok (.string padded) := by
    exact eval_call .concat rfl
      (evalAll_cons blank (evalAll_cons normalized (evalAll_singleton blank)))
  have tested : (wordExpr name token).eval context =
      .ok (.boolean (Text.includes (' ' :: token ++ [' ']) padded)) :=
    eval_call .contains rfl (evalAll_cons joined (evalAll_singleton (eval_literalExpr context _)))
  refine ⟨_, tested, by rintro ⟨⟩, ?_⟩
  have textual : text = (document.attribute? node name).getD [] := stands.textIn
  beta_reduce
  rw [Value.toBoolean, Bool.eq_iff_iff, XPath.includes_normalizeSpace_iff nonempty noSpace, textual]
  cases document.attribute? node name with
  | none => simp [Text.words]
  | some value => simp

omit distinct in
theorem decides_or {left right : Expr} {first second : Nat → Bool}
    (decidesLeft : Decides document left first) (decidesRight : Decides document right second) :
    Decides document (.binary .or left right) fun id => first id || second id := by
  intro node position size
  obtain ⟨one, evaluatedLeft, -, toLeft⟩ := decidesLeft node position size
  obtain ⟨other, evaluatedRight, -, toRight⟩ := decidesRight node position size
  refine ⟨.boolean (one.toBoolean || other.toBoolean), ?_, nofun, ?_⟩
  · rw [Expr.eval, evaluatedLeft]
    cases holds : one.toBoolean with
    | true => simp [bind, Except.bind, pure, Except.pure, holds]
    | false =>
      simp [bind, Except.bind, pure, Except.pure, holds, evaluatedRight, XPath.Operator.apply]
  · beta_reduce
    rw [← toLeft, ← toRight]
    rfl

omit distinct in
theorem decides_never : Decides document (.call "false".toList []) fun _ => false := by
  intro node position size
  have nothing : XPath.evalAll ⟨document, node, position, size⟩ [] = .ok [] := by
    rw [XPath.evalAll]
  exact ⟨.boolean false, eval_call .false rfl nothing, by rintro ⟨⟩, rfl⟩

omit distinct in
theorem decides_congr {predicate : Expr} {first second : Nat → Bool}
    (decides : Decides document predicate first) (same : ∀ id, first id = second id) :
    Decides document predicate second := funext same ▸ decides

omit distinct in
private theorem decides_any_congr {predicate : Expr} {first second : Text → Bool}
    (decides : Decides document predicate fun id => (document.attribute? id name).any first)
    (same : ∀ value, first value = second value) :
    Decides document predicate fun id => (document.attribute? id name).any second :=
  funext same ▸ decides

end Decisions

section Tests

variable {document : Document} (distinct : ∀ id, DistinctNames (document.attributes id))

omit distinct in
theorem not_holds_of_neverMatches {comparison : Comparison} {operand : Text}
    (never : neverMatches comparison operand = true) (value : Text) :
    comparison.holds operand value = false := by
  cases comparison with
  | equals => cases never
  | includesWord =>
    simp only [neverMatches, Bool.or_eq_true] at never
    rcases never with empty | space
    · simp [Comparison.holds, empty]
    · simp [Comparison.holds, space]
  | startsWith =>
    have empty : operand.isEmpty = true := never
    simp [Comparison.holds, empty]
  | endsWith =>
    have empty : operand.isEmpty = true := never
    simp [Comparison.holds, empty]
  | contains =>
    have empty : operand.isEmpty = true := never
    simp [Comparison.holds, empty]
  | dashMatch => cases never

include distinct in
/-- The emitted test of a comparison is true of the elements whose attribute meets it. -/
theorem decides_comparison (name : Text) {comparison : Comparison} {operand : Text}
    (other : comparison ≠ .endsWith) (sometimes : neverMatches comparison operand = false) :
    Decides document (comparisonExpr name comparison operand) fun id =>
      (document.attribute? id name).any (comparison.holds operand) := by
  cases comparison with
  | equals => exact decides_equal distinct name operand
  | includesWord =>
    simp only [neverMatches, Bool.or_eq_false_iff] at sometimes
    obtain ⟨nonempty, noSpace⟩ := sometimes
    have absent : ' ' ∉ operand := by
      intro inside
      have space := List.any_eq_true.mpr ⟨' ', inside, (by decide : isSpace ' ' = true)⟩
      rw [noSpace] at space
      cases space
    refine decides_any_congr name
      (decides_word distinct name (by simpa using nonempty) absent) fun value => ?_
    simp [Comparison.holds, nonempty, noSpace]
  | startsWith =>
    have nonempty : operand.isEmpty = false := sometimes
    refine decides_any_congr name
      (decides_startsWith distinct name (by simpa using nonempty)) fun value => ?_
    simp [Comparison.holds, nonempty]
  | endsWith => exact absurd rfl other
  | contains =>
    have nonempty : operand.isEmpty = false := sometimes
    refine decides_any_congr name
      (decides_contains distinct name (by simpa using nonempty)) fun value => ?_
    simp [Comparison.holds, nonempty]
  | dashMatch =>
    have starts : operand ++ ['-'] ≠ [] := by simp
    refine decides_congr (decides_or (decides_equal distinct name operand)
      (decides_startsWith distinct name starts)) fun id => ?_
    cases document.attribute? id name <;> rfl

include distinct in
theorem decides_test {test : AttributeTest}
    (other : ∀ operand, test.condition ≠ some (.endsWith, operand)) :
    Decides document test.expr fun id => test.accepts document id := by
  obtain ⟨name, condition⟩ := test
  unfold AttributeTest.expr AttributeTest.accepts
  cases condition with
  | none =>
    refine decides_congr (decides_attribute distinct name) fun id => ?_
    cases document.attribute? id name <;> rfl
  | some condition =>
    obtain ⟨comparison, operand⟩ := condition
    cases never : neverMatches comparison operand with
    | true =>
      simp only [never, if_true]
      refine decides_congr decides_never fun id => ?_
      simp [not_holds_of_neverMatches never]
    | false =>
      simp only [never]
      refine decides_any_congr name (decides_comparison distinct name ?_ never) fun value => ?_
      · rintro rfl
        exact other operand rfl
      · simp

end Tests

section Compounds

variable {document : Document} {compound : Compound}

/-- Whether the value of an attribute is compared with the end that it should have. -/
def Compound.hasSuffixTest (compound : Compound) : Bool :=
  compound.attributes.any fun test => test.condition.any fun condition =>
    condition.1 = .endsWith

/-- The tests of a compound, one for each of its predicates. -/
def Compound.checks (document : Document) (compound : Compound) : List (Nat → Bool) :=
  compound.ids.map (fun value id => (document.attribute? id "id".toList).any (· == value)) ++
    compound.classes.map (fun name id => (document.attribute? id "class".toList).any fun value =>
      (Text.words isAsciiSpace value).contains name) ++
    compound.attributes.map fun test id => test.accepts document id

theorem decides_conditions (distinct : ∀ id, DistinctNames (document.attributes id))
    (words : ∀ name ∈ compound.classes, name ≠ [] ∧ ' ' ∉ name)
    (noSuffix : compound.hasSuffixTest = false) :
    List.Forall₂ (Decides document) compound.conditions (compound.checks document) := by
  refine List.rel_append (List.rel_append
    (forall₂_map fun value _ => decides_equal distinct "id".toList value)
    (forall₂_map fun name member => ?_)) (forall₂_map fun test member => ?_)
  · exact decides_word distinct "class".toList (words name member).1 (words name member).2
  · refine decides_test distinct fun operand suffix => ?_
    rw [Compound.hasSuffixTest, List.any_eq_false] at noSuffix
    exact noSuffix test member (by simp [suffix])

theorem Compound.accepts_eq (document : Document) (compound : Compound) (id : Nat) :
    compound.accepts document id =
      (((document.kind? id).any fun kind =>
        (compound.tag.elim XPath.NodeTest.wildcard .name).accepts .child kind) &&
        (compound.checks document).all fun check => check id) := by
  have tagged : ((document.kind? id).any fun kind =>
      (compound.tag.elim XPath.NodeTest.wildcard .name).accepts .child kind) =
      (document.isElement id && compound.tag.all (document.name? id == some ·)) := by
    cases kind : document.kind? id <;> cases compound.tag <;>
      simp [Document.isElement, Document.name?, kind, XPath.NodeTest.accepts,
        XPath.Axis.isPrincipal]
  have identified (value : Text) : (document.attribute? id "id".toList).any (· == value) =
      (document.attribute? id "id".toList == some value) := by
    cases document.attribute? id "id".toList <;> simp
  rw [tagged, Compound.accepts, Compound.checks]
  simp only [List.all_append, List.all_map, Function.comp_def, identified, Bool.and_assoc]

/-- The step of a compound leads from a node to those of its children that the compound
describes. -/
theorem eval_step (distinct : ∀ id, DistinctNames (document.attributes id))
    (words : ∀ name ∈ compound.classes, name ≠ [] ∧ ' ' ∉ name)
    (noSuffix : compound.hasSuffixTest = false) (node : Nat) :
    compound.step.eval document node =
      .ok ((document.children node).filter (compound.accepts document)) := by
  rw [Compound.step, XPath.Step.eval_eq (decides_conditions distinct words noSuffix),
    XPath.Axis.select, List.filter_filter]
  refine congrArg Except.ok (List.filter_congr fun id _ => ?_)
  rw [Compound.accepts_eq, Bool.and_comm]

end Compounds

end XmlSelect.Selector
