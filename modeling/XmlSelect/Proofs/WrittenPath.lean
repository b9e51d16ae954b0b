import XmlSelect.Proofs.GrammarCompleteness
import XmlSelect.Proofs.Lexemes

/-! Texts that denote location paths from the document node. What is written between the slashes
denotes the steps; names in it may have prefixes. -/
namespace XmlSelect.XPath

section Names

variable {name rest : Text} {tokens : List Token}

theorem localName_of_stopsName (lexical : isName name = true) (stops : StopsName rest) :
    localName (name ++ rest) = name := by
  obtain ⟨first, tail, rfl, start, inner⟩ := isName_iff.mp lexical
  rw [List.cons_append, localName, if_pos start, (span_append inner stops).1]

/-- A name with a prefix that ends is read whole. -/
theorem qualifiedName_of_isQualified (qualified : IsQualified name)
    (ends : endsName rest = true) : qualifiedName (name ++ rest) = name := by
  rcases qualified with lexical | ⟨space, inner, rfl, lexical, lexical'⟩
  · exact qualifiedName_append lexical ends
  · have colon : StopsName (':' :: (inner ++ rest)) := by
      rintro c ⟨⟩
      decide
    have nonempty : space.isEmpty = false := by simpa using ne_nil_of_isName lexical
    have nonempty' : inner.isEmpty = false := by simpa using ne_nil_of_isName lexical'
    rw [List.append_assoc, List.cons_append, qualifiedName]
    simp only [localName_of_stopsName lexical colon, List.drop_left, nonempty,
      localName_append lexical' ends, nonempty', Bool.false_eq_true, if_false]

theorem readName_of_isQualified (qualified : IsQualified name) (ends : endsName rest = true)
    (operandBefore : Bool) :
    Token.readName operandBefore (name ++ rest) =
      ((if operandBefore then Token.operatorOfName? name else none).getD (Token.ofName name rest),
        name.length) := by
  rw [Token.readName]
  simp only [qualifiedName_of_isQualified qualified ends, List.drop_left]
  split
  · simp [endsName] at ends
  · split <;> rename_i operator <;> simp [operator]

theorem Scans.qualified (qualified : IsQualified name) (ends : endsTest rest = true)
    (behind : Scans true rest tokens) :
    Scans false (name ++ rest) (.nameTest name :: tokens) := by
  have whole : Token.readName false (name ++ rest) = (Token.ofName name rest, name.length) :=
    readName_of_isQualified qualified (Bool.and_eq_true_iff.mp ends).1 false
  rw [ofName_of_endsTest name ends] at whole
  obtain ⟨first, tail, rfl⟩ := List.exists_cons_of_ne_nil qualified.ne_nil
  refine cons (not_isBlank_of_isNameStart qualified.head)
    ((read_isNameStart qualified.head false _).trans (congrArg Except.ok whole)) ?_
  rw [List.length_cons, Nat.add_sub_cancel]
  have passed : (tail ++ rest).drop tail.length = rest := List.drop_left
  exact passed.symm ▸ behind

theorem isQualified_of_tokenize {position : Nat}
    (scanned : tokenize name = .ok [⟨.nameTest name, position⟩]) : IsQualified name := by
  obtain ⟨gap, written, after, -, -, -, lexeme, -⟩ := scan_cons_ok scanned
  generalize same : Token.nameTest name = token at lexeme
  cases lexeme with
  | mark isMark => rw [← same] at isMark; cases isMark
  | integer | decimal | literal | reference => cases same
  | operator known => rcases operator_cases known with rfl | rfl | rfl | rfl <;> cases same
  | name qualified =>
    split at same
    · cases same
    · split at same <;> cases same
    · cases same
      exact qualified
  | prefixWildcard => split at same <;> cases same

/-- Whether the lexer takes a text for one name. -/
def lexesName (name : Text) : Bool :=
  (tokenize name).toOption.any fun located => located.map (·.token) == [.nameTest name]

/-- The names that the lexer accepts may have a prefix, but have nothing else in them. -/
theorem lexesName_iff : lexesName name = true ↔ IsQualified name := by
  constructor
  · intro lexes
    obtain ⟨located, scanned, alone⟩ := exists_ok_of_any lexes
    obtain ⟨⟨_, position⟩, rfl, rfl⟩ := List.map_eq_singleton_iff.mp (eq_of_beq alone)
    exact isQualified_of_tokenize scanned
  · intro qualified
    have scans : Scans false name [.nameTest name] := by
      simpa using Scans.qualified qualified rfl (.nil true)
    obtain ⟨located, scanned, same⟩ := scans.tokenize
    rw [lexesName, scanned]
    exact beq_iff_eq.mpr same

end Names

section Tests

theorem WrittenTest.qualified {name : Text} (qualified : IsQualified name) :
    WrittenTest name (.name name) := by
  intro rest tokens endsTest scans
  refine ⟨.nameTest name :: tokens, .qualified qualified endsTest scans, ?_, rfl,
    .nameTest name tokens⟩
  obtain ⟨first, tail, rfl⟩ := List.exists_cons_of_ne_nil qualified.ne_nil
  intro slash
  cases slash
  exact absurd qualified.head (by decide)

/-- A test for a kind of node. -/
theorem WrittenTest.nodeType (type : NodeType) :
    WrittenTest (type.name ++ "()".toList) type.test := by
  intro rest tokens _ scans
  have known : Token.ofName type.name ('(' :: ')' :: rest) = .nodeType type := by
    cases type <;> rfl
  have lexical : isName type.name = true := by cases type <;> decide
  have closing : Scans false (')' :: rest) (.rightParen :: tokens) := .cons (by decide) rfl scans
  have opening : Scans false ('(' :: ')' :: rest) (.leftParen :: .rightParen :: tokens) :=
    .cons (by decide) rfl closing
  refine ⟨.nodeType type :: .leftParen :: .rightParen :: tokens, ?_, ?_, rfl,
    .of_recovers (.nodeType (test_eq_iff.mp rfl) tokens)⟩
  · have whole : Scans false (type.name ++ '(' :: ')' :: rest) _ :=
      .name lexical rfl (by rw [known]; exact opening)
    rw [known] at whole
    simpa using whole
  · cases type <;> nofun

end Tests

section Paths

variable {depth : Nat} {text : Text} {step : Step} {steps : List Step}

/-- A path from the document node with a first step. -/
theorem Written.slashPath {tag : Text} (first : WrittenStep depth tag step)
    (others : WrittenSteps depth text steps) :
    Written [] depth ('/' :: tag ++ text) (.rootPath (step :: steps)) := by
  intro rest tokens endsTest scans stops
  obtain ⟨ends, behind, scannedBehind, noBracket, readsBehind⟩ :=
    others rest tokens endsTest scans (by simpa [XPath.ends] using stops)
  obtain ⟨taken, scanned, noSlash, starts, reads⟩ := first _ behind ends scannedBehind noBracket
  refine ⟨.slash :: taken, ?_, rfl, fun layers room inLayers inRoom =>
    .of_recovers (.rootSteps starts (.relativePath (reads layers room inLayers inRoom).recovers
      (readsBehind layers room inLayers inRoom).recovers))⟩
  have slash : Scans false ('/' :: (tag ++ (text ++ rest))) (.slash :: taken) :=
    .slash noSlash scanned
  simpa using slash

theorem WrittenSteps.slashes {texts : List Text}
    (written : List.Forall₂ (WrittenStep depth) texts steps) :
    WrittenSteps depth (texts.flatMap ('/' :: ·)) steps := by
  induction written with
  | nil => exact .nil depth
  | cons first _ ih => exact .slash first ih

/-- The steps of a path are read back from the texts between its slashes. -/
theorem parse_steps {texts : List Text} (shallow : depth ≤ maxDepth) (some : texts ≠ [])
    (written : List.Forall₂ (WrittenStep depth) texts steps) :
    parse (texts.flatMap ('/' :: ·)) = .ok (.rootPath steps) := by
  cases written with
  | nil => exact absurd rfl some
  | cons first others =>
    exact ((Written.slashPath first (.slashes others)).climb ladder).parse shallow

/-- A slash alone is the path to the document node. -/
theorem parse_slash : parse ['/'] = .ok (.rootPath []) := by with_unfolding_all rfl

end Paths

end XmlSelect.XPath
