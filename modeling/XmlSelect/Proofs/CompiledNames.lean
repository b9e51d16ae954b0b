import XmlSelect.Proofs.CompiledSyntax
import XmlSelect.Proofs.SelectorShape
import XmlSelect.Proofs.StrayCharacters

/-! Which compiled selectors are expressions. Selectors take their names from the classes of XML,
expressions from those of Unicode; a name that is written for a selector stands outside of all
literals, where an expression can hold it only if it is a name there, too. -/
namespace XmlSelect.Selector

open XPath (Closed Held)

/-- The quotes of a string are closed, whatever it holds. -/
theorem closed_literal (value : Text) : Closed (literal value) := by
  rw [literal]
  cases apostrophe : value.contains '\'' with
  | false =>
    have absent : '\'' ∉ value := by simpa using apostrophe
    exact XPath.closed_literal (.inl rfl) absent
  | true =>
    cases double : value.contains '"' with
    | false =>
      have absent : '"' ∉ value := by simpa using double
      exact XPath.closed_literal (.inr rfl) absent
    | true =>
      have absent : ∀ piece ∈ value.splitOn '\'', '\'' ∉ piece := fun piece member inside =>
        absurd (Text.not_gap_of_mem_splitOnP member inside) (by decide)
      have between : Closed ", \"'\", ".toList := rfl
      have pieces := XPath.closed_intercalate between (List.forall_mem_map.mpr fun piece member =>
        XPath.closed_literal (.inl rfl) (absent piece member))
      have call : Closed "concat(".toList := rfl
      exact (call.append pieces).append rfl

section Names

theorem isUnquoted_of_isIdentChar {c : Char} (named : isIdentChar c = true) :
    XPath.isUnquoted c = true := by
  simp only [XPath.isUnquoted, Bool.and_eq_true, bne_iff_ne]
  constructor <;> rintro rfl <;> exact absurd named (by decide)

theorem closed_of_isIdentifier {name : Text} (named : IsIdentifier name) : Closed name :=
  XPath.closed_of_unquoted fun c member => isUnquoted_of_isIdentChar (named.2 c member)

private theorem inRanges_of_ascii {c : Char} {ranges : List (Nat × Nat)} (ascii : c.toNat < 128)
    (high : ∀ range ∈ ranges, 128 ≤ range.1) : inRanges ranges c.toNat = false := by
  rw [inRanges, List.any_eq_false]
  intro range member
  have := high range member
  simp only [Bool.and_eq_true, decide_eq_true_eq, not_and]
  omega

/-- In ASCII, what starts an identifier starts a name. -/
theorem isNameStart_of_isIdentStart {c : Char} (start : isIdentStart c = true)
    (ascii : c.toNat < 128) : XPath.isNameStart c = true := by
  rw [isIdentStart, isNameStart, inRanges_of_ascii ascii (by decide), Bool.or_false,
    Bool.and_eq_true, Bool.or_eq_true, bne_iff_ne, beq_iff_eq] at start
  simpa [XPath.isNameStart, isLetter, ascii] using start.1.resolve_right start.2

/-- In ASCII, what continues an identifier continues a name. -/
theorem isNameChar_of_isIdentChar {c : Char} (named : isIdentChar c = true)
    (ascii : c.toNat < 128) : XPath.isNameChar c = true := by
  rw [isIdentChar, isNameChar, isNameStart, inRanges_of_ascii ascii (by decide),
    inRanges_of_ascii ascii (by decide)] at named
  simp only [XPath.isNameChar, isLetterOrNumber, isLetter, ascii, if_true]
  revert named
  simp only [Bool.and_eq_true, Bool.or_eq_true, bne_iff_ne, beq_iff_eq, Bool.or_false]
  tauto

/-- An identifier that stands outside of all literals, with no name in front of it, is a name. -/
theorem isName_of_held {front name : Text} (back : Text) (held : Held (front ++ (name ++ back)))
    (closed : Closed front) (apart : ∀ c ∈ front.getLast?, XPath.isNameChar c = false)
    (named : IsTagName name) : XPath.isName name = true := by
  obtain ⟨first, rest, rfl, start, inner⟩ := named
  refine XPath.isName_iff.mpr ⟨first, rest, rfl, ?_, fun c member => ?_⟩
  · by_contra noStart
    have high : 128 ≤ first.toNat := by
      by_contra ascii
      exact noStart (isNameStart_of_isIdentStart start (Nat.lt_of_not_le ascii))
    obtain ⟨-, before, last, continues⟩ := held front first (rest ++ back) (by simp) closed high
      (Bool.eq_false_iff.mpr noStart)
    exact absurd continues (by simp [apart before last])
  · by_cases ascii : c.toNat < 128
    · exact isNameChar_of_isIdentChar (inner c member) ascii
    · by_cases letter : XPath.isNameStart c = true
      · have lexical : XPath.isName [c] = true := by simp [XPath.isName, letter]
        exact XPath.isNameChar_of_mem lexical (List.mem_singleton_self c)
      · obtain ⟨before, after, rfl⟩ := List.append_of_mem member
        have plain : Closed (first :: before) := XPath.closed_of_unquoted fun d listed => by
          refine isUnquoted_of_isIdentChar ?_
          rcases List.mem_cons.mp listed with rfl | listed
          · exact isIdentChar_of_isIdentStart start
          · exact inner d (List.mem_append_left _ listed)
        exact (held (front ++ first :: before) c (after ++ back) (by simp) (closed.append plain)
          (Nat.le_of_not_lt ascii) (Bool.eq_false_iff.mpr letter)).1

end Names

section Tests

theorem closed_wordTest {name : Text} (closed : Closed name) (token : Text) :
    Closed (wordTest name token) := by
  have front : Closed "contains(concat(' ', normalize-space(@".toList := rfl
  have between : Closed "), ' '), ".toList := rfl
  exact (((front.append closed).append between).append (closed_literal _)).append rfl

theorem closed_comparisonTest {name : Text} (closed : Closed name) (comparison : Comparison)
    (operand : Text) : Closed (comparisonTest name comparison operand) := by
  have mark : Closed ['@'] := rfl
  have comma : Closed ", ".toList := rfl
  have value : Closed ('@' :: name) := mark.append closed
  have equal : Closed (('@' :: name) ++ '=' :: literal operand) :=
    value.append ((show Closed ['='] from rfl).append (closed_literal operand))
  have startsWith (start : Text) :
      Closed ("starts-with(".toList ++ '@' :: name ++ ", ".toList ++ literal start ++ [')']) :=
    ((((show Closed "starts-with(".toList from rfl).append value).append comma).append
      (closed_literal start)).append rfl
  cases comparison with
  | equals => exact equal
  | includesWord => exact closed_wordTest closed operand
  | startsWith => exact startsWith operand
  | endsWith =>
    have digits : Closed (Text.ofNat (operand.length - 1)) :=
      (XPath.held_plain (List.all_eq_true.mpr fun c member =>
        XPath.isPlain_of_isDigit (Nat.isDigit_of_mem_toDigits (by decide) (by decide) member))).2
    have length : Closed ", string-length(".toList := rfl
    have minus : Closed ") - ".toList := rfl
    have equals : Closed ") = ".toList := rfl
    exact (((((((show Closed "substring(".toList from rfl).append value).append length).append
      value).append minus).append digits).append equals).append (closed_literal operand)
  | contains =>
    exact ((((show Closed "contains(".toList from rfl).append value).append comma).append
      (closed_literal operand)).append rfl
  | dashMatch =>
    have or : Closed " or ".toList := rfl
    have both := (equal.append or).append (startsWith (operand ++ ['-']))
    unfold comparisonTest
    simpa using both

theorem closed_attributeTest {test : AttributeTest} (named : IsTagName test.name) :
    Closed test.toXPath := by
  have closed := closed_of_isIdentifier named.isIdentifier
  rw [AttributeTest.toXPath]
  split
  · exact (show Closed ['@'] from rfl).append closed
  · split
    · rfl
    · exact closed_comparisonTest closed _ _

/-- The name of an attribute is written outside of all literals, behind its mark. -/
theorem attributeTest_eq {test : AttributeTest} (written : test.isNever = false) :
    ∃ front back, test.toXPath = front ++ '@' :: (test.name ++ back) ∧ Closed front := by
  obtain ⟨name, condition⟩ := test
  cases condition with
  | none => exact ⟨[], [], by simp [AttributeTest.toXPath], rfl⟩
  | some condition =>
    obtain ⟨comparison, operand⟩ := condition
    have meets : neverMatches comparison operand = false := written
    simp only [AttributeTest.toXPath, meets, Bool.false_eq_true, if_false]
    cases comparison with
    | equals =>
      refine ⟨[], '=' :: literal operand, ?_, rfl⟩
      unfold comparisonTest
      simp
    | includesWord =>
      refine ⟨"contains(concat(' ', normalize-space(".toList,
        "), ' '), ".toList ++ literal (' ' :: operand ++ [' ']) ++ [')'], ?_, rfl⟩
      unfold comparisonTest wordTest
      simp
    | startsWith =>
      refine ⟨"starts-with(".toList, ", ".toList ++ literal operand ++ [')'], ?_, rfl⟩
      unfold comparisonTest
      simp
    | endsWith =>
      refine ⟨"substring(".toList, ", string-length(".toList ++ '@' :: name ++ ") - ".toList ++
        Text.ofNat (operand.length - 1) ++ ") = ".toList ++ literal operand, ?_, rfl⟩
      unfold comparisonTest
      simp
    | contains =>
      refine ⟨"contains(".toList, ", ".toList ++ literal operand ++ [')'], ?_, rfl⟩
      unfold comparisonTest
      simp
    | dashMatch =>
      refine ⟨[], '=' :: literal operand ++ " or starts-with(".toList ++ '@' :: name ++
        ", ".toList ++ literal (operand ++ ['-']) ++ [')'], ?_, rfl⟩
      unfold comparisonTest
      simp

/-- A test that is written with its name is an expression exactly if the name is a name there. -/
theorem parse_attributeTest_iff {test : AttributeTest} (named : IsTagName test.name)
    (written : test.isNever = false) :
    (∃ value, XPath.parse test.toXPath = .ok value) ↔ XPath.isName test.name = true := by
  constructor
  · rintro ⟨value, read⟩
    obtain ⟨front, back, shown, closed⟩ := attributeTest_eq written
    have held := XPath.held_of_parse read
    rw [shown] at held
    refine isName_of_held back ?_ (closed.append (show Closed ['@'] from rfl)) ?_ named
    · simpa using held
    · simp only [List.getLast?_concat]
      rintro c ⟨⟩
      decide
  · intro lexical
    have spelled : test.spellsName = true := by rw [AttributeTest.spellsName, lexical, Bool.or_true]
    exact ⟨test.expr, (written_attributeTest spelled).parse (by decide)⟩

end Tests

section Chains

theorem closed_tests {compound : Compound} (spelled : compound.Spelled) :
    ∀ test ∈ compound.tests, Closed test := by
  intro test member
  simp only [Compound.tests, List.mem_append, List.mem_map] at member
  rcases member with (⟨id, -, rfl⟩ | ⟨name, -, rfl⟩) | ⟨test, member, rfl⟩
  · exact (show Closed "@id=".toList from rfl).append (closed_literal id)
  · have word : Closed "class".toList := rfl
    exact closed_wordTest word name
  · exact closed_attributeTest (spelled.attributes test member)

theorem closed_bracketedAll {texts : List Text} (each : ∀ text ∈ texts, Closed text) :
    Closed (XPath.bracketedAll texts) :=
  XPath.closed_flatMap fun text member =>
    ((show Closed ['['] from rfl).append (each text member)).append rfl

theorem closed_tag {compound : Compound} (spelled : compound.Spelled) :
    Closed (compound.tag.getD ['*']) := by
  cases tag : compound.tag with
  | none => rfl
  | some name => exact closed_of_isIdentifier (spelled.tag name tag).isIdentifier

theorem closed_compound {compound : Compound} (spelled : compound.Spelled) :
    Closed compound.toXPath := by
  rw [Compound.toXPath_eq]
  exact (closed_tag spelled).append (closed_bracketedAll (closed_tests spelled))

theorem closed_toXPath {selector : Chain} (spelled : ∀ member ∈ selector, member.2.Spelled) :
    Closed (toXPath selector) := by
  refine XPath.closed_flatMap fun member listed => ?_
  have mark : Closed member.1.toXPath := by cases member.1 <;> rfl
  exact mark.append (closed_compound (spelled member listed))

/-- What names something in a compound is a name in the expression around it. -/
theorem spellsNames_of_held {compound : Compound} (spelled : compound.Spelled) {front : Text}
    (back : Text) (held : Held (front ++ (compound.toXPath ++ back))) (closed : Closed front)
    (apart : ∀ c ∈ front.getLast?, XPath.isNameChar c = false) : compound.spellsNames = true := by
  rw [Compound.toXPath_eq] at held
  rw [Compound.spellsNames, Bool.and_eq_true, List.all_eq_true]
  constructor
  · cases tag : compound.tag with
    | none => rfl
    | some name =>
      rw [tag, Option.getD_some, List.append_assoc] at held
      exact isName_of_held _ held closed apart (spelled.tag name tag)
  · intro test member
    rw [AttributeTest.spellsName]
    cases written : test.isNever with
    | true => rfl
    | false =>
      have listed : test.toXPath ∈ compound.tests :=
        List.mem_append_right _ (List.mem_map_of_mem member)
      obtain ⟨before, after, tests⟩ := List.append_of_mem listed
      obtain ⟨inner, outer, shown, closedInner⟩ := attributeTest_eq written
      have closedBefore : Closed (XPath.bracketedAll before) := closed_bracketedAll
        fun text earlier => closed_tests spelled text (tests ▸ List.mem_append_left _ earlier)
      have closedFront := (((closed.append (closed_tag spelled)).append closedBefore).append
        ((show Closed ['['] from rfl).append closedInner)).append (show Closed ['@'] from rfl)
      refine isName_of_held (outer ++ ']' :: XPath.bracketedAll after ++ back) ?_ closedFront ?_
        (spelled.attributes test member)
      · simpa [tests, XPath.bracketedAll, shown] using held
      · intro c last
        rw [Option.mem_def, List.getLast?_concat] at last
        obtain rfl := Option.some.inj last
        decide

/-- A path that is read as an expression has only names in it that are names there. -/
theorem spellsNames_of_parse {selector : Chain} {value : XPath.Expr}
    (spelled : ∀ member ∈ selector, member.2.Spelled)
    (read : XPath.parse (toXPath selector) = .ok value) :
    ∀ member ∈ selector, member.2.spellsNames = true := by
  intro member listed
  obtain ⟨before, after, rfl⟩ := List.append_of_mem listed
  have held := XPath.held_of_parse read
  have closed := closed_toXPath fun other earlier => spelled other (List.mem_append_left _ earlier)
  have mark : Closed member.1.toXPath := by cases member.1 <;> rfl
  refine spellsNames_of_held (spelled member listed) (toXPath after) ?_
    (closed.append mark) ?_
  · simpa [toXPath] using held
  · cases member.1 <;> simp [Combinator.toXPath] <;> decide

/-- A compiled selector is an expression exactly if the names that are written for it are names in
expressions. -/
theorem parse_compile_iff {source text : Text} (compiled : compile source = .ok text) :
    ∃ selector, parse source = .ok selector ∧ text = toXPath selector ∧
      ((∃ value, XPath.parse text = .ok value) ↔
        ∀ member ∈ selector, member.2.spellsNames = true) := by
  obtain ⟨selector, read, rfl⟩ := map_ok compiled
  obtain ⟨first, others, rfl, spelled⟩ := parse_spelled read
  refine ⟨_, read, rfl, ?_, fun names => ⟨_, parse_toXPath_of_spellsNames names⟩⟩
  rintro ⟨value, accepted⟩
  exact spellsNames_of_parse spelled accepted

/-- The name of a test that no value meets is not written, and may be any identifier. -/
theorem parse_compile_iff_never :
    compile "a\u00e9 b[e\u0301^='']".toList = .ok "//a\u00e9//b[false()]".toList ∧
      ∃ value, XPath.parse "//a\u00e9//b[false()]".toList = .ok value := by
  have compiled : compile "a\u00e9 b[e\u0301^='']".toList = .ok "//a\u00e9//b[false()]".toList := by
    decide +kernel
  let selector : Chain := [(.descendant, { tag := some "a\u00e9".toList }),
    (.descendant, ⟨some "b".toList, [], [], [⟨"e\u0301".toList, some (.startsWith, [])⟩]⟩)]
  have read : parse "a\u00e9 b[e\u0301^='']".toList = .ok selector := by decide +kernel
  obtain ⟨found, same, -, accepted⟩ := parse_compile_iff compiled
  obtain rfl := Except.ok.inj (read.symm.trans same)
  exact ⟨compiled, accepted.mpr (by decide +kernel)⟩

/-- A combining mark continues an identifier, but is a stray character in an expression. -/
theorem combining_mark_refused : compile "e\u0301".toList = .ok "//e\u0301".toList ∧
    ¬∃ value, XPath.parse "//e\u0301".toList = .ok value := by
  refine ⟨by decide +kernel, ?_⟩
  have refused : (XPath.parse "//e\u0301".toList).toOption.isNone = true := by decide +kernel
  rintro ⟨value, accepted⟩
  rw [accepted] at refused
  cases refused

end Chains

end XmlSelect.Selector
