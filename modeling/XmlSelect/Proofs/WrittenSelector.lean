import Mathlib.Data.Set.List
import XmlSelect.Proofs.PrintedMarkup
import XmlSelect.Proofs.SelectorShape
import XmlSelect.Proofs.WordSearch

/-! Selectors with the white space and the quotes they are written with. Reading the text of a
written selector gives what it denotes, whatever its operands hold. One character is white space as
well as a part of identifiers; what is written has to be clear of it where it could be either. -/
namespace XmlSelect.Selector

open Markup (Takes)

/-- The Ogham space mark. -/
def oghamSpace : Char := '\u1680'

/-- One character is white space and can stand in identifiers. -/
theorem eq_oghamSpace {c : Char} (space : isSpace c = true) (inner : isIdentChar c = true) :
    c = oghamSpace := by
  have named : isIdentChar c = true → c = oghamSpace :=
    forall_isSpace (p := fun c => isIdentChar c = true → c = oghamSpace) (by decide) space
  exact named inner

/-- White space, possibly none. -/
abbrev Gap := { text : Text // text.all isSpace = true }

theorem Gap.blank (gap : Gap) : ∀ c ∈ gap.val, isSpace c = true := List.all_eq_true.mp gap.2

abbrev Identifier := { name : Text // IsIdentifier name }

abbrev TagName := { name : Text // IsTagName name }

namespace Written

/-- A comparison with an operand between quotes that it does not hold. -/
structure Condition where
  compared : Comparison
  before : Gap
  quote : Char
  isQuote : quote = '\'' ∨ quote = '"'
  operand : Text
  absent : quote ∉ operand
  behind : Gap

/-- A test of an attribute, from behind its bracket. -/
structure Test where
  before : Gap
  name : TagName
  behind : Gap
  condition : Option Condition

structure Compound where
  tag : Option TagName
  ids : List Identifier
  classes : List Identifier
  distinct : classes.Nodup
  tests : List Test

/-- What stands between two compounds. -/
inductive Joint
  | descendant (gap : Gap) (visible : gap.val ≠ [])
  | child (before behind : Gap)

/-- The first compound, and the others with what stands in front of each. -/
structure Chain where
  first : Compound
  others : List (Joint × Compound)

section Texts

def Condition.text (written : Condition) : Text :=
  written.compared.text ++ written.before.val ++
    written.quote :: written.operand ++ written.quote :: written.behind.val

def Test.text (written : Test) : Text :=
  written.before.val ++ written.name.val ++ written.behind.val ++
    written.condition.elim [] Condition.text ++ [']']

/-- The parts behind the tag. -/
def Compound.partsText (written : Compound) : Text :=
  (written.ids.flatMap fun id => '#' :: id.val) ++
    ((written.classes.flatMap fun name => '.' :: name.val) ++
      written.tests.flatMap fun test => '[' :: test.text)

def Compound.text (written : Compound) : Text :=
  written.tag.elim ['*'] Subtype.val ++ written.partsText

def Joint.text : Joint → Text
  | descendant gap _ => gap
  | child before behind => before.val ++ '>' :: behind.val

/-- The text of compounds that follow one. -/
def othersText (others : List (Joint × Compound)) : Text :=
  others.flatMap fun item => item.1.text ++ item.2.text

def Chain.text (written : Chain) : Text := written.first.text ++ othersText written.others

end Texts

section Denotations

def Test.denoted (written : Test) : AttributeTest :=
  ⟨written.name, written.condition.map fun condition => (condition.compared, condition.operand)⟩

def Compound.denoted (written : Compound) : Selector.Compound where
  tag := written.tag.map Subtype.val
  ids := written.ids.map Subtype.val
  classes := written.classes.map Subtype.val
  attributes := written.tests.map Test.denoted

def Joint.combinator : Joint → Combinator
  | descendant .. => .descendant
  | child .. => .child

/-- The compounds that follow one, each with its combinator. -/
def denotedOthers (others : List (Joint × Compound)) : Selector.Chain :=
  others.map fun item => (item.1.combinator, item.2.denoted)

def Chain.denoted (written : Chain) : Selector.Chain :=
  (.descendant, written.first.denoted) :: denotedOthers written.others

end Denotations

/-- A compound that can be written: what names something in it is an identifier, no class is there
twice, and no operand holds quotes of both kinds. -/
structure Spellable (read : Selector.Compound) : Prop extends read.Spelled where
  distinct : read.classes.Nodup
  quotable : ∀ test ∈ read.attributes, ∀ condition ∈ test.condition,
    '\'' ∉ condition.2 ∨ '"' ∉ condition.2

section Existence

theorem exists_test {test : AttributeTest} (named : IsTagName test.name)
    (quotable : ∀ condition ∈ test.condition, '\'' ∉ condition.2 ∨ '"' ∉ condition.2) :
    ∃ written : Test, written.denoted = test := by
  have tight : Gap := ⟨[], rfl⟩
  obtain ⟨name, _ | ⟨compared, operand⟩⟩ := test
  · exact ⟨⟨tight, ⟨name, named⟩, tight, none⟩, rfl⟩
  · rcases quotable _ rfl with absent | absent
    · exact ⟨⟨tight, ⟨name, named⟩, tight,
        some ⟨compared, tight, '\'', .inl rfl, operand, absent, tight⟩⟩, rfl⟩
    · exact ⟨⟨tight, ⟨name, named⟩, tight,
        some ⟨compared, tight, '"', .inr rfl, operand, absent, tight⟩⟩, rfl⟩

theorem Spellable.exists_denoted {read : Selector.Compound} (spellable : Spellable read) :
    ∃ written : Compound, written.denoted = read := by
  obtain ⟨⟨tagged, identified, classed, tested⟩, distinct, quotable⟩ := spellable
  obtain ⟨tag, ids, classes, attributes⟩ := read
  lift ids to List Identifier using identified
  lift classes to List Identifier using classed
  have tests : ∀ test ∈ attributes, test ∈ Set.range Test.denoted := fun test listed =>
    exists_test (tested test listed) (quotable test listed)
  obtain ⟨written, rfl⟩ := (Set.range_list_map Test.denoted).ge tests
  have once : classes.Nodup := List.Nodup.of_map Subtype.val distinct
  cases tag with
  | none => exact ⟨⟨none, ids, classes, once, written⟩, rfl⟩
  | some name => exact ⟨⟨some ⟨name, tagged name rfl⟩, ids, classes, once, written⟩, rfl⟩

theorem Joint.exists_combinator (combinator : Combinator) :
    ∃ joint : Joint, joint.combinator = combinator :=
  match combinator with
  | .descendant => ⟨.descendant ⟨[' '], by decide⟩ (by decide), rfl⟩
  | .child => ⟨.child ⟨[], rfl⟩ ⟨[], rfl⟩, rfl⟩

/-- Every chain of compounds that can be written is denoted by a written one. -/
theorem Chain.exists_denoted {first : Selector.Compound} {others : Selector.Chain}
    (spellable : ∀ member ∈ (.descendant, first) :: others, Spellable member.2) :
    ∃ written : Chain, written.denoted = (.descendant, first) :: others := by
  obtain ⟨here, behind⟩ := List.forall_mem_cons.mp spellable
  obtain ⟨first, rfl⟩ := here.exists_denoted
  have members : ∀ member ∈ others, member ∈ Set.range fun item : Joint × Compound =>
      (item.1.combinator, item.2.denoted) := by
    rintro ⟨combinator, read⟩ listed
    obtain ⟨joint, rfl⟩ := Joint.exists_combinator combinator
    obtain ⟨compound, rfl⟩ := (behind _ listed).exists_denoted
    exact ⟨(joint, compound), rfl⟩
  obtain ⟨written, rfl⟩ := (Set.range_list_map _).ge members
  exact ⟨⟨first, written⟩, rfl⟩

end Existence

section Clearness

def startsClear (text : Text) : Bool := text.head? != some oghamSpace

/-- Neither the name nor the white space behind it starts with the character that is both. -/
def Test.clear (written : Test) : Bool :=
  startsClear written.name.val && startsClear written.behind.val

def Compound.clear (written : Compound) : Bool :=
  written.tag.all (startsClear ·.val) && written.tests.all Test.clear

/-- Whether a compound ends with an identifier. -/
def Compound.endsNamed (written : Compound) : Bool :=
  written.tests.isEmpty &&
    (written.tag.isSome || !written.ids.isEmpty || !written.classes.isEmpty)

/-- What stands behind an identifier does not start with the character that is both. -/
def clearFrom (written : Compound) : List (Joint × Compound) → Bool
  | [] => written.clear
  | (joint, next) :: others =>
    written.clear && (!written.endsNamed || startsClear joint.text) && clearFrom next others

/-- The character that is white space and part of identifiers is not the first one of a tag, of the
name of an attribute, or of the white space behind an identifier. -/
def Chain.clear (written : Chain) : Bool := clearFrom written.first written.others

end Clearness

/-- Whether an identifier in front of a text ends there. -/
def Ends (tail : Text) : Prop := ∀ c ∈ tail.head?, isIdentChar c = false

theorem ends_cons {mark : Char} (other : isIdentChar mark = false) (rest : Text) :
    Ends (mark :: rest) := stops_cons other rest

theorem not_both {text : Text} (clear : startsClear text = true) {c : Char}
    (first : c ∈ text.head?) (space : isSpace c = true) : isIdentChar c = false := by
  refine Bool.eq_false_iff.mpr fun inner => ?_
  obtain rfl := eq_oghamSpace space inner
  rw [startsClear, Option.mem_def.mp first, bne_self_eq_false] at clear
  cases clear

/-- White space ends an identifier unless it starts with the character that is both. -/
theorem ends_gap {gap tail : Text} (blank : ∀ c ∈ gap, isSpace c = true)
    (clear : startsClear gap = true) (ends : Ends tail) : Ends (gap ++ tail) := by
  cases gap with
  | nil => exact ends
  | cons c rest =>
    exact ends_cons (not_both clear rfl (blank c List.mem_cons_self)) (rest ++ tail)

/-- A name does not start with white space unless it starts with the character that is both. -/
theorem visible_name {name : Text} (named : IsTagName name) (clear : startsClear name = true)
    (tail : Text) : ∀ c ∈ (name ++ tail).head?, isSpace c = false := by
  obtain ⟨first, rest, rfl, start, inner⟩ := named
  rintro c ⟨⟩
  refine Bool.eq_false_iff.mpr fun space => ?_
  have other := not_both clear rfl space
  rw [isIdentChar_of_isIdentStart start] at other
  cases other

section Pieces

variable {tail : Text}

theorem takes_identifier {name : Text} (identifies : IsIdentifier name) (ends : Ends tail)
    (mark : Char) (opening : Text) : Takes (identifier mark opening) name tail name := by
  rintro source rfl
  obtain ⟨nonempty, inner⟩ := identifies
  obtain ⟨taken, left⟩ := span_append inner ends
  refine ⟨List.suffix_append name tail, ?_⟩
  simp [identifier, taken, left, nonempty]

theorem attributeName_append {name : Text} (named : IsTagName name) (ends : Ends tail) :
    ∀ source, source = name ++ tail →
      ∃ suffix, attributeName source = ⟨name, tail, suffix⟩ := by
  rintro source rfl
  obtain ⟨taken, left⟩ := span_append named.isIdentifier.2 ends
  obtain ⟨first, rest, text, start, -⟩ := named
  have starts : (name ++ tail).head?.any isIdentStart = true := by
    rw [text]
    exact start
  refine ⟨List.suffix_append name tail, ?_⟩
  simp only [attributeName, starts, if_true, taken, left]

theorem takes_comparison (compared : Comparison) (opening tail : Text) :
    Takes (comparison opening) compared.text tail (some compared) := by
  rintro source rfl
  cases compared <;> exact ⟨List.suffix_append _ tail, rfl⟩

theorem takes_operand {quote : Char} (isQuote : quote = '\'' ∨ quote = '"') {value : Text}
    (absent : quote ∉ value) (opening tail : Text) :
    Takes (operand opening) (quote :: value ++ [quote]) tail value := by
  rintro source rfl
  refine ⟨List.suffix_append _ tail, ?_⟩
  have closed : Text.breakOn? [quote] (value ++ [quote] ++ tail) = some (value, tail) := by
    rw [List.append_assoc]
    exact Text.breakOn?_singleton absent tail
  have bracket : (quote == ']') = false := by rcases isQuote with rfl | rfl <;> decide
  have quotes : (quote == '\'' || quote == '"') = true := by
    rcases isQuote with rfl | rfl <;> decide
  simp only [List.cons_append, operand, bracket, quotes, Bool.false_eq_true, if_false, if_true]
  split
  · rename_i found
    obtain ⟨rfl, rfl⟩ := Prod.mk.inj (Option.some.inj (closed.symm.trans found))
    rfl
  · rename_i found
    cases closed.symm.trans found

theorem head_condition (condition : Option Condition) (tail : Text) :
    ∀ c ∈ (condition.elim [] Condition.text ++ ']' :: tail).head?,
      isSpace c = false ∧ isIdentChar c = false := by
  cases condition with
  | none =>
    rintro c ⟨⟩
    decide
  | some condition =>
    obtain ⟨compared, _⟩ := condition
    cases compared <;> rintro c ⟨⟩ <;> decide

/-- The parts of a condition are read one behind the other, up to the bracket. -/
theorem reads_condition (written : Condition) (opening tail : Text) :
    ∃ spaced spaced' afterMark beforeOperand afterOperand marked gapped taken closed,
      comparison opening (written.text ++ ']' :: tail) =
        .ok ⟨some written.compared, afterMark, marked⟩ ∧
      Read.skip isSpace afterMark = ⟨spaced, beforeOperand, gapped⟩ ∧
      operand opening beforeOperand = .ok ⟨written.operand, afterOperand, taken⟩ ∧
      Read.skip isSpace afterOperand = ⟨spaced', ']' :: tail, closed⟩ := by
  obtain ⟨compared, gap, quote, isQuote, operand, absent, last⟩ := written
  have printed : isSpace quote = false := by rcases isQuote with rfl | rfl <;> decide
  have bracket : isSpace ']' = false := by decide
  obtain ⟨marked, found⟩ := takes_comparison compared opening
    (gap.val ++ (quote :: operand ++ [quote] ++ (last.val ++ ']' :: tail)))
    (Condition.text ⟨compared, gap, quote, isQuote, operand, absent, last⟩ ++ ']' :: tail)
    (by simp [Condition.text])
  obtain ⟨gapped, skipped⟩ :=
    Read.skip_append (quote :: operand ++ [quote] ++ (last.val ++ ']' :: tail)) gap.blank
      (stops_cons printed _) _ rfl
  obtain ⟨taken, valued⟩ := takes_operand isQuote absent opening (last.val ++ ']' :: tail) _ rfl
  obtain ⟨closed, ended⟩ := Read.skip_append _ last.blank (stops_cons bracket tail) _ rfl
  exact ⟨_, _, _, _, _, marked, gapped, taken, closed, found, skipped, valued, ended⟩

theorem takes_test (written : Test) (clear : written.clear = true) (opening tail : Text) :
    Takes (attributeTest opening) written.text tail written.denoted := by
  obtain ⟨before, name, behind, condition⟩ := written
  obtain ⟨clearName, clearBehind⟩ := Bool.and_eq_true_iff.mp clear
  have head := head_condition condition tail
  intro source same
  simp only [Test.text, List.append_assoc, List.singleton_append] at same
  -- What is read in front of the comparison is the same with a condition and without one.
  generalize text : condition.elim [] Condition.text ++ ']' :: tail = rest at same head
  have ends := ends_gap behind.blank clearBehind fun c first => (head c first).2
  obtain ⟨first, skipped⟩ :=
    Read.skip_append _ before.blank (visible_name name.2 clearName _) source same
  obtain ⟨second, named⟩ := attributeName_append name.2 ends _ rfl
  obtain ⟨third, spaced⟩ := Read.skip_append _ behind.blank (fun c first => (head c first).1) _ rfl
  have within : rest <:+ source := third.trans (second.trans first)
  have nonempty : ¬name.val.isEmpty = true := by simpa using name.2.isIdentifier.1
  unfold attributeTest
  rw [skipped]
  dsimp only
  rw [named]
  dsimp only
  rw [spaced]
  dsimp only
  cases condition with
  | none =>
    subst text
    refine ⟨(List.suffix_cons ']' tail).trans within, ?_⟩
    simp only [Option.elim_none, List.nil_append, comparison, ok_bind, if_neg nonempty]
    rfl
  | some condition =>
    subst text
    obtain ⟨_, _, _, _, _, fourth, fifth, sixth, seventh, found, gapped, valued, closed⟩ :=
      reads_condition condition opening tail
    refine ⟨(List.suffix_cons ']' tail).trans (seventh.trans (sixth.trans (fifth.trans
      (fourth.trans within)))), ?_⟩
    simp only [Option.elim_some]
    rw [found, ok_bind]
    dsimp only
    rw [if_neg nonempty, gapped]
    dsimp only
    rw [valued, ok_bind]
    dsimp only
    rw [closed]
    rfl

end Pieces

/-- In front of `tail`, a piece of a compound makes `before`, which is read so far, to `after`. -/
def Adds (piece tail : Text) (before after : Selector.Compound) : Prop :=
  ∀ (whole : Text) (within : piece ++ tail <:+ whole),
    parts whole before (piece ++ tail) within =
      parts whole after tail ((List.suffix_append piece tail).trans within)

section Parts

variable {before after : Selector.Compound} {tail : Text}

theorem adds_nil : Adds [] tail before before := fun _ _ => rfl

theorem Adds.append {first second : Text} {between : Selector.Compound}
    (one : Adds first (second ++ tail) before between) (other : Adds second tail between after) :
    Adds (first ++ second) tail before after := by
  intro whole within
  have same : first ++ second ++ tail = first ++ (second ++ tail) := List.append_assoc ..
  simp only [same] at within ⊢
  exact (one whole within).trans (other whole _)

theorem adds_of_part {mark : Char} {body : Text} (part : ∀ rest, rest = body ++ tail →
      ∃ suffix, part? before mark rest = some (.ok ⟨after, tail, suffix⟩)) :
    Adds (mark :: body) tail before after := by
  intro whole within
  obtain ⟨_, read⟩ := part _ rfl
  simp only [List.cons_append, parts, read, ok_bind]

/-- What a mark starts ends the identifier in front of it. -/
theorem ends_flatMap {α : Type} (mark : Char) (other : isIdentChar mark = false) (body : α → Text)
    (items : List α) (ends : items = [] → Ends tail) :
    Ends ((items.flatMap fun item => mark :: body item) ++ tail) := by
  cases items with
  | nil => exact ends rfl
  | cons item items => exact ends_cons other _

theorem adds_ids (before : Selector.Compound) (ids : List Identifier)
    (ends : ids ≠ [] → Ends tail) :
    Adds (ids.flatMap fun id => '#' :: id.val) tail before
      { before with ids := before.ids ++ ids.map Subtype.val } := by
  induction ids generalizing before with
  | nil => simpa using adds_nil
  | cons id ids ih =>
    have ends := ends (List.cons_ne_nil id ids)
    have behind := ends_flatMap '#' (by decide) Subtype.val ids fun _ => ends
    have one : Adds ('#' :: id.val) ((ids.flatMap fun id => '#' :: id.val) ++ tail) before
        { before with ids := before.ids ++ [id.val] } := by
      refine adds_of_part fun rest same => ?_
      obtain ⟨suffix, read⟩ := takes_identifier id.2 behind '#' ('#' :: rest) rest same
      exact ⟨suffix, by rw [part?, read]; rfl⟩
    simpa using one.append (ih _ fun _ => ends)

theorem adds_classes (before : Selector.Compound) (classes : List Identifier)
    (ends : classes ≠ [] → Ends tail)
    (distinct : (before.classes ++ classes.map Subtype.val).Nodup) :
    Adds (classes.flatMap fun name => '.' :: name.val) tail before
      { before with classes := before.classes ++ classes.map Subtype.val } := by
  induction classes generalizing before with
  | nil => simpa using adds_nil
  | cons name classes ih =>
    have ends := ends (List.cons_ne_nil name classes)
    have behind := ends_flatMap '.' (by decide) Subtype.val classes fun _ => ends
    -- A class that is there already would be dropped.
    have fresh : name.val ∉ before.classes := fun listed =>
      List.disjoint_of_nodup_append distinct listed List.mem_cons_self
    have one : Adds ('.' :: name.val) ((classes.flatMap fun name => '.' :: name.val) ++ tail) before
        { before with classes := before.classes ++ [name.val] } := by
      refine adds_of_part fun rest same => ?_
      obtain ⟨suffix, read⟩ := takes_identifier name.2 behind '.' ('.' :: rest) rest same
      exact ⟨suffix, by rw [part?, read]; simp [Except.map, Read.map, fresh]⟩
    simpa using one.append (ih _ (fun _ => ends) (by simpa using distinct))

theorem adds_tests (before : Selector.Compound) (tail : Text) (tests : List Test)
    (clear : tests.all Test.clear = true) :
    Adds (tests.flatMap fun test => '[' :: test.text) tail before
      { before with attributes := before.attributes ++ tests.map Test.denoted } := by
  induction tests generalizing before with
  | nil => simpa using adds_nil
  | cons test tests ih =>
    obtain ⟨clearTest, clear⟩ := Bool.and_eq_true_iff.mp clear
    have one : Adds ('[' :: test.text) ((tests.flatMap fun test => '[' :: test.text) ++ tail) before
        { before with attributes := before.attributes ++ [test.denoted] } := by
      refine adds_of_part fun rest same => ?_
      obtain ⟨suffix, read⟩ := takes_test test clearTest ('[' :: rest) _ rest same
      exact ⟨suffix, by rw [part?, read]; rfl⟩
    simpa using one.append (ih _ clear)

end Parts

section Compounds

/-- Whether a compound in front of a text ends there. -/
def EndsCompound (tail : Text) : Prop := ∀ c ∈ tail.head?, isSpace c = true ∨ c = '>'

variable {tail : Text}

theorem parts_of_ends (ends : EndsCompound tail) {whole : Text} (read : Selector.Compound)
    (within : tail <:+ whole) : parts whole read tail within = .ok ⟨read, tail, within⟩ := by
  cases tail with
  | nil => rw [parts]
  | cons c rest =>
    have none : part? read c rest = none := by
      rw [part?.eq_def]
      split
      all_goals first | rfl | exact absurd (ends _ rfl) (by decide)
    rw [parts, none]

theorem ends_testsText (written : Compound) (named : written.endsNamed = true → Ends tail)
    (identified : written.tag.isSome ∨ written.ids ≠ [] ∨ written.classes ≠ []) :
    Ends ((written.tests.flatMap fun test => '[' :: test.text) ++ tail) := by
  refine ends_flatMap '[' (by decide) Test.text written.tests fun none => named ?_
  simpa [Compound.endsNamed, none, or_assoc] using identified

theorem ends_classesText (written : Compound) (named : written.endsNamed = true → Ends tail)
    (identified : written.tag.isSome ∨ written.ids ≠ []) :
    Ends ((written.classes.flatMap fun name => '.' :: name.val) ++
      ((written.tests.flatMap fun test => '[' :: test.text) ++ tail)) :=
  ends_flatMap '.' (by decide) Subtype.val written.classes fun _ =>
    ends_testsText written named (identified.imp_right .inl)

theorem adds_partsText (written : Compound) (clear : written.clear = true)
    (named : written.endsNamed = true → Ends tail) :
    Adds written.partsText tail { tag := written.tag.map Subtype.val } written.denoted := by
  have clearTests := (Bool.and_eq_true_iff.mp clear).2
  have distinct : (written.classes.map Subtype.val).Nodup :=
    written.distinct.map Subtype.val_injective
  have tests := adds_tests { written.denoted with attributes := [] } tail written.tests clearTests
  have classes := adds_classes { tag := written.denoted.tag, ids := written.denoted.ids }
    written.classes (fun some => ends_testsText written named (.inr (.inr some))) distinct
  have ids := adds_ids { tag := written.denoted.tag } written.ids
    fun some => List.append_assoc .. ▸ ends_classesText written named (.inr some)
  exact ids.append (classes.append tests)

theorem compound_text (written : Compound) (tail : Text) (clear : written.clear = true)
    (ends : EndsCompound tail) (named : written.endsNamed = true → Ends tail) :
    ∀ first rest, first :: rest = written.text ++ tail →
      ∃ suffix, compound first rest = .ok ⟨written.denoted, tail, suffix⟩ := by
  have adds := adds_partsText written clear named
  intro first rest same
  rw [Compound.text, List.append_assoc] at same
  cases tagged : written.tag with
  | none =>
    rw [tagged] at same adds
    obtain ⟨rfl, rfl⟩ := List.cons.inj same
    refine ⟨List.suffix_append _ tail, ?_⟩
    rw [compound, if_pos (by rfl)]
    exact (adds _ _).trans (parts_of_ends ends _ _)
  | some name =>
    have endsTag : Ends (written.partsText ++ tail) := by
      rw [Compound.partsText, List.append_assoc, List.append_assoc]
      exact ends_flatMap '#' (by decide) Subtype.val written.ids fun _ =>
        ends_classesText written named (.inl (by rw [tagged]; rfl))
    rw [tagged] at same adds
    obtain ⟨_, start, inner, rfl, starts, others⟩ := name
    obtain rfl : first = start := (List.cons.inj same).1
    obtain rfl : rest = inner ++ (written.partsText ++ tail) := (List.cons.inj same).2
    obtain ⟨taken, left⟩ := span_append others endsTag
    have noStar : ¬(first == '*') = true := by
      rintro star
      rw [beq_iff_eq.mp star] at starts
      cases starts
    refine ⟨(List.suffix_append _ tail).trans (List.suffix_append inner _), ?_⟩
    rw [compound, if_neg noStar, if_pos starts]
    simp only [taken, left]
    exact (adds _ _).trans (parts_of_ends ends _ _)

/-- A compound starts with a character that is seen, and is no combinator. -/
theorem Compound.exists_first (written : Compound) (clear : written.clear = true) (tail : Text) :
    ∃ first rest, written.text ++ tail = first :: rest ∧ isSpace first = false ∧ first ≠ '>' := by
  have clearTag := (Bool.and_eq_true_iff.mp clear).1
  rw [Compound.text]
  cases tagged : written.tag with
  | none => exact ⟨'*', _, rfl, by decide, by decide⟩
  | some name =>
    rw [tagged] at clearTag
    have seen := visible_name name.2 clearTag []
    obtain ⟨_, first, inner, rfl, starts, others⟩ := name
    refine ⟨first, _, rfl, seen first rfl, ?_⟩
    rintro rfl
    cases starts

end Compounds

section Steps

variable {done : Selector.Chain} {combinator : Combinator} {first c : Char} {rest behind : Text}
  {built : Selector.Compound}

/-- White space leads from a compound to a descendant. -/
theorem chain_descendant {gap : Gap} (visible : gap.val ≠ []) (printed : isSpace c = false)
    (noChild : c ≠ '>')
    (read : ∃ suffix, compound first rest = .ok ⟨built, gap.val ++ c :: behind, suffix⟩) :
    chain done combinator first rest =
      chain ((combinator, built) :: done) .descendant c behind := by
  obtain ⟨_, read⟩ := read
  obtain ⟨_, skipped⟩ := Read.skip_append _ gap.blank (stops_cons printed behind) _ rfl
  have spaced : ¬(!!gap.val.isEmpty) = true := by simpa using visible
  rw [chain, read, ok_bind]
  dsimp only
  rw [skipped]
  dsimp only
  split
  · rename_i nothing _
    cases nothing
  · rename_i child _
    exact absurd (List.cons.inj child).1 noChild
  · rename_i same _
    obtain ⟨rfl, rfl⟩ := List.cons.inj same
    rw [if_neg spaced]

/-- An angle bracket leads from a compound to a child. -/
theorem chain_child {before after : Gap} (printed : isSpace c = false) (noChild : c ≠ '>')
    (read : ∃ suffix, compound first rest =
      .ok ⟨built, before.val ++ '>' :: (after.val ++ c :: behind), suffix⟩) :
    chain done combinator first rest =
      chain ((combinator, built) :: done) .child c behind := by
  obtain ⟨_, read⟩ := read
  obtain ⟨_, skipped⟩ := Read.skip_append _ before.blank
    (stops_cons (by decide : isSpace '>' = false) (after.val ++ c :: behind)) _ rfl
  obtain ⟨_, skippedAfter⟩ := Read.skip_append _ after.blank (stops_cons printed behind) _ rfl
  rw [chain, read, ok_bind]
  dsimp only
  rw [skipped]
  dsimp only
  split
  · rename_i nothing _
    cases nothing
  · rename_i child _
    obtain rfl := (List.cons.inj child).2
    rw [skippedAfter]
    dsimp only
    rw [if_neg (by simpa using noChild)]
  · rename_i other same _
    exact absurd (List.cons.inj same).1.symm other

end Steps

section Chains

theorem Joint.exists_first (joint : Joint) :
    ∃ c rest, joint.text = c :: rest ∧ (isSpace c = true ∨ c = '>') := by
  cases joint with
  | descendant gap visible =>
    obtain ⟨c, rest, text⟩ := List.exists_cons_of_ne_nil visible
    exact ⟨c, rest, text, .inl (gap.blank c (text ▸ List.mem_cons_self))⟩
  | child before behind =>
    obtain ⟨_ | ⟨c, rest⟩, blank⟩ := before
    · exact ⟨'>', behind.val, rfl, .inr rfl⟩
    · exact ⟨c, rest ++ '>' :: behind.val, rfl, .inl (Bool.and_eq_true_iff.mp blank).1⟩

theorem endsCompound_joint (joint : Joint) (tail : Text) : EndsCompound (joint.text ++ tail) := by
  obtain ⟨c, rest, text, between⟩ := joint.exists_first
  rw [text]
  rintro _ ⟨⟩
  exact between

theorem ends_joint (joint : Joint) (clear : startsClear joint.text = true) (tail : Text) :
    Ends (joint.text ++ tail) := by
  obtain ⟨c, rest, text, between⟩ := joint.exists_first
  rw [text] at clear ⊢
  refine ends_cons ?_ (rest ++ tail)
  rcases between with space | rfl
  · exact not_both clear rfl space
  · decide

theorem clear_of_clearFrom {written : Compound} {others : List (Joint × Compound)}
    (clear : clearFrom written others = true) : written.clear = true := by
  cases others with
  | nil => exact clear
  | cons item others =>
    simp only [clearFrom, Bool.and_eq_true] at clear
    exact clear.1.1

theorem chain_text (written : Compound) (others : List (Joint × Compound))
    (clear : clearFrom written others = true) (done : Selector.Chain) (combinator : Combinator) :
    ∀ first rest, first :: rest = written.text ++ othersText others →
      chain done combinator first rest =
        .ok (done.reverse ++ (combinator, written.denoted) :: denotedOthers others) := by
  -- Each step moves one compound to those that are done.
  induction others generalizing written done combinator with
  | nil =>
    intro first rest same
    obtain ⟨_, read⟩ := compound_text written [] clear nofun (fun _ => nofun) first rest same
    rw [chain, read]
    exact congrArg Except.ok List.reverse_cons
  | cons item others ih =>
    obtain ⟨joint, next⟩ := item
    simp only [clearFrom, Bool.and_eq_true, Bool.or_eq_true, Bool.not_eq_true'] at clear
    obtain ⟨⟨clearHere, clearJoint⟩, clearNext⟩ := clear
    obtain ⟨c, behind, text, seen, noChild⟩ :=
      next.exists_first (clear_of_clearFrom clearNext) (othersText others)
    intro first rest same
    rw [othersText, List.flatMap_cons, List.append_assoc, ← othersText, text] at same
    have read := compound_text written _ clearHere (endsCompound_joint joint _)
      (fun named => ends_joint joint (clearJoint.resolve_left (by simp [named])) _) first rest same
    have step : chain done combinator first rest =
        chain ((combinator, written.denoted) :: done) joint.combinator c behind := by
      cases joint with
      | descendant gap visible => exact chain_descendant visible seen noChild read
      | child before after =>
        rw [Joint.text, List.append_assoc] at read
        exact chain_child seen noChild read
    rw [step, ih next clearNext _ _ c behind text.symm]
    simp [denotedOthers]

end Chains

section Absence

theorem startsClear_of_notMem {text : Text} (absent : oghamSpace ∉ text) :
    startsClear text = true := by
  rw [startsClear, bne_iff_ne]
  exact fun first => absent (List.mem_of_head? first)

theorem Test.clear_of_notMem {written : Test} (absent : oghamSpace ∉ written.text) :
    written.clear = true := by
  simp only [Test.text, List.mem_append, not_or] at absent
  obtain ⟨⟨⟨⟨-, name⟩, behind⟩, -⟩, -⟩ := absent
  rw [Test.clear, startsClear_of_notMem name, startsClear_of_notMem behind, Bool.and_true]

theorem Compound.clear_of_notMem {written : Compound} (absent : oghamSpace ∉ written.text) :
    written.clear = true := by
  simp only [Compound.text, Compound.partsText, List.mem_append, not_or] at absent
  obtain ⟨tag, -, -, tests⟩ := absent
  rw [Compound.clear, Bool.and_eq_true, Option.all_eq_true, List.all_eq_true]
  constructor
  · intro name tagged
    rw [tagged] at tag
    exact startsClear_of_notMem tag
  · intro test listed
    exact Test.clear_of_notMem fun inside =>
      tests (List.mem_flatMap.mpr ⟨test, listed, List.mem_cons_of_mem _ inside⟩)

/-- What has the character nowhere is clear of it. -/
theorem Chain.clear_of_notMem {written : Chain} (absent : oghamSpace ∉ written.text) :
    written.clear = true := by
  obtain ⟨first, others⟩ := written
  rw [Chain.clear]
  rw [Chain.text] at absent
  dsimp only at absent ⊢
  induction others generalizing first with
  | nil => exact Compound.clear_of_notMem fun inside => absent (List.mem_append_left _ inside)
  | cons item others ih =>
    obtain ⟨joint, next⟩ := item
    rw [othersText, List.flatMap_cons, List.append_assoc, ← othersText] at absent
    simp only [List.mem_append, not_or] at absent
    obtain ⟨here, between, further⟩ := absent
    have clearNext := ih next (by simpa using further)
    rw [clearFrom, Compound.clear_of_notMem here, startsClear_of_notMem between, clearNext]
    simp

end Absence

/-- A selector is read back from its text, unless the one character that is white space as well as
a part of identifiers stands where it could be either. -/
theorem parse_text (written : Chain) (clear : written.clear = true) :
    parse written.text = .ok written.denoted := by
  obtain ⟨first, others⟩ := written
  obtain ⟨c, rest, text, seen, noChild⟩ :=
    first.exists_first (clear_of_clearFrom clear) (othersText others)
  have whole : Chain.text ⟨first, others⟩ = c :: rest := text
  have read := chain_text first others clear [] .descendant c rest text.symm
  have start : (c :: rest).dropWhile isSpace = c :: rest :=
    List.dropWhile_cons_of_neg (by simp [seen])
  rw [parse, whole, start]
  simp only [beq_iff_eq, noChild, if_false, read]
  rfl

/-- White space wherever it may stand, and operands that hold brackets, combinators and a quote. -/
theorem parse_text_gaps :
    parse "div#a.b.c >\t*[ href $= '] > \"x\"' ]  p[\nlang]".toList =
      .ok [(.descendant, { tag := some "div".toList, ids := [['a']], classes := [['b'], ['c']] }),
        (.child, { attributes := [⟨"href".toList, some (.endsWith, "] > \"x\"".toList)⟩] }),
        (.descendant, { tag := some ['p'], attributes := [⟨"lang".toList, none⟩] })] :=
  parse_text
    ⟨⟨some ⟨"div".toList, by decide⟩, [⟨['a'], by decide⟩],
        [⟨['b'], by decide⟩, ⟨['c'], by decide⟩], by decide, []⟩,
      [(.child ⟨[' '], by decide⟩ ⟨['\t'], by decide⟩,
          ⟨none, [], [], by decide,
            [⟨⟨[' '], by decide⟩, ⟨"href".toList, by decide⟩, ⟨[' '], by decide⟩,
              some ⟨.endsWith, ⟨[' '], by decide⟩, '\'', .inl rfl, "] > \"x\"".toList, by decide,
                ⟨[' '], by decide⟩⟩⟩]⟩),
        (.descendant ⟨[' ', ' '], by decide⟩ (by decide),
          ⟨some ⟨['p'], by decide⟩, [], [], by decide,
            [⟨⟨['\n'], by decide⟩, ⟨"lang".toList, by decide⟩, ⟨[], by decide⟩, none⟩]⟩)]⟩
    (Chain.clear_of_notMem (by decide))

/-- The Ogham space mark between two tags is read as a part of one. -/
theorem parse_text_joined : ∃ written : Chain,
    written.text = "a\u1680b".toList ∧
      written.denoted =
        [(.descendant, { tag := some ['a'] }), (.descendant, { tag := some ['b'] })] ∧
      parse written.text = .ok [(.descendant, { tag := some "a\u1680b".toList })] :=
  ⟨⟨⟨some ⟨['a'], by decide⟩, [], [], by decide, []⟩,
    [(.descendant ⟨['\u1680'], by decide⟩ (by decide),
      ⟨some ⟨['b'], by decide⟩, [], [], by decide, []⟩)]⟩, by decide, by decide, by decide +kernel⟩

end Written

end XmlSelect.Selector
