import Mathlib.Data.List.TakeWhile
import XmlSelect.Selector.Parse

/-! What every selector that is read looks like: its first compound is a descendant of the document,
and what names something in it is an identifier. -/
namespace XmlSelect.Selector

/-- Whether a text can stand behind the mark of an id or a class. -/
def IsIdentifier (name : Text) : Prop := name ≠ [] ∧ ∀ c ∈ name, isIdentChar c = true

/-- Whether a text can be a tag or the name of an attribute. -/
def IsTagName (name : Text) : Prop :=
  ∃ first rest, name = first :: rest ∧ isIdentStart first = true ∧ ∀ c ∈ rest, isIdentChar c = true

instance (name : Text) : Decidable (IsIdentifier name) :=
  decidable_of_iff (name ≠ [] ∧ name.all isIdentChar = true)
    (and_congr_right fun _ => List.all_eq_true)

instance : (name : Text) → Decidable (IsTagName name)
  | [] => isFalse nofun
  | first :: rest =>
    decidable_of_iff (isIdentStart first = true ∧ rest.all isIdentChar = true)
      ⟨fun ⟨start, inner⟩ => ⟨first, rest, rfl, start, List.all_eq_true.mp inner⟩,
        fun ⟨_, _, same, start, inner⟩ => by cases same; exact ⟨start, List.all_eq_true.mpr inner⟩⟩

/-- Whether the classes of a compound are identifiers. -/
def Compound.NamesClasses (compound : Compound) : Prop :=
  ∀ name ∈ compound.classes, name ≠ [] ∧ ∀ c ∈ name, isIdentChar c = true

/-- All that names something in a compound is an identifier. -/
structure Compound.Spelled (compound : Compound) : Prop where
  tag : ∀ name ∈ compound.tag, IsTagName name
  ids : ∀ id ∈ compound.ids, IsIdentifier id
  classes : compound.NamesClasses
  attributes : ∀ test ∈ compound.attributes, IsTagName test.name

theorem isIdentChar_of_isIdentStart {c : Char} (start : isIdentStart c = true) :
    isIdentChar c = true := by
  simp only [isIdentStart, Bool.and_eq_true, bne_iff_ne] at start
  have noPeriod : c ≠ '.' := by
    rintro rfl
    exact absurd start.1 (by decide)
  simp [isIdentChar, isNameChar_of_isNameStart start.1, start.2, noPeriod]

theorem IsTagName.isIdentifier {name : Text} (named : IsTagName name) : IsIdentifier name := by
  obtain ⟨first, rest, rfl, start, inner⟩ := named
  exact ⟨List.cons_ne_nil first rest,
    List.forall_mem_cons.mpr ⟨isIdentChar_of_isIdentStart start, inner⟩⟩

/-- A tag is read from its first character on. -/
theorem isTagName_takeWhile {first : Char} (start : isIdentStart first = true) (rest : Text) :
    IsTagName (first :: rest.takeWhile isIdentChar) :=
  ⟨first, rest.takeWhile isIdentChar, rfl, start,
    fun c member => List.all_eq_true.mp List.all_takeWhile c member⟩

theorem identifier_ok {mark : Char} {opening source : Text} {read : Read source Text}
    (found : identifier mark opening source = .ok read) : IsIdentifier read.value := by
  rw [identifier] at found
  split at found
  · cases found
  · rename_i nonempty
    cases found
    exact ⟨by simpa using nonempty, fun c member =>
      List.all_eq_true.mp List.all_takeWhile c member⟩

theorem attributeName_ok {source : Text} (nonempty : (attributeName source).value ≠ []) :
    IsTagName (attributeName source).value := by
  unfold attributeName at nonempty ⊢
  split at nonempty
  · rename_i start
    rw [if_pos start]
    cases source with
    | nil => cases start
    | cons first rest =>
      have start : isIdentStart first = true := start
      have taken := List.takeWhile_cons_of_pos (l := rest) (isIdentChar_of_isIdentStart start)
      change IsTagName ((first :: rest).takeWhile isIdentChar)
      rw [taken]
      exact isTagName_takeWhile start rest
  · exact absurd rfl nonempty

theorem attributeTest_ok {opening source : Text} {read : Read source AttributeTest}
    (found : attributeTest opening source = .ok read) : IsTagName read.value.name := by
  unfold attributeTest at found
  dsimp only at found
  obtain ⟨⟨compared, afterMark, marked⟩, -, found⟩ := bind_ok found
  dsimp only at found
  split at found
  · cases found
  · rename_i nonempty
    have named := attributeName_ok (by simpa using nonempty)
    cases compared with
    | none =>
      cases found
      exact named
    | some compared =>
      obtain ⟨⟨value, afterValue, valued⟩, -, found⟩ := bind_ok found
      dsimp only at found
      split at found
      · cases found
        exact named
      · cases found
      · cases found

theorem part_spelled {compound : Compound} {mark : Char} {rest : Text}
    {result : Except Stop (Read rest Compound)} {read : Read rest Compound}
    (part : part? compound mark rest = some result) (found : result = .ok read)
    (spelled : compound.Spelled) : read.value.Spelled := by
  rw [part?.eq_def] at part
  split at part
  · obtain rfl := Option.some.inj part
    obtain ⟨id, identified, rfl⟩ := map_ok found
    refine { spelled with ids := fun other member => ?_ }
    rcases List.mem_append.mp member with before | last
    · exact spelled.ids other before
    · cases List.mem_singleton.mp last
      exact identifier_ok identified
  · obtain rfl := Option.some.inj part
    obtain ⟨name, identified, rfl⟩ := map_ok found
    simp only [Read.map]
    split
    · exact spelled
    · refine { spelled with classes := fun other member => ?_ }
      rcases List.mem_append.mp member with before | last
      · exact spelled.classes other before
      · cases List.mem_singleton.mp last
        exact identifier_ok identified
  · obtain rfl := Option.some.inj part
    obtain ⟨test, tested, rfl⟩ := map_ok found
    refine { spelled with attributes := fun other member => ?_ }
    rcases List.mem_append.mp member with before | last
    · exact spelled.attributes other before
    · cases List.mem_singleton.mp last
      exact attributeTest_ok tested
  · cases part

theorem parts_spelled {whole source : Text} {compound : Compound}
    {within : source <:+ whole} {read : Read whole Compound}
    (found : parts whole compound source within = .ok read) (spelled : compound.Spelled) :
    read.value.Spelled := by
  fun_induction parts with
  | case1 =>
    cases found
    exact spelled
  | case2 =>
    cases found
    exact spelled
  | case3 compound mark rest within result part _ ih =>
    obtain ⟨⟨extended, after, suffix⟩, started, found⟩ := bind_ok found
    exact ih extended after suffix found (part_spelled part started spelled)

theorem compound_spelled {first : Char} {rest : Text} {read : Read rest Compound}
    (found : compound first rest = .ok read) : read.value.Spelled := by
  have bare {tag : Option Text} (named : ∀ name ∈ tag, IsTagName name) :
      Compound.Spelled { tag } :=
    ⟨named, List.forall_mem_nil _, List.forall_mem_nil _, List.forall_mem_nil _⟩
  rw [compound] at found
  split at found
  · exact parts_spelled found (bare nofun)
  · split at found
    · rename_i start
      refine parts_spelled found (bare fun name tag => ?_)
      cases tag
      exact isTagName_takeWhile start rest
    · split at found
      · cases found
      · rename_i result part
        obtain ⟨⟨started, after, suffix⟩, begun, found⟩ := bind_ok found
        exact parts_spelled found (part_spelled part begun (bare nofun))

/-- A selector that starts with the compounds that are done, last first, and goes on with spelled
ones. -/
def Continues (done : Chain) (combinator : Combinator) (selector : Chain) : Prop :=
  ∃ built others, selector = done.reverse ++ (combinator, built) :: others ∧
    ∀ member ∈ (combinator, built) :: others, member.2.Spelled

private theorem Continues.before {done selector : Chain} {combinator next : Combinator}
    {built : Compound} (spelled : built.Spelled)
    (further : Continues ((combinator, built) :: done) next selector) :
    Continues done combinator selector := by
  obtain ⟨second, others, rfl, allSpelled⟩ := further
  refine ⟨built, (next, second) :: others, by simp, ?_⟩
  exact List.forall_mem_cons.mpr ⟨spelled, allSpelled⟩

theorem chain_continues {done : Chain} {combinator : Combinator} {first : Char} {rest : Text}
    {selector : Chain} (read : chain done combinator first rest = .ok selector) :
    Continues done combinator selector := by
  fun_induction chain with
  | case1 done combinator first rest childIh descendantIh =>
    obtain ⟨⟨built, after, suffix⟩, compounded, read⟩ := bind_ok read
    have spelled : built.Spelled := compound_spelled compounded
    dsimp only at read
    split at read
    · cases read
      exact ⟨built, [], by simp, by simpa using spelled⟩
    · rename_i _ body _ behind within _ _
      split at read
      · cases read
      · rename_i _ next _ c others nearer _ _
        split at read
        · cases read
        · have continued := childIh built after suffix body behind within next c others nearer read
          exact continued.before spelled
    · rename_i _ body _ c others within _ _ _
      split at read
      · cases read
      · exact (descendantIh built after suffix body c others within read).before spelled

/-- A selector that is read has a first compound, a descendant of the document, and all that names
something in it is an identifier. -/
theorem parse_spelled {source : Text} {selector : Chain} (read : parse source = .ok selector) :
    ∃ first others, selector = (.descendant, first) :: others ∧
      ∀ member ∈ selector, member.2.Spelled := by
  unfold parse at read
  split at read
  · cases read
  · rename_i first rest _
    dsimp only at read
    split at read
    · cases read
    · cases outcome : chain [] .descendant first rest with
      | error stop =>
        rw [outcome] at read
        cases read
      | ok found =>
        rw [outcome] at read
        cases read
        obtain ⟨built, others, rfl, spelled⟩ := chain_continues outcome
        exact ⟨built, others, rfl, spelled⟩

/-- The first compound of a selector that is read is a descendant of the document, and its classes
are identifiers. -/
theorem parse_shape {source : Text} {selector : Chain} (read : parse source = .ok selector) :
    ∃ first others, selector = (.descendant, first) :: others ∧
      ∀ member ∈ selector, member.2.NamesClasses := by
  obtain ⟨first, others, start, spelled⟩ := parse_spelled read
  exact ⟨first, others, start, fun member listed => (spelled member listed).classes⟩

end XmlSelect.Selector
