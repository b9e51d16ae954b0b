import XmlSelect.Proofs.EntitySubstitution

/-! Texts with their references unfolded, said without the entities that are being expanded and
without the limit: a text with an entity inside itself unfolds to nothing, as there would be no end,
and a text that unfolds does so in one number of expansions, whatever came before. -/
namespace XmlSelect.Markup

/-- What is put in the place of an entity, if that is no fault: nothing where it is passed over. -/
def Entity.replacement? (options : Options) (place : Place) (name : Text) :
    Entity → Option (Option Text)
  | .internal value => some (some value)
  | .external systemId publicId =>
    if place = .attributeValue then none
    else if !options.allowExternal then some none
    else options.resolver.bind fun resolve => (resolve ⟨name, systemId, publicId⟩).map some

/-- The text with a reference in the place of each character that would open a tag. -/
def withoutTags (text : Text) : Text :=
  text.flatMap fun c => if c == '<' then marked "lt".toList else [c]

/-- The reference is one to a character. -/
def IsCharacter (reference : Text) (c : Char) : Prop :=
  (∃ number, reference = '#' :: number ∧ numericReference? number = some c) ∨
    predefined? reference = some c

theorem IsCharacter.unique {reference : Text} {c c' : Char} (here : IsCharacter reference c)
    (other : IsCharacter reference c') : c = c' := by
  rcases here with ⟨number, rfl, found⟩ | known <;> rcases other with ⟨number', same, found'⟩ | known'
  · cases same
    exact Option.some.inj (found.symm.trans found')
  · cases known'
  · subst same
    cases known
  · exact Option.some.inj (known.symm.trans known')

/-- A reference to the name is one to the declared entity. -/
structure Setting.Declares (setting : Setting) (name : Text) (entity : Entity) : Prop where
  valid : IsName name
  unknown : predefined? name = none
  found : setting.table.find? name = some entity

/-- What a text is with all references in it expanded, and in how many expansions. -/
inductive Setting.Unfolds (setting : Setting) (place : Place) : Text → Text → Nat → Prop
  | nil : Unfolds setting place [] [] 0
  | ordinary {c : Char} {text value : Text} {count : Nat} (other : c ≠ '&')
      (behind : Unfolds setting place text value count) :
      Unfolds setting place (c :: text) (place.normalize [c] ++ value) count
  | character {reference later rest : Text} {c : Char} {count : Nat} (semicolon : ';' ∉ reference)
      (isCharacter : IsCharacter reference c) (behind : Unfolds setting place later rest count) :
      Unfolds setting place (marked reference ++ later) (c :: rest) count
  | skipped {name later rest : Text} {entity : Entity} {count : Nat}
      (declares : setting.Declares name entity)
      (passed : entity.replacement? setting.options place name = some none)
      (behind : Unfolds setting place later rest count) :
      Unfolds setting place (marked name ++ later) rest (1 + count)
  | entity {name text value later rest : Text} {entity : Entity} {nested count : Nat}
      (declares : setting.Declares name entity)
      (replaces : entity.replacement? setting.options place name = some (some text))
      (inside : Unfolds setting place text value nested)
      (behind : Unfolds setting place later rest count) :
      Unfolds setting place (marked name ++ later) (value ++ rest) (nested + 1 + count)

theorem Place.normalize_nil (place : Place) : place.normalize [] = [] := by
  cases place <;> rfl

theorem Place.normalize_append (place : Place) (front back : Text) :
    place.normalize (front ++ back) = place.normalize front ++ place.normalize back := by
  cases place with
  | content => rfl
  | attributeValue => exact List.map_append

theorem IsName.semicolon {name : Text} (valid : IsName name) : ';' ∉ name :=
  fun member => absurd (valid.isNameChar member) (by decide)

theorem IsName.not_number {name : Text} (valid : IsName name) (number : Text) :
    name ≠ '#' :: number := by
  rintro rfl
  exact absurd valid.1 (by decide)

theorem isName_of_predefined? {name : Text} {c : Char} (known : predefined? name = some c) :
    IsName name := by
  have names : ∀ entry ∈ [("amp".toList, '&'), ("lt".toList, '<'), ("gt".toList, '>'),
      ("apos".toList, '\''), ("quot".toList, '"')], IsName entry.1 := by decide
  exact names _ (mem_of_lookup known)

namespace Setting

variable {setting : Setting} {place : Place} {text value reference later : Text} {count : Nat}

section Inversion

/-- What a single reference stands for. -/
inductive Stands (setting : Setting) (place : Place) : Text → Text → Nat → Prop
  | character {reference : Text} {c : Char} (isCharacter : IsCharacter reference c) :
      Stands setting place reference [c] 0
  | skipped {name : Text} {entity : Entity} (declares : setting.Declares name entity)
      (passed : entity.replacement? setting.options place name = some none) :
      Stands setting place name [] 1
  | entity {name text value : Text} {entity : Entity} {nested : Nat}
      (declares : setting.Declares name entity)
      (replaces : entity.replacement? setting.options place name = some (some text))
      (inside : setting.Unfolds place text value nested) :
      Stands setting place name value (nested + 1)

/-- A text that unfolds is empty, starts with a character as it stands, or with a reference. -/
theorem Unfolds.cases (unfolds : setting.Unfolds place text value count) :
    (text = [] ∧ value = [] ∧ count = 0) ∨
    (∃ c behind rest, c ≠ '&' ∧ text = c :: behind ∧ value = place.normalize [c] ++ rest ∧
      setting.Unfolds place behind rest count) ∨
    ∃ reference later here rest spent further, ';' ∉ reference ∧ text = marked reference ++ later ∧
      value = here ++ rest ∧ count = spent + further ∧ setting.Stands place reference here spent ∧
      setting.Unfolds place later rest further := by
  cases unfolds with
  | nil => exact .inl ⟨rfl, rfl, rfl⟩
  | ordinary other behind => exact .inr (.inl ⟨_, _, _, other, rfl, rfl, behind⟩)
  | character semicolon isCharacter behind =>
    exact .inr (.inr ⟨_, _, _, _, _, _, semicolon, rfl, rfl, (Nat.zero_add _).symm,
      .character isCharacter, behind⟩)
  | skipped declares passed behind =>
    exact .inr (.inr ⟨_, _, _, _, _, _, declares.valid.semicolon, rfl, rfl, rfl,
      .skipped declares passed, behind⟩)
  | entity declares replaces inside behind =>
    exact .inr (.inr ⟨_, _, _, _, _, _, declares.valid.semicolon, rfl, rfl, rfl,
      .entity declares replaces inside, behind⟩)

theorem unfolds_nil_iff : setting.Unfolds place [] value count ↔ value = [] ∧ count = 0 := by
  constructor
  · intro unfolds
    obtain ⟨-, same⟩ | ⟨_, _, _, -, same, -⟩ | ⟨_, _, _, _, _, _, -, same, -⟩ := unfolds.cases
    · exact same
    · cases same
    · cases same
  · rintro ⟨rfl, rfl⟩
    exact .nil

theorem unfolds_cons_iff {c : Char} (other : c ≠ '&') :
    setting.Unfolds place (c :: text) value count ↔
      ∃ rest, value = place.normalize [c] ++ rest ∧ setting.Unfolds place text rest count := by
  constructor
  · intro unfolds
    obtain ⟨same, -⟩ | ⟨_, _, rest, -, same, rfl, behind⟩ |
      ⟨_, _, _, _, _, _, -, same, -⟩ := unfolds.cases
    · cases same
    · cases same
      exact ⟨rest, rfl, behind⟩
    · cases same
      exact absurd rfl other
  · rintro ⟨rest, rfl, behind⟩
    exact .ordinary other behind

theorem unfolds_ampersand_iff : setting.Unfolds place ('&' :: text) value count ↔
    ∃ reference later here rest spent further, ';' ∉ reference ∧ text = reference ++ ';' :: later ∧
      value = here ++ rest ∧ count = spent + further ∧ setting.Stands place reference here spent ∧
      setting.Unfolds place later rest further := by
  constructor
  · intro unfolds
    obtain ⟨same, -⟩ | ⟨_, _, _, other, same, -⟩ |
      ⟨reference, later, here, rest, spent, further, semicolon, same, parts⟩ := unfolds.cases
    · cases same
    · cases same
      exact absurd rfl other
    · refine ⟨reference, later, here, rest, spent, further, semicolon, ?_, parts⟩
      simpa [marked] using same
  · rintro ⟨reference, later, here, rest, spent, further, semicolon, rfl, rfl, rfl, stands, behind⟩
    have same : '&' :: (reference ++ ';' :: later) = marked reference ++ later := by simp [marked]
    rw [same]
    cases stands with
    | character isCharacter =>
      rw [Nat.zero_add]
      exact .character semicolon isCharacter behind
    | skipped declares passed => exact .skipped declares passed behind
    | entity declares replaces inside => exact .entity declares replaces inside behind

theorem unfolds_marked_iff (semicolon : ';' ∉ reference) :
    setting.Unfolds place (marked reference ++ later) value count ↔
      ∃ here rest spent further, value = here ++ rest ∧ count = spent + further ∧
        setting.Stands place reference here spent ∧ setting.Unfolds place later rest further := by
  have text : marked reference ++ later = '&' :: (reference ++ ';' :: later) := by simp [marked]
  rw [text, unfolds_ampersand_iff]
  constructor
  · rintro ⟨_, _, here, rest, spent, further, semicolon', same, parts⟩
    obtain ⟨rfl, rfl⟩ := Text.cut_unique semicolon semicolon' same
    exact ⟨here, rest, spent, further, parts⟩
  · rintro ⟨here, rest, spent, further, parts⟩
    exact ⟨reference, later, here, rest, spent, further, semicolon, rfl, parts⟩

/-- What holds of the empty text, and of a longer one if it holds of what is behind its first character
or reference, holds of each text that unfolds. -/
theorem Unfolds.byReferences
    {motive : (text value : Text) → (count : Nat) → setting.Unfolds place text value count → Prop}
    (nil : motive [] [] 0 .nil)
    (ordinary : ∀ {c text value count} (other : c ≠ '&')
      (behind : setting.Unfolds place text value count), motive text value count behind →
        motive (c :: text) (place.normalize [c] ++ value) count (.ordinary other behind))
    (reference : ∀ {reference later here rest spent further}, ';' ∉ reference →
      setting.Stands place reference here spent →
        ∀ (behind : setting.Unfolds place later rest further), motive later rest further behind →
          ∀ whole, motive (marked reference ++ later) (here ++ rest) (spent + further) whole)
    (unfolds : setting.Unfolds place text value count) : motive text value count unfolds := by
  induction unfolds with
  | nil => exact nil
  | ordinary other behind ih => exact ordinary other behind ih
  | @character _ _ _ _ count semicolon isCharacter behind ih =>
    have here := reference semicolon (.character isCharacter) behind ih
    rw [Nat.zero_add] at here
    exact here _
  | skipped declares passed behind ih =>
    exact reference declares.valid.semicolon (.skipped declares passed) behind ih _
  | entity declares replaces inside behind _ ih =>
    exact reference declares.valid.semicolon (.entity declares replaces inside) behind ih _

/-- In front of a text that unfolds, characters stay as they stand. -/
theorem Unfolds.behind {before : Text} (unmarked : '&' ∉ before)
    (unfolds : setting.Unfolds place text value count) :
    setting.Unfolds place (before ++ text) (place.normalize before ++ value) count := by
  induction before with
  | nil => rwa [Place.normalize_nil]
  | cons c before ih =>
    rw [List.mem_cons, not_or] at unmarked
    rw [← List.singleton_append, Place.normalize_append, List.append_assoc, List.append_assoc]
    exact .ordinary (Ne.symm unmarked.1) (ih unmarked.2)

end Inversion

section Uniqueness

theorem Declares.not_character {name : Text} {entity : Entity}
    (declares : setting.Declares name entity) (c : Char) : ¬IsCharacter name c := by
  rintro (⟨number, same, -⟩ | known)
  · exact declares.valid.not_number number same
  · cases declares.unknown.symm.trans known

/-- A text unfolds to one text, in one number of expansions. -/
theorem Unfolds.unique (unfolds : setting.Unfolds place text value count) {value' : Text}
    {count' : Nat} (other : setting.Unfolds place text value' count') :
    value = value' ∧ count = count' := by
  induction unfolds generalizing value' count' with
  | nil =>
    obtain ⟨rfl, rfl⟩ := unfolds_nil_iff.mp other
    exact ⟨rfl, rfl⟩
  | ordinary ordinary _ ih =>
    obtain ⟨rest, rfl, behind⟩ := (unfolds_cons_iff ordinary).mp other
    obtain ⟨rfl, rfl⟩ := ih behind
    exact ⟨rfl, rfl⟩
  | character semicolon isCharacter _ ih =>
    obtain ⟨_, _, _, _, rfl, rfl, stands, behind⟩ := (unfolds_marked_iff semicolon).mp other
    obtain ⟨rfl, rfl⟩ := ih behind
    cases stands with
    | character isCharacter' =>
      rw [isCharacter.unique isCharacter', Nat.zero_add]
      exact ⟨rfl, rfl⟩
    | skipped declares => exact absurd isCharacter (declares.not_character _)
    | entity declares => exact absurd isCharacter (declares.not_character _)
  | skipped declares passed _ ih =>
    obtain ⟨_, _, _, _, rfl, rfl, stands, behind⟩ :=
      (unfolds_marked_iff declares.valid.semicolon).mp other
    obtain ⟨rfl, rfl⟩ := ih behind
    cases stands with
    | character isCharacter => exact absurd isCharacter (declares.not_character _)
    | skipped => exact ⟨rfl, rfl⟩
    | entity declares' replaces =>
      obtain rfl := Option.some.inj (declares.found.symm.trans declares'.found)
      cases passed.symm.trans replaces
  | entity declares replaces _ _ inner outer =>
    obtain ⟨_, _, _, _, rfl, rfl, stands, behind⟩ :=
      (unfolds_marked_iff declares.valid.semicolon).mp other
    obtain ⟨rfl, rfl⟩ := outer behind
    cases stands with
    | character isCharacter => exact absurd isCharacter (declares.not_character _)
    | skipped declares' passed =>
      obtain rfl := Option.some.inj (declares.found.symm.trans declares'.found)
      cases passed.symm.trans replaces
    | entity declares' replaces' inside =>
      obtain rfl := Option.some.inj (declares.found.symm.trans declares'.found)
      cases replaces.symm.trans replaces'
      obtain ⟨rfl, rfl⟩ := inner inside
      exact ⟨rfl, rfl⟩

end Uniqueness

section Values

/-- A number stands for a character. -/
theorem Stands.number {number : Text} (stands : setting.Stands place ('#' :: number) value count) :
    ∃ c, numericReference? number = some c ∧ value = [c] ∧ count = 0 := by
  cases stands with
  | @character c isCharacter =>
    rcases isCharacter with ⟨_, same, found⟩ | known
    · cases same
      exact ⟨c, found, rfl, rfl⟩
    · exact absurd rfl ((isName_of_predefined? known).not_number number)
  | skipped declares => exact absurd rfl (declares.valid.not_number number)
  | entity declares => exact absurd rfl (declares.valid.not_number number)

/-- A reference to an internal entity stands for what its value unfolds to, in one expansion more. -/
theorem stands_internal_iff {name given : Text} (declares : setting.Declares name (.internal given)) :
    setting.Stands place name value count ↔
      ∃ nested, count = nested + 1 ∧ setting.Unfolds place given value nested := by
  constructor
  · intro stands
    cases stands with
    | character isCharacter => exact absurd isCharacter (declares.not_character _)
    | skipped declares' passed =>
      cases declares.found.symm.trans declares'.found
      cases passed
    | entity declares' replaces inside =>
      cases declares.found.symm.trans declares'.found
      cases replaces
      exact ⟨_, rfl, inside⟩
  · rintro ⟨nested, rfl, inside⟩
    exact .entity declares rfl inside

/-- There is no mark of references or tags in a reference. -/
theorem Stands.unmarked (stands : setting.Stands place reference value count) {mark : Char}
    (listed : mark ∈ ['&', '<', ';']) : mark ∉ reference := by
  have others : isNameChar mark = false ∧ isHexDigit mark = false ∧
      ¬(mark = '#' ∨ mark = '+' ∨ mark = 'x') := by
    simp only [List.mem_cons, List.not_mem_nil, or_false] at listed
    rcases listed with rfl | rfl | rfl <;> decide
  obtain ⟨noName, noDigit, noSign⟩ := others
  have ofName {name : Text} (valid : IsName name) : mark ∉ name := fun member => by
    cases noName.symm.trans (valid.isNameChar member)
  cases stands with
  | character isCharacter =>
    rcases isCharacter with ⟨number, rfl, found⟩ | known
    · intro member
      rcases List.mem_cons.mp member with same | member
      · exact noSign (.inl same)
      · rcases mem_of_numericReference? found member with same | same | digit
        · exact noSign (.inr (.inl same))
        · exact noSign (.inr (.inr same))
        · cases noDigit.symm.trans digit
    · exact ofName (isName_of_predefined? known)
  | skipped declares => exact ofName declares.valid
  | entity declares => exact ofName declares.valid

end Values

section Tags

theorem unfolds_tag_iff : setting.Unfolds place (marked "lt".toList ++ text) value count ↔
    ∃ rest, value = '<' :: rest ∧ setting.Unfolds place text rest count := by
  have known : IsCharacter "lt".toList '<' := .inr rfl
  constructor
  · intro unfolds
    obtain ⟨here, rest, spent, further, rfl, rfl, stands, behind⟩ :=
      (unfolds_marked_iff (by decide)).mp unfolds
    cases stands with
    | character isCharacter =>
      obtain rfl := isCharacter.unique known
      exact ⟨rest, rfl, by rwa [Nat.zero_add]⟩
    | skipped declares => exact absurd known (declares.not_character _)
    | entity declares => exact absurd known (declares.not_character _)
  · rintro ⟨rest, rfl, behind⟩
    exact .character (by decide) known behind

theorem withoutTags_append (front back : Text) :
    withoutTags (front ++ back) = withoutTags front ++ withoutTags back := List.flatMap_append

theorem withoutTags_eq_self (plain : '<' ∉ text) : withoutTags text = text := by
  induction text with
  | nil => rfl
  | cons c text ih =>
    rw [List.mem_cons, not_or] at plain
    rw [withoutTags, List.flatMap_cons, if_neg (by simpa using Ne.symm plain.1), ← withoutTags,
      ih plain.2, List.singleton_append]

theorem withoutTags_cons {c : Char} (other : c ≠ '<') (text : Text) :
    withoutTags (c :: text) = c :: withoutTags text := by
  rw [withoutTags, List.flatMap_cons, if_neg (by simpa using other)]
  rfl

theorem withoutTags_tag (text : Text) :
    withoutTags ('<' :: text) = marked "lt".toList ++ withoutTags text := rfl

/-- A reference is in the changed text where it is in the text. -/
theorem cut_withoutTags (unmarked : '&' ∉ reference)
    (split : withoutTags text = reference ++ ';' :: later) :
    ∃ behind, text = reference ++ ';' :: behind ∧ later = withoutTags behind := by
  induction reference generalizing text with
  | nil =>
    cases text with
    | nil => cases split
    | cons c text =>
      by_cases tag : c = '<'
      · subst tag
        cases split
      · rw [withoutTags_cons tag] at split
        cases split
        exact ⟨text, rfl, rfl⟩
  | cons d reference ih =>
    rw [List.mem_cons, not_or] at unmarked
    cases text with
    | nil => cases split
    | cons c text =>
      by_cases tag : c = '<'
      · subst tag
        rw [withoutTags_tag, marked, List.cons_append, List.cons_append, List.cons.injEq] at split
        exact absurd split.1 unmarked.1
      · rw [withoutTags_cons tag, List.cons_append, List.cons.injEq] at split
        obtain ⟨behind, rfl, rfl⟩ := ih unmarked.2 split.2
        exact ⟨behind, by rw [split.1]; rfl, rfl⟩

theorem withoutTags_marked (plain : '<' ∉ reference) (later : Text) :
    withoutTags ('&' :: (reference ++ ';' :: later)) =
      '&' :: (reference ++ ';' :: withoutTags later) := by
  rw [withoutTags_cons (by decide), withoutTags_append, withoutTags_eq_self plain,
    withoutTags_cons (by decide)]

/-- Opening brackets of tags stand for themselves, as references to them do. -/
theorem unfolds_withoutTags_iff :
    setting.Unfolds place (withoutTags text) value count ↔
      setting.Unfolds place text value count := by
  have tag (place : Place) : place.normalize ['<'] = ['<'] := by cases place <;> rfl
  induction size : text.length using Nat.strongRecOn generalizing text value count with
  | ind length ih =>
    subst size
    cases text with
    | nil => rfl
    | cons c text =>
      by_cases opening : c = '<'
      · subst opening
        rw [withoutTags_tag, unfolds_tag_iff, unfolds_cons_iff (by decide), tag]
        exact exists_congr fun rest => and_congr_right fun _ => ih _ (Nat.lt_succ_self _) rfl
      by_cases ampersand : c = '&'
      · subst ampersand
        rw [withoutTags_cons opening, unfolds_ampersand_iff, unfolds_ampersand_iff]
        constructor
        · rintro ⟨reference, _, here, rest, spent, further, semicolon, split, same, sum, stands,
            behind⟩
          obtain ⟨later, rfl, rfl⟩ := cut_withoutTags (stands.unmarked (by decide)) split
          refine ⟨reference, later, here, rest, spent, further, semicolon, rfl, same, sum, stands, ?_⟩
          exact (ih later.length (by simp; omega) rfl).mp behind
        · rintro ⟨reference, later, here, rest, spent, further, semicolon, rfl, same, sum, stands,
            behind⟩
          refine ⟨reference, withoutTags later, here, rest, spent, further, semicolon, ?_, same, sum,
            stands, (ih later.length (by simp; omega) rfl).mpr behind⟩
          have split := withoutTags_marked (stands.unmarked (by decide)) later
          rw [withoutTags_cons (by decide)] at split
          exact (List.cons.inj split).2
      · rw [withoutTags_cons opening, unfolds_cons_iff ampersand, unfolds_cons_iff ampersand]
        exact exists_congr fun rest => and_congr_right fun _ => ih _ (Nat.lt_succ_self _) rfl

end Tags

end Setting

end XmlSelect.Markup
