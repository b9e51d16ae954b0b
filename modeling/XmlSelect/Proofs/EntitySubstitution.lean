import Mathlib.Data.Nat.Digits.Defs
import Mathlib.Logic.Relation
import XmlSelect.Proofs.LedgerInvariant
import XmlSelect.Proofs.MarkupText

/-! What references to internal entities stand for, said without the algorithm that expands them: a
replacement text stands for itself with each reference replaced by what that one stands for. Such a
text exists, and then just one, if all references that are met on the way are known ones and none
leads back to itself. -/
namespace XmlSelect

open Relation (ReflTransGen TransGen)

namespace Text

variable {mark : Char} {before before' behind behind' : Text}

/-- A text has one place at which a mark is first met. -/
theorem cut_unique (absent : mark ∉ before) (absent' : mark ∉ before')
    (same : before ++ mark :: behind = before' ++ mark :: behind') :
    before = before' ∧ behind = behind' := by
  have found := breakOn?_singleton absent behind
  rw [same, breakOn?_singleton absent' behind'] at found
  cases found
  exact ⟨rfl, rfl⟩

/-- A mark is not met in front of the first one. -/
theorem cut_behind {front rest : Text} (absent : mark ∉ before)
    (same : before ++ rest = front ++ mark :: behind) :
    ∃ middle, front = before ++ middle ∧ rest = middle ++ mark :: behind := by
  rcases List.append_eq_append_iff.mp same with ⟨middle, split, parts⟩ | ⟨middle, split, parts⟩
  · exact ⟨middle, split, parts⟩
  · cases middle with
    | nil => exact ⟨[], by simpa using split.symm, parts.symm⟩
    | cons c middle =>
      rw [split, ← (List.cons.inj parts).1] at absent
      simp at absent

/-- What starts with a mark does not start in front of the first one. -/
theorem infix_of_infix_append {pattern : Text} (absent : mark ∉ before)
    (inside : mark :: pattern <:+: before ++ behind) : mark :: pattern <:+: behind := by
  induction before with
  | nil => exact inside
  | cons c before ih =>
    rw [List.mem_cons, not_or] at absent
    rcases List.infix_cons_iff.mp inside with start | inside
    · exact absurd (List.cons_prefix_cons.mp start).1 absent.1
    · exact ih absent.2 inside

end Text

namespace Markup

/-- A reference between its marks. -/
def marked (reference : Text) : Text := '&' :: (reference ++ [';'])

/-- What a reference to a character has between its marks: decimal digits, hexadecimal ones, or the
name of a predefined entity. -/
inductive Denotes : Text → Char → Prop
  | decimal {digits : Text} {c : Char} (nonempty : digits ≠ [])
      (numeric : ∀ d ∈ digits, d.isDigit = true)
      (point : Nat.ofDigits 10 (digits.reverse.map hexDigitValue) = c.toNat)
      (held : isXmlChar c = true) : Denotes ('#' :: digits) c
  | hexadecimal {digits : Text} {c : Char} (nonempty : digits ≠ [])
      (numeric : ∀ d ∈ digits, isHexDigit d = true)
      (point : Nat.ofDigits 16 (digits.reverse.map hexDigitValue) = c.toNat)
      (held : isXmlChar c = true) : Denotes ('#' :: 'x' :: digits) c
  | predefined {name : Text} {c : Char} (known : predefined? name = some c) : Denotes name c

/-- A text has a reference in it: what stands between an ampersand and the next semicolon. -/
def Mentions (text reference : Text) : Prop := ';' ∉ reference ∧ marked reference <:+: text

/-- What starts like a reference to a character in a text has digits for it. -/
def Numeric (text : Text) : Prop :=
  ∀ number, Mentions text ('#' :: number) → (∀ d ∈ number, d.isDigit = true) ∨
    ∃ digits, number = 'x' :: digits ∧ ∀ d ∈ digits, isHexDigit d = true

namespace EntityTable

variable (table : EntityTable)

/-- An internal entity that a reference can expand. A predefined name is never declared anew. -/
def Expands (name value : Text) : Prop :=
  predefined? name = none ∧ table.find? name = some (.internal value)

/-- What stands between the marks of a reference refers to something. -/
def Knows (reference : Text) : Prop :=
  (∃ c, Denotes reference c) ∨ (table.find? reference).isSome = true

/-- Each ampersand of a text starts a reference, which is closed by a semicolon and known. -/
def Closes (text : Text) : Prop :=
  ∀ before behind, text = before ++ '&' :: behind →
    ∃ reference later, behind = reference ++ ';' :: later ∧ table.Knows reference

/-- In the value of one entity stands a reference to another one. -/
def Refers (name other : Text) : Prop := ∃ value, table.Expands name value ∧ Mentions value other

/-- The text that a replacement text stands for, with the number of references to declared entities
that are replaced on the way, nested ones each time they are met. -/
inductive Substitutes : Text → Text → Nat → Prop
  | plain {text : Text} (unmarked : '&' ∉ text) : Substitutes text text 0
  | character {before reference later rest : Text} {c : Char} {count : Nat}
      (unmarked : '&' ∉ before) (denotes : Denotes reference c)
      (behind : Substitutes later rest count) :
      Substitutes (before ++ (marked reference ++ later)) (before ++ c :: rest) count
  | entity {before name later value replacement rest : Text} {nested count : Nat}
      (unmarked : '&' ∉ before) (expands : table.Expands name value)
      (inside : Substitutes value replacement nested) (behind : Substitutes later rest count) :
      Substitutes (before ++ (marked name ++ later)) (before ++ (replacement ++ rest))
        (nested + 1 + count)

/-- The table as declarations of internal entities make it, with digits in all that starts like a
reference to a character. -/
structure Stored : Prop where
  named : ∀ entry ∈ table, IsName entry.1
  internal : ∀ entry ∈ table, ∃ value, entry.2 = .internal value ∧ Numeric value

end EntityTable

section Marks

variable {before before' reference reference' later later' : Text}

/-- A text has one first reference. -/
theorem marked_unique (unmarked : '&' ∉ before) (unmarked' : '&' ∉ before')
    (open_ : ';' ∉ reference) (open' : ';' ∉ reference')
    (same : before ++ (marked reference ++ later) = before' ++ (marked reference' ++ later')) :
    before = before' ∧ reference = reference' ∧ later = later' := by
  simp only [marked, List.cons_append, List.append_assoc, List.nil_append] at same
  obtain ⟨rfl, behind⟩ := Text.cut_unique unmarked unmarked' same
  obtain ⟨rfl, rfl⟩ := Text.cut_unique open_ open' behind
  exact ⟨rfl, rfl, rfl⟩

/-- A text that a reference is taken out of is what is in front, the reference, and what is behind. -/
theorem parts_of_breakOn? {text behind : Text}
    (opened : Text.breakOn? ['&'] text = some (before, behind))
    (closed : Text.breakOn? [';'] behind = some (reference, later)) :
    text = before ++ (marked reference ++ later) := by
  rw [Text.append_of_breakOn? opened, Text.append_of_breakOn? closed]
  simp [marked]

/-- A reference that a text mentions is the first one, or the text behind that mentions it. -/
theorem Mentions.cases {other : Text} (unmarked : '&' ∉ before) (ampersand : '&' ∉ reference)
    (semicolon : ';' ∉ reference)
    (mentions : Mentions (before ++ (marked reference ++ later)) other) :
    other = reference ∨ Mentions later other := by
  obtain ⟨closed, inside⟩ := mentions
  have inside : '&' :: (other ++ [';']) <:+: '&' :: (reference ++ ([';'] ++ later)) := by
    simpa [marked] using Text.infix_of_infix_append unmarked inside
  rcases List.infix_cons_iff.mp inside with ⟨rest, start⟩ | inside
  · rw [List.cons_append, List.cons.injEq, List.append_assoc] at start
    exact .inl (Text.cut_unique closed semicolon start.2).1
  · have inside := Text.infix_of_infix_append ampersand inside
    exact .inr ⟨closed, Text.infix_of_infix_append (by decide) inside⟩

theorem mentions_first (semicolon : ';' ∉ reference) :
    Mentions (before ++ (marked reference ++ later)) reference :=
  ⟨semicolon, before, later, List.append_assoc ..⟩

theorem mentions_alone {name : Text} (valid : IsName name) : Mentions (marked name) name :=
  ⟨fun member => absurd (valid.isNameChar member) (by decide), List.infix_rfl⟩

theorem Mentions.of_infix {text whole other : Text} (mentions : Mentions text other)
    (inside : text <:+: whole) : Mentions whole other :=
  ⟨mentions.1, mentions.2.trans inside⟩

end Marks

section Characters

variable {reference : Text} {c : Char}

theorem pointOfDigits_eq (base : Nat) (digits : Text) :
    pointOfDigits base digits = Nat.ofDigits base (digits.reverse.map hexDigitValue) := by
  rw [Nat.ofDigits_eq_foldr, List.foldr_map, List.foldr_reverse, pointOfDigits]
  congr 1
  funext value d
  exact Nat.add_comm _ _

theorem charOfPoint?_toNat (held : isXmlChar c = true) : charOfPoint? c.toNat = some c := by
  simp [charOfPoint?, held]

theorem toNat_of_charOfPoint? {point : Nat} (found : charOfPoint? point = some c) :
    c.toNat = point := by
  simp only [charOfPoint?, Option.ite_none_right_eq_some, Option.some.injEq, Bool.and_eq_true,
    beq_iff_eq] at found
  exact found.2 ▸ found.1.1

theorem unsigned?_digits {base : Nat} {isDigit : Char → Bool} {digits : Text}
    (noSign : isDigit '+' = false) (nonempty : digits ≠ [])
    (numeric : ∀ d ∈ digits, isDigit d = true) :
    unsigned? base isDigit digits = some (pointOfDigits base digits) := by
  cases digits with
  | nil => exact absurd rfl nonempty
  | cons first digits =>
    have sign : first ≠ '+' := by
      rintro rfl
      cases (numeric _ List.mem_cons_self).symm.trans noSign
    unfold unsigned?
    split
    · rename_i rest same
      cases same
      exact absurd rfl sign
    · simp [List.all_eq_true.mpr numeric]

theorem numericReference?_decimal {digits : Text} (nonempty : digits ≠ [])
    (numeric : ∀ d ∈ digits, d.isDigit = true) :
    numericReference? digits = charOfPoint? (pointOfDigits 10 digits) := by
  unfold numericReference?
  split
  · exact absurd (numeric 'x' List.mem_cons_self) (by decide)
  · rw [unsigned?_digits rfl nonempty numeric]
    rfl

theorem numericReference?_hexadecimal {digits : Text} (nonempty : digits ≠ [])
    (numeric : ∀ d ∈ digits, isHexDigit d = true) :
    numericReference? ('x' :: digits) = charOfPoint? (pointOfDigits 16 digits) := by
  rw [numericReference?, unsigned?_digits rfl nonempty numeric]
  rfl

/-- What a reference to a character denotes is what the code finds for it. -/
theorem Denotes.found (denotes : Denotes reference c) :
    (∃ number, reference = '#' :: number ∧ numericReference? number = some c) ∨
      predefined? reference = some c := by
  cases denotes with
  | decimal nonempty numeric point held =>
    refine .inl ⟨_, rfl, ?_⟩
    rw [numericReference?_decimal nonempty numeric, pointOfDigits_eq, point,
      charOfPoint?_toNat held]
  | hexadecimal nonempty numeric point held =>
    refine .inl ⟨_, rfl, ?_⟩
    rw [numericReference?_hexadecimal nonempty numeric, pointOfDigits_eq, point,
      charOfPoint?_toNat held]
  | predefined known => exact .inr known

theorem Denotes.of_numericReference? {number : Text} (found : numericReference? number = some c)
    (numeric : (∀ d ∈ number, d.isDigit = true) ∨
      ∃ digits, number = 'x' :: digits ∧ ∀ d ∈ digits, isHexDigit d = true) :
    Denotes ('#' :: number) c := by
  rcases numeric with numeric | ⟨digits, rfl, numeric⟩
  · have nonempty : number ≠ [] := by
      rintro rfl
      cases found
    rw [numericReference?_decimal nonempty numeric] at found
    exact .decimal nonempty numeric
      (by rw [← pointOfDigits_eq, toNat_of_charOfPoint? found]) (isXmlChar_of_charOfPoint? found)
  · have nonempty : digits ≠ [] := by
      rintro rfl
      cases found
    rw [numericReference?_hexadecimal nonempty numeric] at found
    exact .hexadecimal nonempty numeric
      (by rw [← pointOfDigits_eq, toNat_of_charOfPoint? found]) (isXmlChar_of_charOfPoint? found)

theorem Denotes.unique {c' : Char} (first : Denotes reference c) (second : Denotes reference c') :
    c = c' := by
  rcases first.found with ⟨number, rfl, found⟩ | found <;>
    rcases second.found with ⟨number', same, found'⟩ | found'
  · cases same
    exact Option.some.inj (found.symm.trans found')
  · cases found'
  · subst same
    cases found
  · exact Option.some.inj (found.symm.trans found')

/-- The marks of a reference to a character are around it and not in it. -/
theorem Denotes.unmarked (denotes : Denotes reference c) : '&' ∉ reference ∧ ';' ∉ reference := by
  have apart {isDigit : Char → Bool} {digits : Text} (numeric : ∀ d ∈ digits, isDigit d = true)
      (mark : Char) (none : isDigit mark = false) : mark ∉ digits := fun member =>
    absurd ((numeric mark member).symm.trans none) (by decide)
  cases denotes with
  | decimal _ numeric => simp [apart numeric '&' (by decide), apart numeric ';' (by decide)]
  | hexadecimal _ numeric => simp [apart numeric '&' (by decide), apart numeric ';' (by decide)]
  | predefined known =>
    have names : ∀ entry ∈ [("amp".toList, '&'), ("lt".toList, '<'), ("gt".toList, '>'),
        ("apos".toList, '\''), ("quot".toList, '"')], '&' ∉ entry.1 ∧ ';' ∉ entry.1 := by decide
    exact names _ (mem_of_lookup known)

end Characters

namespace EntityTable

variable {table : EntityTable}

section Names

variable {name value value' : Text} {c : Char}

theorem Expands.member (expands : table.Expands name value) :
    (name, .internal value) ∈ table := mem_of_lookup expands.2

theorem Expands.unique (first : table.Expands name value) (second : table.Expands name value') :
    value = value' := by
  cases first.2.symm.trans second.2
  rfl

/-- The marks of a reference to an entity are around its name and not in it. -/
theorem Expands.unmarked (stored : table.Stored) (expands : table.Expands name value) :
    '&' ∉ name ∧ ';' ∉ name := by
  have apart (mark : Char) (none : isNameChar mark = false) : mark ∉ name := fun member =>
    absurd (((stored.named _ expands.member).isNameChar member).symm.trans none) (by decide)
  exact ⟨apart '&' (by decide), apart ';' (by decide)⟩

theorem Expands.not_denotes (stored : table.Stored) (expands : table.Expands name value) :
    ¬Denotes name c := by
  intro denotes
  rcases denotes.found with ⟨number, rfl, -⟩ | found
  · exact absurd (stored.named _ expands.member).1 (by decide)
  · cases found.symm.trans expands.1

/-- A known reference is one to a character or to an internal entity. -/
theorem Knows.cases (stored : table.Stored) (known : table.Knows name) :
    (∃ c, Denotes name c) ∨ ∃ value, table.Expands name value := by
  cases predefined : predefined? name with
  | some c => exact .inl ⟨c, .predefined predefined⟩
  | none =>
    refine known.imp id fun declared => ?_
    obtain ⟨entity, found⟩ := Option.isSome_iff_exists.mp declared
    obtain ⟨value, rfl, -⟩ := stored.internal _ (mem_of_lookup found)
    exact ⟨value, predefined, found⟩

end Names

section Substitution

variable {before reference later text result other : Text} {count : Nat}

theorem Substitutes.of_unmarked (substitutes : table.Substitutes text result count)
    (unmarked : '&' ∉ text) : result = text ∧ count = 0 := by
  cases substitutes with
  | plain => exact ⟨rfl, rfl⟩
  | character => simp [marked] at unmarked
  | entity => simp [marked] at unmarked

/-- A text with a reference is that up to the reference, then what this stands for, and then what
the text behind stands for. -/
theorem Substitutes.of_marked (stored : table.Stored) (unmarked : '&' ∉ before)
    (semicolon : ';' ∉ reference)
    (substitutes : table.Substitutes (before ++ (marked reference ++ later)) result count) :
    (∃ c rest, Denotes reference c ∧ table.Substitutes later rest count ∧
      result = before ++ c :: rest) ∨
    ∃ value replacement rest nested more, table.Expands reference value ∧
      table.Substitutes value replacement nested ∧ table.Substitutes later rest more ∧
      result = before ++ (replacement ++ rest) ∧ count = nested + 1 + more := by
  generalize same : before ++ (marked reference ++ later) = whole at substitutes
  cases substitutes with
  | plain none => simp [← same, marked] at none
  | character unmarked' denotes behind =>
    obtain ⟨rfl, rfl, rfl⟩ := marked_unique unmarked unmarked' semicolon denotes.unmarked.2 same
    exact .inl ⟨_, _, denotes, behind, rfl⟩
  | entity unmarked' expands inside behind =>
    obtain ⟨rfl, rfl, rfl⟩ :=
      marked_unique unmarked unmarked' semicolon (expands.unmarked stored).2 same
    exact .inr ⟨_, _, _, _, _, expands, inside, behind, rfl, rfl⟩

/-- A replacement text stands for one text. -/
theorem Substitutes.unique (stored : table.Stored) {result' : Text} {count' : Nat}
    (first : table.Substitutes text result count) (second : table.Substitutes text result' count') :
    result = result' ∧ count = count' := by
  induction first generalizing result' count' with
  | plain unmarked =>
    obtain ⟨rfl, rfl⟩ := second.of_unmarked unmarked
    exact ⟨rfl, rfl⟩
  | character unmarked denotes _ ih =>
    rcases second.of_marked stored unmarked denotes.unmarked.2 with
      ⟨c, rest, denotes', behind, rfl⟩ | ⟨_, _, _, _, _, expands, -⟩
    · obtain ⟨rfl, rfl⟩ := ih behind
      rw [denotes.unique denotes']
      exact ⟨rfl, rfl⟩
    · exact absurd denotes (expands.not_denotes stored)
  | entity unmarked expands _ _ insideIh behindIh =>
    rcases second.of_marked stored unmarked (expands.unmarked stored).2 with
      ⟨c, rest, denotes, -⟩ | ⟨value, _, _, _, _, expands', inside, behind, rfl, rfl⟩
    · exact absurd denotes (expands.not_denotes stored)
    · rw [← expands.unique expands'] at inside
      obtain ⟨rfl, rfl⟩ := insideIh inside
      obtain ⟨rfl, rfl⟩ := behindIh behind
      exact ⟨rfl, rfl⟩

/-- What an entity stands for that a text mentions takes fewer replacements than the text. -/
theorem Substitutes.of_mentions (stored : table.Stored)
    (substitutes : table.Substitutes text result count) (mentions : Mentions text other)
    {value : Text} (expands : table.Expands other value) :
    ∃ replacement nested, table.Substitutes value replacement nested ∧ nested < count := by
  induction substitutes with
  | plain unmarked =>
    exact absurd (mentions.2.subset (by simp [marked])) unmarked
  | character unmarked denotes _ ih =>
    rcases mentions.cases unmarked denotes.unmarked.1 denotes.unmarked.2 with rfl | mentions
    · exact absurd denotes (expands.not_denotes stored)
    · exact ih mentions
  | entity unmarked expands' inside _ _ ih =>
    have marks := expands'.unmarked stored
    rcases mentions.cases unmarked marks.1 marks.2 with rfl | mentions
    · rw [expands'.unique expands] at inside
      exact ⟨_, _, inside, by omega⟩
    · obtain ⟨replacement, nested, substitutes, fewer⟩ := ih mentions
      exact ⟨replacement, nested, substitutes, by omega⟩

end Substitution

section Alone

variable {name : Text}

theorem Substitutes.character_alone {c : Char} (denotes : Denotes name c) :
    table.Substitutes (marked name) [c] 0 := by
  simpa using Substitutes.character List.not_mem_nil denotes
    (.plain List.not_mem_nil : table.Substitutes [] [] 0)

theorem Substitutes.entity_alone {value replacement : Text} {nested : Nat}
    (expands : table.Expands name value) (inside : table.Substitutes value replacement nested) :
    table.Substitutes (marked name) replacement (nested + 1) := by
  simpa using Substitutes.entity List.not_mem_nil expands inside (.plain List.not_mem_nil)

end Alone

section Known

variable {before reference later text : Text}

theorem closes_of_unmarked (unmarked : '&' ∉ text) : table.Closes text := by
  rintro before behind rfl
  simp at unmarked

theorem closes_marked (unmarked : '&' ∉ before) (ampersand : '&' ∉ reference)
    (known : table.Knows reference) (behind : table.Closes later) :
    table.Closes (before ++ (marked reference ++ later)) := by
  intro front rest same
  have apart : '&' ∉ [';'] := by decide
  obtain ⟨middle, -, parts⟩ := Text.cut_behind unmarked same
  rw [marked, List.cons_append, List.append_assoc] at parts
  cases middle with
  | nil =>
    exact ⟨reference, later, (List.cons.inj parts).2.symm, known⟩
  | cons c middle =>
    obtain ⟨middle, -, parts⟩ := Text.cut_behind ampersand (List.cons.inj parts).2
    obtain ⟨middle, -, parts⟩ := Text.cut_behind apart parts
    exact behind middle rest parts

theorem Closes.of_append (closes : table.Closes (before ++ later)) : table.Closes later := by
  rintro front rest rfl
  exact closes (before ++ front) rest (List.append_assoc ..).symm

/-- A text that stands for one has known references only. -/
theorem Substitutes.closes (stored : table.Stored) {result : Text} {count : Nat}
    (substitutes : table.Substitutes text result count) : table.Closes text := by
  induction substitutes with
  | plain unmarked => exact closes_of_unmarked unmarked
  | character unmarked denotes _ ih =>
    exact closes_marked unmarked denotes.unmarked.1 (.inl ⟨_, denotes⟩) ih
  | entity unmarked expands _ _ _ ih =>
    exact closes_marked unmarked (expands.unmarked stored).1 (.inr (by simp [expands.2])) ih

end Known

section Graph

variable (table)

/-- The references that are met when an entity is expanded form no cycle. -/
def Acyclic (name : Text) : Prop :=
  ∀ other, ReflTransGen table.Refers name other → ¬TransGen table.Refers other other

/-- The references that are met when an entity is expanded, itself included, are known, and so are
all that the replacement texts might have. -/
def Resolves (name : Text) : Prop :=
  ∀ other, ReflTransGen table.Refers name other →
    table.Knows other ∧ ∀ value, table.Expands other value → table.Closes value

/-- All that can be expanded on the way is available. -/
def Covers (available : EntityTable) (name : Text) : Prop :=
  ∀ other value, ReflTransGen table.Refers name other → table.Expands other value →
    available.find? other = some (.internal value)

variable {table} {available : EntityTable} {name other text result : Text} {count : Nat}

theorem Acyclic.step (acyclic : table.Acyclic name) (refers : table.Refers name other) :
    table.Acyclic other := fun last reaches => acyclic last (.head refers reaches)

theorem Resolves.step (resolves : table.Resolves name) (refers : table.Refers name other) :
    table.Resolves other := fun last reaches => resolves last (.head refers reaches)

/-- An entity that is being expanded is not needed for those that it refers to. -/
theorem Covers.step (covers : table.Covers available name) (acyclic : table.Acyclic name)
    (refers : table.Refers name other) : table.Covers (available.without name) other := by
  intro last value reaches expands
  have differ : last ≠ name := by
    rintro rfl
    exact acyclic last .refl (.head' refers reaches)
  rw [find?_without available differ]
  exact covers last value (.head refers reaches) expands

/-- Whatever is met on the way stands for a text. -/
theorem Substitutes.of_reaches (stored : table.Stored)
    (substitutes : table.Substitutes text result count) (mentions : Mentions text name)
    (reaches : ReflTransGen table.Refers name other) {value : Text}
    (expands : table.Expands other value) :
    ∃ replacement nested, table.Substitutes value replacement nested := by
  induction reaches generalizing value with
  | refl =>
    obtain ⟨replacement, nested, substitutes, -⟩ := substitutes.of_mentions stored mentions expands
    exact ⟨replacement, nested, substitutes⟩
  | tail _ refers ih =>
    obtain ⟨value', expands', mentions'⟩ := refers
    obtain ⟨_, _, substitutes'⟩ := ih expands'
    obtain ⟨replacement, nested, substitutes, -⟩ :=
      substitutes'.of_mentions stored mentions' expands
    exact ⟨replacement, nested, substitutes⟩

/-- The farther away an entity is met, the fewer replacements it takes. -/
theorem Substitutes.fewer (stored : table.Stored) {value value' : Text}
    (substitutes : table.Substitutes value result count) (expands : table.Expands name value)
    (leads : TransGen table.Refers name other) (expands' : table.Expands other value') :
    ∃ replacement nested, table.Substitutes value' replacement nested ∧ nested < count := by
  induction leads generalizing value' with
  | single refers =>
    obtain ⟨value'', expands'', mentions⟩ := refers
    rw [← expands.unique expands''] at mentions
    exact substitutes.of_mentions stored mentions expands'
  | tail _ refers ih =>
    obtain ⟨value'', expands'', mentions⟩ := refers
    obtain ⟨_, nested, inside, less⟩ := ih expands''
    obtain ⟨replacement, nested', inside', less'⟩ := inside.of_mentions stored mentions expands'
    exact ⟨replacement, nested', inside', less'.trans less⟩

theorem Substitutes.acyclic (stored : table.Stored)
    (substitutes : table.Substitutes text result count) (mentions : Mentions text name) :
    table.Acyclic name := by
  intro other reaches leads
  obtain ⟨_, ⟨value, expands, -⟩, -⟩ := TransGen.head'_iff.mp leads
  obtain ⟨replacement, nested, inside⟩ := substitutes.of_reaches stored mentions reaches expands
  obtain ⟨_, _, inside', fewer⟩ := inside.fewer stored expands leads expands
  exact absurd (inside.unique stored inside').2 (Nat.ne_of_gt fewer)

theorem Closes.knows (stored : table.Stored) (closes : table.Closes text)
    (mentions : Mentions text name) : table.Knows name := by
  obtain ⟨semicolon, before, behind, rfl⟩ := mentions
  obtain ⟨reference, later, parts, known⟩ :=
    closes before (name ++ ';' :: behind) (by simp [marked])
  have closed : ';' ∉ reference := by
    rcases known.cases stored with ⟨c, denotes⟩ | ⟨value, expands⟩
    · exact denotes.unmarked.2
    · exact (expands.unmarked stored).2
  rwa [(Text.cut_unique semicolon closed parts).1]

theorem Substitutes.resolves (stored : table.Stored)
    (substitutes : table.Substitutes text result count) (mentions : Mentions text name) :
    table.Resolves name := by
  intro other reaches
  refine ⟨?_, fun value expands => ?_⟩
  · cases reaches with
    | refl => exact (substitutes.closes stored).knows stored mentions
    | tail reaches refers =>
      obtain ⟨value, expands, mentions'⟩ := refers
      obtain ⟨_, _, inside⟩ := substitutes.of_reaches stored mentions reaches expands
      exact (inside.closes stored).knows stored mentions'
  · obtain ⟨_, _, inside⟩ := substitutes.of_reaches stored mentions reaches expands
    exact inside.closes stored

/-- A text stands for one if its references are known, and what they refer to stands for one. -/
theorem exists_substitutes_of_closes (stored : table.Stored) (closes : table.Closes text)
    (each : ∀ name value, Mentions text name → table.Expands name value →
      ∃ replacement nested, table.Substitutes value replacement nested) :
    ∃ result count, table.Substitutes text result count := by
  induction size : text.length using Nat.strongRecOn generalizing text with
  | ind length ih =>
    by_cases ampersand : '&' ∈ text
    · obtain ⟨before, behind, rfl, unmarked⟩ := List.eq_append_cons_of_mem ampersand
      obtain ⟨reference, later, rfl, known⟩ := closes before behind rfl
      have parts : before ++ '&' :: (reference ++ ';' :: later) =
          before ++ (marked reference ++ later) := by simp [marked]
      have shorter : later.length < length := by
        rw [← size]
        simp
        omega
      rw [parts] at closes each ⊢
      have further : table.Closes later := by
        rw [← List.append_assoc] at closes
        exact closes.of_append
      obtain ⟨rest, count, behind⟩ := ih later.length shorter further (fun name value mentions =>
        each name value (mentions.of_infix ⟨before ++ marked reference, [], by simp⟩)) rfl
      rcases known.cases stored with ⟨c, denotes⟩ | ⟨value, expands⟩
      · exact ⟨_, _, .character unmarked denotes behind⟩
      · obtain ⟨replacement, nested, inside⟩ :=
          each reference value (mentions_first (expands.unmarked stored).2) expands
        exact ⟨_, _, .entity unmarked expands inside behind⟩
    · exact ⟨text, 0, .plain ampersand⟩

/-- An entity stands for a text if all references that are met are known ones and form no cycle. -/
theorem exists_substitutes (stored : table.Stored) {value : Text}
    (expands : table.Expands name value) (acyclic : table.Acyclic name)
    (resolves : table.Resolves name) (covers : table.Covers available name) :
    ∃ replacement nested, table.Substitutes value replacement nested := by
  induction size : available.length using Nat.strongRecOn generalizing available name value with
  | ind length ih =>
    refine exists_substitutes_of_closes stored ((resolves name .refl).2 value expands) ?_
    intro other value' mentions expands'
    have refers : table.Refers name other := ⟨value, expands, mentions⟩
    have fewer : (available.without name).length < length := by
      rw [← size]
      exact length_without (covers name value .refl expands)
    exact ih _ fewer expands' (acyclic.step refers) (resolves.step refers)
      (covers.step acyclic refers) rfl

end Graph

end EntityTable

end Markup

end XmlSelect
