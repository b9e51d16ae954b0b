import Mathlib.Data.List.TakeWhile
import XmlSelect.Proofs.DistinctAttributes
import XmlSelect.Proofs.WordSearch

/-! The characters that are read as they stand, and by references to characters: names have those of
names, and all other text is made of characters that documents may hold. What references to entities
stand for is said in equations, one for each way that their expansion can go. -/
namespace XmlSelect

/-- Text that documents may hold. -/
def XmlText (text : Text) : Prop := ∀ c ∈ text, isXmlChar c = true

namespace XmlText

variable {c : Char} {front back text : Text}

@[simp] theorem nil : XmlText [] := nofun

theorem cons (first : isXmlChar c = true) (rest : XmlText text) : XmlText (c :: text) :=
  List.forall_mem_cons.mpr ⟨first, rest⟩

theorem append (first : XmlText front) (rest : XmlText back) : XmlText (front ++ back) :=
  List.forall_mem_append.mpr ⟨first, rest⟩

theorem reverse (forward : XmlText text) : XmlText text.reverse :=
  fun c member => forward c (List.mem_reverse.mp member)

theorem of_subset (whole : XmlText text) (part : front ⊆ text) : XmlText front :=
  fun c member => whole c (part member)

end XmlText

namespace Markup

/-- The production `Name`. -/
def IsName : Text → Prop
  | [] => False
  | first :: others => isNameStart first = true ∧ ∀ c ∈ others, isNameChar c = true

instance : DecidablePred IsName
  | [] => inferInstanceAs (Decidable False)
  | first :: others =>
    decidable_of_iff (isNameStart first = true ∧ others.all isNameChar = true) <| by
      rw [List.all_eq_true]
      rfl

theorem take?_append (wanted rest : Text) :
    take? wanted (wanted ++ rest) = some ⟨(), rest, List.suffix_append wanted rest⟩ := by
  unfold take?
  split
  · rename_i after found
    rw [Text.dropPrefix?_append] at found
    cases found
    rfl
  · rename_i absent
    rw [Text.dropPrefix?_append] at absent
    cases absent

theorem take?_eq_none {wanted source : Text} (absent : Text.dropPrefix? wanted source = none) :
    take? wanted source = none := by
  unfold take?
  split
  · rename_i found
    cases absent.symm.trans found
  · rfl

theorem take?_eq_some {wanted source : Text} {read : Read source Unit}
    (taken : take? wanted source = some read) : source = wanted ++ read.rest := by
  unfold take? at taken
  split at taken
  · rename_i found
    cases taken
    exact Text.append_of_dropPrefix? found
  · cases taken

theorem expect_ok {wanted source : Text} {read : Read source Unit}
    (expected : expect wanted source = .ok read) : source = wanted ++ read.rest := by
  unfold expect at expected
  split at expected
  · rename_i taken
    cases expected
    exact take?_eq_some taken
  · cases expected

theorem take?_of_ne_append {wanted source : Text} (other : ∀ rest, source ≠ wanted ++ rest) :
    take? wanted source = none := by
  refine take?_eq_none (Option.eq_none_iff_forall_ne_some.mpr fun rest found => ?_)
  exact other rest (Text.append_of_dropPrefix? found)

theorem commentOrInstruction?_eq (source : Text) :
    commentOrInstruction? source =
      match take? "!--".toList source with
      | some opened => some ((comment opened.rest).map (·.within opened.suffix))
      | none => (take? "?".toList source).map fun opened =>
        (instruction opened.rest).map (·.within opened.suffix) := by
  unfold commentOrInstruction?
  split
  · rfl
  · rfl
  · rename_i noComment noInstruction
    rw [take?_of_ne_append fun rest here => noComment rest here,
      take?_of_ne_append fun rest here => noInstruction rest here]
    rfl

theorem subsetItem_eq (table : EntityTable) (opening source : Text) :
    subsetItem table opening source =
      match take? "!ENTITY".toList source with
      | some opened => (entityDeclaration table opened.rest).map (·.within opened.suffix)
      | none =>
        match take? "!--".toList source with
        | some opened =>
          takeUntil "-->".toList .comment opened.rest >>= fun read =>
            .ok ⟨table, read.rest, read.suffix.trans opened.suffix⟩
        | none =>
          match take? ['?'] source with
          | some opened =>
            takeUntil "?>".toList .instruction opened.rest >>= fun read =>
              .ok ⟨table, read.rest, read.suffix.trans opened.suffix⟩
          | none =>
            match take? ['!'] source with
            | some opened =>
              skipDeclaration source opened.rest opened.suffix >>= fun read =>
                .ok ⟨table, read.rest, read.suffix⟩
            | none => .error ⟨.unexpectedInSubset, opening⟩ := by
  unfold subsetItem
  split
  · rename_i found
    rw [found]
  · rename_i noEntity
    rw [noEntity]
    dsimp only
    split
    · rfl
    · rfl
    · rename_i rest noComment _
      rw [take?_of_ne_append fun later here => noComment later (List.cons.inj here).2]
      rfl
    · rename_i noComment noInstruction noDeclaration
      rw [take?_of_ne_append fun rest here => noComment rest here,
        take?_of_ne_append fun rest here => noInstruction rest here,
        take?_of_ne_append fun rest here => noDeclaration rest here]

theorem IsName.isNameChar {name : Text} (valid : IsName name) {c : Char} (member : c ∈ name) :
    isNameChar c = true := by
  cases name with
  | nil => cases member
  | cons first others =>
    rcases List.mem_cons.mp member with rfl | member
    · exact isNameChar_of_isNameStart valid.1
    · exact valid.2 c member

theorem name_ok {source : Text} {read : Read source Text} (named : name source = .ok read) :
    IsName read.value ∧ source = read.value ++ read.rest := by
  cases source with
  | nil => cases named
  | cons first others =>
    obtain ⟨inner, begun, rfl⟩ := map_ok named
    unfold nameFrom at begun
    split at begun
    · rename_i start
      cases begun
      exact ⟨⟨start, fun c member => List.mem_takeWhile_imp member⟩,
        congrArg (first :: ·) List.takeWhile_append_dropWhile.symm⟩
    · cases begun

theorem nameFrom_ok {first : Char} {others : Text} {read : Read others Text}
    (begun : nameFrom first others = .ok read) : IsName read.value := by
  have named : name (first :: others) = .ok (read.within (List.suffix_cons _ _)) := by
    rw [name, begun]
    rfl
  exact (name_ok named).1

section LineEnds

theorem mem_of_mem_joinLineEnds {c : Char} {text : Text} (member : c ∈ joinLineEnds text) :
    c ∈ text := by
  fun_induction joinLineEnds text with
  | case1 rest ih =>
    rcases List.mem_cons.mp member with rfl | member
    · simp
    · simp [ih member]
  | case2 first rest _ ih =>
    rcases List.mem_cons.mp member with rfl | member
    · simp
    · simp [ih member]
  | case3 => cases member

/-- Joining line ends changes the texts that have a carriage return with a line feed behind it. -/
theorem joinLineEnds_eq_self_iff {text : Text} :
    joinLineEnds text = text ↔ ¬['\r', '\n'] <:+: text := by
  fun_induction joinLineEnds text with
  | case1 rest => simp [List.infix_cons_iff]
  | case2 first rest other ih =>
    have apart : ¬['\r', '\n'] <+: first :: rest := by
      rintro ⟨behind, same⟩
      cases same
      exact other behind rfl rfl
    simp only [List.cons.injEq, true_and, ih, List.infix_cons_iff, apart, false_or]
  | case3 => simp

theorem joinLineEnds_eq_self {text : Text} (plain : '\r' ∉ text) : joinLineEnds text = text :=
  joinLineEnds_eq_self_iff.mpr fun inside => plain (inside.subset List.mem_cons_self)

theorem joinLineEnds_ne_nil {text : Text} (nonempty : text ≠ []) : joinLineEnds text ≠ [] := by
  unfold joinLineEnds
  split <;> simp_all

/-- What does not begin with a line end begins with the same character when line ends are joined. -/
theorem joinLineEnds_cons {c : Char} (other : c ≠ '\r') (text : Text) :
    joinLineEnds (c :: text) = c :: joinLineEnds text := by
  rw [joinLineEnds]
  rintro rest rfl
  exact absurd rfl other

/-- Line ends are joined on both sides of a place that is in none. -/
theorem joinLineEnds_append {front behind : Text} (apart : behind.head? ≠ some '\n') :
    joinLineEnds (front ++ behind) = joinLineEnds front ++ joinLineEnds behind := by
  fun_induction joinLineEnds front with
  | case1 rest ih => rw [List.cons_append, List.cons_append, joinLineEnds, ih, List.cons_append]
  | case2 c rest other ih =>
    rw [List.cons_append, joinLineEnds, ih, List.cons_append]
    rintro after rfl same
    cases rest with
    | nil => exact apart (congrArg List.head? same)
    | cons d rest => exact other rest rfl (by rw [(List.cons.inj same).1])
  | case3 => rfl

theorem joinLineEnds_append_of_plain {front : Text} (plain : '\r' ∉ front) (behind : Text) :
    joinLineEnds (front ++ behind) = front ++ joinLineEnds behind := by
  induction front with
  | nil => rfl
  | cons c front ih =>
    rw [List.mem_cons, not_or] at plain
    rw [List.cons_append, joinLineEnds_cons (Ne.symm plain.1), ih plain.2, List.cons_append]

/-- Joining line ends brings about no occurrence of a text that has none. -/
theorem infix_of_infix_joinLineEnds {pattern text : Text} (plain : '\n' ∉ pattern)
    (inside : pattern <:+: joinLineEnds text) : pattern <:+: text := by
  have atStart {pattern text : Text} (plain : '\n' ∉ pattern)
      (start : pattern <+: joinLineEnds text) : pattern <+: text := by
    induction pattern generalizing text with
    | nil => exact List.nil_prefix
    | cons first pattern ih =>
      rw [List.mem_cons, not_or] at plain
      unfold joinLineEnds at start
      split at start
      · exact absurd (List.cons_prefix_cons.mp start).1.symm plain.1
      · obtain ⟨rfl, further⟩ := List.cons_prefix_cons.mp start
        exact List.cons_prefix_cons.mpr ⟨rfl, ih plain.2 further⟩
      · cases List.prefix_nil.mp start
  fun_induction joinLineEnds text with
  | case1 rest ih =>
    rcases List.infix_cons_iff.mp inside with start | inside
    · rw [← joinLineEnds] at start
      exact (atStart plain start).isInfix
    · exact (ih inside).trans (List.suffix_append ['\r', '\n'] rest).isInfix
  | case2 first rest other ih =>
    rcases List.infix_cons_iff.mp inside with start | inside
    · rw [← joinLineEnds.eq_2 first rest other] at start
      exact (atStart plain start).isInfix
    · exact (ih inside).trans (List.suffix_cons first rest).isInfix
  | case3 => exact inside

/-- Joining line ends leaves the last character as it is. -/
theorem getLast?_joinLineEnds (text : Text) : (joinLineEnds text).getLast? = text.getLast? := by
  fun_induction joinLineEnds text with
  | case1 rest ih => simp [List.getLast?_cons, ih]
  | case2 first rest _ ih => simp [List.getLast?_cons, ih]
  | case3 => rfl

end LineEnds

theorem takeUntil_ok {delimiter : Text} {part : Part} {source : Text} {read : Read source Text}
    (taken : takeUntil delimiter part source = .ok read) :
    ∃ body, Text.breakOn? delimiter source = some (body, read.rest) ∧ XmlText body ∧
      read.value = joinLineEnds body := by
  unfold takeUntil at taken
  split at taken
  · cases taken
  · rename_i body rest found
    split at taken
    · cases taken
    · rename_i none
      cases taken
      refine ⟨body, found, fun c member => ?_, rfl⟩
      simpa using List.find?_eq_none.mp none c member

theorem takeUntil_of_breakOn? {delimiter source body rest : Text}
    (found : Text.breakOn? delimiter source = some (body, rest)) (held : XmlText body)
    (part : Part) :
    ∃ suffix, takeUntil delimiter part source = .ok ⟨joinLineEnds body, rest, suffix⟩ := by
  have suffix : rest <:+ source := ⟨body ++ delimiter, (Text.append_of_breakOn? found).symm⟩
  refine ⟨suffix, ?_⟩
  unfold takeUntil
  split
  · rename_i none
    cases none.symm.trans found
  · rename_i here
    cases here.symm.trans found
    have none : body.find? (!isXmlChar ·) = none :=
      List.find?_eq_none.mpr fun c member => by simp [held c member]
    rw [none]

theorem takeUntil_xml {delimiter : Text} {part : Part} {source : Text} {read : Read source Text}
    (taken : takeUntil delimiter part source = .ok read) : XmlText read.value := by
  obtain ⟨body, -, held, value⟩ := takeUntil_ok taken
  rw [value]
  exact held.of_subset fun c => mem_of_mem_joinLineEnds

theorem quoted_ok {source : Text} {read : Read source Text} (taken : quoted source = .ok read) :
    ∃ quote rest inner, source = quote :: rest ∧
      takeUntil [quote] .literal rest = .ok inner ∧ read.value = inner.value ∧
        read.rest = inner.rest := by
  cases source with
  | nil => cases taken
  | cons quote rest =>
    unfold quoted at taken
    dsimp only at taken
    split at taken
    · obtain ⟨inner, within, rfl⟩ := map_ok taken
      exact ⟨quote, rest, inner, rfl, within, rfl, rfl⟩
    · cases taken

theorem quoted_xml {source : Text} {read : Read source Text}
    (taken : quoted source = .ok read) : XmlText read.value := by
  obtain ⟨quote, rest, inner, -, within, same, -⟩ := quoted_ok taken
  exact same ▸ takeUntil_xml within

section Characters

variable {c : Char}

theorem isXmlChar_of_charOfPoint? {point : Nat} (found : charOfPoint? point = some c) :
    isXmlChar c = true := by
  simp only [charOfPoint?, Option.ite_none_right_eq_some, Option.some.injEq,
    Bool.and_eq_true] at found
  exact found.2 ▸ found.1.2

theorem isXmlChar_of_pointReference {base : Nat} {isDigit : Char → Bool} {source : Text}
    {read : Read source Char} (found : pointReference base isDigit source = .ok read) :
    isXmlChar read.value = true := by
  unfold pointReference at found
  dsimp only at found
  split at found
  · cases found
  · obtain ⟨semicolon, -, found⟩ := bind_ok found
    split at found
    · cases found
    · split at found
      · cases found
      · rename_i known
        cases found
        exact isXmlChar_of_charOfPoint? known

theorem isXmlChar_of_charReference {source : Text} {read : Read source Char}
    (found : charReference source = .ok read) : isXmlChar read.value = true := by
  unfold charReference at found
  split at found
  · obtain ⟨inner, behind, rfl⟩ := map_ok found
    exact (isXmlChar_of_pointReference behind :)
  · exact isXmlChar_of_pointReference found

theorem isXmlChar_of_numericReference? {number : Text}
    (found : numericReference? number = some c) : isXmlChar c = true := by
  obtain ⟨point, -, found⟩ := Option.bind_eq_some_iff.mp found
  exact isXmlChar_of_charOfPoint? found

/-- A number is written in digits, with a sign or an `x` in front of them. -/
theorem mem_of_numericReference? {number : Text} (found : numericReference? number = some c)
    {d : Char} (member : d ∈ number) : d = '+' ∨ d = 'x' ∨ isHexDigit d = true := by
  have digits {base point : Nat} {isDigit : Char → Bool} {text : Text}
      (read : unsigned? base isDigit text = some point)
      (each : ∀ c, isDigit c = true → isHexDigit c = true) (inside : d ∈ text) :
      d = '+' ∨ isHexDigit d = true := by
    simp only [unsigned?, Option.ite_none_left_eq_some, Bool.or_eq_true, Bool.not_eq_true', not_or,
      Bool.not_eq_false, List.all_eq_true] at read
    obtain ⟨⟨-, all⟩, -⟩ := read
    split at all
    · exact (List.mem_cons.mp inside).imp_right fun inside => each d (all d inside)
    · exact .inr (each d (all d inside))
  obtain ⟨point, read, -⟩ := Option.bind_eq_some_iff.mp found
  split at read
  · rcases List.mem_cons.mp member with rfl | member
    · exact .inr (.inl rfl)
    · exact (digits read (fun _ digit => digit) member).imp_right .inr
  · have decimal (c : Char) (digit : c.isDigit = true) : isHexDigit c = true := by
      simp [isHexDigit, digit]
    exact (digits read decimal member).imp_right .inr

theorem nextChar_return {first : Char} {source : Text} (return_ : first = '\r')
    (other : ∀ rest, source ≠ '\n' :: rest) :
    nextChar first source = .ok ⟨'\n', source, List.suffix_refl _⟩ := by
  have held : isXmlChar first = true := by
    rw [return_]
    decide
  unfold nextChar
  rw [held]
  split
  · contradiction
  · split
    · exact absurd rfl (other _)
    · rfl
    · contradiction

theorem nextChar_eq {c : Char} (held : isXmlChar c = true) (other : c ≠ '\r') (rest : Text) :
    nextChar c rest = .ok ⟨c, rest, List.suffix_refl rest⟩ := by
  unfold nextChar
  rw [held]
  split
  · contradiction
  · split
    · contradiction
    · contradiction
    · rfl

theorem isXmlChar_of_nextChar {first : Char} {others : Text} {read : Read others Char}
    (found : nextChar first others = .ok read) : isXmlChar read.value = true := by
  unfold nextChar at found
  split at found
  · cases found
  · rename_i held
    have lineFeed : isXmlChar '\n' = true := by decide
    split at found <;> cases found
    · exact lineFeed
    · exact lineFeed
    · simpa using held

theorem mem_of_lookup {α : Type} {key : Text} {value : α} {entries : List (Text × α)}
    (found : entries.lookup key = some value) : (key, value) ∈ entries := by
  obtain ⟨before, after, rfl, -⟩ := List.lookup_eq_some_iff.mp found
  simp

theorem isXmlChar_of_predefined? {entity : Text} (found : predefined? entity = some c) :
    isXmlChar c = true := by
  have known : ∀ entry ∈ [("amp".toList, '&'), ("lt".toList, '<'), ("gt".toList, '>'),
      ("apos".toList, '\''), ("quot".toList, '"')], isXmlChar entry.2 = true := by decide
  exact known _ (mem_of_lookup found)

end Characters

namespace Expansion

variable {expansion : Expansion} {available : EntityTable} {ledger : Ledger}

theorem named_of_predefined {name : Text} {c : Char} (known : predefined? name = some c) :
    expansion.named available ledger name = .ok ([c], ledger) := by
  rw [named.eq_def, known]

/-- A declared entity that is not available refers to itself. -/
theorem named_of_unavailable {name : Text} (unknown : predefined? name = none)
    (absent : available.find? name = none) :
    expansion.named available ledger name =
      if (expansion.table.find? name).isSome then expansion.fail ledger (.recursiveEntity name)
      else expansion.fail ledger (.undefinedEntity name) := by
  rw [named.eq_def, unknown]
  dsimp only
  split
  · rfl
  · rename_i found
    cases absent.symm.trans found

theorem named_of_absent {name : Text} (unknown : predefined? name = none)
    (absent : available.find? name = none) :
    ∃ failure, expansion.named available ledger name = .error failure := by
  rw [named_of_unavailable unknown absent]
  split
  · exact ⟨_, rfl⟩
  · exact ⟨_, rfl⟩

theorem named_of_declared {name : Text} {entity : Entity} (unknown : predefined? name = none)
    (found : available.find? name = some entity) :
    expansion.named available ledger name =
      expansion.count ledger >>= fun counted =>
        expansion.replacement counted name entity >>= fun replaced =>
          match replaced with
          | (none, after) => .ok ([], after)
          | (some text, after) => expansion.replaced (available.without name) after text := by
  rw [named.eq_def, unknown]
  dsimp only
  split
  · rename_i absent
    cases absent.symm.trans found
  · rename_i here
    cases here.symm.trans found
    rfl

/-- A named reference stands for a predefined character, for nothing, or for the text of an entity
with its references expanded. -/
theorem named_eq_ok_iff {name : Text} {result : Text × Ledger} :
    expansion.named available ledger name = .ok result ↔
      (∃ c, predefined? name = some c ∧ result = ([c], ledger)) ∨
      ∃ entity counted replacement after, predefined? name = none ∧
        available.find? name = some entity ∧ expansion.count ledger = .ok counted ∧
        expansion.replacement counted name entity = .ok (replacement, after) ∧
        match replacement with
        | none => result = ([], after)
        | some text => expansion.replaced (available.without name) after text = .ok result := by
  constructor
  · intro read
    cases known : predefined? name with
    | some c =>
      rw [named_of_predefined known] at read
      cases read
      exact .inl ⟨c, rfl, rfl⟩
    | none =>
      cases found : available.find? name with
      | none =>
        obtain ⟨failure, stuck⟩ : ∃ failure, expansion.named available ledger name =
            .error failure := named_of_absent known found
        cases stuck.symm.trans read
      | some entity =>
        rw [named_of_declared known found] at read
        obtain ⟨counted, count, read⟩ := bind_ok read
        obtain ⟨⟨replacement, after⟩, replaced, read⟩ := bind_ok read
        refine .inr ⟨entity, counted, replacement, after, rfl, rfl, count, replaced, ?_⟩
        cases replacement with
        | none =>
          cases read
          rfl
        | some text => exact read
  · rintro (⟨c, known, rfl⟩ |
      ⟨entity, counted, replacement, after, unknown, found, count, replaced, read⟩)
    · exact named_of_predefined known
    · rw [named_of_declared unknown found]
      refine bind_of_ok count (bind_of_ok replaced ?_)
      cases replacement with
      | none => exact congrArg Except.ok read.symm
      | some text => exact read

/-- What a reference in a replacement text stands for, without its delimiters. -/
def referred (expansion : Expansion) (available : EntityTable) (ledger : Ledger)
    (reference : Text) : Except Failure (Text × Ledger) :=
  match reference with
  | '#' :: number =>
    match numericReference? number with
    | some c => .ok ([c], ledger)
    | none => expansion.fail ledger (.invalidReference reference)
  | name => expansion.named available ledger name

theorem referred_number (number : Text) :
    expansion.referred available ledger ('#' :: number) =
      match numericReference? number with
      | some c => .ok ([c], ledger)
      | none => expansion.fail ledger (.invalidReference ('#' :: number)) := rfl

theorem referred_of_name {reference : Text} (other : ∀ number, reference ≠ '#' :: number) :
    expansion.referred available ledger reference =
      expansion.named available ledger reference := by
  unfold referred
  split
  · exact absurd rfl (other _)
  · rfl

theorem replaced_of_unmarked {text : Text} (unmarked : Text.breakOn? ['&'] text = none) :
    expansion.replaced available ledger text = .ok (expansion.place.normalize text, ledger) := by
  rw [replaced_eq, unmarked]

theorem replaced_of_open {text before behind : Text}
    (opened : Text.breakOn? ['&'] text = some (before, behind))
    (unclosed : Text.breakOn? [';'] behind = none) :
    expansion.replaced available ledger text = expansion.fail ledger .unterminatedReference := by
  rw [replaced_eq, opened]
  dsimp only
  rw [unclosed]

theorem replaced_of_unclosed {text before behind : Text}
    (opened : Text.breakOn? ['&'] text = some (before, behind))
    (unclosed : Text.breakOn? [';'] behind = none) :
    ∃ failure, expansion.replaced available ledger text = .error failure :=
  ⟨_, replaced_of_open opened unclosed⟩

theorem replaced_of_marked {text before behind reference later : Text}
    (opened : Text.breakOn? ['&'] text = some (before, behind))
    (closed : Text.breakOn? [';'] behind = some (reference, later)) :
    expansion.replaced available ledger text =
      expansion.referred available ledger reference >>= fun here =>
        expansion.replaced available here.2 later >>= fun further =>
          .ok (expansion.place.normalize before ++ here.1 ++ further.1, further.2) := by
  rw [replaced_eq, opened]
  dsimp only
  rw [closed]
  dsimp only
  split
  · rename_i number
    rw [referred_number]
    cases numericReference? number with
    | none => rfl
    | some c => rfl
  · rename_i other
    rw [referred_of_name fun number same => other number same]
    rfl

theorem referred_eq_ok_iff {reference : Text} {result : Text × Ledger} :
    expansion.referred available ledger reference = .ok result ↔
      (∃ number c, reference = '#' :: number ∧ numericReference? number = some c ∧
        result = ([c], ledger)) ∨
      (∀ number, reference ≠ '#' :: number) ∧
        expansion.named available ledger reference = .ok result := by
  unfold referred
  split
  · rename_i number
    constructor
    · intro read
      split at read
      · rename_i c known
        exact .inl ⟨number, c, rfl, known, (Except.ok.inj read).symm⟩
      · cases read
    · rintro (⟨_, c, same, known, rfl⟩ | ⟨other, -⟩)
      · cases same
        rw [known]
      · exact absurd rfl (other number)
  · rename_i other
    refine ⟨fun read => .inr ⟨fun number same => other number same, read⟩, ?_⟩
    rintro (⟨number, c, same, -⟩ | ⟨-, named⟩)
    · exact (other number same).elim
    · exact named

/-- A replacement text is taken as it is up to its first reference; what this one stands for comes
next, and then the same of the text behind. -/
theorem replaced_eq_ok_iff {text : Text} {result : Text × Ledger} :
    expansion.replaced available ledger text = .ok result ↔
      (Text.breakOn? ['&'] text = none ∧ result = (expansion.place.normalize text, ledger)) ∨
      ∃ before behind reference later value counted rest after,
        Text.breakOn? ['&'] text = some (before, behind) ∧
        Text.breakOn? [';'] behind = some (reference, later) ∧
        ((∃ number c, reference = '#' :: number ∧ numericReference? number = some c ∧
            value = [c] ∧ counted = ledger) ∨
          (∀ number, reference ≠ '#' :: number) ∧
            expansion.named available ledger reference = .ok (value, counted)) ∧
        expansion.replaced available counted later = .ok (rest, after) ∧
        result = (expansion.place.normalize before ++ value ++ rest, after) := by
  constructor
  · intro read
    cases opened : Text.breakOn? ['&'] text with
    | none =>
      rw [replaced_of_unmarked opened] at read
      exact .inl ⟨rfl, (Except.ok.inj read).symm⟩
    | some parts =>
      obtain ⟨before, behind⟩ := parts
      cases closed : Text.breakOn? [';'] behind with
      | none =>
        obtain ⟨failure, stuck⟩ : ∃ failure, expansion.replaced available ledger text =
            .error failure := replaced_of_unclosed opened closed
        cases stuck.symm.trans read
      | some parts =>
        obtain ⟨reference, later⟩ := parts
        rw [replaced_of_marked opened closed] at read
        obtain ⟨⟨value, counted⟩, here, read⟩ := bind_ok read
        obtain ⟨⟨rest, after⟩, further, read⟩ := bind_ok read
        refine .inr ⟨_, _, _, _, value, counted, rest, after, rfl, closed, ?_, further,
          (Except.ok.inj read).symm⟩
        refine (referred_eq_ok_iff.mp here).imp ?_ id
        rintro ⟨number, c, same, known, stands⟩
        cases stands
        exact ⟨number, c, same, known, rfl, rfl⟩
  · rintro (⟨unmarked, rfl⟩ |
      ⟨before, behind, reference, later, value, counted, rest, after, opened, closed, here, further,
        rfl⟩)
    · exact replaced_of_unmarked unmarked
    · rw [replaced_of_marked opened closed]
      refine bind_of_ok (referred_eq_ok_iff.mpr (here.imp ?_ id)) (bind_of_ok further rfl)
      rintro ⟨number, c, same, known, rfl, rfl⟩
      exact ⟨number, c, same, known, rfl⟩

end Expansion

end Markup

end XmlSelect
