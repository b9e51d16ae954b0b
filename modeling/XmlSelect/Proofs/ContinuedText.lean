import XmlSelect.Proofs.PrintedMarkup

/-! Texts that go on. What a reader has taken from a text it takes from a longer one too, where what
comes behind does not run together with it. -/
namespace XmlSelect

theorem suffix_append_right {rest source : Text} (suffix : rest <:+ source) (tail : Text) :
    rest ++ tail <:+ source ++ tail := by
  obtain ⟨taken, rfl⟩ := suffix
  exact ⟨taken, (List.append_assoc ..).symm⟩

/-- The same reading when the text goes on. -/
def Read.on {source : Text} {α : Type} (read : Read source α) (tail : Text) :
    Read (source ++ tail) α :=
  ⟨read.value, read.rest ++ tail, suffix_append_right read.suffix tail⟩

namespace Text

variable {pattern text tail : Text}

theorem dropPrefix?_on {after : Text} (found : dropPrefix? pattern text = some after) :
    dropPrefix? pattern (text ++ tail) = some (after ++ tail) := by
  rw [append_of_dropPrefix? found, List.append_assoc, dropPrefix?_append]

/-- What a text does not start with it does not start with when it goes on, if it is long enough or
goes on with a character of another kind. -/
theorem dropPrefix?_on_none (absent : dropPrefix? pattern text = none)
    (apart : pattern.length ≤ text.length ∨ ∀ c ∈ tail.head?, c ∉ pattern) :
    dropPrefix? pattern (text ++ tail) = none := by
  induction pattern generalizing text with
  | nil => cases absent
  | cons p pattern ih =>
    cases text with
    | nil =>
      cases tail with
      | nil => rfl
      | cons c tail =>
        have other := apart.resolve_left (by simp) c rfl
        exact if_neg fun same : p = c => other (same ▸ List.mem_cons_self)
    | cons c text =>
      rw [List.cons_append, dropPrefix?]
      by_cases same : p = c
      · rw [if_pos same]
        rw [dropPrefix?, if_pos same] at absent
        refine ih absent (apart.imp Nat.le_of_succ_le_succ fun others d first member => ?_)
        exact others d first (List.mem_cons_of_mem p member)
      · rw [if_neg same]

theorem breakOn?_on {before after : Text} (found : breakOn? pattern text = some (before, after)) :
    breakOn? pattern (text ++ tail) = some (before, after ++ tail) := by
  induction text generalizing before with
  | nil =>
    have parts := append_of_breakOn? found
    rw [List.append_assoc, eq_comm, List.append_eq_nil_iff, List.append_eq_nil_iff] at parts
    obtain ⟨rfl, rfl, rfl⟩ := parts
    cases tail <;> rfl
  | cons c text ih =>
    rw [List.cons_append, breakOn?, ← List.cons_append]
    rw [breakOn?] at found
    split at found
    · rename_i starts
      cases found
      rw [dropPrefix?_on starts]
    · rename_i absent
      obtain ⟨⟨inner, rest⟩, further, same⟩ := Option.map_eq_some_iff.mp found
      cases same
      have long := congrArg List.length (append_of_breakOn? further)
      simp only [List.length_append] at long
      rw [dropPrefix?_on_none absent (.inl (by simp only [List.length_cons]; omega)), ih further]
      rfl

end Text

namespace Markup

/-- A text that does not run together with what is in front: it begins with a quote or a tag. -/
inductive Sealed : Text → Prop
  | nil : Sealed []
  | quote {c : Char} (isQuote : isQuote c = true) (rest : Text) : Sealed (c :: rest)
  | tag {c : Char} (start : isNameStart c = true) (rest : Text) : Sealed ('<' :: c :: rest)

section Smallest

variable {source tail : Text}

theorem Sealed.head (closed : Sealed tail) {c : Char} (first : c ∈ tail.head?) :
    c = '"' ∨ c = '\'' ∨ c = '<' := by
  cases closed with
  | nil => cases first
  | quote isQuote =>
    cases first
    simp only [Markup.isQuote, Bool.or_eq_true, beq_iff_eq] at isQuote
    exact isQuote.imp id .inl
  | tag =>
    cases first
    exact .inr (.inr rfl)

theorem Sealed.stops (closed : Sealed tail) {holds : Char → Bool}
    (none : holds '"' = false ∧ holds '\'' = false ∧ holds '<' = false) :
    ∀ c ∈ tail.head?, holds c = false := by
  intro c first
  rcases closed.head first with rfl | rfl | rfl
  · exact none.1
  · exact none.2.1
  · exact none.2.2

/-- A text that goes on begins with no other character than before, but for quotes and tags. -/
theorem Sealed.other (closed : Sealed tail) {c : Char} (noMark : c ≠ '"' ∧ c ≠ '\'' ∧ c ≠ '<')
    (other : ∀ rest, source ≠ c :: rest) (rest : Text) : source ++ tail ≠ c :: rest := by
  intro same
  cases source with
  | nil =>
    rw [List.nil_append] at same
    have first : c ∈ tail.head? := by
      rw [same]
      rfl
    rcases closed.head first with mark | mark | mark
    · exact noMark.1 mark
    · exact noMark.2.1 mark
    · exact noMark.2.2 mark
  | cons d source =>
    cases same
    exact other source rfl

theorem takeWhile_on {holds : Char → Bool} (stops : ∀ c ∈ tail.head?, holds c = false)
    (source : Text) : (source ++ tail).takeWhile holds = source.takeWhile holds ∧
      (source ++ tail).dropWhile holds = source.dropWhile holds ++ tail := by
  induction source with
  | nil =>
    cases tail with
    | nil => exact ⟨rfl, rfl⟩
    | cons c rest => simp [stops c rfl]
  | cons c source ih =>
    rw [List.cons_append, List.takeWhile_cons, List.takeWhile_cons, List.dropWhile_cons,
      List.dropWhile_cons, ih.1, ih.2]
    cases holds c <;> exact ⟨rfl, rfl⟩

theorem take?_on {wanted : Text} {read : Read source Unit} (taken : take? wanted source = some read) :
    take? wanted (source ++ tail) = some (read.on tail) := by
  unfold take? at taken ⊢
  split at taken
  · rename_i found
    cases taken
    split
    · rename_i found'
      cases found'.symm.trans (Text.dropPrefix?_on found)
      rfl
    · rename_i absent
      cases absent.symm.trans (Text.dropPrefix?_on found)
  · cases taken

/-- A text that goes on with a quote or a tag starts with no word that it did not start with. -/
theorem take?_on_none {wanted : Text} (closed : Sealed tail) (absent : take? wanted source = none)
    (word : wanted.all (fun c => c != '"' && c != '\'' && c != '<') = true) :
    take? wanted (source ++ tail) = none := by
  have unmet : Text.dropPrefix? wanted source = none := by
    unfold take? at absent
    split at absent
    · cases absent
    · assumption
  refine take?_eq_none (Text.dropPrefix?_on_none unmet (.inr fun c first member => ?_))
  have other := List.all_eq_true.mp word c member
  rcases closed.head first with rfl | rfl | rfl <;> cases other

theorem expect_on {wanted : Text} {read : Read source Unit} (found : expect wanted source = .ok read) :
    expect wanted (source ++ tail) = .ok (read.on tail) := by
  unfold expect at found ⊢
  split at found
  · rename_i taken
    cases found
    rw [take?_on taken]
  · cases found

theorem spaced_on (closed : Sealed tail) (source : Text) :
    (source ++ tail).head?.any isBlank = source.head?.any isBlank := by
  cases source with
  | nil =>
    cases tail with
    | nil => rfl
    | cons c rest =>
      have stops : ∀ d ∈ (c :: rest).head?, isBlank d = false := closed.stops (by decide)
      exact stops c rfl
  | cons c source => rfl

theorem skipBlanks_on (closed : Sealed tail) (source : Text) :
    skipBlanks (source ++ tail) = (skipBlanks source).on tail := by
  have stops : ∀ c ∈ tail.head?, isBlank c = false := closed.stops (by decide)
  simp only [skipBlanks, Read.skip, Read.on, spaced_on closed, (takeWhile_on stops source).2]

theorem requireBlank_on (closed : Sealed tail) {read : Read source Unit}
    (found : requireBlank source = .ok read) : requireBlank (source ++ tail) = .ok (read.on tail) := by
  unfold requireBlank at found ⊢
  rw [skipBlanks_on closed]
  dsimp only [Read.on] at found ⊢
  split at found
  · rename_i spaced
    cases found
    rw [if_pos spaced]
  · cases found

theorem nameFrom_on (closed : Sealed tail) {first : Char} {read : Read source Text}
    (found : nameFrom first source = .ok read) :
    nameFrom first (source ++ tail) = .ok (read.on tail) := by
  have stops : ∀ c ∈ tail.head?, isNameChar c = false := closed.stops (by decide)
  unfold nameFrom at found ⊢
  split at found
  · rename_i start
    cases found
    simp only [if_pos start, (takeWhile_on stops source).1, (takeWhile_on stops source).2]
    rfl
  · cases found

theorem name_on (closed : Sealed tail) {read : Read source Text} (found : name source = .ok read) :
    name (source ++ tail) = .ok (read.on tail) := by
  cases source with
  | nil => cases found
  | cons first others =>
    obtain ⟨inner, begun, rfl⟩ := map_ok found
    change (nameFrom first (others ++ tail)).map _ = _
    rw [nameFrom_on closed begun]
    rfl

theorem takeUntil_on {delimiter : Text} {part : Part} {read : Read source Text}
    (taken : takeUntil delimiter part source = .ok read) :
    takeUntil delimiter part (source ++ tail) = .ok (read.on tail) := by
  unfold takeUntil at taken ⊢
  split at taken
  · cases taken
  · rename_i body rest found
    have further : Text.breakOn? delimiter (source ++ tail) = some (body, rest ++ tail) :=
      Text.breakOn?_on found
    split at taken
    · cases taken
    · rename_i held
      cases taken
      split
      · rename_i absent
        cases absent.symm.trans further
      · rename_i found'
        cases found'.symm.trans further
        rw [held]
        rfl

theorem quoted_on {read : Read source Text} (taken : quoted source = .ok read) :
    quoted (source ++ tail) = .ok (read.on tail) := by
  unfold quoted at taken
  split at taken
  · cases taken
  · split at taken
    · rename_i quote others isQuote
      obtain ⟨inner, inside, rfl⟩ := map_ok taken
      change (if Markup.isQuote quote then
        (takeUntil [quote] .literal (others ++ tail)).map _ else _) = _
      rw [if_pos isQuote, takeUntil_on inside]
      rfl
    · cases taken

theorem nextChar_on (closed : Sealed tail) {first : Char} {read : Read source Char}
    (found : nextChar first source = .ok read) :
    nextChar first (source ++ tail) = .ok (read.on tail) := by
  have held : isXmlChar first = true := by
    unfold nextChar at found
    split at found
    · cases found
    · simp_all
  by_cases return_ : first = '\r'
  · subst return_
    by_cases lineFeed : ∃ rest, source = '\n' :: rest
    · obtain ⟨rest, rfl⟩ := lineFeed
      cases found
      rfl
    · have other : ∀ rest, source ≠ '\n' :: rest := fun rest same => lineFeed ⟨rest, same⟩
      rw [nextChar_return rfl other] at found
      cases found
      exact nextChar_return rfl (closed.other (by decide) other)
  · rw [nextChar_eq held return_] at found ⊢
    cases found
    rfl

end Smallest

section Leaves

variable {source tail : Text}

theorem comment_on {read : Read source Leaf} (found : comment source = .ok read) :
    comment (source ++ tail) = .ok (read.on tail) := by
  obtain ⟨body, taken, found⟩ := bind_ok found
  dsimp only at found
  split at found
  · cases found
  · rename_i plain
    cases found
    rw [comment, takeUntil_on taken, ok_bind]
    exact if_neg plain

theorem cdataSection_on {read : Read source Leaf} (found : cdataSection source = .ok read) :
    cdataSection (source ++ tail) = .ok (read.on tail) := by
  obtain ⟨body, taken, found⟩ := bind_ok found
  cases found
  rw [cdataSection, takeUntil_on taken]
  rfl

theorem instruction_on (closed : Sealed tail) {read : Read source Leaf}
    (found : instruction source = .ok read) :
    instruction (source ++ tail) = .ok (read.on tail) := by
  obtain ⟨target, named, found⟩ := bind_ok found
  rw [instruction, name_on closed named, ok_bind]
  dsimp only [Read.on] at found ⊢
  split at found
  · cases found
  · rename_i other
    rw [if_neg other]
    split at found
    · rename_i ends
      cases found
      rw [take?_on ends]
      rfl
    · rename_i absent
      obtain ⟨blanks, spaced, found⟩ := bind_ok found
      obtain ⟨body, taken, found⟩ := bind_ok found
      cases found
      rw [take?_on_none closed absent (by decide)]
      dsimp only
      rw [requireBlank_on closed spaced, ok_bind]
      dsimp only [Read.on]
      rw [takeUntil_on taken]
      rfl

theorem commentOrInstruction?_on (closed : Sealed tail) {read : Read source Leaf}
    (found : commentOrInstruction? source = some (.ok read)) :
    commentOrInstruction? (source ++ tail) = some (.ok (read.on tail)) := by
  rw [commentOrInstruction?_eq] at found ⊢
  split at found
  · rename_i opened
    obtain ⟨inner, inside, rfl⟩ := map_ok (Option.some.inj found)
    rw [take?_on opened]
    dsimp only [Read.on]
    rw [comment_on inside]
    rfl
  · rename_i noComment
    obtain ⟨opened, taken, found⟩ := Option.map_eq_some_iff.mp found
    obtain ⟨inner, inside, rfl⟩ := map_ok found
    rw [take?_on_none closed noComment (by decide), take?_on taken]
    dsimp only [Read.on]
    rw [Option.map_some, instruction_on closed inside]
    rfl

theorem commentOrInstruction?_on_none (closed : Sealed tail)
    (absent : commentOrInstruction? source = none) :
    commentOrInstruction? (source ++ tail) = none := by
  rw [commentOrInstruction?_eq] at absent ⊢
  split at absent
  · cases absent
  · rename_i noComment
    rw [take?_on_none closed noComment (by decide),
      take?_on_none closed (Option.map_eq_none_iff.mp absent) (by decide)]
    rfl

theorem contentLeaf?_on (closed : Sealed tail) {read : Read source Leaf}
    (found : contentLeaf? source = some (.ok read)) :
    contentLeaf? (source ++ tail) = some (.ok (read.on tail)) := by
  unfold contentLeaf? at found ⊢
  split at found
  · rename_i here
    rw [commentOrInstruction?_on closed (here.trans found)]
  · rename_i absent
    rw [commentOrInstruction?_on_none closed absent]
    obtain ⟨opened, taken, inside⟩ := Option.map_eq_some_iff.mp found
    obtain ⟨inner, section_, rfl⟩ := map_ok inside
    dsimp only
    rw [take?_on taken, Option.map_some]
    dsimp only [Read.on]
    rw [cdataSection_on section_]
    rfl

theorem contentLeaf?_on_none (closed : Sealed tail) (absent : contentLeaf? source = none) :
    contentLeaf? (source ++ tail) = none := by
  unfold contentLeaf? at absent ⊢
  split at absent
  · cases absent
  · rename_i noLeaf
    rw [commentOrInstruction?_on_none closed noLeaf]
    dsimp only
    rw [take?_on_none closed (Option.map_eq_none_iff.mp absent) (by decide), Option.map_none]

theorem endTag_on (closed : Sealed tail) {element : Text} {read : Read source Unit}
    (found : endTag element source = .ok read) :
    endTag element (source ++ tail) = .ok (read.on tail) := by
  obtain ⟨named, target, found⟩ := bind_ok found
  rw [endTag, name_on closed target, ok_bind]
  dsimp only [Read.on] at found ⊢
  split at found
  · cases found
  · rename_i same
    obtain ⟨bracket, ends, found⟩ := bind_ok found
    cases found
    rw [if_neg same, skipBlanks_on closed]
    dsimp only [Read.on]
    rw [expect_on ends]
    rfl

end Leaves

section Declarations

variable {source tail : Text}

theorem externalId_on (closed : Sealed tail) {read : Read source (Option (Text × Option Text))}
    (found : externalId source = .ok read) : externalId (source ++ tail) = .ok (read.on tail) := by
  unfold externalId at found
  split at found
  · rename_i word
    obtain ⟨gap, spaced, found⟩ := bind_ok found
    obtain ⟨system, taken, found⟩ := bind_ok found
    cases found
    rw [externalId, take?_on word]
    dsimp only [Read.on]
    rw [requireBlank_on closed spaced, ok_bind]
    dsimp only [Read.on]
    rw [quoted_on taken]
    rfl
  · rename_i noSystem
    split at found
    · rename_i word
      obtain ⟨gap, spaced, found⟩ := bind_ok found
      obtain ⟨publicId, taken, found⟩ := bind_ok found
      obtain ⟨gap', spaced', found⟩ := bind_ok found
      obtain ⟨system, taken', found⟩ := bind_ok found
      cases found
      rw [externalId, take?_on_none closed noSystem (by decide), take?_on word]
      dsimp only [Read.on]
      rw [requireBlank_on closed spaced, ok_bind]
      dsimp only [Read.on]
      rw [quoted_on taken, ok_bind]
      dsimp only [Read.on]
      rw [requireBlank_on closed spaced', ok_bind]
      dsimp only [Read.on]
      rw [quoted_on taken']
      rfl
    · rename_i noPublic
      cases found
      rw [externalId, take?_on_none closed noSystem (by decide),
        take?_on_none closed noPublic (by decide)]
      rfl

theorem entityDefinition_on (closed : Sealed tail) {declared : Text} {read : Read source Entity}
    (found : entityDefinition declared source = .ok read) :
    entityDefinition declared (source ++ tail) = .ok (read.on tail) := by
  unfold entityDefinition at found
  split at found
  · rename_i opens
    obtain ⟨value, taken, found⟩ := bind_ok found
    cases found
    have opens' : (source ++ tail).head?.any isQuote = true := by
      cases source with
      | nil => cases opens
      | cons c source => exact opens
    rw [entityDefinition, if_pos opens', quoted_on taken]
    rfl
  · rename_i closes
    obtain ⟨identifiers, identified, found⟩ := bind_ok found
    dsimp only at found
    split at found
    · cases found
    · rename_i system publicId same
      -- An identifier was read, so that the text is not empty and goes on as it began.
      have closes' : ¬(source ++ tail).head?.any isQuote = true := by
        cases source with
        | nil =>
          cases identified
          cases same
        | cons c source => exact closes
      rw [entityDefinition, if_neg closes', externalId_on closed identified, ok_bind]
      dsimp only [Read.on]
      rw [same]
      dsimp only
      rw [skipBlanks_on closed]
      dsimp only [Read.on]
      split at found
      · rename_i noWord
        cases found
        rw [take?_on_none closed noWord (by decide)]
        rfl
      · rename_i word
        obtain ⟨gap, spaced, found⟩ := bind_ok found
        obtain ⟨notation_, named, found⟩ := bind_ok found
        cases found
        rw [take?_on word]
        dsimp only [Read.on]
        rw [requireBlank_on closed spaced, ok_bind]
        dsimp only [Read.on]
        rw [name_on closed named]
        rfl

theorem parameterMark_of_other (other : ∀ rest, source ≠ '%' :: rest) :
    parameterMark source = .ok ⟨false, source, List.suffix_refl _⟩ := by
  unfold parameterMark
  split
  · exact absurd rfl (other _)
  · rfl

theorem parameterMark_on (closed : Sealed tail) {read : Read source Bool}
    (found : parameterMark source = .ok read) :
    parameterMark (source ++ tail) = .ok (read.on tail) := by
  unfold parameterMark at found
  split at found
  · obtain ⟨gap, spaced, found⟩ := bind_ok found
    cases found
    change (requireBlank (_ ++ tail) >>= _) = _
    rw [requireBlank_on closed spaced]
    rfl
  · rename_i other
    cases found
    exact parameterMark_of_other (closed.other (by decide) other)

theorem entityDeclaration_on (closed : Sealed tail) {table : EntityTable}
    {read : Read source EntityTable} (found : entityDeclaration table source = .ok read) :
    entityDeclaration table (source ++ tail) = .ok (read.on tail) := by
  obtain ⟨gap, spaced, found⟩ := bind_ok found
  obtain ⟨parameter, marked, found⟩ := bind_ok found
  obtain ⟨declared, named, found⟩ := bind_ok found
  obtain ⟨gap', spaced', found⟩ := bind_ok found
  obtain ⟨entity, defined, found⟩ := bind_ok found
  obtain ⟨bracket, ends, found⟩ := bind_ok found
  cases found
  rw [entityDeclaration, requireBlank_on closed spaced, ok_bind, Read.on]
  dsimp only
  rw [parameterMark_on closed marked, ok_bind, Read.on]
  dsimp only
  rw [name_on closed named, ok_bind, Read.on]
  dsimp only
  rw [requireBlank_on closed spaced', ok_bind, Read.on]
  dsimp only
  rw [entityDefinition_on closed defined, ok_bind, Read.on]
  dsimp only
  rw [skipBlanks_on closed, Read.on]
  dsimp only
  have ends : expect ['>'] (skipBlanks entity.rest).rest = .ok bracket := ends
  rw [expect_on ends]
  rfl

theorem skipDeclaration_on (closed : Sealed tail) {whole : Text} {within : source <:+ whole}
    {read : Read whole Unit} (found : skipDeclaration whole source within = .ok read) :
    skipDeclaration (whole ++ tail) (source ++ tail) (suffix_append_right within tail) =
      .ok (read.on tail) := by
  fun_induction skipDeclaration with
  | case1 => cases found
  | case2 c rest _ bracket =>
    cases found
    change skipDeclaration (whole ++ tail) (c :: (rest ++ tail)) _ = _
    rw [skipDeclaration, if_pos bracket]
    rfl
  | case3 c rest within open_ isQuote _ ih =>
    obtain ⟨literal, taken, found⟩ := bind_ok found
    change skipDeclaration (whole ++ tail) (c :: (rest ++ tail)) _ = _
    rw [skipDeclaration, if_neg open_, if_pos isQuote, takeUntil_on taken, ok_bind]
    exact ih _ literal.suffix found
  | case4 c rest within open_ noQuote _ ih =>
    obtain ⟨next, taken, found⟩ := bind_ok found
    change skipDeclaration (whole ++ tail) (c :: (rest ++ tail)) _ = _
    rw [skipDeclaration, if_neg open_, if_neg noQuote, nextChar_on closed taken, ok_bind]
    exact ih _ next.suffix found

theorem subsetItem_on (closed : Sealed tail) {table : EntityTable} {opening : Text}
    {read : Read source EntityTable} (found : subsetItem table opening source = .ok read)
    (opening' : Text) : subsetItem table opening' (source ++ tail) = .ok (read.on tail) := by
  rw [subsetItem_eq] at found ⊢
  split at found
  · rename_i word
    obtain ⟨inner, declared, rfl⟩ := map_ok found
    rw [take?_on word]
    dsimp only [Read.on]
    rw [entityDeclaration_on closed declared]
    rfl
  rename_i noEntity
  rw [take?_on_none closed noEntity (by decide)]
  split at found
  · rename_i opened
    obtain ⟨body, taken, found⟩ := bind_ok found
    cases found
    rw [take?_on opened]
    dsimp only [Read.on]
    rw [takeUntil_on taken]
    rfl
  rename_i noComment
  rw [take?_on_none closed noComment (by decide)]
  split at found
  · rename_i opened
    obtain ⟨body, taken, found⟩ := bind_ok found
    cases found
    rw [take?_on opened]
    dsimp only [Read.on]
    rw [takeUntil_on taken]
    rfl
  rename_i noInstruction
  rw [take?_on_none closed noInstruction (by decide)]
  split at found
  · rename_i opened
    obtain ⟨skipped, passed, found⟩ := bind_ok found
    cases found
    rw [take?_on opened]
    dsimp only [Read.on]
    rw [skipDeclaration_on closed passed]
    rfl
  · cases found

/-- The declarations of an internal subset come to the same, and no expansions are counted. -/
theorem internalSubset_on (closed : Sealed tail) {whole : Text} {table : EntityTable}
    {ledger : Ledger} {within : source <:+ whole} {read : Read whole (EntityTable × Ledger)}
    (found : internalSubset whole table ledger source within = .ok read) (ledger' : Ledger) :
    ∃ after, internalSubset (whole ++ tail) table ledger' (source ++ tail)
        (suffix_append_right within tail) =
          .ok ⟨(read.value.1, after), read.rest ++ tail, suffix_append_right read.suffix tail⟩ ∧
      after.expansions = ledger'.expansions := by
  fun_induction internalSubset generalizing ledger' with
  | case1 => cases found
  | case2 table ledger c rest _ bracket =>
    cases found
    refine ⟨ledger', ?_, rfl⟩
    change internalSubset (whole ++ tail) table ledger' (c :: (rest ++ tail)) _ = _
    rw [internalSubset, if_pos bracket]
    rfl
  | case3 table ledger c rest within open_ percent _ ih =>
    obtain ⟨entity, named, found⟩ := bind_ok found
    obtain ⟨semicolon, ends, found⟩ := bind_ok found
    obtain ⟨after, further, counts⟩ := ih entity.value _ entity.suffix _ semicolon.suffix _
      (skipBlanks semicolon.rest).suffix found
      (ledger'.warn (.parameterEntityIgnored entity.value) (semicolon.rest ++ tail))
    refine ⟨after, ?_, counts⟩
    change internalSubset (whole ++ tail) table ledger' (c :: (rest ++ tail)) _ = _
    rw [internalSubset, if_neg open_, if_pos percent, name_on closed (mapError_ok named),
      withLedger_ok, ok_bind, Read.on]
    dsimp only
    rw [expect_on (mapError_ok ends), withLedger_ok, ok_bind, Read.on]
    dsimp only
    rw [skipBlanks_on closed, Read.on]
    exact further
  | case4 table ledger c rest within open_ noPercent opens _ ih =>
    obtain ⟨item, declared, found⟩ := bind_ok found
    obtain ⟨after, further, counts⟩ := ih _ _ item.suffix _ (skipBlanks item.rest).suffix found
      ledger'
    refine ⟨after, ?_, counts⟩
    change internalSubset (whole ++ tail) table ledger' (c :: (rest ++ tail)) _ = _
    rw [internalSubset, if_neg open_, if_neg noPercent, if_pos opens,
      subsetItem_on closed (mapError_ok declared), withLedger_ok, ok_bind, Read.on]
    dsimp only
    rw [skipBlanks_on closed, Read.on]
    exact further
  | case5 => cases found

theorem optionalSubset_of_other (other : ∀ rest, source ≠ '[' :: rest) (ledger : Ledger) :
    optionalSubset ledger source = .ok ⟨([], ledger), source, List.suffix_refl _⟩ := by
  unfold optionalSubset
  split
  · exact absurd rfl (other _)
  · rfl

theorem optionalSubset_on (closed : Sealed tail) {ledger : Ledger}
    {read : Read source (EntityTable × Ledger)} (found : optionalSubset ledger source = .ok read)
    (ledger' : Ledger) : ∃ after, optionalSubset ledger' (source ++ tail) =
        .ok ⟨(read.value.1, after), read.rest ++ tail, suffix_append_right read.suffix tail⟩ ∧
      after.expansions = ledger'.expansions := by
  unfold optionalSubset at found
  split at found
  · rename_i rest
    obtain ⟨inner, inside, found⟩ := bind_ok found
    cases found
    have inside : internalSubset ('[' :: rest) [] ledger (skipBlanks rest).rest
        ((skipBlanks rest).suffix.trans (List.suffix_cons _ _)) = .ok inner := inside
    obtain ⟨after, further, counts⟩ := internalSubset_on closed inside ledger'
    refine ⟨after, ?_, counts⟩
    change optionalSubset ledger' ('[' :: (rest ++ tail)) = _
    rw [optionalSubset]
    dsimp only
    rw [skipBlanks_on closed, Read.on]
    dsimp only
    refine (congrArg (· >>= _) further).trans ?_
    rw [ok_bind]
    dsimp only
    rw [skipBlanks_on closed]
    rfl
  · rename_i other
    cases found
    exact ⟨ledger', optionalSubset_of_other (closed.other (by decide) other) ledger', rfl⟩

theorem doctype_on (closed : Sealed tail) {ledger : Ledger} {read : Read source Doctype}
    (found : doctype ledger source = .ok read) (ledger' : Ledger) :
    ∃ after, doctype ledger' (source ++ tail) =
        .ok ⟨{ read.value with ledger := after }, read.rest ++ tail,
          suffix_append_right read.suffix tail⟩ ∧
      after.expansions = ledger'.expansions := by
  obtain ⟨gap, spaced, found⟩ := bind_ok found
  obtain ⟨declared, named, found⟩ := bind_ok found
  obtain ⟨identifiers, identified, found⟩ := bind_ok found
  obtain ⟨subset, listed, found⟩ := bind_ok found
  obtain ⟨bracket, ends, found⟩ := bind_ok found
  cases found
  have identified : externalId (skipBlanks declared.rest).rest = .ok identifiers :=
    mapError_ok identified
  have identified' : externalId ((skipBlanks declared.rest).rest ++ tail) =
      .ok ⟨identifiers.value, identifiers.rest ++ tail,
        suffix_append_right identifiers.suffix tail⟩ := externalId_on closed identified
  have listed : optionalSubset ledger (skipBlanks identifiers.rest).rest = .ok subset := listed
  obtain ⟨after, further, counts⟩ := optionalSubset_on closed listed ledger'
  refine ⟨after, ?_, counts⟩
  rw [doctype, requireBlank_on closed (mapError_ok spaced), withLedger_ok, ok_bind, Read.on]
  dsimp only
  rw [name_on closed (mapError_ok named), withLedger_ok, ok_bind, Read.on]
  dsimp only
  rw [skipBlanks_on closed, Read.on]
  dsimp only
  rw [identified', withLedger_ok, ok_bind]
  dsimp only
  rw [skipBlanks_on closed, Read.on]
  dsimp only
  rw [further, ok_bind]
  dsimp only
  rw [expect_on (mapError_ok ends), withLedger_ok, ok_bind]
  rfl

theorem set_on {fields result : DeclarationFields} {key value rest : Text}
    (found : fields.set key value rest = .ok result) (rest' : Text) :
    fields.set key value rest' = .ok result := by
  unfold DeclarationFields.set at found ⊢
  split at found
  · rename_i version
    rwa [if_pos version]
  · rename_i noVersion
    rw [if_neg noVersion]
    split at found
    · rename_i encoding
      rwa [if_pos encoding]
    · rename_i noEncoding
      rw [if_neg noEncoding]
      split at found
      · rename_i standalone
        rw [if_pos standalone]
        split at found
        · rename_i yes
          rwa [if_pos yes]
        · rename_i noYes
          rw [if_neg noYes]
          split at found
          · rename_i no
            rwa [if_pos no]
          · cases found
      · cases found

theorem declaration_on (closed : Sealed tail) {whole : Text} {fields : DeclarationFields}
    {spaced : Bool} {within : source <:+ whole} {read : Read whole Declaration}
    (found : declaration whole fields spaced source within = .ok read) :
    declaration (whole ++ tail) fields spaced (source ++ tail) (suffix_append_right within tail) =
      .ok (read.on tail) := by
  fun_induction declaration with
  | case1 => cases found
  | case2 =>
    rename_i taken _ version
    cases found
    rw [declaration.eq_def, take?_on taken]
    dsimp only
    rw [version]
    rfl
  | case3 => cases found
  | case4 => cases found
  | case5 =>
    rename_i fields spaced gap first others _ within absent ih
    obtain ⟨key, named, found⟩ := bind_ok found
    obtain ⟨sign, equals, found⟩ := bind_ok found
    obtain ⟨value, valued, found⟩ := bind_ok found
    obtain ⟨set, fits, found⟩ := bind_ok found
    have equals' : expect ['='] ((skipBlanks key.rest).rest ++ tail) =
        .ok ⟨(), sign.rest ++ tail, suffix_append_right sign.suffix tail⟩ := expect_on equals
    have valued' : quoted ((skipBlanks sign.rest).rest ++ tail) =
        .ok ⟨value.value, value.rest ++ tail, suffix_append_right value.suffix tail⟩ :=
      quoted_on valued
    have further := ih _ key.suffix _ (skipBlanks key.rest).suffix _ sign.suffix _
      (skipBlanks sign.rest).suffix _ value.suffix set _ _ (skipBlanks value.rest).suffix found
    have absent' := take?_on_none closed absent (by decide)
    change declaration (whole ++ tail) fields spaced (first :: (others ++ tail)) _ = _
    rw [List.cons_append] at absent'
    rw [declaration.eq_def, absent']
    dsimp only
    rw [if_neg gap, nameFrom_on closed named, ok_bind, Read.on]
    dsimp only
    rw [skipBlanks_on closed, Read.on]
    dsimp only
    rw [equals', ok_bind]
    dsimp only
    rw [skipBlanks_on closed, Read.on]
    dsimp only
    rw [valued', ok_bind]
    dsimp only
    rw [set_on fits, ok_bind, skipBlanks_on closed]
    exact further

/-- No declaration begins where a text goes on with the start tag of an element. -/
theorem take?_xml_on (closed : Sealed tail) (absent : take? "<?xml".toList source = none) :
    take? "<?xml".toList (source ++ tail) = none := by
  refine take?_of_ne_append fun rest same => ?_
  cases source with
  | nil =>
    cases closed with
    | nil => cases same
    | quote isQuote =>
      cases same
      cases isQuote
    | tag start =>
      cases same
      cases start
  | cons c source =>
    have parts : c :: (source ++ tail) = '<' :: ("?xml".toList ++ rest) := same
    rw [List.cons.injEq] at parts
    obtain ⟨rfl, behind⟩ := parts
    have noWord : take? "?xml".toList source = none := by
      refine take?_of_ne_append fun rest here => ?_
      rw [here] at absent
      cases absent.symm.trans (take?_append "<?xml".toList rest)
    have other : take? "?xml".toList (source ++ tail) = none :=
      take?_on_none closed noWord (by decide)
    rw [behind] at other
    cases other.symm.trans (take?_append "?xml".toList rest)

theorem optionalDeclaration_on (closed : Sealed tail) {read : Read source (Option Declaration)}
    (found : optionalDeclaration source = .ok read) :
    optionalDeclaration (source ++ tail) = .ok (read.on tail) := by
  unfold optionalDeclaration at found ⊢
  split at found
  · rename_i rest opened taken
    rw [take?_on taken]
    dsimp only [Read.on] at found ⊢
    rw [spaced_on closed]
    split at found
    · rename_i spaced
      obtain ⟨declared, inside, found⟩ := bind_ok found
      cases found
      rw [if_pos spaced, skipBlanks_on closed, Read.on]
      have inside' := declaration_on closed inside
      exact congrArg (· >>= _) inside'
    · rename_i unspaced
      cases found
      exact if_neg unspaced
  · rename_i absent
    cases found
    rw [take?_xml_on closed absent]
    rfl

end Declarations

end Markup

end XmlSelect
