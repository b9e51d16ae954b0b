import XmlSelect.Proofs.DeclarationText
import XmlSelect.Proofs.ExternalEntities

/-! How the general entities of a document are written. Each stands in a declaration with its name
and what it stands for: a literal, the system identifier behind `SYSTEM`, or the public and then the
system identifier behind `PUBLIC`. -/
namespace XmlSelect.Markup

/-- Blanks, of which there is one at least. -/
structure IsGap (gap : Text) : Prop where
  nonempty : gap ≠ []
  blank : ∀ c ∈ gap, isBlank c = true

/-- The value of a literal and the literal as it stands in a text: the quotes around it are not
inside, and its line ends may be of either kind. -/
inductive LiteralAs : Text → Text → Prop
  | quoted {quote : Char} {literal : Text} (quotes : isQuote quote = true)
      (held : XmlText literal) (unquoted : quote ∉ literal) :
      LiteralAs (joinLineEnds literal) (quote :: (literal ++ [quote]))

/-- What an entity is declared to be, as it stands in a text. -/
inductive Entity.DefinedAs : Entity → Text → Prop
  | literal {value written : Text} (literal : LiteralAs value written) :
      DefinedAs (.internal value) written
  | system {gap system written : Text} (spaced : IsGap gap) (literal : LiteralAs system written) :
      DefinedAs (.external system none) ("SYSTEM".toList ++ (gap ++ written))
  | publicAndSystem {gap publicId first between system second : Text} (spaced : IsGap gap)
      (publicLiteral : LiteralAs publicId first) (apart : IsGap between)
      (systemLiteral : LiteralAs system second) :
      DefinedAs (.external system (some publicId))
        ("PUBLIC".toList ++ (gap ++ (first ++ (between ++ second))))

/-- What may stand behind the identifiers of an entity: blanks, and the name of a format. -/
inductive FormatAs : Text → Prop
  | none {blanks : Text} (blank : ∀ c ∈ blanks, isBlank c = true) : FormatAs blanks
  | named {blanks gap name : Text} (blank : ∀ c ∈ blanks, isBlank c = true) (spaced : IsGap gap)
      (valid : IsName name) : FormatAs (blanks ++ ("NDATA".toList ++ (gap ++ name)))

/-- The declaration of a general entity as it stands in a text. -/
inductive Entity.DeclaredAs : Text → Entity → Text → Prop
  | general {gap name between definition format blanks : Text} {entity : Entity}
      (spaced : IsGap gap) (named : IsName name) (apart : IsGap between)
      (defined : entity.DefinedAs definition) (formatted : FormatAs format)
      (blank : ∀ c ∈ blanks, isBlank c = true) :
      DeclaredAs name entity ("<!ENTITY".toList ++
        (gap ++ (name ++ (between ++ (definition ++ (format ++ (blanks ++ ['>'])))))))

/-- A text has the declaration of an entity in it. -/
def DeclaresIn (source : Text) (entry : Text × Entity) : Prop :=
  ∃ written, written <:+: source ∧ entry.2.DeclaredAs entry.1 written

theorem DeclaresIn.of_suffix {source whole : Text} {entry : Text × Entity}
    (declared : DeclaresIn source entry) (suffix : source <:+ whole) : DeclaresIn whole entry := by
  obtain ⟨written, inside, declared⟩ := declared
  exact ⟨written, inside.trans suffix.isInfix, declared⟩

/-- What is next and what is next behind it are next together. -/
private theorem append_next {source middle rest front back : Text}
    (first : source = front ++ middle) (second : middle = back ++ rest) :
    source = front ++ back ++ rest := by
  rw [first, second, List.append_assoc]

section Definitions

variable {source : Text}

theorem requireBlank_text {read : Read source Unit} (required : requireBlank source = .ok read) :
    ∃ gap, source = gap ++ read.rest ∧ IsGap gap := by
  obtain ⟨gap, split, blank, some⟩ := skipBlanks_text source
  simp only [requireBlank] at required
  split at required
  · rename_i spaced
    cases required
    refine ⟨gap, split, fun none => ?_, blank⟩
    rw [some, none] at spaced
    cases spaced
  · cases required

theorem quoted_literalAs {read : Read source Text} (taken : quoted source = .ok read) :
    ∃ written, source = written ++ read.rest ∧ LiteralAs read.value written := by
  obtain ⟨quote, literal, split, quotes, held, unquoted, same⟩ := quoted_text taken
  rw [same]
  exact ⟨_, split, .quoted quotes held unquoted⟩

/-- Of the literals behind `PUBLIC` the first is the public identifier and the second the system
identifier; behind `SYSTEM` stands the system identifier alone. -/
theorem externalId_definedAs {read : Read source (Option (Text × Option Text))}
    {system : Text} {publicId : Option Text} (identified : externalId source = .ok read)
    (value : read.value = some (system, publicId)) :
    ∃ written, source = written ++ read.rest ∧
      (Entity.external system publicId).DefinedAs written := by
  unfold externalId at identified
  split at identified
  · rename_i found
    obtain ⟨blanks, required, identified⟩ := bind_ok identified
    obtain ⟨literal, taken, identified⟩ := bind_ok identified
    cases identified
    cases value
    obtain ⟨gap, split₁, spaced⟩ := requireBlank_text required
    obtain ⟨written, split₂, literal⟩ := quoted_literalAs taken
    exact ⟨_, append_next (take?_eq_some found) (append_next split₁ split₂),
      .system spaced literal⟩
  · split at identified
    · rename_i found
      obtain ⟨blanks, required₁, identified⟩ := bind_ok identified
      obtain ⟨publicLiteral, taken₁, identified⟩ := bind_ok identified
      obtain ⟨between, required₂, identified⟩ := bind_ok identified
      obtain ⟨systemLiteral, taken₂, identified⟩ := bind_ok identified
      cases identified
      cases value
      obtain ⟨gap, split₁, spaced⟩ := requireBlank_text required₁
      obtain ⟨first, split₂, publicLiteral⟩ := quoted_literalAs taken₁
      obtain ⟨between, split₃, apart⟩ := requireBlank_text required₂
      obtain ⟨second, split₄, systemLiteral⟩ := quoted_literalAs taken₂
      exact ⟨_, append_next (take?_eq_some found)
        (append_next split₁ (append_next split₂ (append_next split₃ split₄))),
        .publicAndSystem spaced publicLiteral apart systemLiteral⟩
    · cases identified
      cases value

theorem entityDefinition_definedAs {declared : Text} {read : Read source Entity}
    (defined : entityDefinition declared source = .ok read) :
    ∃ definition format, source = definition ++ format ++ read.rest ∧
      read.value.DefinedAs definition ∧ FormatAs format := by
  unfold entityDefinition at defined
  split at defined
  · obtain ⟨literal, taken, defined⟩ := bind_ok defined
    cases defined
    obtain ⟨written, split, literal⟩ := quoted_literalAs taken
    exact ⟨written, [], append_next split rfl, .literal literal, .none nofun⟩
  · obtain ⟨identifiers, identified, defined⟩ := bind_ok defined
    dsimp only at defined
    split at defined
    · cases defined
    · rename_i value
      obtain ⟨written, split₁, identifiers⟩ := externalId_definedAs identified value
      obtain ⟨blanks, split₂, blank, -⟩ := skipBlanks_text _
      split at defined
      · cases defined
        exact ⟨written, blanks, append_next split₁ split₂, identifiers, .none blank⟩
      · rename_i found
        obtain ⟨gap, required, defined⟩ := bind_ok defined
        obtain ⟨format, named, defined⟩ := bind_ok defined
        cases defined
        obtain ⟨gap, split₃, spaced⟩ := requireBlank_text required
        obtain ⟨valid, split₄⟩ := name_ok named
        exact ⟨written, _, append_next split₁ (append_next split₂
          (append_next (take?_eq_some found) (append_next split₃ split₄))), identifiers,
          .named blank spaced valid⟩

end Definitions

section Declarations

variable {source : Text} {entry : Text × Entity}

theorem parameterMark_general {read : Read source Bool} (marked : parameterMark source = .ok read)
    (general : read.value = false) : read.rest = source := by
  unfold parameterMark at marked
  split at marked
  · obtain ⟨_, -, marked⟩ := bind_ok marked
    cases marked
    cases general
  · cases marked
    rfl

theorem entityDeclaration_declaredAs {read : Read source EntityTable}
    (declared : entityDeclaration [] source = .ok read) (member : entry ∈ read.value) :
    ∃ written, source = written ++ read.rest ∧
      entry.2.DeclaredAs entry.1 ("<!ENTITY".toList ++ written) := by
  obtain ⟨first, required₁, declared⟩ := bind_ok declared
  obtain ⟨parameter, marked, declared⟩ := bind_ok declared
  obtain ⟨name, named, declared⟩ := bind_ok declared
  obtain ⟨between, required₂, declared⟩ := bind_ok declared
  obtain ⟨entity, defined, declared⟩ := bind_ok declared
  obtain ⟨closed, ended, declared⟩ := bind_ok declared
  cases declared
  dsimp only at member
  split at member
  · cases member
  · rename_i general
    obtain rfl := List.mem_singleton.mp member
    have unmarked := parameterMark_general marked (Bool.not_eq_true _ ▸ general)
    obtain ⟨gap, split₁, spaced⟩ := requireBlank_text required₁
    obtain ⟨valid, split₂⟩ := name_ok named
    obtain ⟨gap', split₃, apart⟩ := requireBlank_text required₂
    obtain ⟨definition, format, split₄, defined, formatted⟩ := entityDefinition_definedAs defined
    obtain ⟨blanks, split₅, blank, -⟩ := skipBlanks_text entity.rest
    have split₆ := expect_ok ended
    refine ⟨_, append_next split₁ (append_next (unmarked.symm.trans split₂) (append_next split₃
      (append_next split₄ (append_next split₅ split₆)))), ?_⟩
    rw [List.append_assoc definition]
    exact .general spaced valid apart defined formatted blank

theorem subsetItem_declaresIn {opening : Text} {read : Read source EntityTable}
    (item : subsetItem [] opening source = .ok read) (member : entry ∈ read.value) :
    DeclaresIn ('<' :: source) entry := by
  unfold subsetItem at item
  split at item
  · rename_i found
    obtain ⟨inner, declared, rfl⟩ := map_ok item
    obtain ⟨written, split, declared⟩ := entityDeclaration_declaredAs declared member
    have whole := append_next (take?_eq_some found) split
    exact ⟨_, ⟨[], inner.rest, (congrArg ('<' :: ·) whole).symm⟩, declared⟩
  · split at item
    · obtain ⟨_, -, item⟩ := bind_ok item
      cases item
      cases member
    · obtain ⟨_, -, item⟩ := bind_ok item
      cases item
      cases member
    · obtain ⟨_, -, item⟩ := bind_ok item
      cases item
      cases member
    · cases item

theorem subsetEntities?_declaresIn {entities : List (Text × Entity)}
    (listed : subsetEntities? source = some entities) (member : entry ∈ entities) :
    DeclaresIn source entry := by
  fun_induction subsetEntities? source generalizing entities with
  | case1 =>
    cases listed
    cases member
  | case2 rest ih =>
    obtain ⟨named, -, listed⟩ := Option.bind_eq_some_iff.mp listed
    obtain ⟨closed, -, listed⟩ := Option.bind_eq_some_iff.mp listed
    have inside := (skipBlanks closed.rest).suffix.trans (closed.suffix.trans named.suffix)
    exact (ih _ _ listed member).of_suffix (inside.trans (List.suffix_cons _ _))
  | case3 rest ih =>
    obtain ⟨item, read, listed⟩ := Option.bind_eq_some_iff.mp listed
    obtain ⟨others, further, listed⟩ := Option.bind_eq_some_iff.mp listed
    cases listed
    rcases List.mem_append.mp member with here | later
    · exact subsetItem_declaresIn (ok_of_toOption read) here
    · have inside := (skipBlanks item.rest).suffix.trans item.suffix
      exact (ih _ further later).of_suffix (inside.trans (List.suffix_cons _ _))
  | case4 => cases listed

theorem doctypeEntities?_declaresIn {entities : List (Text × Entity)}
    (listed : doctypeEntities? source = some entities) (member : entry ∈ entities) :
    DeclaresIn source entry := by
  obtain ⟨blank, -, listed⟩ := Option.bind_eq_some_iff.mp listed
  obtain ⟨named, -, listed⟩ := Option.bind_eq_some_iff.mp listed
  obtain ⟨identified, -, listed⟩ := Option.bind_eq_some_iff.mp listed
  have behind : (skipBlanks identified.rest).rest <:+ source :=
    (skipBlanks _).suffix.trans (identified.suffix.trans ((skipBlanks _).suffix.trans
      (named.suffix.trans blank.suffix)))
  refine DeclaresIn.of_suffix ?_ behind
  unfold optionalEntities? at listed
  split at listed
  · rename_i rest same
    have inside := (skipBlanks rest).suffix.trans (List.suffix_cons '[' rest)
    exact same ▸ (subsetEntities?_declaresIn listed member).of_suffix inside
  · cases listed
    cases member

theorem topEntities?_declaresIn {entities : List (Text × Entity)}
    (listed : topEntities? source = some entities) (member : entry ∈ entities) :
    DeclaresIn source entry := by
  fun_induction topEntities? source generalizing entities with
  | case1 rest result found ih =>
    obtain ⟨leaf, -, listed⟩ := Option.bind_eq_some_iff.mp listed
    have inside := (skipBlanks leaf.rest).suffix.trans leaf.suffix
    exact (ih _ listed member).of_suffix (inside.trans (List.suffix_cons _ _))
  | case2 rest =>
    obtain ⟨word, -, listed⟩ := Option.bind_eq_some_iff.mp listed
    exact (doctypeEntities?_declaresIn listed member).of_suffix
      (word.suffix.trans (List.suffix_cons _ _))
  | case3 => cases listed

/-- What a name is declared first stands in the document as a declaration of that name. -/
theorem firstDeclared?_declaresIn {name : Text} {entity : Entity}
    (first : firstDeclared? source name = some entity) : DeclaresIn source (name, entity) := by
  obtain ⟨entities, listed, found⟩ := Option.bind_eq_some_iff.mp first
  obtain ⟨declared, -, listed⟩ := Option.bind_eq_some_iff.mp listed
  have behind := (skipBlanks declared.rest).suffix.trans declared.suffix
  exact (topEntities?_declaresIn listed (mem_of_lookup found)).of_suffix
    (behind.trans (withoutMark_suffix source))

end Declarations

end XmlSelect.Markup
