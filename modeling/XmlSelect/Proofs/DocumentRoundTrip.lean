import XmlSelect.Proofs.ContentRoundTrip
import XmlSelect.Proofs.LineEndContent

/-! The nodes at the top of a document: comments and instructions, at most one document type
declaration, and exactly one element, which comes behind it. Every document that was read has them
in this order, and what is written for them is read back if no identifier holds the quote that is
written around it. -/
namespace XmlSelect

/-- Whether a node is a document type declaration. -/
def Leaf.isDoctype : Leaf → Bool
  | .doctype .. => true
  | _ => false

/-- The document type declarations among siblings. -/
def Forest.doctypes : Forest → List Leaf
  | .nil => []
  | .leaf first rest => if first.isDoctype then first :: rest.doctypes else rest.doctypes
  | .element _ _ _ rest => rest.doctypes

theorem Leaf.InContent.isDoctype {leaf : Leaf} (proper : leaf.InContent) :
    leaf.isDoctype = false := by
  cases leaf with
  | doctype => cases proper
  | _ => rfl

namespace Markup

/-- A document type declaration as documents may have it. A public identifier comes with a system
identifier. -/
structure WellFormedDoctype (name : Text) (systemId publicId : Option Text) : Prop where
  named : IsName name
  system : ∀ literal ∈ systemId, XmlText literal
  public_ : ∀ literal ∈ publicId, XmlText literal
  paired : systemId = none → publicId = none

/-- Siblings as they stand at the top of a document from some place on. `declared` and `rooted` tell
whether a document type declaration and the element stand in front of that place. -/
inductive Topmost (wanted : Leaf → Prop) (limit : Nat) :
    (declared rooted : Bool) → Forest → Prop
  | nil {declared : Bool} : Topmost wanted limit declared true .nil
  | leaf {declared rooted : Bool} {first : Leaf} {rest : Forest} (fits : wanted first)
      (markup : first.isText = false) (plain : first.isDoctype = false)
      (behind : Topmost wanted limit declared rooted rest) :
      Topmost wanted limit declared rooted (.leaf first rest)
  | doctype {name : Text} {systemId publicId : Option Text} {rest : Forest}
      (proper : WellFormedDoctype name systemId publicId)
      (behind : Topmost wanted limit true false rest) :
      Topmost wanted limit false false (.leaf (.doctype name systemId publicId) rest)
  | element {declared : Bool} {name : Text} {attributes : List Attribute} {content rest : Forest}
      (normal : Element.Normal wanted limit ⟨name, attributes, content⟩)
      (behind : Topmost wanted limit declared true rest) :
      Topmost wanted limit declared false (.element name attributes content rest)

theorem Topmost.imp {wanted weaker : Leaf → Prop} {limit : Nat} {declared rooted : Bool}
    {forest : Forest} (each : ∀ leaf, wanted leaf → weaker leaf)
    (top : Topmost wanted limit declared rooted forest) :
    Topmost weaker limit declared rooted forest := by
  induction top with
  | nil => exact .nil
  | leaf fits markup plain _ ih => exact .leaf (each _ fits) markup plain ih
  | doctype proper _ ih => exact .doctype proper ih
  | element normal _ ih =>
    exact .element ⟨normal.tag, normal.content.imp each, normal.height⟩ ih

section WasRead

variable {options : Options} {wanted : Leaf → Prop} {held : Char → Prop}

theorem externalId_xml {source : Text} {read : Read source (Option (Text × Option Text))}
    (identified : externalId source = .ok read) :
    ∀ ids ∈ read.value, XmlText ids.1 ∧ ∀ publicId ∈ ids.2, XmlText publicId := by
  unfold externalId at identified
  split at identified
  · obtain ⟨blanks, -, identified⟩ := bind_ok identified
    obtain ⟨system, taken, identified⟩ := bind_ok identified
    cases identified
    rintro _ ⟨⟩
    exact ⟨quoted_xml taken, fun _ member => absurd member (Option.not_mem_none _)⟩
  · split at identified
    · obtain ⟨blanks, -, identified⟩ := bind_ok identified
      obtain ⟨publicId, first, identified⟩ := bind_ok identified
      obtain ⟨gap, -, identified⟩ := bind_ok identified
      obtain ⟨system, second, identified⟩ := bind_ok identified
      cases identified
      rintro _ ⟨⟩
      exact ⟨quoted_xml second, fun _ same => by cases same; exact quoted_xml first⟩
    · cases identified
      exact fun _ member => absurd member (Option.not_mem_none _)

theorem doctype_wellFormed {ledger : Ledger} {source : Text} {read : Read source Doctype}
    (declared : doctype ledger source = .ok read) :
    ∃ name systemId publicId, read.value.leaf = .doctype name systemId publicId ∧
      WellFormedDoctype name systemId publicId := by
  obtain ⟨blanks, -, declared⟩ := bind_ok declared
  obtain ⟨target, named, declared⟩ := bind_ok declared
  obtain ⟨identifiers, identified, declared⟩ := bind_ok declared
  obtain ⟨subset, -, declared⟩ := bind_ok declared
  obtain ⟨closed, -, declared⟩ := bind_ok declared
  cases declared
  have each := externalId_xml (mapError_ok identified)
  have named := (name_ok (mapError_ok named)).1
  refine ⟨_, _, _, rfl, ?_⟩
  cases found : identifiers.value with
  | none => exact ⟨named, nofun, nofun, fun _ => rfl⟩
  | some ids =>
    obtain ⟨system, publicId⟩ := each ids found
    exact ⟨named, fun _ same => by cases same; exact system, publicId, nofun⟩

theorem isText_of_commentOrInstruction? {source : Text} {read : Read source Leaf}
    (found : commentOrInstruction? source = some (.ok read)) : read.value.isText = false := by
  unfold commentOrInstruction? at found
  split at found
  · obtain ⟨inner, taken, rfl⟩ := map_ok (Option.some.inj found)
    obtain ⟨body, -, taken⟩ := bind_ok taken
    dsimp only at taken
    split at taken
    · cases taken
    · cases taken
      rfl
  · obtain ⟨inner, taken, rfl⟩ := map_ok (Option.some.inj found)
    obtain ⟨target, -, taken⟩ := bind_ok taken
    dsimp only at taken
    split at taken
    · cases taken
    · split at taken
      · cases taken
        rfl
      · obtain ⟨blanks, -, taken⟩ := bind_ok taken
        obtain ⟨body, -, taken⟩ := bind_ok taken
        cases taken
        rfl
  · cases found

/-- What the steps at the top of a document put together is in order. -/
theorem topmost_of_steps {whole : Text} {progress last : Progress}
    (steps : Relation.ReflTransGen (TopStep options whole) progress last)
    (seen : last.seenRoot = true) (yields : options.Yields held)
    (texts : ∀ {text}, text ≠ [] → (∀ c ∈ text, held c) → wanted (.text text))
    (leaves : ∀ {leaf : Leaf}, leaf.ReadFrom whole → wanted leaf)
    (table : progress.table.Plain) :
    ∃ forest, last.before = forest.reverseOnto progress.before ∧
      Topmost wanted options.maxDepth progress.seenDoctype progress.seenRoot forest := by
  induction steps using Relation.ReflTransGen.head_induction_on with
  | refl => exact ⟨.nil, rfl, seen ▸ .nil⟩
  | head step _ ih =>
    cases step with
    | leaf here found =>
      have read := (commentOrInstruction?_ok found).of_suffix here
      obtain ⟨forest, together, top⟩ := ih table
      exact ⟨_, together, .leaf (leaves read) (isText_of_commentOrInstruction? found)
        read.proper.isDoctype top⟩
    | doctype first above found =>
      obtain ⟨forest, together, top⟩ := ih (doctype_plain found)
      obtain ⟨name, systemId, publicId, here, proper⟩ := doctype_wellFormed found
      refine ⟨.leaf (.doctype name systemId publicId) forest, here ▸ together, ?_⟩
      rw [first, above]
      exact .doctype proper (above ▸ top)
    | root here first found =>
      obtain ⟨forest, together, top⟩ := ih table
      have element := rootElement_normal found here table yields texts leaves
      refine ⟨.element _ _ _ forest, together, ?_⟩
      rw [first]
      exact .element ⟨element.tag, element.children, rootElement_height found⟩ top

/-- The nodes at the top of a document that was read are in order. -/
theorem parse_topmost_of_yields {source : Text} {reading : Reading}
    (read : parse options source = .ok reading) (yields : options.Yields held)
    (texts : ∀ {text}, text ≠ [] → (∀ c ∈ text, held c) → wanted (.text text))
    (leaves : ∀ {leaf : Leaf}, leaf.ReadFrom source → wanted leaf) :
    Topmost wanted options.maxDepth false false reading.document.content := by
  obtain ⟨progress, steps, seen, content⟩ := parse_steps read
  obtain ⟨forest, together, top⟩ :=
    topmost_of_steps steps seen yields texts leaves EntityTable.plain_nil
  rw [content, together]
  exact forest.reverse_reverse.symm ▸ top

theorem parse_topmost {source : Text} {reading : Reading}
    (read : parse options source = .ok reading) (resolves : options.ResolvesPlain)
    (texts : ∀ {text}, text ≠ [] → XmlText text → wanted (.text text))
    (leaves : ∀ {leaf : Leaf}, leaf.ReadFrom source → wanted leaf) :
    Topmost wanted options.maxDepth false false reading.document.content :=
  parse_topmost_of_yields read resolves.yields texts leaves

end WasRead

section Written

variable {options : Options}

/-- A literal is read back from between quotes that it does not hold, its line ends joined. -/
theorem takes_quoted {quote : Char} (quotes : isQuote quote = true) {literal : Text}
    (held : XmlText literal) (unquoted : quote ∉ literal) (tail : Text) :
    Takes quoted (quote :: literal ++ [quote]) tail (joinLineEnds literal) := by
  intro source text
  have absent : ¬[quote] <:+: literal := fun inside => unquoted (inside.subset List.mem_cons_self)
  obtain ⟨suffix, taken⟩ := takes_takeUntil [quote] [] quote rfl List.not_mem_nil absent held
    .literal tail (literal ++ [quote] ++ tail) rfl
  obtain rfl : source = quote :: (literal ++ [quote] ++ tail) := text
  refine ⟨suffix.trans (List.suffix_cons _ _), ?_⟩
  rw [quoted, if_pos quotes, taken]
  rfl

theorem requireBlank_space {c : Char} (other : isBlank c = false) (rest : Text) :
    requireBlank (' ' :: c :: rest) = .ok ⟨(), c :: rest, List.suffix_cons _ _⟩ := by
  rw [requireBlank, skipBlanks_space other]
  rfl

theorem takes_system {system : Text} (held : XmlText system) (unquoted : '"' ∉ system)
    (tail : Text) :
    Takes externalId ("SYSTEM".toList ++ ' ' :: '"' :: system ++ ['"']) tail
      (some (joinLineEnds system, none)) := by
  intro source text
  have spaced := requireBlank_space (c := '"') (by decide) (system ++ ['"'] ++ tail)
  obtain ⟨suffix, taken⟩ := takes_quoted (by decide) held unquoted tail _ rfl
  obtain rfl : source = "SYSTEM".toList ++ (' ' :: '"' :: (system ++ ['"'] ++ tail)) := by
    rw [text]
    simp
  refine ⟨suffix.trans ((List.suffix_cons ' ' _).trans (List.suffix_append _ _)), ?_⟩
  rw [externalId, take?_append]
  dsimp only
  rw [spaced, ok_bind]
  dsimp only
  exact bind_of_ok taken rfl

theorem takes_public {system publicId : Text} (held : XmlText system) (unquoted : '"' ∉ system)
    (heldPublic : XmlText publicId) (unquotedPublic : '"' ∉ publicId) (tail : Text) :
    Takes externalId ("PUBLIC".toList ++ ' ' :: '"' :: publicId ++ ['"'] ++
        ' ' :: '"' :: system ++ ['"']) tail
      (some (joinLineEnds system, some (joinLineEnds publicId))) := by
  intro source text
  have gap := requireBlank_space (c := '"') (by decide) (system ++ ['"'] ++ tail)
  have spaced := requireBlank_space (c := '"') (by decide)
    (publicId ++ ['"'] ++ ' ' :: '"' :: (system ++ ['"'] ++ tail))
  obtain ⟨behind, first⟩ := takes_quoted (by decide) heldPublic unquotedPublic
    (' ' :: '"' :: (system ++ ['"'] ++ tail)) _ rfl
  obtain ⟨suffix, second⟩ := takes_quoted (by decide) held unquoted tail _ rfl
  obtain rfl : source = "PUBLIC".toList ++
      (' ' :: '"' :: (publicId ++ ['"'] ++ ' ' :: '"' :: (system ++ ['"'] ++ tail))) := by
    rw [text]
    simp
  refine ⟨suffix.trans ((List.suffix_cons ' ' _).trans
    (behind.trans ((List.suffix_cons ' ' _).trans (List.suffix_append _ _)))), ?_⟩
  have other : take? "SYSTEM".toList ("PUBLIC".toList ++
      (' ' :: '"' :: (publicId ++ ['"'] ++ ' ' :: '"' :: (system ++ ['"'] ++ tail)))) = none :=
    take?_cons_of_ne (by decide) _ _
  rw [externalId, other]
  dsimp only
  rw [take?_append]
  dsimp only
  rw [spaced, ok_bind]
  dsimp only
  refine bind_of_ok first ?_
  dsimp only
  rw [gap, ok_bind]
  dsimp only
  exact bind_of_ok second rfl

/-- The identifiers of a document type declaration are read back with the blank in front of them. -/
theorem externalId_printed {systemId publicId : Option Text}
    (system : ∀ literal ∈ systemId, XmlText literal ∧ '"' ∉ literal)
    (public_ : ∀ literal ∈ publicId, XmlText literal ∧ '"' ∉ literal)
    (paired : systemId = none → publicId = none) (tail : Text) :
    ∃ suffix, externalId (skipBlanks (printIdentifiers systemId publicId ++ '>' :: tail)).rest =
      .ok ⟨systemId.map fun system => (joinLineEnds system, publicId.map joinLineEnds),
        '>' :: tail, suffix⟩ := by
  cases systemId with
  | none =>
    obtain rfl := paired rfl
    exact ⟨List.suffix_refl _, rfl⟩
  | some literal =>
    obtain ⟨held, unquoted⟩ := system literal rfl
    cases publicId with
    | none =>
      have written : printIdentifiers (some literal) none =
          ' ' :: 'S' :: ("YSTEM".toList ++ [' ', '"'] ++ literal ++ ['"']) := rfl
      have word : "SYSTEM".toList = 'S' :: "YSTEM".toList := rfl
      have text : (skipBlanks (printIdentifiers (some literal) none ++ '>' :: tail)).rest =
          "SYSTEM".toList ++ ' ' :: '"' :: literal ++ ['"'] ++ '>' :: tail := by
        rw [written, word, List.cons_append, List.cons_append, skipBlanks_space (by decide)]
        simp
      rw [text]
      exact takes_system held unquoted ('>' :: tail) _ rfl
    | some publicId =>
      obtain ⟨heldPublic, unquotedPublic⟩ := public_ publicId rfl
      have written : printIdentifiers (some literal) (some publicId) =
          ' ' :: 'P' :: ("UBLIC".toList ++ [' ', '"'] ++ publicId ++ ['"', ' ', '"'] ++ literal ++
            ['"']) := rfl
      have word : "PUBLIC".toList = 'P' :: "UBLIC".toList := rfl
      have text :
          (skipBlanks (printIdentifiers (some literal) (some publicId) ++ '>' :: tail)).rest =
            "PUBLIC".toList ++ ' ' :: '"' :: publicId ++ ['"'] ++ ' ' :: '"' :: literal ++ ['"'] ++
              '>' :: tail := by
        rw [written, word, List.cons_append, List.cons_append, skipBlanks_space (by decide)]
        simp
      rw [text]
      exact takes_public held unquoted heldPublic unquotedPublic ('>' :: tail) _ rfl

theorem printLeaf_doctype (name : Text) (systemId publicId : Option Text) :
    printLeaf (.doctype name systemId publicId) =
      '<' :: ("!DOCTYPE".toList ++
        ' ' :: (name ++ printIdentifiers systemId publicId ++ ['>'])) := by
  have opening : "<!DOCTYPE ".toList = '<' :: ("!DOCTYPE".toList ++ [' ']) := rfl
  have written : printLeaf (.doctype name systemId publicId) =
      "<!DOCTYPE ".toList ++ name ++ printIdentifiers systemId publicId ++ ['>'] := rfl
  rw [written, opening]
  simp

/-- A document type declaration without a subset is read back. -/
theorem takes_doctype {name : Text} {systemId publicId : Option Text}
    (proper : WellFormedDoctype name systemId publicId)
    (system : ∀ literal ∈ systemId, '"' ∉ literal)
    (public_ : ∀ literal ∈ publicId, '"' ∉ literal) (ledger : Ledger) (tail : Text) :
    Takes (doctype ledger) (' ' :: (name ++ printIdentifiers systemId publicId ++ ['>'])) tail
      ⟨(Leaf.doctype name systemId publicId).joined, [], ledger⟩ := by
  intro source text
  obtain ⟨behind, identified⟩ := externalId_printed
    (fun literal given => ⟨proper.system literal given, system literal given⟩)
    (fun literal given => ⟨proper.public_ literal given, public_ literal given⟩)
    proper.paired tail
  have stops : ∀ c ∈ (printIdentifiers systemId publicId ++ '>' :: tail).head?,
      isNameChar c = false := by
    intro c here
    cases systemId with
    | none => cases here; decide
    | some => cases publicId <;> cases here <;> decide
  obtain rfl : source = ' ' :: (name ++ (printIdentifiers systemId publicId ++ '>' :: tail)) := by
    rw [text]
    simp
  generalize printIdentifiers systemId publicId ++ '>' :: tail = rest at *
  have spaced : requireBlank (' ' :: (name ++ rest)) =
      .ok ⟨(), name ++ rest, List.suffix_cons _ _⟩ := by
    obtain ⟨named, -⟩ := proper
    cases name with
    | nil => cases named
    | cons first others => exact requireBlank_space (not_isBlank_of_isNameStart named.1) _
  obtain ⟨first, named⟩ := takes_name proper.named rest stops _ rfl
  obtain ⟨closing, closed⟩ := takes_expect ['>'] tail ('>' :: tail) rfl
  have unspaced := skipBlanks_of_head (c := '>') (by decide) tail
  refine ⟨closing.trans (behind.trans ((List.dropWhile_suffix _).trans
    (first.trans (List.suffix_cons ' ' _)))), ?_⟩
  rw [doctype, spaced, withLedger_ok, ok_bind]
  dsimp only
  rw [named, withLedger_ok, ok_bind]
  dsimp only
  rw [identified, withLedger_ok, ok_bind]
  dsimp only
  rw [unspaced]
  dsimp only
  have whole : optionalSubset ledger ('>' :: tail) =
      .ok ⟨([], ledger), '>' :: tail, List.suffix_refl _⟩ := rfl
  rw [whole, ok_bind]
  dsimp only
  rw [closed, withLedger_ok, ok_bind]
  cases systemId with
  | none => cases proper.paired rfl; rfl
  | some => rfl

/-- The nodes at the top begin with markup. -/
theorem printTop_head {declared rooted : Bool} {forest : Forest}
    (top : Topmost Leaf.InContent options.maxDepth declared rooted forest) :
    printTop {} forest = [] ∨ ∃ body, printTop {} forest = '<' :: body := by
  cases top with
  | nil => exact .inl rfl
  | leaf proper markup =>
    obtain ⟨body, written, -⟩ := commentOrInstruction?_printed proper markup []
    exact .inr ⟨_, by rw [printTop, written, List.cons_append]⟩
  | doctype => exact .inr ⟨_, rfl⟩
  | element normal =>
    obtain ⟨body, written, -⟩ := rootElement_printed ⟨options, []⟩ {} normal []
    rw [Element.alone, List.append_nil] at written
    exact .inr ⟨_, by rw [printTop, written, List.cons_append]⟩

theorem rest_skipBlanks_lineFeed (rest : Text) :
    (skipBlanks ('\n' :: rest)).rest = (skipBlanks rest).rest := rfl

/-- Nothing is passed over in front of the nodes at the top. -/
theorem rest_skipBlanks_printTop {declared rooted : Bool} {forest : Forest}
    (top : Topmost Leaf.InContent options.maxDepth declared rooted forest) :
    (skipBlanks (printTop {} forest)).rest = printTop {} forest := by
  obtain none | ⟨body, written⟩ := printTop_head top
  · rw [none]
    rfl
  · rw [written, skipBlanks_of_head (by decide)]

/-- No node at the top is taken for a declaration. -/
theorem optionalDeclaration_printTop {declared rooted : Bool} {forest : Forest}
    (top : Topmost Leaf.InContent options.maxDepth declared rooted forest) :
    optionalDeclaration (printTop {} forest) =
      .ok ⟨none, printTop {} forest, List.suffix_refl _⟩ := by
  have other {c : Char} (different : c ≠ '?') (body : Text) :
      optionalDeclaration ('<' :: c :: body) = .ok ⟨none, '<' :: c :: body, List.suffix_refl _⟩ :=
    optionalDeclaration_none fun rest same =>
      absurd (List.cons.inj (List.cons.inj same).2).1 different
  cases top with
  | nil => rfl
  | @leaf _ _ first rest proper markup plain behind =>
    cases first with
    | text => cases markup
    | cdata => cases markup
    | doctype => cases plain
    | comment content => exact other (by decide) _
    | instruction target data =>
      obtain ⟨behind, written, stops⟩ := printLeaf_target target data ('\n' :: printTop {} rest)
      rw [printTop, written]
      refine optionalDeclaration_none fun rest same => ?_
      rw [Bool.eq_false_iff]
      intro spaced
      have blank : ∀ c ∈ rest.head?, isNameChar c = false := fun c here =>
        not_isNameChar_of_isBlank (by simpa [Option.mem_def.mp here] using spaced)
      have reserved : target = "xml".toList := target_eq_of_append_eq proper.1
        ⟨rfl, List.all_eq_true.mp rfl⟩ stops blank (List.cons.inj (List.cons.inj same).2).2
      exact proper.2.1 (congrArg Text.toLower reserved)
  | doctype => exact other (by decide) _
  | @element _ _ _ _ rest normal =>
    obtain ⟨body, written, starts, -⟩ :=
      rootElement_printed ⟨options, []⟩ {} normal ('\n' :: printTop {} rest)
    rw [Element.alone] at written
    rw [printTop, written]
    exact optionalDeclaration_of_isNameStart starts

/-- The nodes at the top are read back one by one. -/
theorem topLevel_printTop {declared rooted : Bool} {forest : Forest}
    (top : Topmost Leaf.InContent options.maxDepth declared rooted forest)
    (unquoted : ∀ leaf ∈ forest.doctypes, ∀ literal ∈ leaf.literals, '"' ∉ literal) :
    ∀ progress : Progress, progress.seenDoctype = declared → progress.seenRoot = rooted →
      ∃ last, topLevel options progress (printTop {} forest) = .ok last ∧
        last.before = forest.joined.reverseOnto progress.before := by
  induction top with
  | nil =>
    intro progress _ seen
    exact ⟨progress, by rw [printTop, topLevel, seen, if_pos rfl], rfl⟩
  | @leaf declared rooted first rest proper markup plain behind ih =>
    intro progress sameDoctype sameRoot
    obtain ⟨body, written, -, suffix, found⟩ :=
      commentOrInstruction?_printed proper markup ('\n' :: printTop {} rest)
    rw [Forest.doctypes, plain, if_neg Bool.false_ne_true] at unquoted
    obtain ⟨last, read, together⟩ := ih unquoted
      { progress with before := .leaf first.joined progress.before } sameDoctype sameRoot
    refine ⟨last, ?_, together⟩
    rw [printTop, written, List.cons_append, topLevel, found]
    dsimp only
    rw [withLedger_ok, ok_bind]
    dsimp only
    rw [rest_skipBlanks_lineFeed, rest_skipBlanks_printTop behind]
    exact read
  | @doctype name systemId publicId rest proper behind ih =>
    intro progress sameDoctype sameRoot
    have each : ∀ literal ∈ (Leaf.doctype name systemId publicId).literals, '"' ∉ literal :=
      unquoted _ List.mem_cons_self
    rw [Leaf.literals, List.forall_mem_append] at each
    obtain ⟨suffix, declared⟩ := takes_doctype proper
      (fun literal given => each.1 literal (Option.mem_toList.mpr given))
      (fun literal given => each.2 literal (Option.mem_toList.mpr given)) progress.ledger
      ('\n' :: printTop {} rest) _ rfl
    obtain ⟨last, read, together⟩ := ih
      (fun leaf member => unquoted leaf (List.mem_cons_of_mem _ member))
      { progress with
        before := .leaf (Leaf.doctype name systemId publicId).joined progress.before, table := []
        seenDoctype := true } rfl sameRoot
    refine ⟨last, ?_, together⟩
    have written : printTop {} (.leaf (.doctype name systemId publicId) rest) =
        '<' :: ("!DOCTYPE".toList ++
          (' ' :: (name ++ printIdentifiers systemId publicId ++ ['>']) ++
            '\n' :: printTop {} rest)) := by
      rw [printTop, printLeaf_doctype]
      simp
    have other (body : Text) : commentOrInstruction? ("!DOCTYPE".toList ++ body) = none := rfl
    rw [written, topLevel, other]
    dsimp only
    rw [take?_append]
    dsimp only
    rw [if_neg (by simp [sameDoctype, sameRoot]), declared, ok_bind]
    dsimp only
    rw [rest_skipBlanks_lineFeed, rest_skipBlanks_printTop behind]
    exact read
  | @element declared name attributes content rest normal behind ih =>
    intro progress sameDoctype sameRoot
    obtain ⟨body, written, starts, suffix, found⟩ :=
      rootElement_printed ⟨options, progress.table⟩ progress.ledger normal
        ('\n' :: printTop {} rest)
    have ordinary : take? "!DOCTYPE".toList body = none :=
      take?_of_isNameStart starts (by decide) _
    obtain ⟨last, read, together⟩ := ih unquoted
      { progress with
        before := .element name attributes content.joined progress.before, seenRoot := true }
      sameDoctype rfl
    refine ⟨last, ?_, together⟩
    rw [Element.alone] at written
    rw [printTop, written, topLevel, commentOrInstruction?_of_isNameStart starts]
    dsimp only
    rw [ordinary]
    dsimp only
    rw [sameRoot, if_neg Bool.false_ne_true, found, ok_bind, Forest.reverse_reverse]
    dsimp only
    rw [rest_skipBlanks_lineFeed, rest_skipBlanks_printTop behind]
    exact read

end Written

end Markup

end XmlSelect
