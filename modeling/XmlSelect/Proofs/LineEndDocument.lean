import XmlSelect.Proofs.ExternalEntities
import XmlSelect.Proofs.LineEndDoctype

/-! Line ends in whole documents. A document and the same document with line feeds for its line ends
are both read or both refused, and they have the same nodes but for the carriage returns that stand
alone in what is taken as it stands: comments, sections, instructions, and quoted literals, those of
the entities included. -/
namespace XmlSelect

/-- A declaration with its literals changed. -/
def Declaration.fed (feed : Char → Char) (declaration : Declaration) : Declaration :=
  { declaration with
    version := declaration.version.map feed, encoding := declaration.encoding.map (List.map feed) }

/-- Documents that differ in the characters of their texts only: what is taken as it stands is
changed by `feed`, and some characters of running text by `run`. -/
structure Document.Fed (feed run : Char → Char) (document document' : Document) : Prop where
  declaration : document'.declaration = document.declaration.map (Declaration.fed feed)
  content : document.content.Fed feed run document'.content

/-- What of a declaration is taken as it stands. -/
def Declaration.literals (declaration : Declaration) : List Text :=
  declaration.version :: declaration.encoding.toList

/-- What of a document is taken as it stands: the literals of its declarations, and what is written
between delimiters. -/
def Document.literals (document : Document) : List Text :=
  document.declaration.toList.flatMap Declaration.literals ++ document.content.literals

@[simp] theorem Declaration.fed_id (declaration : Declaration) :
    declaration.fed id = declaration := by
  simp [Declaration.fed]

/-- The nodes of a document are those of its content. -/
theorem Document.eq_iff {document document' : Document} :
    document' = document ↔
      document'.declaration = document.declaration ∧ document'.content = document.content := by
  obtain ⟨declaration, content, _, rfl⟩ := document
  obtain ⟨declaration', content', _, rfl⟩ := document'
  constructor
  · rintro ⟨⟩
    exact ⟨rfl, rfl⟩
  · rintro ⟨rfl, rfl⟩
    rfl

/-- Where nothing is changed, all is the same. -/
theorem Document.Fed.eq {document document' : Document} (same : document.Fed id id document') :
    document' = document := by
  refine Document.eq_iff.mpr ⟨?_, same.content.eq⟩
  rw [same.declaration]
  cases document.declaration with
  | none => rfl
  | some declaration => rw [Option.map_some, Declaration.fed_id]

open Markup (asFeed map_asFeed_eq_iff)

theorem Declaration.fed_asFeed_eq_iff {declaration : Declaration} :
    declaration.fed asFeed = declaration ↔ ∀ literal ∈ declaration.literals, '\r' ∉ literal := by
  obtain ⟨version, encoding, standalone⟩ := declaration
  simp only [fed, literals, mk.injEq, and_true, map_asFeed_eq_iff, option_map_asFeed_eq_iff,
    List.forall_mem_cons]

/-- Where running text is the same, all is the same exactly if what is taken as it stands has no
carriage return. -/
theorem Document.Fed.eq_iff {document document' : Document}
    (same : document.Fed asFeed id document') :
    document' = document ↔ ∀ literal ∈ document.literals, '\r' ∉ literal := by
  rw [Document.eq_iff, same.content.eq_iff, same.declaration, literals, List.forall_mem_append]
  refine and_congr ?_ Iff.rfl
  cases document.declaration with
  | none => simp
  | some declaration => simp [Declaration.fed_asFeed_eq_iff]

namespace Markup

section Declarations

variable {feed : Char → Char} (turns : TurnsReturns feed)

/-- What the declaration has said so far, its literals changed. -/
def DeclarationFields.fed (feed : Char → Char) (fields : DeclarationFields) : DeclarationFields :=
  { fields with
    version := fields.version.map (List.map feed), encoding := fields.encoding.map (List.map feed) }

include turns

theorem DeclarationFields.set_agree (fields : DeclarationFields) (key value rest rest' : Text) :
    Agree (fun fields fields' => fields' = fields.fed feed) (fields.set key value rest)
      ((fields.fed feed).set key (value.map feed) rest') := by
  unfold set
  rw [turns.map_beq_eq (by decide), turns.map_beq_eq (by decide)]
  split
  · rfl
  split
  · rfl
  split
  · split
    · rfl
    split
    · rfl
    · trivial
  · trivial

omit turns
variable {source source' : Text} (same : source' = foldLineEnds source)
include same

theorem declaration_agree {whole whole' : Text} (feeds : Feeds feed whole)
    {fields : DeclarationFields} {spaced : Bool} {within : source <:+ whole}
    {within' : source' <:+ whole'} :
    Agree (Abreast fun value value' => value' = value.fed feed)
      (declaration whole fields spaced source within)
      (declaration whole' (fields.fed feed) spaced source' within') := by
  fun_induction declaration whole fields spaced source within generalizing source' with
  | case1 =>
    rename_i found unversioned
    obtain ⟨_, found'⟩ := (take?_agree same (by decide)).1 _ found
    rw [declaration.eq_def, found']
    simp only [DeclarationFields.fed, unversioned, Option.map_none]
    trivial
  | case2 =>
    rename_i found _ versioned
    obtain ⟨_, found'⟩ := (take?_agree same (by decide)).1 _ found
    rw [declaration.eq_def, found']
    simp only [DeclarationFields.fed, versioned, Option.map_some]
    exact ⟨rfl, rfl⟩
  | case3 =>
    rename_i noEnd apart
    rw [declaration.eq_def, (take?_agree same (by decide)).2 noEnd]
    dsimp only
    rw [if_pos apart]
    trivial
  | case4 =>
    rename_i apart _ _ noEnd
    rw [foldLineEnds_nil] at same
    subst same
    rw [declaration.eq_def, noEnd]
    dsimp only
    rw [if_neg apart]
    trivial
  | case5 =>
    rename_i fields _ apart first others _ within noEnd ih
    obtain ⟨behind, folded, next⟩ := foldLineEnds_first first others
    obtain rfl := same.trans folded
    rw [declaration, (take?_agree same (by decide)).2 noEnd]
    dsimp only
    rw [if_neg apart]
    refine (nameFrom_agree next).read fun key rest₁ named _ _ _ same => ?_
    subst same
    refine (expect_agree (skipBlanks_agree rfl).2 (by decide)).read fun _ rest₂ signed _ _ _ _ => ?_
    have sign : (skipBlanks rest₂).rest <:+ (skipBlanks rest₁).rest :=
      (skipBlanks rest₂).suffix.trans signed
    have here : (skipBlanks rest₂).rest <:+ whole := sign.trans
      ((skipBlanks rest₁).suffix.trans (named.trans ((List.suffix_cons _ _).trans within)))
    refine (quoted_agree (skipBlanks_agree rfl).2 (feeds.of_suffix here)).read ?_
    rintro value rest₃ valued value' _ - same
    subst same
    refine (fields.set_agree feeds.turns key value rest₃ _).bind fun fields fields' _ _ same => ?_
    subst same
    obtain ⟨spaced, rest⟩ := skipBlanks_agree (rfl : foldLineEnds rest₃ = _)
    dsimp only
    rw [← spaced]
    exact ih rest₁ named _ (List.dropWhile_suffix _) rest₂ signed _ (List.dropWhile_suffix _)
      rest₃ valued fields _ _ (List.dropWhile_suffix _) rest

theorem optionalDeclaration_agree (feeds : Feeds feed source) :
    Agree (Abreast fun value value' => value' = value.map (Declaration.fed feed))
      (optionalDeclaration source) (optionalDeclaration source') := by
  unfold optionalDeclaration
  obtain ⟨rest, opened, _, found, found'⟩ | ⟨absent, absent'⟩ :=
    take?_cases same (by decide : Lineless "<?xml".toList)
  · rw [found, found']
    dsimp only
    rw [any_head?_foldLineEnds (by decide)]
    split
    · obtain ⟨spaced, body⟩ := skipBlanks_agree (rfl : foldLineEnds rest = _)
      rw [← spaced]
      refine (declaration_agree body feeds).read fun declared after suffix _ _ _ same => ?_
      subst same
      exact ⟨rfl, rfl⟩
    · exact ⟨rfl, same⟩
  · rw [absent, absent']
    exact ⟨rfl, same⟩

end Declarations

section Documents

variable {feed run : Char → Char} (turns : TurnsReturns run) {options : Options}
  (forbidden : options.allowExternal = false)

/-- What has been read at the top differs in the characters of texts only. -/
structure Progress.Fed (feed run : Char → Char) (first second : Progress) : Prop where
  before : first.before.Fed feed run second.before
  table : first.table.Fed feed second.table
  seenDoctype : second.seenDoctype = first.seenDoctype
  seenRoot : second.seenRoot = first.seenRoot
  expansions : second.ledger.expansions = first.ledger.expansions

theorem Progress.Fed.leaf {progress progress' : Progress} (same : progress.Fed feed run progress')
    (leaf : Leaf) :
    Progress.Fed feed run { progress with before := .leaf leaf progress.before }
      { progress' with before := .leaf (leaf.fed feed) progress'.before } :=
  { same with before := .leaf leaf same.before }

theorem Progress.Fed.doctype {progress progress' : Progress}
    (same : progress.Fed feed run progress') {declared declared' : Doctype}
    (fed : declared.Fed feed declared') :
    Progress.Fed feed run
      { progress with
        before := .leaf declared.leaf progress.before, table := declared.table
        seenDoctype := true, ledger := declared.ledger }
      { progress' with
        before := .leaf declared'.leaf progress'.before, table := declared'.table
        seenDoctype := true, ledger := declared'.ledger } :=
  ⟨fed.leaf ▸ .leaf declared.leaf same.before, fed.table, rfl, same.seenRoot, fed.expansions⟩

theorem Progress.Fed.element {progress progress' : Progress}
    (same : progress.Fed feed run progress') {root root' : OpenElement × Ledger}
    (fed : Contained feed run root root') :
    Progress.Fed feed run
      { progress with
        before := .element root.1.name root.1.attributes root.1.before.reverse progress.before
        seenRoot := true, ledger := root.2 }
      { progress' with
        before := .element root'.1.name root'.1.attributes root'.1.before.reverse progress'.before
        seenRoot := true, ledger := root'.2 } := by
  refine ⟨?_, same.table, same.seenDoctype, rfl, fed.2⟩
  dsimp only
  rw [fed.1.name, fed.1.attributes]
  exact .element _ _ fed.1.before.reverse same.before

theorem EntityTable.Fed.of_values {table table' : EntityTable} (same : table.Fed feed table')
    (values : ∀ name value, table.find? name = some (.internal value) →
      value.map feed = value.map run) : table.Fed run table' := by
  refine ⟨fun name => ?_, same.named⟩
  have each := same.each name
  have value := values name
  generalize table.find? name = first, table'.find? name = second at each value
  cases each with
  | none => exact .none
  | @some entity entity' fed =>
    refine .some ?_
    cases entity with
    | internal text => cases entity' with
      | internal text' => exact fed.trans (value text rfl)
      | external => exact fed
    | external => cases entity' with
      | internal => exact fed
      | external => exact fed

include turns forbidden

theorem topLevel_agree {known : Text → Option Entity}
    (values : ∀ name value, known name = some (.internal value) → value.map feed = value.map run)
    {progress progress' : Progress} (start : progress.Fed feed run progress')
    {source source' : Text} (feeds : Feeds feed source) (same : source' = foldLineEnds source)
    (foresees : progress.Foresees known source) :
    Agree (Progress.Fed feed run) (topLevel options progress source)
      (topLevel options progress' source') := by
  fun_induction topLevel options progress source generalizing progress' source' with
  | case1 =>
    rename_i seen
    rw [foldLineEnds_nil] at same
    subst same
    rw [topLevel, start.seenRoot, if_pos seen]
    exact start
  | case2 =>
    rename_i unseen
    rw [foldLineEnds_nil] at same
    subst same
    rw [topLevel, start.seenRoot, if_neg unseen]
    trivial
  | case3 =>
    rename_i progress rest result found ih
    rw [foldLineEnds_cons_of_ne (by decide)] at same
    subst same
    have feeds := feeds.of_suffix (List.suffix_cons _ _)
    obtain ⟨result', found', agree⟩ := (commentOrInstruction?_agree rfl feeds).eq_some found
    rw [topLevel, found']
    refine agree.withLedger.read fun leaf after suffix leaf' _ read same => ?_
    subst same
    rw [mapError_ok read] at found
    exact ih leaf after suffix _ (List.dropWhile_suffix _) (start.leaf leaf)
      (feeds.of_suffix ((skipBlanks after).suffix.trans suffix)) (skipBlanks_agree rfl).2
      (foresees.leaf found)
  | case4 =>
    rename_i noLeaf _ _ _ found _ misplaced _
    rw [foldLineEnds_cons_of_ne (by decide)] at same
    subst same
    have feeds := feeds.of_suffix (List.suffix_cons _ _)
    obtain ⟨_, found'⟩ := (take?_agree rfl (by decide)).1 _ found
    rw [topLevel, (commentOrInstruction?_agree rfl feeds).eq_none noLeaf, found']
    dsimp only
    rw [start.seenDoctype, start.seenRoot, if_pos misplaced]
    trivial
  | case5 =>
    rename_i noLeaf _ _ word found _ misplaced ih
    rw [foldLineEnds_cons_of_ne (by decide)] at same
    subst same
    have feeds := feeds.of_suffix (List.suffix_cons _ _)
    obtain ⟨_, found'⟩ := (take?_agree rfl (by decide)).1 _ found
    rw [topLevel, (commentOrInstruction?_agree rfl feeds).eq_none noLeaf, found']
    dsimp only
    rw [if_neg (by rwa [start.seenDoctype, start.seenRoot])]
    rw [Bool.or_eq_true, not_or, Bool.not_eq_true, Bool.not_eq_true] at misplaced
    refine (doctype_agree rfl (feeds.of_suffix word) start.expansions).read
      fun declared after suffix declared' _ read fed => ?_
    exact ih declared after suffix _ (List.dropWhile_suffix _) (start.doctype fed)
      (feeds.of_suffix ((skipBlanks after).suffix.trans (suffix.trans word)))
      (skipBlanks_agree rfl).2 (foresees.doctype noLeaf found misplaced.1 read)
  | case6 =>
    rename_i noLeaf noDoctype _ seen _
    rw [foldLineEnds_cons_of_ne (by decide)] at same
    subst same
    have feeds := feeds.of_suffix (List.suffix_cons _ _)
    rw [topLevel, (commentOrInstruction?_agree rfl feeds).eq_none noLeaf,
      (take?_agree rfl (by decide)).2 noDoctype]
    dsimp only
    rw [start.seenRoot, if_pos seen]
    trivial
  | case7 =>
    rename_i noLeaf noDoctype _ unseen ih
    rw [foldLineEnds_cons_of_ne (by decide)] at same
    subst same
    have feeds := feeds.of_suffix (List.suffix_cons _ _)
    rw [topLevel, (commentOrInstruction?_agree rfl feeds).eq_none noLeaf,
      (take?_agree rfl (by decide)).2 noDoctype]
    dsimp only
    rw [if_neg (by rwa [start.seenRoot])]
    -- No declaration is ahead, so the table has the texts that the assumption is about.
    have known := foresees.find?_eq noLeaf noDoctype (Bool.not_eq_true _ ▸ unseen)
    have tables := start.table.of_values fun name value found =>
      values name value (known name ▸ found)
    refine (rootElement_agree turns forbidden tables feeds rfl start.expansions).read
      fun root after suffix root' _ _ fed => ?_
    exact ih root.1 root.2 after suffix _ (List.dropWhile_suffix _) (start.element fed)
      (feeds.of_suffix ((skipBlanks after).suffix.trans suffix)) (skipBlanks_agree rfl).2
      (.of_seenRoot rfl _)
  | case8 =>
    rename_i c rest other
    obtain ⟨behind, folded, -⟩ := foldLineEnds_first c rest
    obtain rfl := same.trans folded
    rw [topLevel]
    · trivial
    · exact fun same => other ((asFeed_turns.eq_iff (by decide)).mp same)

/-- A document and the same document with line feeds for its line ends are both read or both
refused. They have the same nodes: what is taken as it stands is changed by `feed`, which turns all
carriage returns that stand alone into line feeds, and running text only where it comes out of an
entity that holds such a carriage return. -/
theorem parse_agree {source : Text} (feeds : Feeds feed source)
    (values : ∀ name value, (documentEntities? source).bind (·.lookup name) =
      some (.internal value) → value.map feed = value.map run) :
    Agree (fun reading folded => reading.document.Fed feed run folded.document)
      (parse options source) (parse options (foldLineEnds source)) := by
  unfold parse
  dsimp only
  generalize read : withLedger {} (optionalDeclaration source) >>= _ = outcome
  generalize read' : withLedger {} (optionalDeclaration (foldLineEnds source)) >>= _ = outcome'
  have agree : Agree (fun first second => second.1 = first.1.map (Declaration.fed feed) ∧
      first.2.Fed feed run second.2) outcome outcome' := by
    rw [← read, ← read']
    refine (optionalDeclaration_agree rfl feeds).withLedger.read
      fun declared rest suffix declared' _ read same => ?_
    have start : Progress.Fed feed run {} {} := ⟨.nil, .nil, rfl, rfl, rfl⟩
    have feeds := feeds.of_suffix ((skipBlanks rest).suffix.trans suffix)
    exact (topLevel_agree turns forbidden values start feeds (skipBlanks_agree rfl).2
      (.start (mapError_ok read))).bind fun progress progress' _ _ fed => ⟨same, fed⟩
  cases outcome with
  | error => cases outcome' with
    | error => trivial
    | ok => exact agree
  | ok => cases outcome' with
    | error => exact agree
    | ok => exact ⟨agree.1, agree.2.before.reverse⟩

end Documents

section LineEnds

variable {options : Options}

theorem withoutMark_foldLineEnds (source : Text) :
    withoutMark (foldLineEnds source) = foldLineEnds (withoutMark source) := by
  have none {text : Text} (unmarked : ∀ rest, text ≠ '\ufeff' :: rest) :
      withoutMark text = text := by
    unfold withoutMark
    split
    · exact absurd rfl (unmarked _)
    · rfl
  obtain ⟨rest, rfl, folded⟩ | ⟨unmarked, unmarked'⟩ :=
    first_foldLineEnds (by decide : Lineless ['\ufeff']) source
  · rw [folded]
    rfl
  · rw [none unmarked, none unmarked']

/-- Where each carriage return has a line feed behind it, none is left when line ends are joined. -/
theorem Feeds.of_paired {source : Text}
    (paired : ∀ behind, '\r' :: behind <:+ source → behind.head? = some '\n') :
    Feeds id source :=
  ⟨id_turns, fun behind here lone => absurd (paired behind here) lone⟩

/-- A document and the same document with line feeds for its line ends are both read or both
refused, and they have the same tree: names, attributes and all of running text that is written in
the document are the same. Carriage returns that stand alone are kept in comments, sections,
instructions, identifiers and the declaration, and in the texts of entities. If no entity holds one,
all running text is the same, and the documents are the same exactly if none was kept; if none
stands alone, they are the same. -/
theorem parseText_foldLineEnds (forbidden : options.allowExternal = false) (source : Text) :
    Agree (fun reading folded =>
        (reading.document.Fed asFeed asFeed folded.document ∧
          ((∀ name value, firstDeclared? source name = some (.internal value) → '\r' ∉ value) →
            reading.document.Fed asFeed id folded.document ∧
              (folded.document = reading.document ↔
                ∀ literal ∈ reading.document.literals, '\r' ∉ literal))) ∧
          ((∀ behind, '\r' :: behind <:+ source → behind.head? = some '\n') →
            folded.document = reading.document))
      (parseText options source) (parseText options (foldLineEnds source)) := by
  rw [parseText_eq, parseText_eq, withoutMark_foldLineEnds]
  have feeds := Feeds.asFeed (withoutMark source)
  refine .and_if (.and_if ?_ fun plain => ?_) fun paired => ?_
  · exact parse_agree asFeed_turns forbidden feeds fun _ _ _ => rfl
  · have values (name value : Text)
        (declared : firstDeclared? source name = some (.internal value)) :
        value.map asFeed = value.map id := by
      rw [List.map_id, map_asFeed_eq_iff.mpr (plain name value declared)]
    exact (parse_agree id_turns forbidden feeds values).imp fun _ _ same => ⟨same, same.eq_iff⟩
  · have feeds := (Feeds.of_paired paired).of_suffix (withoutMark_suffix source)
    exact (parse_agree id_turns forbidden feeds fun _ _ _ => rfl).imp fun _ _ same => same.eq

/-- A carriage return in an attribute value, one in text and one in a comment: only the last one is
kept. -/
theorem parseText_foldLineEnds_mixed :
    let source := "<a b='\r'>\r<!--\r--></a>".toList
    ({} : Options).allowExternal = false ∧
    ∃ reading folded, parseText {} source = .ok reading ∧
      parseText {} (foldLineEnds source) = .ok folded ∧
      reading.document.content = .element "a".toList [⟨"b".toList, [' ']⟩]
        (.leaf (.text ['\n']) (.leaf (.comment ['\r']) .nil)) .nil ∧
      reading.document.Fed asFeed id folded.document := by
  have measured : (parseText {} "<a b='\r'>\r<!--\r--></a>".toList).toOption.map
      (·.document.content) = some (.element "a".toList [⟨"b".toList, [' ']⟩]
        (.leaf (.text ['\n']) (.leaf (.comment ['\r']) .nil)) .nil) := by
    decide +kernel
  have undeclared : documentEntities? (withoutMark "<a b='\r'>\r<!--\r--></a>".toList) = none := by
    decide +kernel
  have none (name value : Text) (declared : firstDeclared? "<a b='\r'>\r<!--\r--></a>".toList name =
      some (.internal value)) : '\r' ∉ value := by
    rw [firstDeclared?, undeclared] at declared
    cases declared
  have agree := parseText_foldLineEnds (rfl : ({} : Options).allowExternal = false)
    "<a b='\r'>\r<!--\r--></a>".toList
  generalize "<a b='\r'>\r<!--\r--></a>".toList = source at measured none agree ⊢
  dsimp only
  cases read : parseText {} source with
  | error =>
    rw [read] at measured
    cases measured
  | ok reading => cases read' : parseText {} (foldLineEnds source) with
    | error =>
      rw [read, read'] at agree
      exact agree.elim
    | ok folded =>
      rw [read, read'] at agree
      rw [read] at measured
      exact ⟨rfl, reading, folded, rfl, rfl, Option.some.inj measured, (agree.1.2 none).1⟩

/-- Between the delimiters of a comment a carriage return that stands alone is kept. -/
theorem lone_return_kept :
    (parseText {} "<a><!--x\ry--></a>".toList).toOption.map (·.document.content) =
      some (.element "a".toList [] (.leaf (.comment "x\ry".toList) .nil) .nil) ∧
    (parseText {} (foldLineEnds "<a><!--x\ry--></a>".toList)).toOption.map (·.document.content) =
      some (.element "a".toList [] (.leaf (.comment "x\ny".toList) .nil) .nil) := by
  constructor
  · decide +kernel
  · decide +kernel

end LineEnds

end Markup

end XmlSelect
