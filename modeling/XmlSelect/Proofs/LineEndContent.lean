import XmlSelect.Proofs.LineEndReferences

/-! Line ends in the content of elements. Tags come out the same whatever the line ends are; what is
written between delimiters keeps the carriage returns that stand alone, and text keeps them where
they come out of entities. -/
namespace XmlSelect

/-- A node without children, changed in what is taken as it stands. -/
def Leaf.fed (feed : Char → Char) : Leaf → Leaf
  | .text content => .text content
  | .cdata content => .cdata (content.map feed)
  | .comment content => .comment (content.map feed)
  | .instruction target data => .instruction target (data.map (List.map feed))
  | .doctype name systemId publicId =>
    .doctype name (systemId.map (List.map feed)) (publicId.map (List.map feed))

/-- What of a node is taken as it stands. -/
def Leaf.literals : Leaf → List Text
  | .text _ => []
  | .cdata content | .comment content => [content]
  | .instruction _ data => data.toList
  | .doctype _ systemId publicId => systemId.toList ++ publicId.toList

/-- What of siblings, at any depth, is taken as it stands. -/
def Forest.literals : Forest → List Text
  | .nil => []
  | .leaf first rest => first.literals ++ rest.literals
  | .element _ _ content rest => content.literals ++ rest.literals

/-- Text of which some characters are changed. -/
def Text.Fed (run : Char → Char) : Text → Text → Prop :=
  List.Forall₂ fun c c' => c' = c ∨ c' = run c

/-- Siblings that differ in the characters of their texts only: what is taken as it stands is
changed by `feed`, and some characters of running text by `run`. -/
inductive Forest.Fed (feed run : Char → Char) : Forest → Forest → Prop
  | nil : Forest.Fed feed run .nil .nil
  | leaf (first : Leaf) {rest rest' : Forest} (behind : Forest.Fed feed run rest rest') :
      Forest.Fed feed run (.leaf first rest) (.leaf (first.fed feed) rest')
  | text {content content' : Text} {rest rest' : Forest} (here : Text.Fed run content content')
      (behind : Forest.Fed feed run rest rest') :
      Forest.Fed feed run (.leaf (.text content) rest) (.leaf (.text content') rest')
  | element (name : Text) (attributes : List Attribute) {content content' rest rest' : Forest}
      (inside : Forest.Fed feed run content content') (behind : Forest.Fed feed run rest rest') :
      Forest.Fed feed run (.element name attributes content rest)
        (.element name attributes content' rest')

section Forests

variable {feed run : Char → Char}

theorem Forest.Fed.reverse {forest forest' : Forest} (same : forest.Fed feed run forest') :
    forest.reverse.Fed feed run forest'.reverse := by
  have onto {later later' : Forest} (behind : later.Fed feed run later') :
      (forest.reverseOnto later).Fed feed run (forest'.reverseOnto later') := by
    induction same generalizing later later' with
    | nil => exact behind
    | leaf first _ ih => exact ih (.leaf first behind)
    | text here _ ih => exact ih (.text here behind)
    | element name attributes inside _ _ ih => exact ih (.element name attributes inside behind)
  exact onto .nil

theorem Text.Fed.eq {text text' : Text} (same : text.Fed id text') : text' = text := by
  have each : List.Forall₂ Eq text text' :=
    List.Forall₂.imp (fun _ _ kin => (or_self_iff.mp kin).symm) same
  rw [List.forall₂_eq_eq_eq] at each
  exact each.symm

@[simp] theorem Leaf.fed_id (leaf : Leaf) : leaf.fed id = leaf := by
  cases leaf <;> simp [Leaf.fed]

/-- Where nothing is changed, all is the same. -/
theorem Forest.Fed.eq {forest forest' : Forest} (same : forest.Fed id id forest') :
    forest' = forest := by
  induction same with
  | nil => rfl
  | leaf first _ ih => rw [Leaf.fed_id, ih]
  | text here _ ih => rw [ih, here.eq]
  | element name attributes _ _ inside behind => rw [inside, behind]

end Forests

section Literals

open Markup (asFeed map_asFeed_eq_iff)

theorem option_map_asFeed_eq_iff {literal : Option Text} :
    literal.map (List.map asFeed) = literal ↔ ∀ text ∈ literal.toList, '\r' ∉ text := by
  cases literal with
  | none => simp
  | some text => simp [map_asFeed_eq_iff]

theorem Leaf.fed_asFeed_eq_iff {leaf : Leaf} :
    leaf.fed asFeed = leaf ↔ ∀ literal ∈ leaf.literals, '\r' ∉ literal := by
  cases leaf with
  | text content => simp [fed, literals]
  | cdata content => simp [fed, literals, map_asFeed_eq_iff]
  | comment content => simp [fed, literals, map_asFeed_eq_iff]
  | instruction target data =>
    simp only [fed, literals, instruction.injEq, true_and, option_map_asFeed_eq_iff]
  | doctype name systemId publicId =>
    simp only [fed, literals, doctype.injEq, true_and, option_map_asFeed_eq_iff,
      List.forall_mem_append]

/-- Where running text is the same, all is the same exactly if what is taken as it stands has no
carriage return. -/
theorem Forest.Fed.eq_iff {forest forest' : Forest} (same : forest.Fed asFeed id forest') :
    forest' = forest ↔ ∀ literal ∈ forest.literals, '\r' ∉ literal := by
  induction same with
  | nil => simp [literals]
  | leaf first _ ih =>
    rw [leaf.injEq, ih, Leaf.fed_asFeed_eq_iff, literals, List.forall_mem_append]
  | text here _ ih => simp [here.eq, ih, literals, Leaf.literals]
  | element name attributes _ _ inside behind =>
    simp only [element.injEq, true_and, inside, behind, literals, List.forall_mem_append]

end Literals

namespace Markup

section Leaves

variable {feed : Char → Char} {source source' : Text} (same : source' = foldLineEnds source)
  (feeds : Feeds feed source)

include same feeds

theorem comment_agree :
    Agree (Abreast fun leaf leaf' => leaf' = leaf.fed feed) (comment source) (comment source') := by
  refine (takeUntil_agree same feeds (by decide) (by decide) _).read ?_
  rintro body rest suffix body' suffix' - same
  subst same
  dsimp only
  rw [feeds.turns.includes_map (by decide), feeds.turns.endsWith_map (by decide)]
  split
  · trivial
  · exact ⟨rfl, rfl⟩

theorem cdataSection_agree :
    Agree (Abreast fun leaf leaf' => leaf' = leaf.fed feed) (cdataSection source)
      (cdataSection source') := by
  refine (takeUntil_agree same feeds (by decide) (by decide) _).read ?_
  rintro body rest suffix body' suffix' - same
  subst same
  exact ⟨rfl, rfl⟩

theorem instruction_agree :
    Agree (Abreast fun leaf leaf' => leaf' = leaf.fed feed) (instruction source)
      (instruction source') := by
  refine (name_agree same).read fun target afterTarget named _ _ _ same => ?_
  subst same
  dsimp only
  split
  · trivial
  · obtain ⟨_, _, _, closed, closed'⟩ | ⟨data, data'⟩ :=
      take?_cases (rfl : foldLineEnds afterTarget = _) (by decide : Lineless "?>".toList)
    · rw [closed, closed']
      exact ⟨rfl, rfl⟩
    · rw [data, data']
      refine (requireBlank_agree rfl).read fun _ body blanks _ _ _ _ => ?_
      refine (takeUntil_agree rfl (feeds.of_suffix (blanks.trans named)) (by decide) (by decide)
        _).read ?_
      rintro data rest suffix data' suffix' - same
      subst same
      refine ⟨?_, rfl⟩
      dsimp only
      rw [List.isEmpty_map]
      split
      · rfl
      · rfl

/-- Readers for what is next, if it is: both are there and agree, or neither. -/
def AgreeNext (feed : Char → Char) (first : Option (Except Stop (Read source Leaf)))
    (second : Option (Except Stop (Read source' Leaf))) : Prop :=
  Option.Rel (Agree (Abreast fun leaf leaf' => leaf' = leaf.fed feed)) first second

section Next

omit same feeds

variable {first : Option (Except Stop (Read source Leaf))}
  {second : Option (Except Stop (Read source' Leaf))} (next : AgreeNext feed first second)
include next

theorem AgreeNext.eq_some {result : Except Stop (Read source Leaf)} (found : first = some result) :
    ∃ result', second = some result' ∧
      Agree (Abreast fun leaf leaf' => leaf' = leaf.fed feed) result result' := by
  cases next with
  | none => cases found
  | some agree =>
    cases found
    exact ⟨_, rfl, agree⟩

theorem AgreeNext.eq_none (absent : first = none) : second = none := by
  cases next with
  | none => rfl
  | some => cases absent

end Next

omit feeds in
theorem take?_map_agree {wanted : Text} (plain : Lineless wanted)
    {next : (source : Text) → Except Stop (Read source Leaf)}
    (further : ∀ rest, rest <:+ source → Agree (Abreast fun leaf leaf' => leaf' = leaf.fed feed)
      (next rest) (next (foldLineEnds rest))) :
    AgreeNext feed
      ((take? wanted source).map fun opened => (next opened.rest).map (·.within opened.suffix))
      ((take? wanted source').map fun opened =>
        (next opened.rest).map (·.within opened.suffix)) := by
  obtain ⟨rest, suffix, suffix', found, found'⟩ | ⟨absent, absent'⟩ := take?_cases same plain
  · rw [found, found']
    exact .some ((further rest suffix).within _ _)
  · rw [absent, absent']
    exact .none

theorem commentOrInstruction?_agree :
    AgreeNext feed (commentOrInstruction? source) (commentOrInstruction? source') := by
  rw [commentOrInstruction?_eq, commentOrInstruction?_eq]
  obtain ⟨rest, suffix, suffix', found, found'⟩ | ⟨absent, absent'⟩ :=
    take?_cases same (by decide : Lineless "!--".toList)
  · rw [found, found']
    exact .some ((comment_agree rfl (feeds.of_suffix suffix)).within _ _)
  · rw [absent, absent']
    exact take?_map_agree same (by decide) fun rest suffix =>
      instruction_agree rfl (feeds.of_suffix suffix)

theorem contentLeaf?_agree : AgreeNext feed (contentLeaf? source) (contentLeaf? source') := by
  unfold contentLeaf?
  have first := commentOrInstruction?_agree same feeds
  cases found : commentOrInstruction? source with
  | some result =>
    obtain ⟨result', found', agree⟩ := first.eq_some found
    rw [found']
    exact .some agree
  | none =>
    rw [first.eq_none found]
    exact take?_map_agree same (by decide) fun rest suffix =>
      cdataSection_agree rfl (feeds.of_suffix suffix)

end Leaves

namespace OpenElement

variable {feed run : Char → Char} {element element' inner inner' : OpenElement}

/-- Open elements that differ in the characters of the texts inside them only. -/
structure Fed (feed run : Char → Char) (element element' : OpenElement) : Prop where
  name : element'.name = element.name
  attributes : element'.attributes = element.attributes
  before : element.before.Fed feed run element'.before

theorem Fed.ofTag (tag : StartTag) : Fed feed run (.ofTag tag) (.ofTag tag) := ⟨rfl, rfl, .nil⟩

theorem Fed.addLeaf (same : element.Fed feed run element') (leaf : Leaf) :
    (element.addLeaf leaf).Fed feed run (element'.addLeaf (leaf.fed feed)) :=
  ⟨same.name, same.attributes, .leaf leaf same.before⟩

theorem Fed.addElement (same : element.Fed feed run element') (inside : inner.Fed feed run inner') :
    (element.addElement inner).Fed feed run (element'.addElement inner') := by
  refine ⟨same.name, same.attributes, ?_⟩
  unfold OpenElement.addElement
  rw [inside.name, inside.attributes]
  exact .element _ _ inside.before.reverse same.before

theorem Fed.addText (same : element.Fed feed run element') {pending pending' : Text}
    (text : pending.Fed run pending') :
    (element.addText pending).Fed feed run (element'.addText pending') := by
  cases text with
  | nil => exact same
  | cons here behind =>
    exact ⟨same.name, same.attributes, .text (List.rel_reverse (.cons here behind)) same.before⟩

end OpenElement

section Content

variable {feed run : Char → Char} (turns : TurnsReturns run) {options : Options}
  (forbidden : options.allowExternal = false) {table table' : EntityTable}
  (tables : table.Fed run table') {ledger ledger' : Ledger}

theorem endTag_agree {element source source' : Text} (same : source' = foldLineEnds source) :
    Agree (Abreast Eq) (endTag element source) (endTag element source') := by
  refine (name_agree same).read fun found rest _ _ _ _ same => ?_
  subst same
  dsimp only
  split
  · trivial
  · refine (expect_agree (skipBlanks_agree rfl).2 (by decide)).read fun _ _ _ _ _ _ _ => ?_
    exact ⟨rfl, rfl⟩

/-- Elements that differ in the characters of the texts inside them only, after as many
expansions. -/
def Contained (feed run : Char → Char) (first second : OpenElement × Ledger) : Prop :=
  first.1.Fed feed run second.1 ∧ second.2.expansions = first.2.expansions

include turns forbidden tables

/-- The content of elements comes out the same but for the characters of texts, as long as all that
is open and the text since the last markup are the same but for them. -/
theorem content_agree {whole whole' source source' : Text} (feeds : Feeds feed whole)
    {inner inner' : OpenElement} (open_ : inner.Fed feed run inner')
    {outer outer' : List OpenElement}
    (around : List.Forall₂ (OpenElement.Fed feed run) outer outer')
    {pending pending' : Text} (text : pending.Fed run pending') {within : source <:+ whole}
    {within' : source' <:+ whole'} (same : source' = foldLineEnds source)
    (spent : ledger'.expansions = ledger.expansions) :
    Agree (Abreast (Contained feed run))
      (content ⟨options, table⟩ whole inner outer pending ledger source within)
      (content ⟨options, table'⟩ whole' inner' outer' pending' ledger' source' within') := by
  fun_induction content ⟨options, table⟩ whole inner outer pending ledger source within
    generalizing inner' outer' pending' source' ledger' with
  | case1 =>
    rw [foldLineEnds_nil] at same
    subst same
    rw [content]
    trivial
  | case2 =>
    rename_i c rest _ opening inner _ afterSlash slash found _ ih
    obtain rfl := eq_of_beq opening
    rw [foldLineEnds_cons_of_ne (by decide)] at same
    subst same
    obtain ⟨_, found'⟩ := (take?_agree rfl (by decide)).1 _ found
    have settled := open_.addText text
    rw [content, if_pos opening, found']
    dsimp only
    rw [settled.name]
    refine (endTag_agree rfl).withLedger.read fun _ after closed _ _ _ _ => ?_
    cases around with
    | nil => exact ⟨⟨settled, spent⟩, rfl⟩
    | cons parent around =>
      exact ih after closed _ _ (parent.addElement settled) around .nil rfl spent
  | case3 =>
    rename_i c rest _ opening inner noSlash result found within ih
    obtain rfl := eq_of_beq opening
    rw [foldLineEnds_cons_of_ne (by decide)] at same
    subst same
    have settled := open_.addText text
    have next := contentLeaf?_agree rfl (feeds.of_suffix ((List.suffix_cons _ _).trans within))
    rw [content, if_pos opening, (take?_agree rfl (by decide)).2 noSlash]
    dsimp only
    obtain ⟨result', found', agree⟩ := next.eq_some found
    rw [found']
    refine agree.withLedger.read fun leaf after suffix leaf' _ _ same => ?_
    subst same
    exact ih leaf after suffix (settled.addLeaf leaf) around .nil rfl spent
  | case4 =>
    rename_i c rest _ opening inner noSlash noLeaf within closed opened
    obtain rfl := eq_of_beq opening
    rw [foldLineEnds_cons_of_ne (by decide)] at same
    subst same
    have settled := open_.addText text
    have next := contentLeaf?_agree rfl (feeds.of_suffix ((List.suffix_cons _ _).trans within))
    rw [content, if_pos opening, (take?_agree rfl (by decide)).2 noSlash]
    dsimp only
    rw [next.eq_none noLeaf]
    dsimp only
    rw [← around.length_eq]
    refine (startTag_agree turns forbidden tables _ rfl spent).read ?_
    rintro ⟨_, expanded⟩ after suffix ⟨tag, _⟩ _ - ⟨rfl, spent⟩
    have element : (OpenElement.ofTag tag).Fed feed run _ := .ofTag tag
    dsimp only
    split
    · exact closed tag expanded after suffix (settled.addElement element) around .nil rfl spent
    · exact opened tag expanded after suffix element (.cons settled around) .nil rfl spent
  | case5 =>
    rename_i c rest _ noTag marked _ ih
    obtain rfl := eq_of_beq marked
    rw [foldLineEnds_cons_of_ne (by decide)] at same
    subst same
    rw [content, if_neg noTag, if_pos marked]
    refine (reference_agree turns forbidden tables .content rfl spent).read ?_
    rintro ⟨value, expanded⟩ after suffix ⟨value', expanded'⟩ suffix' - ⟨kin, spent⟩
    have value := List.rel_reverse (List.Forall₂.imp (fun _ _ kin => kin.imp_right And.right) kin)
    exact ih _ _ after suffix open_ around (List.rel_append value text) rfl spent
  | case6 =>
    rename_i c rest _ noTag unmarked ends _
    obtain ⟨behind, folded, -⟩ := foldLineEnds_first c rest
    obtain rfl := same.trans folded
    rw [content, asFeed_turns.beq_eq (by decide), asFeed_turns.beq_eq (by decide),
      isSome_take?_agree same (by decide), if_neg noTag, if_neg unmarked, if_pos ends]
    trivial
  | case7 =>
    rename_i c rest _ noTag unmarked noEnd _ ih
    obtain ⟨behind, folded, next⟩ := foldLineEnds_first c rest
    obtain rfl := same.trans folded
    rw [content, asFeed_turns.beq_eq (by decide), asFeed_turns.beq_eq (by decide),
      isSome_take?_agree same (by decide), if_neg noTag, if_neg unmarked, if_neg noEnd]
    refine (nextChar_agree folded next).withLedger.read fun c after suffix c' suffix' _ same => ?_
    subst same
    exact ih _ after suffix open_ around (.cons (.inl rfl) text) rfl spent

/-- The element at the top comes out the same but for the characters of the texts inside it. -/
theorem rootElement_agree {source source' : Text} (feeds : Feeds feed source)
    (same : source' = foldLineEnds source) (spent : ledger'.expansions = ledger.expansions) :
    Agree (Abreast (Contained feed run)) (rootElement ⟨options, table⟩ ledger source)
      (rootElement ⟨options, table'⟩ ledger' source') := by
  refine (startTag_agree turns forbidden tables 0 same spent).read ?_
  rintro ⟨_, expanded⟩ after suffix ⟨tag, _⟩ suffix' - ⟨rfl, spent⟩
  have element : (OpenElement.ofTag tag).Fed feed run _ := .ofTag tag
  dsimp only
  split
  · exact ⟨⟨element, spent⟩, rfl⟩
  · exact content_agree turns forbidden tables feeds element .nil .nil rfl spent

end Content

end Markup

end XmlSelect
