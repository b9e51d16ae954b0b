import XmlSelect.Proofs.EntityCharacters

/-! The normal form of content: neighbouring runs of text are one, none is empty, nodes without
children are such that they can be written with their delimiters around them, and elements are
nested no deeper than the limit. Every step of reading keeps it. -/
namespace XmlSelect

/-- Whether a node is a run of text. CDATA sections are nodes of their own. -/
def Leaf.isRun : Leaf → Bool
  | .text _ => true
  | _ => false

/-- What of a node is written as it stands, between delimiters. -/
def Leaf.verbatim : Leaf → Text
  | .cdata content | .comment content => content
  | .instruction _ data => data.getD []
  | _ => []

/-- A node as it is read back once it is written: in what is written as it stands, line ends are
joined. -/
def Leaf.joined : Leaf → Leaf
  | .text content => .text content
  | .cdata content => .cdata (Markup.joinLineEnds content)
  | .comment content => .comment (Markup.joinLineEnds content)
  | .instruction target data => .instruction target (data.map Markup.joinLineEnds)
  | .doctype name systemId publicId =>
    .doctype name (systemId.map Markup.joinLineEnds) (publicId.map Markup.joinLineEnds)

/-- A node without children as elements may hold it. -/
def Leaf.InContent : Leaf → Prop
  | .text content => content ≠ [] ∧ XmlText content
  | .cdata content => XmlText content ∧ ¬"]]>".toList <:+: content
  | .comment content =>
    XmlText content ∧ ¬"--".toList <:+: content ∧ ¬['-'] <:+ content
  | .instruction target data =>
    Markup.IsName target ∧ Text.toLower target ≠ "xml".toList ∧
      ∀ body ∈ data, body ≠ [] ∧ XmlText body ∧ ¬"?>".toList <:+: body ∧
        ∀ c ∈ body.head?, isBlank c = false
  | .doctype .. => False

/-- A node that is written between delimiters and has been read from a text. -/
structure Leaf.ReadFrom (source : Text) (leaf : Leaf) : Prop where
  proper : leaf.InContent
  inside : leaf.verbatim ⊆ source
  delimited : leaf.isRun = false

theorem Leaf.ReadFrom.of_suffix {source whole : Text} {leaf : Leaf} (read : leaf.ReadFrom source)
    (suffix : source <:+ whole) : leaf.ReadFrom whole :=
  ⟨read.proper, List.Subset.trans read.inside suffix.subset, read.delimited⟩

namespace Forest

variable {wanted : Leaf → Prop} {front : Forest}

/-- Whether the first of some siblings is a run of text. -/
def startsRun : Forest → Bool
  | .leaf first _ => first.isRun
  | _ => false

/-- Whether the last of some siblings is a run of text. -/
def endsRun : Forest → Bool
  | .nil => false
  | .leaf last .nil => last.isRun
  | .leaf _ rest => rest.endsRun
  | .element _ _ _ rest => rest.endsRun

/-- Siblings as they are read back once they are written. -/
def joined : Forest → Forest
  | .nil => .nil
  | .leaf first rest => .leaf first.joined rest.joined
  | .element name attributes content rest =>
    .element name attributes content.joined rest.joined

/-- Siblings in normal form, at any depth, with nodes of one kind. -/
def Normal (wanted : Leaf → Prop) : Forest → Prop
  | .nil => True
  | .leaf first rest =>
    wanted first ∧ (first.isRun = true → rest.startsRun = false) ∧ rest.Normal wanted
  | .element name attributes content rest =>
    Markup.WellFormedTag name attributes ∧ content.Normal wanted ∧ rest.Normal wanted

theorem Normal.imp {weaker : Leaf → Prop} (each : ∀ leaf, wanted leaf → weaker leaf)
    {forest : Forest} (normal : forest.Normal wanted) : forest.Normal weaker := by
  induction forest with
  | nil => trivial
  | leaf first rest ih => exact ⟨each first normal.1, normal.2.1, ih normal.2.2⟩
  | element name attributes content rest inside behind =>
    exact ⟨normal.1, inside normal.2.1, behind normal.2.2⟩

/-- How many elements are nested in each other. -/
def height : Forest → Nat
  | .nil => 0
  | .leaf _ rest => rest.height
  | .element _ _ content rest => max (content.height + 1) rest.height

theorem height_append (front back : Forest) :
    (front ++ back).height = max front.height back.height := by
  induction front with
  | nil => simp [height]
  | leaf first rest ih => exact ih
  | element name attributes content rest _ ih => simp [height, ih, Nat.max_assoc]

theorem height_reverse (forest : Forest) : forest.reverse.height = forest.height := by
  induction forest with
  | nil => rfl
  | leaf first rest ih => simp [reverse_leaf, height_append, height, ih]
  | element name attributes content rest _ ih =>
    simp [reverse_element, height_append, height, ih, Nat.max_comm]

theorem endsRun_concat_leaf (last : Leaf) : (front ++ .leaf last .nil).endsRun = last.isRun := by
  induction front with
  | nil => rfl
  | leaf first rest ih => cases rest <;> exact ih
  | element name attributes content rest _ ih => exact ih

theorem endsRun_concat_element (name : Text) (attributes : List Attribute) (content : Forest) :
    (front ++ .element name attributes content .nil).endsRun = false := by
  induction front with
  | nil => rfl
  | leaf first rest ih => cases rest <;> exact ih
  | element name attributes content rest _ ih => exact ih

theorem Normal.concat_leaf {last : Leaf} (normal : front.Normal wanted) (fits : wanted last)
    (apart : last.isRun = true → front.endsRun = false) :
    (front ++ .leaf last .nil).Normal wanted := by
  induction front with
  | nil => exact ⟨fits, fun _ => rfl, trivial⟩
  | leaf first rest ih =>
    obtain ⟨here, next, behind⟩ := normal
    cases rest with
    | nil =>
      have other (run : first.isRun = true) : last.isRun = false :=
        Bool.eq_false_iff.mpr fun next => Bool.false_ne_true ((apart next).symm.trans run)
      exact ⟨here, other, fits, fun _ => rfl, trivial⟩
    | leaf second rest => exact ⟨here, next, ih behind apart⟩
    | element name attributes content rest => exact ⟨here, fun _ => rfl, ih behind apart⟩
  | element name attributes content rest _ ih =>
    exact ⟨normal.1, normal.2.1, ih normal.2.2 apart⟩

theorem Normal.concat_element {name : Text} {attributes : List Attribute} {content : Forest}
    (normal : front.Normal wanted) (tag : Markup.WellFormedTag name attributes)
    (inside : content.Normal wanted) :
    (front ++ .element name attributes content .nil).Normal wanted := by
  induction front with
  | nil => exact ⟨tag, inside, trivial⟩
  | leaf first rest ih =>
    obtain ⟨here, next, behind⟩ := normal
    exact ⟨here, fun run => by cases rest <;> [rfl; exact next run; rfl], ih behind⟩
  | element name attributes content rest _ ih => exact ⟨normal.1, normal.2.1, ih normal.2.2⟩

end Forest

namespace Markup

section Leaves

variable {source : Text}

/-- What is taken up to a delimiter without line feeds does not hold the delimiter. -/
theorem not_infix_of_takeUntil {delimiter : Text} {part : Part} {read : Read source Text}
    (taken : takeUntil delimiter part source = .ok read) (nonempty : delimiter ≠ [])
    (plain : '\n' ∉ delimiter) : ¬delimiter <:+: read.value := by
  obtain ⟨body, found, -, value⟩ := takeUntil_ok taken
  rw [value]
  exact fun inside => Text.not_infix_of_breakOn? nonempty found
    (infix_of_infix_joinLineEnds plain inside)

theorem subset_of_takeUntil {delimiter : Text} {part : Part} {read : Read source Text}
    (taken : takeUntil delimiter part source = .ok read) : read.value ⊆ source := by
  obtain ⟨body, found, -, value⟩ := takeUntil_ok taken
  intro c member
  rw [value] at member
  rw [Text.append_of_breakOn? found]
  simp [mem_of_mem_joinLineEnds member]

theorem head?_of_takeUntil {delimiter : Text} {part : Part} {read : Read source Text}
    (taken : takeUntil delimiter part source = .ok read) {c : Char}
    (first : read.value.head? = some c) : source.head? = some c ∨ source.head? = some '\r' := by
  obtain ⟨body, found, -, value⟩ := takeUntil_ok taken
  rw [Text.append_of_breakOn? found]
  rw [value] at first
  unfold joinLineEnds at first
  split at first
  · exact .inr rfl
  · exact .inl first
  · cases first

theorem requireBlank_ok {read : Read source Unit} (spaced : requireBlank source = .ok read) :
    read.rest = source.dropWhile isBlank := by
  unfold requireBlank at spaced
  dsimp only at spaced
  split at spaced
  · cases spaced
    rfl
  · cases spaced

/-- What is taken behind blanks starts with none, also when its line ends are joined. -/
theorem not_isBlank_of_head? {delimiter : Text} {part : Part} {blanks : Read source Unit}
    {read : Read blanks.rest Text} (spaced : requireBlank source = .ok blanks)
    (taken : takeUntil delimiter part blanks.rest = .ok read) {c : Char}
    (first : read.value.head? = some c) : isBlank c = false := by
  have other {d : Char} (here : blanks.rest.head? = some d) : isBlank d = false := by
    have passed := List.head?_dropWhile_not isBlank source
    rwa [← requireBlank_ok spaced, here] at passed
  rcases head?_of_takeUntil taken first with here | here
  · exact other here
  · exact absurd (other here) (by decide)

theorem comment_ok {read : Read source Leaf} (taken : comment source = .ok read) :
    read.value.ReadFrom source := by
  obtain ⟨body, found, taken⟩ := bind_ok taken
  dsimp only at taken
  split at taken
  · cases taken
  · rename_i proper
    cases taken
    simp only [Bool.or_eq_true, not_or, Text.includes_iff, Text.endsWith,
      List.isSuffixOf_iff_suffix] at proper
    exact ⟨⟨takeUntil_xml found, proper⟩, subset_of_takeUntil found, rfl⟩

theorem cdataSection_ok {read : Read source Leaf} (taken : cdataSection source = .ok read) :
    read.value.ReadFrom source := by
  obtain ⟨body, found, taken⟩ := bind_ok taken
  cases taken
  exact ⟨⟨takeUntil_xml found, not_infix_of_takeUntil found (by decide) (by decide)⟩,
    subset_of_takeUntil found, rfl⟩

theorem instruction_ok {read : Read source Leaf} (taken : instruction source = .ok read) :
    read.value.ReadFrom source := by
  obtain ⟨target, named, taken⟩ := bind_ok taken
  have valid := (name_ok named).1
  dsimp only at taken
  split at taken
  · cases taken
  · rename_i proper
    have other : Text.toLower target.value ≠ "xml".toList := by simpa using proper
    split at taken
    · cases taken
      exact ⟨⟨valid, other, fun _ absent => by cases absent⟩, List.nil_subset _, rfl⟩
    · obtain ⟨blanks, spaced, taken⟩ := bind_ok taken
      obtain ⟨body, found, taken⟩ := bind_ok taken
      cases taken
      refine ⟨⟨valid, other, fun data present => ?_⟩, fun c member => ?_, rfl⟩
      · split at present
        · cases present
        · rename_i nonempty
          cases present
          exact ⟨by simpa using nonempty, takeUntil_xml found,
            not_infix_of_takeUntil found (by decide) (by decide),
            fun c first => not_isBlank_of_head? spaced found first⟩
      · have inside : c ∈ body.value := by
          dsimp only [Leaf.verbatim] at member
          split at member
          · cases member
          · exact member
        exact (blanks.suffix.trans target.suffix).subset (subset_of_takeUntil found inside)

theorem commentOrInstruction?_ok {read : Read source Leaf}
    (found : commentOrInstruction? source = some (.ok read)) : read.value.ReadFrom source := by
  unfold commentOrInstruction? at found
  split at found
  · obtain ⟨inner, taken, rfl⟩ := map_ok (Option.some.inj found)
    exact (comment_ok taken).of_suffix (List.suffix_append ['!', '-', '-'] _)
  · obtain ⟨inner, taken, rfl⟩ := map_ok (Option.some.inj found)
    exact (instruction_ok taken).of_suffix (List.suffix_cons _ _)
  · cases found

theorem contentLeaf?_ok {read : Read source Leaf}
    (found : contentLeaf? source = some (.ok read)) : read.value.ReadFrom source := by
  unfold contentLeaf? at found
  split at found
  · rename_i result first
    cases found
    exact commentOrInstruction?_ok first
  · obtain ⟨opened, -, found⟩ := Option.map_eq_some_iff.mp found
    obtain ⟨inner, taken, rfl⟩ := map_ok found
    exact (cdataSection_ok taken).of_suffix opened.suffix

end Leaves

namespace OpenElement

/-- The start tag is as documents may have it, and the children so far are in normal form. -/
structure Normal (wanted : Leaf → Prop) (element : OpenElement) : Prop where
  tag : WellFormedTag element.name element.attributes
  children : element.content.Normal wanted

end OpenElement

section Steps

variable {wanted : Leaf → Prop} {held : Char → Prop} {setting : Setting} {whole : Text}

/-- What is open is in normal form, and the innermost element waits for its next run of text, whose
characters are of one kind. -/
structure ContentState.Normal (wanted : Leaf → Prop) (held : Char → Prop) (state : ContentState) :
    Prop where
  inner : state.inner.Normal wanted
  outer : ∀ element ∈ state.outer, element.Normal wanted
  apart : state.inner.content.endsRun = false
  pending : ∀ c ∈ state.pending, held c

theorem ContentState.Normal.settled {state : ContentState} (normal : state.Normal wanted held)
    (texts : ∀ {text}, text ≠ [] → (∀ c ∈ text, held c) → wanted (.text text)) :
    state.settled.Normal wanted := by
  unfold ContentState.settled OpenElement.addText
  split
  · exact normal.inner
  · rename_i nonempty
    refine ⟨normal.inner.tag, ?_⟩
    rw [OpenElement.content_addLeaf]
    exact normal.inner.children.concat_leaf
      (texts (by simpa using nonempty) fun c member =>
        normal.pending c (List.mem_reverse.mp member))
      fun _ => normal.apart

theorem ContentStep.keepsNormal {before after : ContentState}
    (step : ContentStep setting whole before after) (normal : before.Normal wanted held)
    (plain : setting.table.Plain) (yields : setting.options.Yields held)
    (texts : ∀ {text}, text ≠ [] → (∀ c ∈ text, held c) → wanted (.text text))
    (leaves : ∀ {leaf : Leaf}, leaf.ReadFrom whole → wanted leaf) : after.Normal wanted held := by
  have settled := normal.settled texts
  cases step with
  | @close parent around outer =>
    have above := normal.outer
    rw [outer, List.forall_mem_cons] at above
    refine ⟨⟨above.1.tag, ?_⟩, above.2, ?_, nofun⟩
    · rw [OpenElement.content_addElement]
      exact above.1.children.concat_element settled.tag settled.children
    · rw [OpenElement.content_addElement, Forest.endsRun_concat_element]
  | leaf here found =>
    have read := (contentLeaf?_ok found).of_suffix here
    refine ⟨⟨settled.tag, ?_⟩, normal.outer, ?_, nofun⟩
    · rw [OpenElement.content_addLeaf]
      exact settled.children.concat_leaf (leaves read) fun run =>
        absurd (read.delimited.symm.trans run) Bool.false_ne_true
    · rw [OpenElement.content_addLeaf, Forest.endsRun_concat_leaf, read.delimited]
  | closed found =>
    refine ⟨⟨settled.tag, ?_⟩, normal.outer, ?_, nofun⟩
    · rw [OpenElement.content_addElement]
      exact settled.children.concat_element (startTag_wellFormed plain found) trivial
    · rw [OpenElement.content_addElement, Forest.endsRun_concat_element]
  | opened found =>
    exact ⟨⟨startTag_wellFormed plain found, trivial⟩,
      List.forall_mem_cons.mpr ⟨settled, normal.outer⟩, rfl, nofun⟩
  | reference found =>
    have value := yields.references plain found
    exact { normal with
      pending := List.forall_mem_append.mpr
        ⟨fun c member => value c (List.mem_reverse.mp member), normal.pending⟩ }
  | character found =>
    exact { normal with
      pending := List.forall_mem_cons.mpr
        ⟨yields.characters _ (isXmlChar_of_nextChar found), normal.pending⟩ }

/-- Elements on top of each other, innermost first, that are nested no deeper than a limit, with
what is inside them. -/
def Fit (limit : Nat) : List OpenElement → Prop
  | [] => True
  | element :: around =>
    element.content.height + around.length + 1 ≤ limit ∧ Fit limit around

/-- What is open, with what is inside, is nested no deeper than a limit. -/
def ContentState.Fits (limit : Nat) (state : ContentState) : Prop :=
  Fit limit (state.inner :: state.outer)

theorem ContentState.height_settled (state : ContentState) :
    state.settled.content.height = state.inner.content.height := by
  unfold ContentState.settled OpenElement.addText
  split
  · rfl
  · rw [OpenElement.content_addLeaf, Forest.height_append]
    exact Nat.max_zero _

theorem startTag_depth {depth : Nat} {ledger : Ledger} {source : Text}
    {result : Read source (StartTag × Ledger)}
    (read : startTag setting depth ledger source = .ok result) :
    depth < setting.options.maxDepth := by
  obtain ⟨name, -, read⟩ := bind_ok read
  dsimp only at read
  split at read
  · cases read
  · omega

theorem ContentStep.keepsFits {before after : ContentState}
    (step : ContentStep setting whole before after)
    (fits : before.Fits setting.options.maxDepth) : after.Fits setting.options.maxDepth := by
  obtain ⟨inner, around⟩ := fits
  rw [← before.height_settled] at inner
  cases step with
  | close outer =>
    rw [outer] at inner around
    refine ⟨?_, around.2⟩
    rw [OpenElement.content_addElement, Forest.height_append]
    have := around.1
    simp only [Forest.height, List.length_cons] at inner ⊢
    omega
  | leaf =>
    refine ⟨?_, around⟩
    rw [OpenElement.content_addLeaf, Forest.height_append]
    simpa [Forest.height] using inner
  | closed found =>
    have := startTag_depth found
    refine ⟨?_, around⟩
    rw [OpenElement.content_addElement, Forest.height_append]
    simp only [OpenElement.content_ofTag, Forest.height]
    omega
  | opened found =>
    have := startTag_depth found
    refine ⟨?_, inner, around⟩
    simp only [OpenElement.content_ofTag, Forest.height, List.length_cons]
    omega
  | reference => exact ⟨before.height_settled ▸ inner, around⟩
  | character => exact ⟨before.height_settled ▸ inner, around⟩

end Steps

end Markup

end XmlSelect
