import Mathlib.Data.List.Chain
import XmlSelect.Encoding.Charset
import XmlSelect.Markup.Bytes
import XmlSelect.Proofs.DoctypePlace
import XmlSelect.Proofs.DocumentOrder

/-! The normal form of documents. Whatever comes out of the entities, a document that was read has
one element at its top and no more than one document type declaration in front of it; names are
names, runs of text are neither empty nor next to each other, and what stands between delimiters
can be written between them again. -/
namespace XmlSelect

/-- A node without children as it is read under all options. Running text may hold any characters,
since it may come from outside the document. -/
def Leaf.Proper : Leaf → Prop
  | .text content => content ≠ []
  | .doctype name systemId publicId => Markup.WellFormedDoctype name systemId publicId
  | leaf => leaf.InContent

theorem Leaf.InContent.toProper {leaf : Leaf} (proper : leaf.InContent) : leaf.Proper := by
  cases leaf with
  | text => exact proper.1
  | doctype => cases proper
  | _ => exact proper

/-- What nodes without children have so that they can be written between their delimiters. -/
def Leaf.Delimited : Leaf → Prop
  | .text content => content ≠ []
  | .cdata content => ¬"]]>".toList <:+: content
  | .comment content => ¬"--".toList <:+: content ∧ ¬['-'] <:+ content
  | .instruction target data => Text.toLower target ≠ "xml".toList ∧
      ∀ body ∈ data, body ≠ [] ∧ ¬"?>".toList <:+: body ∧ ∀ c ∈ body.head?, isBlank c = false
  | .doctype .. => True

theorem Leaf.Proper.delimited {leaf : Leaf} (proper : leaf.Proper) : leaf.Delimited := by
  cases leaf with
  | text => exact proper
  | cdata => exact proper.2
  | comment => exact proper.2
  | instruction =>
    refine ⟨proper.2.1, fun body given => ?_⟩
    obtain ⟨nonempty, -, undelimited, first⟩ := proper.2.2 body given
    exact ⟨nonempty, undelimited, first⟩
  | doctype => trivial

/-- Whether a node is a comment or a processing instruction. -/
def NodeKind.isMisc (kind : NodeKind) : Bool := kind.isComment || kind.isInstruction

/-- Whether a node is a run of text. -/
def NodeKind.isRun : NodeKind → Bool
  | .leaf self => self.isRun
  | _ => false

/-- A node with what is inside it, all in normal form. -/
structure Node.Normal (wanted : Leaf → Prop) (node : Node) : Prop where
  content : node.content.Normal wanted
  tag : ∀ name attributes, node.kind = .element name attributes →
    Markup.WellFormedTag name attributes
  attr : ∀ self, node.kind = .attr self → Markup.WellFormedAttribute self
  leaf : ∀ self, node.kind = .leaf self → wanted self

namespace Document

variable {document : Document}

/-- Whether a node is a comment or a processing instruction. -/
def isMisc (document : Document) (id : Nat) : Bool := (document.kind? id).any NodeKind.isMisc

/-- Whether a node is a run of text. -/
def isRun (document : Document) (id : Nat) : Bool := (document.kind? id).any NodeKind.isRun

/-- The document node has one element for a child, at most one document type declaration, which
comes before it, and else comments and processing instructions. -/
structure TopForm (document : Document) : Prop where
  element : ∃ element, (document.children root).filter document.isElement = [element]
  doctype : ((document.children root).filter document.isDoctype).length ≤ 1
  doctype_first : ∀ declaration ∈ document.children root, ∀ element ∈ document.children root,
    document.isDoctype declaration = true → document.isElement element = true →
      declaration < element
  others : ∀ id ∈ document.children root, document.isElement id = true ∨
    document.isDoctype id = true ∨ document.isMisc id = true

/-- The normal form of documents. -/
structure NormalForm (document : Document) : Prop extends document.TopForm where
  named : ∀ id name, document.name? id = some name → Markup.IsName name
  distinct : ∀ id, DistinctNames (document.attributes id)
  apart : ∀ left right, document.nextSibling? left = some right →
    ¬(document.isRun left = true ∧ document.isRun right = true)
  delimited : ∀ id self, document.kind? id = some (.leaf self) → self.Delimited

section Nodes

variable {wanted : Leaf → Prop} {parent next id : Nat} {forest : Forest}

/-- Each node of siblings in normal form is in normal form. -/
theorem Places.normal (places : document.Places parent next forest)
    (normal : forest.Normal wanted) (covers : forest.Covers id next) {node : Node}
    (found : document.node? id = some node) : node.Normal wanted := by
  induction covers generalizing parent with
  | leaf =>
    cases places.1.symm.trans found
    exact ⟨trivial, nofun, nofun, fun _ same => by cases same; exact normal.1⟩
  | afterLeaf _ ih => exact ih places.2 normal.2.2
  | element =>
    cases places.1.symm.trans found
    exact ⟨normal.2.1, fun _ _ same => by cases same; exact normal.1, nofun, nofun⟩
  | attr listed place =>
    subst place
    cases (places.2.1 _ _ listed).symm.trans found
    have own := normal.1.each _ (List.mem_of_getElem? listed)
    exact ⟨trivial, nofun, fun _ same => by cases same; exact own, nofun⟩
  | inside _ ih => exact ih places.2.2.1 normal.2.1
  | afterElement _ ih => exact ih places.2.2.2 normal.2.2

theorem node_normal (normal : document.content.Normal wanted) {node : Node}
    (found : document.node? id = some node) : node.Normal wanted := by
  by_cases isRoot : id = root
  · subst isRoot
    cases (node?_root document).symm.trans found
    exact ⟨normal, nofun, nofun, nofun⟩
  · have here : document.kind? id = some node.kind := by rw [kind?, found]; rfl
    refine (places_content document).normal normal (covers_of_kind here fun isDocument => ?_) found
    rw [isDocument] at here
    exact isRoot ((kind?_eq_document_iff document id).mp here)

theorem isRun_eq {node : Node} (found : document.node? id = some node) :
    document.isRun id = node.kind.isRun := by
  rw [isRun, kind?, found]
  rfl

/-- Of two siblings in normal form that are next to each other, one is no run of text. -/
theorem Places.isChain_starts (places : document.Places parent next forest)
    (normal : forest.Normal wanted) :
    (forest.starts next).IsChain fun left right =>
      ¬(document.isRun left = true ∧ document.isRun right = true) := by
  induction forest generalizing next with
  | nil => exact .nil
  | leaf first rest ih =>
    refine (ih places.2 normal.2.2).cons fun right following ⟨run, next⟩ => ?_
    rw [isRun_eq places.1] at run
    have other := normal.2.1 run
    cases rest with
    | nil => cases following
    | leaf second rest =>
      cases following
      rw [isRun_eq places.2.1] at next
      exact Bool.false_ne_true (other.symm.trans next)
    | element =>
      cases following
      rw [isRun_eq places.2.1] at next
      cases next
  | element name attributes content rest _ ih =>
    refine (ih places.2.2.2 normal.2.2).cons fun right _ ⟨run, _⟩ => ?_
    rw [isRun_eq places.1] at run
    cases run

theorem apart_of_normal (normal : document.content.Normal wanted) {left right : Nat}
    (next : document.nextSibling? left = some right) :
    ¬(document.isRun left = true ∧ document.isRun right = true) := by
  obtain ⟨parent, front, back, split⟩ := nextSibling?_eq_some_iff.mp next
  cases found : document.node? parent with
  | none => simp [children_eq_nil found] at split
  | some node =>
    rw [children_eq found] at split
    have chain :=
      (settled_of_node? found).1.content.isChain_starts (node_normal normal found).content
    rw [← childStarts, split] at chain
    exact (List.isChain_append.mp chain).2.1.rel

theorem isName_of_normal (normal : document.content.Normal Leaf.Proper) {name : Text}
    (called : document.name? id = some name) : Markup.IsName name := by
  obtain ⟨kind, here, called⟩ := Option.bind_eq_some_iff.mp called
  obtain ⟨node, found, rfl⟩ := Option.map_eq_some_iff.mp here
  have sound := node_normal normal found
  cases kind : node.kind with
  | document =>
    rw [kind] at called
    cases called
  | element =>
    rw [kind] at called
    cases called
    exact (sound.tag _ _ kind).named
  | attr =>
    rw [kind] at called
    cases called
    exact (sound.attr _ kind).named
  | leaf self =>
    have proper := sound.leaf self kind
    rw [kind] at called
    cases self with
    | instruction =>
      cases called
      exact proper.1
    | _ => cases called

theorem distinct_of_normal (normal : document.content.Normal wanted) (id : Nat) :
    DistinctNames (document.attributes id) := by
  cases found : document.node? id with
  | none => simp [attributes, kind?, found, DistinctNames]
  | some node =>
    rw [attributes_eq found]
    cases kind : node.kind with
    | element => exact ((node_normal normal found).tag _ _ kind).distinct
    | _ => exact List.nodup_nil

end Nodes

section Top

open Markup (Topmost)

variable {wanted : Leaf → Prop} {limit next id : Nat} {forest : Forest}

theorem not_isElement_of_isDoctype (declares : document.isDoctype id = true) :
    document.isElement id = false := by
  obtain ⟨kind, here, isDoctype⟩ := (Option.any_eq_true ..).mp declares
  rw [isElement, here]
  cases kind <;> first | rfl | cases isDoctype

theorem not_isElement_of_isMisc (misc : document.isMisc id = true) :
    document.isElement id = false ∧ document.isDoctype id = false := by
  obtain ⟨kind, here, isMisc⟩ := (Option.any_eq_true ..).mp misc
  rw [isElement, isDoctype, here]
  cases kind with
  | leaf self => cases self <;> first | exact ⟨rfl, rfl⟩ | cases isMisc
  | _ => cases isMisc

theorem isMisc_of_leaf {self : Leaf} (kind : document.kind? id = some (.leaf self))
    (markup : self.isText = false) (plain : self.isDoctype = false) :
    document.isMisc id = true := by
  rw [isMisc, kind]
  cases self with
  | text => cases markup
  | cdata => cases markup
  | comment => rfl
  | instruction => rfl
  | doctype => cases plain

/-- Behind the element at the top stand comments and instructions. -/
theorem Places.isMisc_of_rooted {declared rooted : Bool}
    (places : document.Places root next forest)
    (top : Topmost wanted limit declared rooted forest) (seen : rooted = true) :
    ∀ id ∈ forest.starts next, document.isMisc id = true := by
  induction top generalizing next with
  | nil => exact nofun
  | leaf _ markup plain _ ih =>
    refine List.forall_mem_cons.mpr ⟨?_, ih places.2 seen⟩
    exact isMisc_of_leaf (by rw [kind?, places.1]; rfl) markup plain
  | doctype => cases seen
  | element => cases seen

/-- In front of the element at the top stand comments, instructions, and one document type
declaration if none has been read before. -/
theorem Places.exists_element {declared rooted : Bool}
    (places : document.Places root next forest)
    (top : Topmost wanted limit declared rooted forest) (unseen : rooted = false) :
    ∃ front element back, forest.starts next = front ++ element :: back ∧
      document.isElement element = true ∧
      (∀ id ∈ front, document.isDoctype id = true ∨ document.isMisc id = true) ∧
      (front.filter document.isDoctype).length ≤ (if declared then 0 else 1) ∧
      ∀ id ∈ back, document.isMisc id = true := by
  induction top generalizing next with
  | nil => cases unseen
  | leaf _ markup plain _ ih =>
    obtain ⟨front, element, back, split, isElement, before, few, behind⟩ := ih places.2 unseen
    have misc : document.isMisc next = true :=
      isMisc_of_leaf (by rw [kind?, places.1]; rfl) markup plain
    refine ⟨next :: front, element, back, congrArg (next :: ·) split, isElement,
      List.forall_mem_cons.mpr ⟨.inr misc, before⟩, ?_, behind⟩
    rwa [List.filter_cons_of_neg (by simp [(not_isElement_of_isMisc misc).2])]
  | doctype _ _ ih =>
    obtain ⟨front, element, back, split, isElement, before, few, behind⟩ := ih places.2 unseen
    have declares : document.isDoctype next = true := by
      rw [isDoctype, kind?, places.1]
      rfl
    refine ⟨next :: front, element, back, congrArg (next :: ·) split, isElement,
      List.forall_mem_cons.mpr ⟨.inl declares, before⟩, ?_, behind⟩
    rw [List.filter_cons_of_pos declares, List.length_cons]
    exact Nat.succ_le_succ few
  | element _ behind =>
    refine ⟨[], next, _, rfl, ?_, List.forall_mem_nil _, Nat.zero_le _,
      places.2.2.2.isMisc_of_rooted behind rfl⟩
    rw [isElement, kind?, places.1]
    rfl

end Top

end Document

namespace Markup

variable {options : Options} {source : Text} {bytes : List UInt8} {reading : Reading}

/-- The nodes at the top are also siblings in normal form. -/
theorem Topmost.normal {limit : Nat} {declared rooted : Bool} {forest : Forest}
    (top : Topmost Leaf.Proper limit declared rooted forest) : forest.Normal Leaf.Proper := by
  induction top with
  | nil => trivial
  | @leaf _ _ first _ fits markup _ _ ih =>
    refine ⟨fits, fun run => ?_, ih⟩
    cases first with
    | text => cases markup
    | _ => cases run
  | doctype proper _ ih => exact ⟨proper, nofun, ih⟩
  | element normal _ ih => exact ⟨normal.tag, normal.content, ih⟩

theorem parse_proper (read : parse options source = .ok reading) :
    Topmost Leaf.Proper options.maxDepth false false reading.document.content :=
  parse_topmost_of_yields read options.yields_any (fun nonempty _ => nonempty) fun read =>
    read.proper.toProper

theorem topForm_of_topmost {document : Document} {limit : Nat}
    (top : Topmost Leaf.Proper limit false false document.content) : document.TopForm := by
  obtain ⟨front, element, back, split, isElement, before, few, behind⟩ :=
    (Document.places_content document).exists_element top rfl
  have children : document.children Document.root = front ++ element :: back :=
    (Document.children_eq (Document.node?_root document)).trans split
  have noElement (id : Nat) (member : id ∈ front ∨ id ∈ back) : document.isElement id = false := by
    obtain member | member := member
    · exact (before id member).elim Document.not_isElement_of_isDoctype
        fun misc => (Document.not_isElement_of_isMisc misc).1
    · exact (Document.not_isElement_of_isMisc (behind id member)).1
  have noDoctype (id : Nat) (member : id ∈ element :: back) : document.isDoctype id = false := by
    obtain rfl | member := List.mem_cons.mp member
    · refine Bool.eq_false_iff.mpr fun declares => ?_
      exact Bool.false_ne_true ((Document.not_isElement_of_isDoctype declares).symm.trans isElement)
    · exact (Document.not_isElement_of_isMisc (behind id member)).2
  have sorted := children ▸ Document.children_pairwise document Document.root
  refine ⟨⟨element, ?_⟩, ?_, ?_, ?_⟩
  · have none {ids : List Nat} (other : ∀ id ∈ ids, document.isElement id = false) :
        ids.filter document.isElement = [] :=
      List.filter_eq_nil_iff.mpr fun id member => by simp [other id member]
    rw [children, List.filter_append, List.filter_cons_of_pos isElement,
      none fun id member => noElement id (.inl member),
      none fun id member => noElement id (.inr member), List.nil_append]
  · have none : (element :: back).filter document.isDoctype = [] :=
      List.filter_eq_nil_iff.mpr fun id member => by simp [noDoctype id member]
    rw [children, List.filter_append, none, List.append_nil]
    exact few
  · intro declaration child other child' declares rooted
    rw [children, List.mem_append] at child child'
    have first : declaration ∈ front := child.resolve_right fun member =>
      Bool.false_ne_true ((noDoctype _ member).symm.trans declares)
    have second : other ∈ element :: back := child'.resolve_left fun member =>
      Bool.false_ne_true ((noElement _ (.inl member)).symm.trans rooted)
    exact (List.pairwise_append.mp sorted).2.2 _ first _ second
  · intro id child
    rw [children, List.mem_append, List.mem_cons] at child
    obtain member | rfl | member := child
    · exact .inr (before id member)
    · exact .inl isElement
    · exact .inr (.inr (behind id member))

theorem normalForm_of_topmost {document : Document} {limit : Nat}
    (top : Topmost Leaf.Proper limit false false document.content) : document.NormalForm := by
  have normal := top.normal
  refine ⟨topForm_of_topmost top, fun id name => Document.isName_of_normal normal,
    Document.distinct_of_normal normal, fun _ _ => Document.apart_of_normal normal, ?_⟩
  intro id self kind
  obtain ⟨node, found, same⟩ := Option.map_eq_some_iff.mp kind
  exact ((Document.node_normal normal found).leaf self same).delimited

/-- Every document that was read, from a text or from bytes, is in normal form. -/
theorem normalForm_of_reading [Encoding.Library] (read : parse options source = .ok reading ∨
      parseText options source = .ok reading ∨ parseBytes options bytes = .ok reading) :
    reading.document.NormalForm := by
  have fromText {source : Text} (read : parseText options source = .ok reading) :
      reading.document.NormalForm := by
    rw [parseText_eq] at read
    exact normalForm_of_topmost (parse_proper read)
  obtain read | read | read := read
  · exact normalForm_of_topmost (parse_proper read)
  · exact fromText read
  · unfold parseBytes at read
    split at read
    · cases read
    · exact fromText (mapError_ok read)

/-- Text that is put together around references that stand for nothing, beside a CDATA section. -/
theorem normalForm_of_reading_joined :
    let source :=
      "<?p ?><!DOCTYPE a [<!ENTITY e ''>]><a b='' c='&e;'>&e;x&e;\r\n<![CDATA[]]>&e;</a>".toList
    ∃ reading, parseText {} source = .ok reading ∧ reading.document.content =
        .leaf (.instruction ['p'] none) (.leaf (.doctype ['a'] none none)
          (.element ['a'] [⟨['b'], []⟩, ⟨['c'], []⟩]
            (.leaf (.text ['x', '\n']) (.leaf (.cdata []) .nil)) .nil)) ∧
      reading.document.NormalForm := by
  have read : (parseText {}
      "<?p ?><!DOCTYPE a [<!ENTITY e ''>]><a b='' c='&e;'>&e;x&e;\r\n<![CDATA[]]>&e;</a>".toList
      ).toOption.map (·.document.content) =
        some (.leaf (.instruction ['p'] none) (.leaf (.doctype ['a'] none none)
          (.element ['a'] [⟨['b'], []⟩, ⟨['c'], []⟩]
            (.leaf (.text ['x', '\n']) (.leaf (.cdata []) .nil)) .nil))) := by
    decide +kernel
  generalize
    "<?p ?><!DOCTYPE a [<!ENTITY e ''>]><a b='' c='&e;'>&e;x&e;\r\n<![CDATA[]]>&e;</a>".toList =
      source at read ⊢
  dsimp only
  cases parsed : parseText {} source with
  | error _ => rw [parsed] at read; cases read
  | ok reading =>
    rw [parsed] at read
    exact ⟨reading, rfl, Option.some.inj read,
      @normalForm_of_reading {} source [] reading inferInstance (.inr (.inl parsed))⟩

end Markup

end XmlSelect
