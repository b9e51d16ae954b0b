import XmlSelect.Proofs.PrintedMarkup
import XmlSelect.Proofs.RootElement

/-! Elements that a document can hold are read back from the text that they are printed to, with
the line ends in what is written as it stands joined once more. The induction follows the forest;
what stands between a step and the next is the run of text that no markup has ended yet. -/
namespace XmlSelect

theorem Forest.reverseOnto_reverseOnto (first second last : Forest) :
    (first.reverseOnto second).reverseOnto last = second.reverseOnto (first ++ last) := by
  induction first generalizing second with
  | nil => rfl
  | leaf self rest ih => exact ih (leaf self second)
  | element name attributes content rest _ ih => exact ih (element name attributes content second)

theorem Forest.reverse_reverse (forest : Forest) : forest.reverse.reverse = forest :=
  (forest.reverseOnto_reverseOnto nil nil).trans forest.append_nil

namespace Markup

@[simp] theorem addText_nil (element : OpenElement) : element.addText [] = element := rfl

/-- Puts siblings behind the children of an open element. -/
def OpenElement.addForest (element : OpenElement) (forest : Forest) : OpenElement :=
  { element with before := forest.reverseOnto element.before }

section Steps

variable {setting : Setting} {whole : Text} {inner : OpenElement} {outer : List OpenElement}
  {pending : Text} {ledger : Ledger} {rest : Text}

/-- Where markup begins, the run of text in front of it is over. -/
theorem content_settled (within : '<' :: rest <:+ whole) :
    content setting whole inner outer pending ledger ('<' :: rest) within =
      content setting whole (inner.addText pending) outer [] ledger ('<' :: rest) within := by
  rw [content, content]
  rfl

theorem content_leaf {leaf : Leaf} {after : Text} {suffix : after <:+ rest}
    (open_ : take? ['/'] rest = none)
    (found : contentLeaf? rest = some (.ok ⟨leaf, after, suffix⟩))
    (within : '<' :: rest <:+ whole) :
    ∃ within', content setting whole inner outer pending ledger ('<' :: rest) within =
      content setting whole ((inner.addText pending).addLeaf leaf) outer [] ledger after
        within' := by
  refine ⟨suffix.trans ((List.suffix_cons _ _).trans within), ?_⟩
  rw [content, if_pos (by decide), open_]
  dsimp only
  rw [found]
  rfl

theorem take?_of_isNameStart (starts : rest.head?.any isNameStart = true) {first : Char}
    (other : isNameStart first = false) (wanted : Text) : take? (first :: wanted) rest = none := by
  cases rest with
  | nil => exact take?_eq_none rfl
  | cons c rest => exact take?_cons_of_ne (ne_of_isNameStart starts first other).symm _ _

theorem commentOrInstruction?_of_isNameStart (starts : rest.head?.any isNameStart = true) :
    commentOrInstruction? rest = none := by
  cases rest with
  | nil => rfl
  | cons c rest =>
    have bang := ne_of_isNameStart starts '!' (by decide)
    have mark := ne_of_isNameStart starts '?' (by decide)
    simp [commentOrInstruction?, bang, mark]

theorem contentLeaf?_of_isNameStart (starts : rest.head?.any isNameStart = true) :
    contentLeaf? rest = none := by
  rw [contentLeaf?, commentOrInstruction?_of_isNameStart starts]
  dsimp only
  rw [show take? "![CDATA[".toList rest = none from take?_of_isNameStart starts (by decide) _]
  rfl

/-- Where an element begins, its start tag is read, and then the content of the element, or what
stands behind the tag if that closes it. -/
theorem content_startTag (starts : rest.head?.any isNameStart = true) {element : Text}
    {attributes : List Attribute} {closed : Bool} {after : Text} {suffix : after <:+ rest}
    (tagged : startTag setting (outer.length + 1) ledger rest =
      .ok ⟨(⟨element, attributes, closed⟩, ledger), after, suffix⟩)
    (within : '<' :: rest <:+ whole) :
    ∃ within', content setting whole inner outer pending ledger ('<' :: rest) within =
      if closed then
        content setting whole ((inner.addText pending).addElement ⟨element, attributes, .nil⟩) outer
          [] ledger after within'
      else
        content setting whole ⟨element, attributes, .nil⟩ (inner.addText pending :: outer) [] ledger
          after within' := by
  refine ⟨suffix.trans ((List.suffix_cons _ _).trans within), ?_⟩
  rw [content, if_pos (by decide), take?_of_isNameStart starts (by decide)]
  dsimp only
  rw [contentLeaf?_of_isNameStart starts]
  dsimp only
  rw [tagged]
  rfl

/-- Where an end tag stands, the element is a child of the one around it, or the outermost one and
its content is over. -/
theorem content_endTag {name : Text} (named : inner.name = name) (valid : IsName name)
    (within : '<' :: '/' :: (name ++ ['>'] ++ rest) <:+ whole) :
    ∃ within', content setting whole inner outer [] ledger
        ('<' :: '/' :: (name ++ ['>'] ++ rest)) within =
      match outer with
      | [] => .ok ⟨(inner, ledger), rest, within'⟩
      | parent :: outer =>
        content setting whole (parent.addElement inner) outer [] ledger rest within' := by
  obtain ⟨suffix, closed⟩ : ∃ suffix, endTag inner.name (name ++ ['>'] ++ rest) =
      .ok ⟨(), rest, suffix⟩ := named ▸ takes_endTag valid rest _ rfl
  refine ⟨suffix.trans ((List.suffix_append ['<', '/'] _).trans within), ?_⟩
  have opened : take? ['/'] ('/' :: (name ++ ['>'] ++ rest)) =
      some ⟨(), name ++ ['>'] ++ rest, List.suffix_cons _ _⟩ := take?_append ['/'] _
  rw [content, if_pos (by decide), opened]
  dsimp only
  rw [addText_nil, closed]
  cases outer <;> rfl

theorem content_reference {c : Char} {body : Text} (stands : StandsFor body c)
    (within : '&' :: (body ++ rest) <:+ whole) :
    ∃ within', content setting whole inner outer pending ledger ('&' :: (body ++ rest)) within =
      content setting whole inner outer (c :: pending) ledger rest within' := by
  obtain ⟨suffix, referred⟩ := stands setting .content ledger rest _ rfl
  refine ⟨suffix.trans ((List.suffix_cons _ _).trans within), ?_⟩
  rw [content, if_neg (by decide), if_pos (by decide), referred]
  rfl

theorem content_character {c : Char} (held : isXmlChar c = true) (ampersand : c ≠ '&')
    (less : c ≠ '<') (return_ : c ≠ '\r') (ordinary : take? "]]>".toList (c :: rest) = none)
    (within : c :: rest <:+ whole) :
    ∃ within', content setting whole inner outer pending ledger (c :: rest) within =
      content setting whole inner outer (c :: pending) ledger rest within' := by
  refine ⟨(List.suffix_cons _ _).trans within, ?_⟩
  rw [content, if_neg (by simpa using less), if_neg (by simpa using ampersand), ordinary,
    if_neg (by simp), nextChar_eq held return_]
  rfl

/-- Nothing that closes a section is written for text: no `>` is written as it stands. -/
theorem take?_sectionEnd (c : Char) (run rest : Text) :
    take? "]]>".toList (c :: (run.flatMap escapeText ++ '<' :: rest)) = none := by
  have first (run : Text) :
      Text.dropPrefix? ['>'] (run.flatMap escapeText ++ '<' :: rest) = none := by
    cases run with
    | nil => rfl
    | cons d run =>
      rcases escapeText_cases d with ⟨body, written, -⟩ | ⟨written, -, -, greater, -⟩
      · simp [written, Text.dropPrefix?]
      · simp [written, Text.dropPrefix?, greater.symm]
  have second : Text.dropPrefix? [']', '>'] (run.flatMap escapeText ++ '<' :: rest) = none := by
    cases run with
    | nil => rfl
    | cons d run =>
      rcases escapeText_cases d with ⟨body, written, -⟩ | ⟨written, -⟩
      · simp [written, Text.dropPrefix?]
      · rw [List.flatMap_cons, written, List.singleton_append, List.cons_append, Text.dropPrefix?,
          first run, ite_self]
  refine take?_eq_none ?_
  have pattern : "]]>".toList = ']' :: [']', '>'] := rfl
  rw [pattern, Text.dropPrefix?, second, ite_self]

/-- A run of text is read back up to the markup behind it. -/
theorem content_printText {run : Text} (held : XmlText run) :
    ∀ (pending : Text) (within : run.flatMap escapeText ++ '<' :: rest <:+ whole), ∃ within',
      content setting whole inner outer pending ledger (run.flatMap escapeText ++ '<' :: rest)
          within =
        content setting whole inner outer (run.reverse ++ pending) ledger ('<' :: rest)
          within' := by
  induction run with
  | nil => exact fun pending within => ⟨within, rfl⟩
  | cons c run ih =>
    intro pending within
    have further := ih (fun d member => held d (List.mem_cons_of_mem c member)) (c :: pending)
    rw [List.reverse_cons, List.append_assoc, List.singleton_append]
    revert within
    rw [List.flatMap_cons, List.append_assoc]
    rcases escapeText_cases c with ⟨body, written, stands⟩ | ⟨written, ampersand, less, -, return_⟩
    · rw [written, List.cons_append]
      intro within
      obtain ⟨behind, step⟩ := content_reference stands within
      rw [step]
      exact further behind
    · rw [written, List.singleton_append]
      intro within
      obtain ⟨behind, step⟩ := content_character (held c List.mem_cons_self) ampersand less return_
        (take?_sectionEnd c run rest) within
      rw [step]
      exact further behind

end Steps

section Printed

variable {setting : Setting} {whole : Text} {ledger : Ledger}

/-- What is written for siblings, the first of them no run of text, begins with markup. -/
theorem printForest_head (depth : Nat) {forest : Forest} (normal : forest.Normal Leaf.InContent)
    (first : forest.startsRun = false) (rest : Text) :
    ∃ more, printForest {} depth [] forest ++ '<' :: rest = '<' :: more := by
  cases forest with
  | nil => exact ⟨rest, rfl⟩
  | leaf leaf behind =>
    obtain ⟨body, written, -⟩ := contentLeaf?_printed normal.1 first []
    exact ⟨_, by rw [printForest, List.nil_append, written, List.cons_append, List.cons_append]⟩
  | element name attributes content behind =>
    rw [printForest]
    split <;> exact ⟨_, rfl⟩

/-- An element without content is written as one tag. -/
theorem printForest_empty (depth : Nat) (name : Text) (attributes : List Attribute) (rest : Forest)
    (tail : Text) :
    printForest {} depth [] (.element name attributes .nil rest) ++ tail =
      '<' :: (printStartTag name attributes true ++ (printForest {} depth [] rest ++ tail)) := by
  rw [printForest]
  simp [printStartTag, tagEnd, Forest.isEmpty]

/-- Content is written between the two tags of its element. -/
theorem printForest_filled (depth : Nat) (name : Text) (attributes : List Attribute)
    {children : Forest} (filled : children.isEmpty = false) (rest : Forest) (tail : Text) :
    printForest {} depth [] (.element name attributes children rest) ++ tail =
      '<' :: (printStartTag name attributes false ++ (printForest {} (depth + 1) [] children ++
        '<' :: '/' :: (name ++ ['>'] ++ (printForest {} depth [] rest ++ tail)))) := by
  rw [printForest, filled]
  simp [printStartTag, tagEnd]

theorem addLeaf_addForest (element : OpenElement) (leaf : Leaf) (rest : Forest) :
    (element.addLeaf leaf).addForest rest = element.addForest (.leaf leaf rest) := rfl

theorem addElement_addForest (element : OpenElement) (name : Text) (attributes : List Attribute)
    (content rest : Forest) :
    (element.addElement (OpenElement.addForest ⟨name, attributes, .nil⟩ content)).addForest rest =
      element.addForest (.element name attributes content rest) := by
  unfold OpenElement.addElement OpenElement.addForest
  dsimp only
  rw [← Forest.reverse, Forest.reverse_reverse]
  rfl

variable (setting ledger) in
/-- Siblings are read back behind what has been read before. A run of text in front of them would be
joined with one that they start with. -/
def ReadBack (forest : Forest) : Prop :=
  ∀ (whole : Text) (depth : Nat) (inner : OpenElement) (outer : List OpenElement)
    (pending rest : Text) (within : printForest {} depth [] forest ++ '<' :: rest <:+ whole),
    (pending ≠ [] → forest.startsRun = false) →
    forest.height + outer.length < setting.options.maxDepth → ∃ within',
      content setting whole inner outer pending ledger
          (printForest {} depth [] forest ++ '<' :: rest) within =
        content setting whole ((inner.addText pending).addForest forest.joined) outer [] ledger
          ('<' :: rest) within'

variable {behind : Forest}

/-- A run of text lasts up to the markup behind it. -/
theorem ReadBack.text {run : Text} (nonempty : run ≠ []) (held : XmlText run)
    (next : behind.startsRun = false) (normal : behind.Normal Leaf.InContent)
    (further : ReadBack setting ledger behind) :
    ReadBack setting ledger (.leaf (.text run) behind) := by
  intro whole depth inner outer pending rest within apart room
  obtain rfl : pending = [] := by
    by_contra filled
    cases apart filled
  have settled : inner.addText run.reverse = (inner.addText []).addLeaf (.text run) := by
    simp [OpenElement.addText, nonempty]
  have written : printLeaf (.text run) = run.flatMap escapeText := rfl
  obtain ⟨more, markup⟩ := printForest_head depth normal next rest
  have further := further whole depth inner outer run.reverse rest
  rw [markup] at further
  revert within
  rw [printForest, List.nil_append, List.append_assoc, markup, written]
  intro within
  obtain ⟨behind, step⟩ := content_printText held [] within
  rw [List.append_nil] at step
  obtain ⟨last, read⟩ := further behind (fun _ => next) room
  exact ⟨last, by rw [step, read, settled, addLeaf_addForest]; rfl⟩

theorem ReadBack.delimited {leaf : Leaf} (proper : leaf.InContent)
    (delimited : leaf.isRun = false) (further : ReadBack setting ledger behind) :
    ReadBack setting ledger (.leaf leaf behind) := by
  intro whole depth inner outer pending rest within apart room
  obtain ⟨body, written, unclosed, suffix, found⟩ :=
    contentLeaf?_printed proper delimited (printForest {} depth [] behind ++ '<' :: rest)
  revert within
  rw [printForest, List.nil_append, List.append_assoc, written, List.cons_append]
  intro within
  obtain ⟨after, step⟩ := content_leaf unclosed found within
  obtain ⟨last, read⟩ := further whole depth ((inner.addText pending).addLeaf leaf.joined) outer
    [] rest after (absurd rfl) room
  exact ⟨last, by rw [step, read, addText_nil, addLeaf_addForest]; rfl⟩

theorem ReadBack.empty {name : Text} {attributes : List Attribute}
    (tag : WellFormedTag name attributes) (further : ReadBack setting ledger behind) :
    ReadBack setting ledger (.element name attributes .nil behind) := by
  intro whole depth inner outer pending rest within apart room
  rw [Forest.height] at room
  obtain ⟨suffix, tagged⟩ := takes_startTag setting ledger tag true
    (by omega : outer.length + 1 < setting.options.maxDepth)
    (printForest {} depth [] behind ++ '<' :: rest) _ rfl
  revert within
  rw [printForest_empty]
  intro within
  obtain ⟨after, step⟩ :=
    content_startTag (printStartTag_head tag.named attributes true _) tagged within
  obtain ⟨last, read⟩ := further whole depth _ outer [] rest after (absurd rfl) (by omega)
  exact ⟨last, by
    rw [step, if_pos rfl, read, addText_nil, Forest.joined, ← addElement_addForest]
    rfl⟩

theorem ReadBack.filled {name : Text} {attributes : List Attribute} {children : Forest}
    (tag : WellFormedTag name attributes) (filled : children.isEmpty = false)
    (inside : ReadBack setting ledger children) (further : ReadBack setting ledger behind) :
    ReadBack setting ledger (.element name attributes children behind) := by
  intro whole depth inner outer pending rest within apart room
  rw [Forest.height] at room
  obtain ⟨suffix, tagged⟩ := takes_startTag setting ledger tag false
    (by omega : outer.length + 1 < setting.options.maxDepth)
    (printForest {} (depth + 1) [] children ++
      '<' :: '/' :: (name ++ ['>'] ++ (printForest {} depth [] behind ++ '<' :: rest))) _ rfl
  revert within
  rw [printForest_filled depth name attributes filled]
  intro within
  obtain ⟨after, opened⟩ :=
    content_startTag (printStartTag_head tag.named attributes false _) tagged within
  obtain ⟨before, read⟩ := inside whole (depth + 1) ⟨name, attributes, .nil⟩
    (inner.addText pending :: outer) [] _ after (absurd rfl) (by rw [List.length_cons]; omega)
  have named : (OpenElement.addForest ⟨name, attributes, .nil⟩ children.joined).name = name := rfl
  obtain ⟨closing, closed⟩ := content_endTag named tag.named before
  obtain ⟨last, behind⟩ := further whole depth _ outer [] rest closing (absurd rfl) (by omega)
  refine ⟨last, ?_⟩
  rw [opened, if_neg Bool.false_ne_true, read, addText_nil, closed]
  dsimp only
  rw [behind, addText_nil, addElement_addForest]
  rfl

/-- Siblings in normal form are read back. -/
theorem readBack_of_normal {forest : Forest} (normal : forest.Normal Leaf.InContent) :
    ReadBack setting ledger forest := by
  induction forest with
  | nil => exact fun _ _ inner outer pending rest within _ _ => ⟨within, content_settled within⟩
  | leaf leaf behind ih =>
    obtain ⟨proper, next, normal⟩ := normal
    cases run : leaf.isRun with
    | true =>
      cases leaf with
      | text => exact .text proper.1 proper.2 (next run) normal (ih normal)
      | _ => cases run
    | false => exact .delimited proper run (ih normal)
  | element name attributes children behind inside ih =>
    obtain ⟨tag, childrenNormal, normal⟩ := normal
    cases children with
    | nil => exact .empty tag (ih normal)
    | _ => exact .filled tag rfl (inside childrenNormal) (ih normal)

/-- The element at the top is read back. -/
theorem rootElement_printed (setting : Setting) (ledger : Ledger) {element : Element}
    (normal : element.Normal Leaf.InContent setting.options.maxDepth) (tail : Text) :
    ∃ body, printForest {} 0 [] element.alone ++ tail = '<' :: body ∧
      body.head?.any isNameStart = true ∧ ∃ suffix, rootElement setting ledger body =
        .ok ⟨(⟨element.name, element.attributes, element.content.joined.reverse⟩, ledger), tail,
          suffix⟩ := by
  obtain ⟨name, attributes, children⟩ := element
  obtain ⟨tag, childrenNormal, room⟩ := normal
  have starts := printStartTag_head tag.named attributes
  have above : 0 < setting.options.maxDepth := Nat.zero_lt_of_lt room
  rw [Element.alone]
  cases empty : children.isEmpty with
  | true =>
    obtain rfl : children = .nil := by
      cases children with
      | nil => rfl
      | _ => cases empty
    obtain ⟨suffix, tagged⟩ := takes_startTag setting ledger tag true above tail _ rfl
    refine ⟨printStartTag name attributes true ++ tail,
      printForest_empty 0 name attributes .nil tail, starts true _, suffix, ?_⟩
    rw [rootElement, tagged]
    rfl
  | false =>
    obtain ⟨behind, tagged⟩ := takes_startTag setting ledger tag false above
      (printForest {} (0 + 1) [] children ++ '<' :: '/' :: (name ++ ['>'] ++ tail)) _ rfl
    obtain ⟨closing, read⟩ := readBack_of_normal childrenNormal _ (0 + 1) ⟨name, attributes, .nil⟩
      [] [] _ behind (absurd rfl) (by simpa using room)
    have named : (OpenElement.addForest ⟨name, attributes, .nil⟩ children.joined).name = name := rfl
    obtain ⟨suffix, ended⟩ := content_endTag named tag.named closing
    refine ⟨printStartTag name attributes false ++ (printForest {} (0 + 1) [] children ++
      '<' :: '/' :: (name ++ ['>'] ++ tail)), printForest_filled 0 name attributes empty .nil tail,
      starts false _, suffix, ?_⟩
    rw [rootElement, tagged, ok_bind]
    dsimp only
    rw [if_neg Bool.false_ne_true]
    exact read.trans ended

end Printed

/-- A declaration has a blank behind its first letters. -/
theorem optionalDeclaration_none {source : Text}
    (other : ∀ rest, source = "<?xml".toList ++ rest → rest.head?.any isBlank = false) :
    optionalDeclaration source = .ok ⟨none, source, List.suffix_refl _⟩ := by
  unfold optionalDeclaration
  split
  · rename_i taken
    rw [if_neg (by simp [other _ (take?_eq_some taken)])]
  · rfl

theorem optionalDeclaration_of_isNameStart {body : Text}
    (starts : body.head?.any isNameStart = true) :
    optionalDeclaration ('<' :: body) = .ok ⟨none, '<' :: body, List.suffix_refl _⟩ := by
  refine optionalDeclaration_none fun rest same => ?_
  cases same
  exact absurd starts (by decide : ¬isNameStart '?' = true)

/-- A node without children that can be written in content so that it is read back. -/
structure WritableLeaf (leaf : Leaf) : Prop where
  proper : leaf.InContent
  plain : '\r' ∉ leaf.verbatim

theorem WritableLeaf.joined {leaf : Leaf} (writable : WritableLeaf leaf) : leaf.joined = leaf := by
  obtain ⟨proper, plain⟩ := writable
  cases leaf with
  | text => rfl
  | cdata content => exact congrArg Leaf.cdata (joinLineEnds_eq_self plain)
  | comment content => exact congrArg Leaf.comment (joinLineEnds_eq_self plain)
  | instruction target data =>
    cases data with
    | none => rfl
    | some data =>
      exact congrArg (fun data => Leaf.instruction target (some data)) (joinLineEnds_eq_self plain)
  | doctype => cases proper

/-- Without carriage returns in what is written as it stands, siblings are read back as they are. -/
theorem joined_of_writable {forest : Forest} (normal : forest.Normal WritableLeaf) :
    forest.joined = forest := by
  induction forest with
  | nil => rfl
  | leaf first rest ih => rw [Forest.joined, normal.1.joined, ih normal.2.2]
  | element name attributes content rest inside behind =>
    rw [Forest.joined, inside normal.2.1, behind normal.2.2]

/-- What is written for an element is read as a document with that element alone. -/
theorem parseText_printForest (options : Options) {element : Element}
    (normal : element.Normal WritableLeaf options.maxDepth) :
    ∃ reading, parseText options (printForest {} 0 [] element.alone) = .ok reading ∧
      reading.document.content = element.alone := by
  have proper : element.Normal Leaf.InContent options.maxDepth :=
    ⟨normal.tag, normal.content.imp fun _ writable => writable.proper, normal.height⟩
  obtain ⟨body, written, starts, suffix, read⟩ := rootElement_printed ⟨options, []⟩ {} proper []
  rw [List.append_nil] at written
  rw [joined_of_writable normal.content] at read
  have top : topLevel options {} ('<' :: body) = .ok
      { before := .element element.name element.attributes element.content .nil,
        seenRoot := true } := by
    have ordinary : take? "!DOCTYPE".toList body = none :=
      take?_of_isNameStart starts (by decide) _
    rw [topLevel, commentOrInstruction?_of_isNameStart starts]
    dsimp only
    rw [ordinary]
    dsimp only
    rw [if_neg Bool.false_ne_true, read, ok_bind, Forest.reverse_reverse]
    exact topLevel.eq_1 ..
  have unspaced : skipBlanks ('<' :: body) = ⟨false, '<' :: body, List.suffix_refl _⟩ :=
    skipBlanks_of_head (by decide) body
  have unmarked : parseText options ('<' :: body) = parse options ('<' :: body) := rfl
  rw [written, unmarked]
  unfold parse
  rw [optionalDeclaration_of_isNameStart starts, withLedger_ok, ok_bind]
  dsimp only
  rw [unspaced]
  dsimp only
  rw [top, ok_bind]
  exact ⟨_, rfl, rfl⟩

theorem printNode_of_subtree? {document : Document} {id : Nat} {element : Element}
    (found : document.subtree? id = some (element.kind, element.content)) :
    printNode document id = printForest {} 0 [] element.alone := by
  obtain ⟨node, here, same⟩ := Option.map_eq_some_iff.mp found
  obtain ⟨kind, content⟩ := Prod.mk.inj same
  rw [printNode, here]
  dsimp only
  rw [kind, content]
  rfl

/-- A document that was read without external entities from a text without carriage returns has one
element at its top, and what is written for it is read back. -/
theorem parseText_writable {source : Text} {reading : Reading} (plain : '\r' ∉ source)
    (read : parseText {} source = .ok reading) :
    ∃ element : Element, reading.document.content.topElements = [element] ∧
      element.Normal WritableLeaf ({} : Options).maxDepth := by
  have parsed {text : Text} (plain : '\r' ∉ text) (read : parse {} text = .ok reading) :
      ∃ element : Element, reading.document.content.topElements = [element] ∧
        element.Normal WritableLeaf ({} : Options).maxDepth :=
    parse_root read nofun (fun nonempty held => ⟨⟨nonempty, held⟩, nofun⟩)
      fun leaf => ⟨leaf.proper, fun member => plain (leaf.inside member)⟩
  unfold parseText at read
  split at read
  · exact parsed (fun member => plain (List.mem_cons_of_mem _ member)) read
  · exact parsed plain read

/-- What is written for the element at the top of a document is read as a document with the same
element at its top, the content and everything inside it the same, and the same is written for it
again. -/
def RootReadBack (document : Document) : Prop :=
  ∃ root name attributes content, document.rootElement? = some root ∧
    document.subtree? root = some (.element name attributes, content) ∧
    ∃ again root', parseText {} (printNode document root) = .ok again ∧
      again.document.rootElement? = some root' ∧
      again.document.subtree? root' = some (.element name attributes, content) ∧
      printNode again.document root' = printNode document root

/-- The element at the top of every document that was read is read back when it is written, if there
was no carriage return in the text. -/
theorem rootReadBack_of_parseText {source : Text} {reading : Reading} (plain : '\r' ∉ source)
    (read : parseText {} source = .ok reading) : RootReadBack reading.document := by
  obtain ⟨element, alone, normal⟩ := parseText_writable plain read
  obtain ⟨root, top, here⟩ :=
    Document.rootElement?_of_topElements (by rw [alone]; rfl : _ = some element)
  obtain ⟨again, reread, content⟩ := parseText_printForest {} normal
  obtain ⟨root', top', here'⟩ :=
    Document.rootElement?_of_topElements (by rw [content]; rfl : _ = some element)
  have written := printNode_of_subtree? here
  exact ⟨root, _, _, _, top, here, again, root', written ▸ reread, top', here',
    (printNode_of_subtree? here').trans written.symm⟩

/-- Characters that only references bring about, what looks like a tag, and what would close a
section. -/
theorem rootReadBack_of_parseText_escaped : ∃ reading,
    '\r' ∉ "<a b='&#13;&#9;'>]]&#62;&#60;b>&#13;<?p q?></a>".toList ∧
      parseText {} "<a b='&#13;&#9;'>]]&#62;&#60;b>&#13;<?p q?></a>".toList = .ok reading ∧
      reading.document.content.topElements =
        [⟨['a'], [⟨['b'], ['\r', '\t']⟩],
          .leaf (.text "]]><b>\r".toList) (.leaf (.instruction ['p'] (some ['q'])) .nil)⟩] ∧
      RootReadBack reading.document := by
  have plain : '\r' ∉ "<a b='&#13;&#9;'>]]&#62;&#60;b>&#13;<?p q?></a>".toList := by decide
  have elements : (parseText {}
      "<a b='&#13;&#9;'>]]&#62;&#60;b>&#13;<?p q?></a>".toList).toOption.map
        (·.document.content.topElements) =
      some [⟨['a'], [⟨['b'], ['\r', '\t']⟩],
        .leaf (.text "]]><b>\r".toList) (.leaf (.instruction ['p'] (some ['q'])) .nil)⟩] := by
    decide +kernel
  cases read : parseText {} "<a b='&#13;&#9;'>]]&#62;&#60;b>&#13;<?p q?></a>".toList with
  | error _ => rw [read] at elements; cases elements
  | ok reading =>
    rw [read] at elements
    exact ⟨reading, plain, rfl, Option.some.inj elements, rootReadBack_of_parseText plain read⟩

end Markup

end XmlSelect
