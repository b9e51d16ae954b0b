import XmlSelect.Proofs.NormalDocument

/-! Characters that documents may not hold. In names, attribute values and all that stands between
delimiters there are none. Running text takes over what comes back for external entities as it is:
each such character comes into the document as often as it comes back, so that a document holds none
exactly if the answers to its requests hold none. -/
namespace XmlSelect

/-- What a proper node without children has for text may stand in documents; a run of text apart. -/
theorem Leaf.Proper.characterData_xml {leaf : Leaf} (proper : leaf.Proper)
    (delimited : leaf.isRun = false) : XmlText leaf.characterData := by
  cases leaf with
  | text => cases delimited
  | cdata => exact proper.1
  | _ => exact .nil

theorem Forest.count_text_reverse (forest : Forest) (c : Char) :
    forest.reverse.text.count c = forest.text.count c := by
  induction forest with
  | nil => rfl
  | leaf first rest ih =>
    simp only [reverse_leaf, text_append, text, List.append_nil, List.count_append, ih]
    omega
  | element name attributes content rest _ ih =>
    simp only [reverse_element, text_append, text, List.append_nil, List.count_append, ih]
    omega

namespace Markup

namespace OpenElement

variable {element inner : OpenElement}

/-- The text of the children so far, that of the last one first. -/
def text (element : OpenElement) : Text := element.before.text

@[simp] theorem text_ofTag (tag : StartTag) : (ofTag tag).text = [] := rfl

@[simp] theorem text_addLeaf (leaf : Leaf) :
    (element.addLeaf leaf).text = leaf.characterData ++ element.text := rfl

@[simp] theorem count_addElement (c : Char) :
    (element.addElement inner).text.count c = inner.text.count c + element.text.count c := by
  simp only [text, addElement, Forest.text, List.count_append, Forest.count_text_reverse]

@[simp] theorem count_addText (pending : Text) (c : Char) :
    (element.addText pending).text.count c = pending.count c + element.text.count c := by
  unfold addText
  split
  · rename_i empty
    simp [List.isEmpty_iff.mp empty]
  · simp [Leaf.characterData]

end OpenElement

section Content

variable {setting : Setting} {ledger : Ledger}

/-- A start tag asks for nothing. -/
theorem answers_of_startTag {depth : Nat} {source : Text}
    {tag : Read source (StartTag × Ledger)}
    (read : startTag setting depth ledger source = .ok tag) :
    tag.value.2.answers setting.options = ledger.answers setting.options := by
  have same : tag.value.2.requests = ledger.requests :=
    (startTag_kept (requests_keeps setting.table ledger.requests) depth rfl source).of_ok read
  rw [Ledger.answers, Ledger.answers, same]

/-- What content takes in that documents may not hold came back while it was read. -/
theorem content_passes (plain : setting.table.Plain) {whole : Text} {inner : OpenElement}
    {outer : List OpenElement} {pending source : Text} {within : source <:+ whole}
    {result : Read whole (OpenElement × Ledger)}
    (read : content setting whole inner outer pending ledger source within = .ok result) :
    Passes setting.options ledger result.value.2
      (pending ++ (inner :: outer).flatMap (·.text)) result.value.1.text := by
  intro c other
  fun_induction content setting whole inner outer pending ledger source within with
  | case1 => cases read
  | case2 =>
    rename_i settled _ _ _ _ _ ih
    obtain ⟨closed, -, read⟩ := bind_ok read
    have count : settled.text.count c = _ := OpenElement.count_addText _ c
    dsimp only at read
    split at read
    · cases read
      simp [count]
    · have further := ih _ closed.suffix _ _ read
      simp only [List.flatMap_cons, List.count_append, OpenElement.count_addElement, count,
        List.nil_append] at further ⊢
      omega
  | case3 =>
    rename_i settled _ _ found _ ih
    obtain ⟨leaf, taken, read⟩ := bind_ok read
    rw [mapError_ok taken] at found
    have read' := contentLeaf?_ok found
    have none := (read'.proper.toProper.characterData_xml read'.delimited).count_eq_zero other
    have count : settled.text.count c = _ := OpenElement.count_addText _ c
    have further := ih _ _ leaf.suffix read
    simp only [List.flatMap_cons, List.count_append, OpenElement.text_addLeaf, count, none,
      List.nil_append] at further ⊢
    omega
  | case4 =>
    rename_i settled _ _ _ closed opened
    have count : settled.text.count c = _ := OpenElement.count_addText _ c
    obtain ⟨⟨⟨tag, expanded⟩, after, suffix⟩, tagged, read⟩ := bind_ok read
    have same := answers_of_startTag tagged
    dsimp only at read same
    split at read
    · have further := closed _ _ _ suffix read
      simp only [List.flatMap_cons, List.count_append, OpenElement.count_addElement,
        OpenElement.text_ofTag, count, same, List.count_nil] at further ⊢
      omega
    · have further := opened _ _ _ suffix read
      simp only [List.flatMap_cons, List.count_append, OpenElement.text_ofTag, count, same,
        List.count_nil] at further ⊢
      omega
  | case5 =>
    rename_i ih
    obtain ⟨⟨⟨value, expanded⟩, after, suffix⟩, referred, read⟩ := bind_ok read
    have here := reference_passes plain referred c other
    have further := ih _ _ _ suffix read
    simp only [List.count_append, List.count_reverse, List.count_nil] at here further ⊢
    omega
  | case6 => cases read
  | case7 =>
    rename_i ih
    obtain ⟨next, taken, read⟩ := bind_ok read
    have held := isXmlChar_of_nextChar (mapError_ok taken)
    have apart : next.value ≠ c := fun same => Bool.false_ne_true (other.symm.trans (same ▸ held))
    have further := ih _ _ next.suffix read
    rwa [List.cons_append, List.count_cons_of_ne apart] at further

theorem rootElement_passes (plain : setting.table.Plain) {source : Text}
    {result : Read source (OpenElement × Ledger)}
    (read : rootElement setting ledger source = .ok result) :
    Passes setting.options ledger result.value.2 [] result.value.1.text := by
  obtain ⟨tag, tagged, read⟩ := bind_ok read
  have same := answers_of_startTag tagged
  dsimp only at read
  intro c other
  rw [← same]
  split at read
  · cases read
    rfl
  · simpa using content_passes plain read c other

end Content

section Documents

variable {options : Options}

/-- A document type declaration asks for nothing. -/
theorem answers_of_doctype {ledger : Ledger} {source : Text} {declared : Read source Doctype}
    (found : doctype ledger source = .ok declared) :
    declared.value.ledger.answers options = ledger.answers options := by
  have kept : Kept (·.requests = ledger.requests) (·.value.ledger) (doctype ledger source) :=
    @doctype_kept (·.requests = ledger.requests) ledger (fun _ _ _ same => same) rfl source
  rw [Ledger.answers, Ledger.answers, kept.of_ok found]

theorem topLevel_passes {progress result : Progress} {source : Text}
    (read : topLevel options progress source = .ok result) (plain : progress.table.Plain) :
    Passes options progress.ledger result.ledger progress.before.text result.before.text := by
  intro c other
  fun_induction topLevel options progress source with
  | case1 =>
    cases read
    rfl
  | case2 => cases read
  | case3 =>
    rename_i found ih
    obtain ⟨leaf, taken, read⟩ := bind_ok read
    rw [mapError_ok taken] at found
    have read' := commentOrInstruction?_ok found
    have none := (read'.proper.toProper.characterData_xml read'.delimited).count_eq_zero other
    have further := ih _ _ leaf.suffix _ (List.dropWhile_suffix _) read plain
    rwa [Forest.text, List.count_append, none, Nat.zero_add] at further
  | case4 => cases read
  | case5 =>
    rename_i ih
    obtain ⟨declared, found, read⟩ := bind_ok read
    have further := ih _ _ declared.suffix _ (List.dropWhile_suffix _) read (doctype_plain found)
    have none : declared.value.leaf.characterData = [] := by
      obtain ⟨name, systemId, publicId, leaf, -⟩ := doctype_wellFormed found
      rw [leaf]
      rfl
    rwa [Forest.text, none, List.nil_append, answers_of_doctype found] at further
  | case6 => cases read
  | case7 =>
    rename_i ih
    obtain ⟨⟨⟨element, expanded⟩, after, suffix⟩, found, read⟩ := bind_ok read
    have here := rootElement_passes plain found c other
    have further := ih _ _ _ suffix _ (List.dropWhile_suffix _) read plain
    simp only [Forest.text, List.count_append, Forest.count_text_reverse, List.count_nil,
      OpenElement.text] at here further ⊢
    omega
  | case8 => cases read

/-- A character that documents may not hold is in the text of a document as often as it came back
for what the document asked for. -/
theorem count_text_of_parse {source : Text} {reading : Reading}
    (read : parse options source = .ok reading) {c : Char} (other : isXmlChar c = false) :
    reading.document.content.text.count c =
      (reading.requests.flatMap options.answer).count c := by
  obtain ⟨declared, progress, -, top, rfl⟩ := parse_eq_ok_iff.mp read
  have passes := topLevel_passes top EntityTable.plain_nil c other
  have start : ({} : Progress).before.text = [] ∧ ({} : Progress).ledger.answers options = [] :=
    ⟨rfl, rfl⟩
  rw [start.1, start.2, List.count_nil, Nat.zero_add, Nat.add_zero] at passes
  exact (Forest.count_text_reverse _ c).trans passes

end Documents

end Markup

namespace Document

variable {document : Document} {parent next id : Nat} {forest : Forest} {c : Char}

/-- What a node has for a name and for text of its own is made of characters that documents may
hold. -/
structure HoldsXml (document : Document) (id : Nat) : Prop where
  name : ∀ name, document.name? id = some name → XmlText name
  text : ∀ text, document.ownText? id = some text → XmlText text

theorem Places.mem_text (places : document.Places parent next forest) {self : Leaf}
    (covers : forest.Covers id next) (kind : document.kind? id = some (.leaf self))
    (member : c ∈ self.characterData) : c ∈ forest.text := by
  induction covers generalizing parent with
  | leaf =>
    simp only [kind?, places.1, Option.map_some, Option.some.injEq, NodeKind.leaf.injEq] at kind
    exact List.mem_append_left _ (kind ▸ member)
  | afterLeaf _ ih => exact List.mem_append_right _ (ih places.2)
  | element => simp [kind?, places.1] at kind
  | attr found place =>
    subst place
    simp [kind?, places.2.1 _ _ found] at kind
  | inside _ ih => exact List.mem_append_left _ (ih places.2.2.1)
  | afterElement _ ih => exact List.mem_append_right _ (ih places.2.2.2)

/-- Each character of the text of siblings is one of a node among or inside them. -/
theorem Places.exists_of_mem_text (places : document.Places parent next forest)
    (member : c ∈ forest.text) :
    ∃ id self, document.kind? id = some (.leaf self) ∧ c ∈ self.characterData := by
  induction forest generalizing parent next with
  | nil => cases member
  | leaf first rest ih =>
    rcases List.mem_append.mp member with here | behind
    · exact ⟨next, first, by rw [kind?, places.1]; rfl, here⟩
    · exact ih places.2 behind
  | element name attributes content rest inner outer =>
    rcases List.mem_append.mp member with inside | behind
    · exact inner places.2.2.1 inside
    · exact outer places.2.2.2 behind

theorem textContent_root (document : Document) :
    document.textContent root = document.content.text := by
  rw [textContent, node?_root]

/-- No node but a run of text has other characters. -/
theorem holdsXml_of_normal (normal : document.content.Normal Leaf.Proper)
    (delimited : document.isRun id = false) : document.HoldsXml id := by
  refine ⟨fun name called => (isName_of_normal normal called).xml, fun text own => ?_⟩
  obtain ⟨kind, here, own⟩ := Option.bind_eq_some_iff.mp own
  obtain ⟨node, found, rfl⟩ := Option.map_eq_some_iff.mp here
  have sound := node_normal normal found
  rw [isRun_eq found] at delimited
  cases kind : node.kind with
  | document =>
    rw [kind] at own
    cases own
  | element =>
    rw [kind] at own
    cases own
  | attr =>
    rw [kind] at own
    cases own
    exact (sound.attr _ kind).held
  | leaf self =>
    have proper := sound.leaf self kind
    rw [kind] at own delimited
    cases self with
    | text => cases delimited
    | cdata =>
      cases own
      exact proper.1
    | comment =>
      cases own
      exact proper.1
    | instruction target data => exact (proper.2.2 text own).2.1
    | doctype => cases own

theorem exists_of_isRun (run : document.isRun id = true) :
    ∃ content, document.kind? id = some (.leaf (.text content)) := by
  obtain ⟨kind, here, isRun⟩ := (Option.any_eq_true ..).mp run
  cases kind with
  | leaf self =>
    cases self with
    | text content => exact ⟨content, here⟩
    | _ => cases isRun
  | _ => cases isRun

/-- All nodes are made of characters that documents may hold exactly if all text is. -/
theorem forall_holdsXml_iff (normal : document.content.Normal Leaf.Proper) :
    (∀ id, document.HoldsXml id) ↔ XmlText document.content.text := by
  constructor
  · intro each c member
    obtain ⟨id, self, kind, inside⟩ := (places_content document).exists_of_mem_text member
    have own : document.ownText? id = (NodeKind.leaf self).ownText? := by
      rw [ownText?, kind]
      rfl
    cases self with
    | text => exact (each id).text _ own c inside
    | cdata => exact (each id).text _ own c inside
    | _ => cases inside
  · intro held id
    cases run : document.isRun id with
    | false => exact holdsXml_of_normal normal run
    | true =>
      obtain ⟨content, kind⟩ := exists_of_isRun run
      refine ⟨fun name called => (isName_of_normal normal called).xml, fun text own c member => ?_⟩
      rw [ownText?, kind] at own
      cases own
      exact held c ((places_content document).mem_text (covers_of_kind kind (by simp)) kind member)

end Document

namespace Markup

variable {options : Options} {source : Text} {reading : Reading}

/-- In a document that was read, all but the runs of text is made of characters that documents may
hold. Of the others it holds each as often as it came back for external entities, so that it holds
none exactly if none came back. -/
theorem holdsXml_iff_answers (read : parseText options source = .ok reading) :
    (∀ id, reading.document.isRun id = false → reading.document.HoldsXml id) ∧
      (∀ c, isXmlChar c = false → (reading.document.textContent Document.root).count c =
        (reading.requests.flatMap options.answer).count c) ∧
      ((∀ id, reading.document.HoldsXml id) ↔
        ∀ request ∈ reading.requests, XmlText (options.answer request)) := by
  rw [parseText_eq] at read
  have normal := (parse_proper read).normal
  have count {c : Char} (other : isXmlChar c = false) := count_text_of_parse read other
  refine ⟨fun _ => Document.holdsXml_of_normal normal, ?_, ?_⟩
  · intro c other
    rw [Document.textContent_root, count other]
  · rw [Document.forall_holdsXml_iff normal]
    constructor
    · intro held request asked
      refine .of_count fun c other => List.count_eq_zero.mpr fun member => ?_
      have none := (count other).symm.trans (held.count_eq_zero other)
      exact List.count_eq_zero.mp none (List.mem_flatMap.mpr ⟨request, asked, member⟩)
    · intro answers
      refine .of_count fun c other => (count other).trans (List.count_eq_zero.mpr fun member => ?_)
      obtain ⟨request, asked, inside⟩ := List.mem_flatMap.mp member
      exact Bool.false_ne_true (other.symm.trans (answers request asked c inside))

/-- An external entity that is referred to twice, once out of an internal one. -/
theorem holdsXml_iff_answers_nested :
    let source := "<!DOCTYPE a [<!ENTITY e SYSTEM 's'><!ENTITY f '-&e;'>]><a>&e;&f;</a>".toList
    let options : Options := { allowExternal := true, resolver := some fun _ => some ['\x02', 'x'] }
    ∃ reading, parseText options source = .ok reading ∧
      reading.requests = [⟨['e'], ['s'], none⟩, ⟨['e'], ['s'], none⟩] ∧
      (reading.document.textContent Document.root).count '\x02' = 2 ∧
      ¬∀ id, reading.document.HoldsXml id := by
  have requested :
      (parseText { allowExternal := true, resolver := some fun _ => some ['\x02', 'x'] }
        "<!DOCTYPE a [<!ENTITY e SYSTEM 's'><!ENTITY f '-&e;'>]><a>&e;&f;</a>".toList
        ).toOption.map (·.requests) = some [⟨['e'], ['s'], none⟩, ⟨['e'], ['s'], none⟩] := by
    decide +kernel
  dsimp only
  generalize read : parseText _ _ = outcome at requested ⊢
  cases outcome with
  | error _ => cases requested
  | ok reading =>
    have requests : reading.requests = _ := Option.some.inj requested
    obtain ⟨-, count, plain⟩ := holdsXml_iff_answers read
    refine ⟨reading, rfl, requests, ?_, fun each => ?_⟩
    · rw [count _ (by decide), requests]
      rfl
    · have held := plain.mp each _ (requests ▸ List.mem_cons_self) '\x02' List.mem_cons_self
      exact absurd held (by decide)

/-- What comes back for an external entity is not looked at: a control character is taken over. -/
theorem controlCharacter_taken :
    ∃ reading, parseText { allowExternal := true, resolver := some fun _ => some ['\x01'] }
        "<!DOCTYPE a [<!ENTITY e SYSTEM 's'>]><a>&e;</a>".toList = .ok reading ∧
      reading.document.ownText? 4 = some ['\x01'] ∧ isXmlChar '\x01' = false := by
  have read : (parseText { allowExternal := true, resolver := some fun _ => some ['\x01'] }
      "<!DOCTYPE a [<!ENTITY e SYSTEM 's'>]><a>&e;</a>".toList).toOption.map
        (·.document.ownText? 4) = some (some ['\x01']) := by
    decide +kernel
  generalize parseText _ _ = outcome at read ⊢
  cases outcome with
  | error _ => cases read
  | ok reading => exact ⟨reading, rfl, Option.some.inj read, by decide⟩

end Markup

end XmlSelect
