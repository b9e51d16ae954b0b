import Mathlib.Algebra.Ring.Nat
import XmlSelect.Proofs.ReadingLimits

/-! How much text entities can bring about. Every character of a document is paid for: either by a
character of the source, or by an expansion, which pays for as many characters as the longest text
of an entity has. As such a text stands in the source itself, the characters of a document are no
more than those of the source, taken once and once more for each expansion. -/
namespace XmlSelect

/-- What a node holds that counts: character data, or the value of an attribute. -/
def NodeKind.held : NodeKind → Text
  | .document | .element .. => []
  | .attr self => self.value
  | .leaf self => self.characterData

namespace NodeKind

@[simp] theorem held_document : document.held = [] := rfl

@[simp] theorem held_element (name : Text) (attributes : List Attribute) :
    (element name attributes).held = [] := rfl

@[simp] theorem held_attr (self : Attribute) : (attr self).held = self.value := rfl

@[simp] theorem held_leaf (self : Leaf) : (leaf self).held = self.characterData := rfl

end NodeKind

/-- How many characters the text nodes and the attribute values of a document have, all together. -/
def Document.volume (document : Document) : Nat :=
  (document.nodes.toList.map (·.kind.held.length)).sum

/-- How many characters the values of some attributes have. -/
def valuesLength (attributes : List Attribute) : Nat :=
  (attributes.map (·.value.length)).sum

theorem valuesLength_reverse (attributes : List Attribute) :
    valuesLength attributes.reverse = valuesLength attributes := by
  rw [valuesLength, List.map_reverse, List.sum_reverse]
  rfl

@[simp] theorem valuesLength_cons (first : Attribute) (others : List Attribute) :
    valuesLength (first :: others) = first.value.length + valuesLength others := rfl

namespace Forest

/-- How many characters of text and attribute values there are at any depth. -/
def volume : Forest → Nat
  | nil => 0
  | leaf first rest => first.characterData.length + rest.volume
  | element _ attributes content rest => valuesLength attributes + content.volume + rest.volume

theorem volume_append (front back : Forest) :
    (front ++ back).volume = front.volume + back.volume := by
  induction front with
  | nil => exact (Nat.zero_add _).symm
  | leaf first rest ih => rw [leaf_append, volume, volume, ih, Nat.add_assoc]
  | element name attributes content rest _ ih =>
    rw [element_append, volume, volume, ih]
    exact (Nat.add_assoc ..).symm

theorem volume_reverse (forest : Forest) : forest.reverse.volume = forest.volume := by
  induction forest with
  | nil => rfl
  | leaf first rest ih =>
    rw [reverse_leaf, volume_append, ih]
    simp only [volume]
    omega
  | element name attributes content rest _ ih =>
    rw [reverse_element, volume_append, ih]
    simp only [volume]
    omega

theorem sum_held_attributes {place : Nat → Attribute → Node}
    (kind : ∀ index self, (place index self).kind = .attr self)
    (attributes : List Attribute) :
    ((attributes.mapIdx place).map (·.kind.held.length)).sum = valuesLength attributes := by
  have same : (attributes.mapIdx place).map (·.kind.held.length) =
      attributes.map (·.value.length) :=
    List.ext_getElem (by simp) fun index _ _ => by simp [kind]
  exact congrArg List.sum same

theorem sum_held_nodes (parent next : Nat) (forest : Forest) :
    ((forest.nodes parent next).map (·.kind.held.length)).sum = forest.volume := by
  induction forest generalizing parent next with
  | nil => rfl
  | leaf first rest ih => simp [nodes, volume, ih]
  | element name attributes content rest inner outer =>
    simp [nodes, volume, sum_held_attributes, inner, outer, Nat.add_assoc]

end Forest

theorem Document.volume_eq (document : Document) : document.volume = document.content.volume := by
  rw [volume, document.nodes_eq]
  simp [Forest.numbered, Forest.sum_held_nodes]

namespace Markup

/-- At a price for each expansion, the expansions in between pay for `size` as far as `means` do
not. -/
def Pays (price : Nat) (before after : Ledger) (means size : Nat) : Prop :=
  size + price * before.expansions ≤ means + price * after.expansions

namespace Pays

variable {price means size : Nat} {before between after : Ledger}

theorem of_le (same : after.expansions = before.expansions) (less : size ≤ means) :
    Pays price before after means size := by
  rw [Pays, same]
  exact Nat.add_le_add_right less _

theorem trans {middle : Nat} (first : Pays price before between means middle)
    (second : Pays price between after middle size) : Pays price before after means size := by
  unfold Pays at *
  omega

theorem add_left (paid : Pays price before after means size) (more : Nat) :
    Pays price before after (more + means) (more + size) := by
  unfold Pays at *
  omega

theorem mono {means' size' : Nat} (paid : Pays price before after means size)
    (more : means ≤ means') (less : size' ≤ size) : Pays price before after means' size' := by
  unfold Pays at *
  omega

/-- One expansion pays the price. -/
theorem spend_one (ledger : Ledger) : Pays price ledger (ledger.spend 1) 0 price := by
  simp only [Pays, Ledger.expansions_spend, Nat.mul_succ]
  omega

end Pays

section Leaves

variable {source : Text}

theorem length_joinLineEnds_le (text : Text) : (joinLineEnds text).length ≤ text.length := by
  fun_induction joinLineEnds text with
  | case1 rest ih => exact Nat.succ_le_succ (Nat.le_succ_of_le ih)
  | case2 first rest _ ih => exact Nat.succ_le_succ ih
  | case3 => exact Nat.le_refl 0

theorem length_of_takeUntil {delimiter : Text} {part : Part} {read : Read source Text}
    (taken : takeUntil delimiter part source = .ok read) :
    read.value.length + read.rest.length ≤ source.length := by
  obtain ⟨body, found, -, value⟩ := takeUntil_ok taken
  have parts := congrArg List.length (Text.append_of_breakOn? found)
  simp only [List.length_append] at parts
  have joined := length_joinLineEnds_le body
  rw [value]
  omega

theorem length_of_quoted {read : Read source Text} (taken : quoted source = .ok read) :
    read.value.length ≤ source.length := by
  obtain ⟨quote, rest, inner, rfl, within, same, -⟩ := quoted_ok taken
  have inside := length_of_takeUntil within
  rw [same, List.length_cons]
  omega

/-- A name has a character. -/
theorem length_of_name {read : Read source Text} (named : name source = .ok read) :
    read.rest.length + 1 ≤ source.length := by
  obtain ⟨valid, parts⟩ := name_ok named
  have parts := congrArg List.length parts
  have first : 0 < read.value.length := by
    cases value : read.value with
    | nil => rw [value] at valid; exact valid.elim
    | cons => exact Nat.succ_pos _
  rw [List.length_append] at parts
  omega

theorem commentOrInstruction?_markup {read : Read source Leaf}
    (found : commentOrInstruction? source = some (.ok read)) :
    read.value.characterData = [] := by
  unfold commentOrInstruction? at found
  split at found
  · obtain ⟨inner, taken, rfl⟩ := map_ok (Option.some.inj found)
    obtain ⟨body, -, taken⟩ := bind_ok taken
    dsimp only at taken
    split at taken <;> cases taken
    rfl
  · obtain ⟨inner, taken, rfl⟩ := map_ok (Option.some.inj found)
    obtain ⟨target, -, taken⟩ := bind_ok taken
    dsimp only at taken
    split at taken
    · cases taken
    · split at taken
      · cases taken
        rfl
      · obtain ⟨blanks, -, taken⟩ := bind_ok taken
        obtain ⟨body, -, taken⟩ := bind_ok taken
        cases taken
        rfl
  · cases found

theorem doctype_markup {ledger : Ledger} {declared : Read source Doctype}
    (found : doctype ledger source = .ok declared) : declared.value.leaf.characterData = [] := by
  obtain ⟨blanks, -, found⟩ := bind_ok found
  obtain ⟨name, -, found⟩ := bind_ok found
  obtain ⟨identifiers, -, found⟩ := bind_ok found
  obtain ⟨subset, -, found⟩ := bind_ok found
  obtain ⟨closed, -, found⟩ := bind_ok found
  cases found
  rfl

theorem length_of_contentLeaf? {read : Read source Leaf}
    (found : contentLeaf? source = some (.ok read)) :
    read.value.characterData.length + read.rest.length ≤ source.length := by
  unfold contentLeaf? at found
  split at found
  · rename_i result first
    cases found
    rw [commentOrInstruction?_markup first, List.length_nil, Nat.zero_add]
    exact read.suffix.length_le
  · obtain ⟨opened, -, found⟩ := Option.map_eq_some_iff.mp found
    obtain ⟨inner, taken, rfl⟩ := map_ok found
    obtain ⟨body, within, taken⟩ := bind_ok taken
    cases taken
    exact (length_of_takeUntil within).trans opened.suffix.length_le

end Leaves

theorem Place.length_normalize (place : Place) (text : Text) :
    (place.normalize text).length = text.length := by
  cases place with
  | content => rfl
  | attributeValue => exact List.length_map _

namespace Expansion

variable {expansion : Expansion} {price : Nat}

/-- Where external entities are not allowed, only texts of internal ones are put in. -/
theorem replacement_internal (forbidden : expansion.options.allowExternal = false)
    {ledger after : Ledger} {name : Text} {entity : Entity} {replacement : Option Text}
    (replaced : expansion.replacement ledger name entity = .ok (replacement, after)) :
    after.expansions = ledger.expansions ∧
      ∀ text, replacement = some text → entity = .internal text := by
  unfold Expansion.replacement at replaced
  rw [forbidden] at replaced
  split at replaced
  · cases replaced
    exact ⟨rfl, fun text same => congrArg Entity.internal (Option.some.inj same)⟩
  · split at replaced
    · cases replaced
    · cases replaced
      exact ⟨rfl, nofun⟩

mutual

/-- A character stands for itself; what an entity stands for, the expansions pay for. -/
theorem named_paid (forbidden : expansion.options.allowExternal = false) {available : EntityTable}
    {ledger : Ledger} {name : Text} {result : Text × Ledger}
    (short : available.Values (·.length ≤ price))
    (read : expansion.named available ledger name = .ok result) :
    Pays price ledger result.2 1 result.1.length := by
  obtain ⟨c, known, rfl⟩ | ⟨entity, counted, replacement, after, -, found, count, replaced, read⟩ :=
    named_eq_ok_iff.mp read
  · exact .of_le rfl (Nat.le_refl 1)
  · obtain ⟨-, rfl⟩ := expansions_of_count count
    obtain ⟨same, internal⟩ := replacement_internal forbidden replaced
    have start : Pays price ledger after 0 price := by
      rw [Pays, same]
      exact Pays.spend_one ledger
    cases replacement with
    | none =>
      cases read
      exact start.mono (Nat.zero_le 1) (Nat.zero_le price)
    | some text =>
      have held : text.length ≤ price :=
        short _ (mem_of_lookup found) text (internal text rfl)
      have inner := replaced_paid forbidden (short.without name) read
      exact (start.trans (inner.mono held (Nat.le_refl _))).mono (Nat.zero_le 1) (Nat.le_refl _)
termination_by (available.length, 0)
decreasing_by exact Prod.Lex.left _ _ (EntityTable.length_without found)

theorem replaced_paid (forbidden : expansion.options.allowExternal = false)
    {available : EntityTable} {ledger : Ledger} {text : Text} {result : Text × Ledger}
    (short : available.Values (·.length ≤ price))
    (read : expansion.replaced available ledger text = .ok result) :
    Pays price ledger result.2 text.length result.1.length := by
  obtain ⟨-, rfl⟩ | ⟨before, behind, reference, later, value, counted, rest, after, opened, closed,
    here, further, rfl⟩ := replaced_eq_ok_iff.mp read
  · exact .of_le rfl (Place.length_normalize ..).le
  · have opening := congrArg List.length (Text.append_of_breakOn? opened)
    have closing := congrArg List.length (Text.append_of_breakOn? closed)
    simp only [List.length_append, List.length_cons, List.length_nil] at opening closing
    have first : Pays price ledger counted 1 value.length := by
      obtain ⟨number, c, -, known, rfl, rfl⟩ | ⟨-, here⟩ := here
      · exact .of_le rfl (Nat.le_refl 1)
      · exact named_paid forbidden short here
    have second := replaced_paid forbidden short further
    simp only [Pays, List.length_append, Place.length_normalize] at first second ⊢
    omega
termination_by (available.length, text.length + 1)
decreasing_by
  · exact Prod.Lex.right _ (Nat.succ_pos _)
  · have opening := congrArg List.length (Text.append_of_breakOn? opened)
    have closing := congrArg List.length (Text.append_of_breakOn? closed)
    simp only [List.length_append, List.length_cons, List.length_nil] at opening closing
    exact Prod.Lex.right _ (by omega)

end

end Expansion

/-- External entities are not allowed, and the texts of the internal ones are no longer than the
price. -/
structure Setting.Charges (price : Nat) (setting : Setting) : Prop where
  forbidden : setting.options.allowExternal = false
  short : setting.table.Values (·.length ≤ price)

section Tags

variable {setting : Setting} {price : Nat} {ledger : Ledger}

theorem reference_paid (charges : setting.Charges price) {place : Place} {source : Text}
    {result : Read source (Text × Ledger)}
    (read : reference setting place ledger source = .ok result) :
    Pays price ledger result.value.2 source.length
      (result.value.1.length + result.rest.length) := by
  unfold reference at read
  split at read
  · obtain ⟨c, found, read⟩ := bind_ok read
    cases read
    have shorter := c.suffix.length_le
    exact .of_le rfl (by simp only [List.length_cons, List.length_nil]; omega)
  · obtain ⟨entity, named, read⟩ := bind_ok read
    obtain ⟨semicolon, closed, read⟩ := bind_ok read
    obtain ⟨expanded, expansion, read⟩ := bind_ok read
    cases read
    have value : Pays price ledger expanded.2 1 expanded.1.length :=
      Expansion.named_paid charges.forbidden charges.short expansion
    have taken := length_of_name (mapError_ok named)
    have shorter := semicolon.suffix.length_le
    exact (value.add_left semicolon.rest.length).mono (by omega) (Nat.add_comm ..).le

theorem attributeText_paid (charges : setting.Charges price) {quote : Char}
    {whole done source : Text} {within : source <:+ whole} {result : Read whole (Text × Ledger)}
    (read : attributeText setting quote whole ledger done source within = .ok result) :
    Pays price ledger result.value.2 (done.length + source.length)
      (result.value.1.length + result.rest.length) := by
  fun_induction attributeText with
  | case1 => cases read
  | case2 =>
    cases read
    exact .of_le rfl (by simp only [List.length_reverse, List.length_cons]; omega)
  | case3 => cases read
  | case4 =>
    rename_i ih
    obtain ⟨⟨⟨value, expanded⟩, after, suffix⟩, referred, read⟩ := bind_ok read
    have first := reference_paid charges referred
    have second := ih _ _ _ suffix read
    simp only [Pays, List.length_append, List.length_reverse, List.length_cons] at first second ⊢
    omega
  | case5 =>
    rename_i ih
    obtain ⟨next, taken, read⟩ := bind_ok read
    have shorter := next.suffix.length_le
    refine (ih _ _ next.suffix read).mono ?_ (Nat.le_refl _)
    simp only [List.length_append, Place.length_normalize, List.length_cons, List.length_nil]
    omega

theorem attributeValue_paid (charges : setting.Charges price) {source : Text}
    {result : Read source (Text × Ledger)}
    (read : attributeValue setting ledger source = .ok result) :
    Pays price ledger result.value.2 source.length
      (result.value.1.length + result.rest.length) := by
  unfold attributeValue at read
  split at read
  · cases read
  · split at read
    · refine (attributeText_paid charges read).mono ?_ (Nat.le_refl _)
      simp only [List.length_cons, List.length_nil]
      omega
    · cases read

theorem attributeList_paid (charges : setting.Charges price) {element whole source : Text}
    {done : List Attribute} {spaced : Bool} {within : source <:+ whole}
    {result : Read whole (StartTag × Ledger)}
    (read : attributeList setting element whole ledger done spaced source within = .ok result) :
    Pays price ledger result.value.2 (valuesLength done + source.length)
      (valuesLength result.value.1.attributes + result.rest.length) := by
  fun_induction attributeList with
  | case1 =>
    rename_i closed _
    cases read
    rw [valuesLength_reverse]
    exact .of_le rfl (Nat.add_le_add_left closed.length_le _)
  | case2 =>
    rename_i closed _
    cases read
    rw [valuesLength_reverse]
    exact .of_le rfl (Nat.add_le_add_left closed.length_le _)
  | case3 => cases read
  | case4 => cases read
  | case5 =>
    rename_i ih
    obtain ⟨key, named, read⟩ := bind_ok read
    obtain ⟨sign, signed, read⟩ := bind_ok read
    obtain ⟨⟨⟨value, expanded⟩, after, valued⟩, given, read⟩ := bind_ok read
    dsimp only at read
    split at read
    · cases read
    · have first := attributeValue_paid charges given
      have second := ih _ _ key.suffix _ (List.dropWhile_suffix _) _ sign.suffix _
        (List.dropWhile_suffix _) _ _ _ valued _ _ (List.dropWhile_suffix _) read
      have here := ((List.dropWhile_suffix isBlank).trans
        (sign.suffix.trans ((List.dropWhile_suffix isBlank).trans key.suffix))).length_le
      have spaces := (List.dropWhile_suffix isBlank : _ <:+ after).length_le
      simp only [Pays, valuesLength_cons, List.length_cons] at first second ⊢
      omega

theorem startTag_paid (charges : setting.Charges price) {opened : Nat} {source : Text}
    {result : Read source (StartTag × Ledger)}
    (read : startTag setting opened ledger source = .ok result) :
    Pays price ledger result.value.2 source.length
      (valuesLength result.value.1.attributes + result.rest.length) := by
  obtain ⟨element, named, read⟩ := bind_ok read
  dsimp only at read
  split at read
  · cases read
  · have shorter := ((List.dropWhile_suffix isBlank).trans element.suffix).length_le
    exact (attributeList_paid charges read).mono ((Nat.zero_add _).trans_le shorter) (Nat.le_refl _)

end Tags

namespace OpenElement

/-- How many characters of text and attribute values the element has so far. -/
def volume (element : OpenElement) : Nat :=
  valuesLength element.attributes + element.before.volume

variable {element inner : OpenElement}

@[simp] theorem volume_ofTag (tag : StartTag) : (ofTag tag).volume = valuesLength tag.attributes :=
  rfl

@[simp] theorem volume_addLeaf (leaf : Leaf) :
    (element.addLeaf leaf).volume = element.volume + leaf.characterData.length := by
  simp only [volume, addLeaf, Forest.volume]
  omega

@[simp] theorem volume_addElement :
    (element.addElement inner).volume = element.volume + inner.volume := by
  simp only [volume, addElement, Forest.volume, Forest.volume_reverse]
  omega

@[simp] theorem volume_addText (pending : Text) :
    (element.addText pending).volume = element.volume + pending.length := by
  unfold addText
  split
  · rename_i empty
    rw [List.isEmpty_iff.mp empty]
    rfl
  · rw [volume_addLeaf, Leaf.characterData, List.length_reverse]

end OpenElement

section Content

variable {setting : Setting} {price : Nat} {ledger : Ledger}

theorem content_paid (charges : setting.Charges price) {whole : Text} {inner : OpenElement}
    {outer : List OpenElement} {pending source : Text} {within : source <:+ whole}
    {result : Read whole (OpenElement × Ledger)}
    (read : content setting whole inner outer pending ledger source within = .ok result) :
    Pays price ledger result.value.2
      (((inner :: outer).map (·.volume)).sum + pending.length + source.length)
      (result.value.1.volume + result.rest.length) := by
  fun_induction content setting whole inner outer pending ledger source within with
  | case1 => cases read
  | case2 =>
    rename_i settled _ _ slash _ _ ih
    obtain ⟨closed, ended, read⟩ := bind_ok read
    have shorter := (closed.suffix.trans slash).length_le
    have volume : settled.volume = _ := OpenElement.volume_addText _
    dsimp only at read
    split at read
    · cases read
      refine .of_le rfl ?_
      simp only [volume, List.map_cons, List.map_nil, List.sum_cons, List.length_cons]
      omega
    · refine (ih _ closed.suffix _ _ read).mono ?_ (Nat.le_refl _)
      simp only [volume, OpenElement.volume_addElement, List.map_cons, List.sum_cons,
        List.length_cons, List.length_nil]
      omega
  | case3 =>
    rename_i settled _ _ found _ ih
    obtain ⟨leaf, taken, read⟩ := bind_ok read
    rw [mapError_ok taken] at found
    have shorter := length_of_contentLeaf? found
    have volume : settled.volume = _ := OpenElement.volume_addText _
    refine (ih _ _ leaf.suffix read).mono ?_ (Nat.le_refl _)
    simp only [volume, OpenElement.volume_addLeaf, List.map_cons, List.sum_cons, List.length_cons,
      List.length_nil]
    omega
  | case4 =>
    rename_i settled _ _ _ closed opened
    have volume : settled.volume = _ := OpenElement.volume_addText _
    obtain ⟨⟨⟨tag, expanded⟩, after, suffix⟩, tagged, read⟩ := bind_ok read
    have first := startTag_paid charges tagged
    dsimp only at read
    split at read
    · have second := closed _ _ _ suffix read
      simp only [Pays, volume, OpenElement.volume_addElement, OpenElement.volume_ofTag,
        List.map_cons, List.sum_cons, List.length_cons, List.length_nil] at first second ⊢
      omega
    · have second := opened _ _ _ suffix read
      simp only [Pays, volume, OpenElement.volume_ofTag, List.map_cons, List.sum_cons,
        List.length_cons, List.length_nil] at first second ⊢
      omega
  | case5 =>
    rename_i ih
    obtain ⟨⟨⟨value, expanded⟩, after, suffix⟩, referred, read⟩ := bind_ok read
    have first := reference_paid charges referred
    have second := ih _ _ _ suffix read
    simp only [Pays, List.length_append, List.length_reverse, List.length_cons] at first second ⊢
    omega
  | case6 => cases read
  | case7 =>
    rename_i ih
    obtain ⟨next, taken, read⟩ := bind_ok read
    have shorter := next.suffix.length_le
    refine (ih _ _ next.suffix read).mono ?_ (Nat.le_refl _)
    simp only [List.length_cons]
    omega

theorem rootElement_paid (charges : setting.Charges price) {source : Text}
    {result : Read source (OpenElement × Ledger)}
    (read : rootElement setting ledger source = .ok result) :
    Pays price ledger result.value.2 source.length
      (result.value.1.volume + result.rest.length) := by
  obtain ⟨⟨⟨tag, expanded⟩, after, suffix⟩, tagged, read⟩ := bind_ok read
  have first := startTag_paid charges tagged
  dsimp only at read
  split at read
  · cases read
    exact first
  · refine first.trans ((content_paid charges read).mono ?_ (Nat.le_refl _))
    simp

end Content

section Documents

variable {options : Options} {price : Nat}

theorem topLevel_paid (forbidden : options.allowExternal = false) {progress result : Progress}
    {source : Text} (read : topLevel options progress source = .ok result)
    (short : progress.table.Values (·.length ≤ price)) (least : source.length ≤ price) :
    Pays price progress.ledger result.ledger (progress.before.volume + source.length)
      result.before.volume := by
  fun_induction topLevel options progress source with
  | case1 =>
    cases read
    exact .of_le rfl (Nat.le_add_right _ _)
  | case2 => cases read
  | case3 =>
    rename_i found ih
    obtain ⟨leaf, taken, read⟩ := bind_ok read
    rw [mapError_ok taken] at found
    have shorter := ((List.dropWhile_suffix isBlank).trans leaf.suffix).length_le
    rw [List.length_cons] at least ⊢
    have rest := ih _ _ leaf.suffix _ (List.dropWhile_suffix _) read short (by omega)
    refine rest.mono ?_ (Nat.le_refl _)
    rw [Forest.volume, commentOrInstruction?_markup found, List.length_nil]
    omega
  | case4 => cases read
  | case5 =>
    rename_i word _ _ _ ih
    obtain ⟨declared, found, read⟩ := bind_ok read
    have shorter :=
      ((List.dropWhile_suffix isBlank).trans (declared.suffix.trans word)).length_le
    rw [List.length_cons] at least ⊢
    have declares : declared.value.table.Values (·.length ≤ price) :=
      doctype_values (fun part taken => by
        have := length_of_quoted taken
        have := (part.trans word).length_le
        omega) found (List.suffix_refl _)
    have rest := ih _ _ declared.suffix _ (List.dropWhile_suffix _) read declares (by omega)
    simp only [Pays, doctype_expansions found, Forest.volume, doctype_markup found,
      List.length_nil, Nat.zero_add] at rest ⊢
    omega
  | case6 => cases read
  | case7 =>
    rename_i ih
    obtain ⟨⟨⟨element, expanded⟩, after, suffix⟩, found, read⟩ := bind_ok read
    have spaces := (List.dropWhile_suffix isBlank : _ <:+ after).length_le
    have shorter := suffix.length_le
    rw [List.length_cons] at least ⊢
    have first := rootElement_paid ⟨forbidden, short⟩ found
    have second := ih _ _ _ suffix _ (List.dropWhile_suffix _) read short (by omega)
    simp only [Pays, Forest.volume, Forest.volume_reverse, OpenElement.volume] at first second ⊢
    omega
  | case8 => cases read

/-- Entities cannot blow a document up beyond the limit of expansions: without external entities,
its text nodes and attribute values have no more characters than the source, counted once and once
more for each expansion that is allowed. -/
theorem parseText_volume_le {source : Text} {reading : Reading}
    (forbidden : options.allowExternal = false)
    (read : parseText options source = .ok reading) :
    reading.document.volume ≤ source.length * (options.maxExpansions + 1) := by
  rw [parseText_eq] at read
  have few := (parse_within read).2
  obtain ⟨declared, progress, -, top, rfl⟩ := parse_eq_ok_iff.mp read
  have shorter := ((List.dropWhile_suffix isBlank).trans declared.suffix).length_le.trans
    (withoutMark_suffix source).length_le
  calc (progress.reading declared.value (withoutMark source)).document.volume
      = progress.before.volume := (Document.volume_eq _).trans (Forest.volume_reverse _)
    _ ≤ source.length + source.length * progress.ledger.expansions := by
      have paid := topLevel_paid forbidden top EntityTable.values_nil shorter
      simp only [Pays, Forest.volume, Nat.mul_zero, Nat.add_zero, Nat.zero_add] at paid
      exact paid.trans (Nat.add_le_add_right shorter _)
    _ = source.length * (progress.ledger.expansions + 1) := by rw [Nat.mul_succ, Nat.add_comm]
    _ ≤ source.length * (options.maxExpansions + 1) :=
      Nat.mul_le_mul_left _ (Nat.succ_le_succ few)

/-- An entity that comes twice out of another one and once out of an attribute value. -/
theorem parseText_volume_le_shared :
    let source := "<!DOCTYPE a [<!ENTITY e 'xyz'><!ENTITY f '&e;&e;'>]><a b='&e;'>&f;</a>".toList
    ∃ reading, parseText { maxExpansions := 4 } source = .ok reading ∧
      reading.document.volume = 9 ∧ reading.document.volume ≤ source.length * (4 + 1) := by
  have measured : (parseText { maxExpansions := 4 }
      "<!DOCTYPE a [<!ENTITY e 'xyz'><!ENTITY f '&e;&e;'>]><a b='&e;'>&f;</a>".toList).toOption.map
        (·.document.content.volume) = some 9 := by
    decide +kernel
  generalize "<!DOCTYPE a [<!ENTITY e 'xyz'><!ENTITY f '&e;&e;'>]><a b='&e;'>&f;</a>".toList =
    source at measured ⊢
  dsimp only
  cases read : parseText { maxExpansions := 4 } source with
  | error _ => rw [read] at measured; cases measured
  | ok reading =>
    rw [read] at measured
    exact ⟨reading, rfl, reading.document.volume_eq.trans (Option.some.inj measured),
      parseText_volume_le rfl read⟩

end Documents

end Markup

end XmlSelect
