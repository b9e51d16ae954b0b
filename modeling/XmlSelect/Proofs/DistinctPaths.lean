import XmlSelect.Proofs.NormalDocument
import XmlSelect.Proofs.PathSelection

/-! Two nodes have two paths. A path falls apart at its slashes into steps and a step at its bracket
into a test and a position, since neither stands in a name. The test of a step tells which siblings
count for the position, so that level by level the steps tell the nodes apart: by their positions,
the attributes of an element by their names, and the document type declaration by its test. -/
namespace XmlSelect

namespace Text

/-- What is joined with a slash in front of each part tells the parts, if there is none in them. -/
theorem slashed_inj {steps others : List Text} (plain : ∀ step ∈ steps, '/' ∉ step)
    (plain' : ∀ step ∈ others, '/' ∉ step)
    (same : steps.flatMap ('/' :: ·) = others.flatMap ('/' :: ·)) : steps = others := by
  have joined (first : Text) (steps : List Text) :
      List.intercalate ['/'] (first :: steps) = first ++ steps.flatMap ('/' :: ·) := by
    induction steps generalizing first with
    | nil => simp
    | cons next rest ih => rw [List.intercalate_cons_cons, ih]; simp
  have parts (steps : List Text) (plain : ∀ step ∈ steps, '/' ∉ step) :
      (steps.flatMap ('/' :: ·)).splitOn '/' = [] :: steps := by
    rw [← List.nil_append (steps.flatMap _), ← joined]
    exact List.splitOn_intercalate '/' (List.forall_mem_cons.mpr ⟨nofun, plain⟩) nofun
  have split := congrArg (List.splitOn '/') same
  rw [parts steps plain, parts others plain'] at split
  exact (List.cons.inj split).2

theorem ofNat_inj {n m : Nat} (same : ofNat n = ofNat m) : n = m := by
  rw [← digitsValue_ofNat n, same, digitsValue_ofNat]

theorem not_mem_ofNat {c : Char} (other : c.isDigit = false) (n : Nat) : c ∉ ofNat n :=
  fun member => Bool.false_ne_true
    (other.symm.trans (Nat.isDigit_of_mem_toDigits (by decide) (by decide) member))

end Text

namespace NodeKind

variable {kind : NodeKind} {test : Text} {counted : Option (NodeKind → Bool)}

/-- The siblings that count for the position behind a test, as the test tells them. -/
def countedBy (test : Text) : Option (NodeKind → Bool) :=
  if test.head? = some '@' ∨ test = "node()".toList then none
  else if test = "text()".toList then some isText
  else if test = "comment()".toList then some isComment
  else if test = "processing-instruction()".toList then some isInstruction
  else some fun kind => kind.isElement && kind.name? == some test

section Named

variable (named : ∀ name ∈ kind.name?, Markup.IsName name)
  (tested : kind.pathTest? = some (test, counted))

include named tested

/-- No name is taken for another test, since none has a sign or a parenthesis in it. -/
theorem counted_eq : counted = countedBy test := by
  cases kind with
  | document => cases tested
  | element name attributes =>
    cases tested
    have valid := named test rfl
    have noKeyword (keyword : Text) (other : ¬Markup.IsName keyword) : test ≠ keyword :=
      fun same => other (same ▸ valid)
    have noSign : test.head? ≠ some '@' := fun first =>
      absurd (valid.isNameChar (List.mem_of_mem_head? first)) (by decide)
    rw [countedBy, if_neg (not_or.mpr ⟨noSign, noKeyword _ (by decide)⟩),
      if_neg (noKeyword _ (by decide)), if_neg (noKeyword _ (by decide)),
      if_neg (noKeyword _ (by decide))]
  | attr self => cases tested; rfl
  | leaf self => cases self <;> cases tested <;> rfl

/-- A test is not empty, and what stands around it in a path does not stand in it. -/
theorem pathTest_plain : test ≠ [] ∧ '/' ∉ test ∧ '[' ∉ test := by
  have ofName {name : Text} (valid : Markup.IsName name) :
      name ≠ [] ∧ '/' ∉ name ∧ '[' ∉ name := by
    have outside (c : Char) (other : isNameChar c = false) : c ∉ name := fun member =>
      Bool.false_ne_true (other.symm.trans (valid.isNameChar member))
    refine ⟨?_, outside _ (by decide), outside _ (by decide)⟩
    rintro rfl
    exact valid
  cases kind with
  | document => cases tested
  | element name attributes => cases tested; exact ofName (named test rfl)
  | attr self =>
    cases tested
    obtain ⟨-, noSlash, noBracket⟩ := ofName (named self.name rfl)
    simp [noSlash, noBracket]
  | leaf self => cases self <;> cases tested <;> decide

end Named

/-- A test whose siblings do not count is that of an attribute, which has its name behind the sign,
or that of a document type declaration. -/
theorem uncounted (tested : kind.pathTest? = some (test, none)) :
    (∃ self, kind = .attr self ∧ test = '@' :: self.name) ∨
      kind.isDoctype = true ∧ test = "node()".toList := by
  cases kind with
  | document => cases tested
  | element => cases tested
  | attr self => cases tested; exact .inl ⟨self, rfl, rfl⟩
  | leaf self => cases self <;> cases tested; exact .inr ⟨rfl, rfl⟩

end NodeKind

namespace Document

/-- A test with the position behind it, if there is one, tells both. -/
theorem tested_inj {test test' : Text} {position position' : Option Nat} (plain : '[' ∉ test)
    (plain' : '[' ∉ test')
    (same : test ++ XPath.bracketedAll (position.toList.map Text.ofNat) =
      test' ++ XPath.bracketedAll (position'.toList.map Text.ofNat)) :
    test = test' ∧ position = position' := by
  have without (test : Text) :
      test ++ XPath.bracketedAll ((none : Option Nat).toList.map Text.ofNat) = test :=
    List.append_nil test
  have withPlace (test : Text) (place : Nat) :
      test ++ XPath.bracketedAll ((some place).toList.map Text.ofNat) =
        test ++ '[' :: (Text.ofNat place ++ [']']) := by
    simp [XPath.bracketedAll]
  have bracket (test : Text) (place : Nat) : '[' ∈ test ++ '[' :: (Text.ofNat place ++ [']']) :=
    List.mem_append_right _ List.mem_cons_self
  cases position with
  | none =>
    rw [without] at same
    cases position' with
    | none => exact ⟨same.trans (without test'), rfl⟩
    | some place =>
      rw [withPlace] at same
      exact absurd (same ▸ bracket test' place) plain
  | some place =>
    rw [withPlace] at same
    cases position' with
    | none =>
      rw [without] at same
      exact absurd (same ▸ bracket test place) plain'
    | some place' =>
      rw [withPlace] at same
      have behind : '[' ∉ Text.ofNat place' ++ [']'] := by simp [Text.not_mem_ofNat]
      obtain ⟨tests, -, digits⟩ := (List.append_cons_inj_of_notMem plain' behind).mp same.symm
      exact ⟨tests.symm, congrArg some (Text.ofNat_inj (List.append_cancel_right digits)).symm⟩

variable {document : Document} {id other parent : Nat}

/-- The texts of the steps from the document node to a node. -/
def stepTexts (document : Document) (id : Nat) : List Text :=
  (id :: document.ancestors id).reverse.filterMap document.pathStep?

/-- Two nodes below one node that count for each other and have the same position are the same. -/
theorem eq_of_position {alike : NodeKind → Bool} {test test' : Text}
    (above : document.parent? id = some parent) (above' : document.parent? other = some parent)
    (tested : (document.kind? id).bind NodeKind.pathTest? = some (test, some alike))
    (tested' : (document.kind? other).bind NodeKind.pathTest? = some (test', some alike))
    (same : document.position? id = document.position? other) : id = other := by
  have peers : document.peers other alike = document.peers id alike := by
    rw [peers_eq above, peers_eq above']
  have place {id : Nat} {test : Text} (above : document.parent? id = some parent)
      (tested : (document.kind? id).bind NodeKind.pathTest? = some (test, some alike)) :
      (document.peers id alike)[((document.peers id alike).takeWhile (· < id)).length]? =
        some id := by
    obtain ⟨kind, here, tested⟩ := Option.bind_eq_some_iff.mp tested
    obtain ⟨⟨inner, -, own⟩, -⟩ := NodeKind.stepTest?_of_counted tested
    exact peers_getElem? above (by rw [here]; exact own) (by rw [isAttribute, here]; exact inner)
  have here := place above tested
  have there := place above' tested'
  rw [position?, position?, tested, tested'] at same
  dsimp only at same
  rw [peers] at there same
  have within := (List.getElem?_eq_some_iff.mp here).1
  have within' := (List.getElem?_eq_some_iff.mp there).1
  have index : ((document.peers id alike).takeWhile (· < id)).length =
      ((document.peers id alike).takeWhile (· < other)).length := by
    split at same
    · exact Nat.succ.inj (Option.some.inj same)
    · omega
  rw [index] at here
  exact Option.some.inj (here.symm.trans there)

theorem stepTexts_root (document : Document) : document.stepTexts root = [] := by
  have kind : document.kind? root = some .document := by rw [kind?, node?_root]; rfl
  have top : document.parent? root = none := by rw [parent?, node?_root]; rfl
  rw [stepTexts, ancestors_eq_nil top, List.reverse_singleton]
  exact List.filterMap_cons_none (by rw [pathStep?, kind]; rfl)

/-- The last step to a node leads to it from the node above. -/
theorem stepTexts_of_parent (above : document.parent? id = some parent) :
    ∃ step, document.pathStep? id = some step ∧
      document.stepTexts id = document.stepTexts parent ++ [step] := by
  obtain ⟨node, found, -⟩ := Option.bind_eq_some_iff.mp above
  have here : document.kind? id = some node.kind := by rw [kind?, found]; rfl
  have below : node.kind ≠ .document := fun top => by
    have first := (kind?_eq_document_iff document id).mp (top ▸ here)
    have := parent?_lt above
    omega
  have tested : node.kind.pathTest?.isSome = true := by
    cases kind : node.kind with
    | document => exact absurd kind below
    | leaf self => cases self <;> rfl
    | _ => rfl
  obtain ⟨test, tested⟩ := Option.isSome_iff_exists.mp tested
  obtain ⟨step, written⟩ : ∃ step, document.pathStep? id = some step := by
    rw [pathStep?_eq, here, Option.bind_some, tested]
    exact ⟨_, rfl⟩
  refine ⟨step, written, ?_⟩
  rw [stepTexts, ancestors_eq above, List.reverse_cons, List.filterMap_append]
  simp [stepTexts, written]

theorem NormalForm.named_kind (normal : document.NormalForm) {kind : NodeKind}
    (here : document.kind? id = some kind) : ∀ name ∈ kind.name?, Markup.IsName name :=
  fun name given => normal.named id name (by rw [name?, here]; exact given)

/-- A step is not empty and has no slash in it. -/
theorem pathStep_plain (normal : document.NormalForm) {step : Text}
    (found : document.pathStep? id = some step) : step ≠ [] ∧ '/' ∉ step := by
  rw [pathStep?_eq, Option.map_eq_some_iff] at found
  obtain ⟨⟨test, counted⟩, tested, rfl⟩ := found
  obtain ⟨kind, here, own⟩ := Option.bind_eq_some_iff.mp tested
  obtain ⟨given, noSlash, -⟩ := NodeKind.pathTest_plain (normal.named_kind here) own
  refine ⟨by simp [given], ?_⟩
  cases document.position? id with
  | none => simpa [XPath.bracketedAll] using noSlash
  | some position => simp [XPath.bracketedAll, noSlash, Text.not_mem_ofNat]

/-- A path tells its steps. -/
theorem stepTexts_of_path (normal : document.NormalForm)
    (same : document.path id = document.path other) :
    document.stepTexts id = document.stepTexts other := by
  -- The single slash of the document node has one part, which is empty as no step is.
  have parted (id : Nat) : ∃ parts : List Text, document.path id = parts.flatMap ('/' :: ·) ∧
      (∀ part ∈ parts, '/' ∉ part) ∧ document.stepTexts id = parts.filter (· != []) := by
    rw [path, ← stepTexts]
    split
    · rename_i none
      exact ⟨[[]], rfl, by simp, none⟩
    · have plain (step : Text) (member : step ∈ document.stepTexts id) :
          step ≠ [] ∧ '/' ∉ step := by
        obtain ⟨node, -, found⟩ := List.mem_filterMap.mp member
        exact pathStep_plain normal found
      refine ⟨_, rfl, fun part member => (plain part member).2, ?_⟩
      exact (List.filter_eq_self.mpr fun part member => by simpa using (plain part member).1).symm
  obtain ⟨parts, whole, plain, steps⟩ := parted id
  obtain ⟨parts', whole', plain', steps'⟩ := parted other
  rw [whole, whole'] at same
  rw [steps, steps', Text.slashed_inj plain plain' same]

section Told

variable (normal : document.NormalForm)
  (single : ∀ id other, document.isDoctype id = true → document.isDoctype other = true →
    id = other)

include normal single

/-- Two nodes below one node with the same step to them are the same. -/
theorem eq_of_pathStep (above : document.parent? id = some parent)
    (above' : document.parent? other = some parent) {step : Text}
    (found : document.pathStep? id = some step) (found' : document.pathStep? other = some step) :
    id = other := by
  rw [pathStep?_eq, Option.map_eq_some_iff] at found found'
  obtain ⟨⟨test, counted⟩, tested, rfl⟩ := found
  obtain ⟨⟨test', counted'⟩, tested', same⟩ := found'
  obtain ⟨kind, here, own⟩ := Option.bind_eq_some_iff.mp tested
  obtain ⟨kind', here', own'⟩ := Option.bind_eq_some_iff.mp tested'
  have named := normal.named_kind here
  have named' := normal.named_kind here'
  obtain ⟨-, -, plain⟩ := NodeKind.pathTest_plain named own
  obtain ⟨-, -, plain'⟩ := NodeKind.pathTest_plain named' own'
  obtain ⟨rfl, place⟩ := tested_inj plain' plain same
  obtain rfl : counted' = counted :=
    (NodeKind.counted_eq named' own').trans (NodeKind.counted_eq named own).symm
  cases counted' with
  | some alike => exact eq_of_position above above' tested tested' place.symm
  | none =>
    rcases NodeKind.uncounted own with ⟨self, rfl, sign⟩ | ⟨declares, keyword⟩
    · rcases NodeKind.uncounted own' with ⟨self', rfl, sign'⟩ | ⟨-, keyword⟩
      · have names : self'.name = self.name := (List.cons.inj (sign'.symm.trans sign)).2
        exact (attribute_unique above (normal.distinct parent) above' here here' names).symm
      · exact absurd (sign.symm.trans keyword) (by simp)
    · rcases NodeKind.uncounted own' with ⟨self', rfl, sign'⟩ | ⟨declares', -⟩
      · exact absurd (sign'.symm.trans keyword) (by simp)
      · exact single id other (by rw [isDoctype, here]; exact declares)
          (by rw [isDoctype, here']; exact declares')

/-- The steps from the document node to a node tell the node. -/
theorem eq_of_stepTexts (known : (document.node? id).isSome = true)
    (known' : (document.node? other).isSome = true)
    (same : document.stepTexts id = document.stepTexts other) : id = other := by
  have top {id : Nat} (known : (document.node? id).isSome = true) :
      id = root ∨ ∃ parent, document.parent? id = some parent := by
    obtain ⟨first, last⟩ := (isSome_node? document id).mp known
    exact (Nat.eq_or_lt_of_le first).imp Eq.symm (parent_of_known · last)
  -- Nodes at the same steps have nodes above them at the same steps.
  induction id using Nat.strongRecOn generalizing other with
  | ind id ih =>
    rcases top known with rfl | ⟨parent, above⟩ <;>
      rcases top known' with rfl | ⟨parent', above'⟩
    · rfl
    · obtain ⟨step, -, split⟩ := stepTexts_of_parent above'
      rw [stepTexts_root, split] at same
      exact absurd same.symm (List.concat_ne_nil _ _)
    · obtain ⟨step, -, split⟩ := stepTexts_of_parent above
      rw [stepTexts_root, split] at same
      exact absurd same (List.concat_ne_nil _ _)
    · obtain ⟨step, found, split⟩ := stepTexts_of_parent above
      obtain ⟨step', found', split'⟩ := stepTexts_of_parent above'
      rw [split, split'] at same
      obtain ⟨before, last⟩ := List.append_inj' same rfl
      cases last
      have known := (isSome_node? ..).mp known
      have known' := (isSome_node? ..).mp known'
      have lower := parent?_lt above
      have lower' := parent?_lt above'
      obtain rfl := ih parent lower.2 ((isSome_node? ..).mpr (by omega))
        ((isSome_node? ..).mpr (by omega)) before
      exact eq_of_pathStep normal single above above' found found'

end Told

end Document

namespace Markup

variable {options : Options} {source : Text} {bytes : List UInt8} {reading : Reading}

/-- A document that was read has no more than one document type declaration. -/
theorem parse_single_doctype (read : parse options source = .ok reading) {id other : Nat}
    (declares : reading.document.isDoctype id = true)
    (declares' : reading.document.isDoctype other = true) : id = other := by
  have listed {id : Nat} (declares : reading.document.isDoctype id = true) :
      id ∈ (reading.document.children Document.root).filter reading.document.isDoctype := by
    obtain ⟨kind, here, isDoctype⟩ := (Option.any_eq_true ..).mp declares
    cases kind with
    | leaf self =>
      have above := (Document.places_content _).parent_of_isDoctype (parse_separate read).2
        (Document.covers_of_kind here (by simp)) here isDoctype
      have inner : reading.document.isAttribute id = false := by
        rw [Document.isAttribute, here]
        rfl
      exact List.mem_filter.mpr ⟨(Document.mem_children_iff ..).mpr ⟨above, inner⟩, declares⟩
    | _ => cases isDoctype
  have few := (normalForm_of_topmost (parse_proper read)).doctype
  obtain ⟨place, within, here⟩ := List.getElem_of_mem (listed declares)
  obtain ⟨place', within', here'⟩ := List.getElem_of_mem (listed declares')
  obtain rfl : place = place' := by omega
  exact here.symm.trans here'

/-- Every document that was read, from a text or from bytes, has different paths to different
nodes. -/
theorem path_injective [Encoding.Library] (read : parse options source = .ok reading ∨
      parseText options source = .ok reading ∨ parseBytes options bytes = .ok reading)
    {id other : Nat} (known : (reading.document.node? id).isSome = true)
    (known' : (reading.document.node? other).isSome = true) (different : id ≠ other) :
    reading.document.path id ≠ reading.document.path other := by
  have parsed : ∃ source, parse options source = .ok reading := by
    obtain read | read | read := read
    · exact ⟨source, read⟩
    · exact ⟨_, parseText_eq options source ▸ read⟩
    · unfold parseBytes at read
      split at read
      · cases read
      · exact ⟨_, parseText_eq options _ ▸ mapError_ok read⟩
  obtain ⟨source, read⟩ := parsed
  have normal := normalForm_of_topmost (parse_proper read)
  exact fun same => different (Document.eq_of_stepTexts normal
    (fun _ _ => parse_single_doctype read) known known' (Document.stepTexts_of_path normal same))

/-- Two runs of text of one element, with a CDATA section and an element between them. -/
theorem path_injective_runs : ∃ reading,
    parseText {} "<r>x<![CDATA[y]]><a/>z</r>".toList = .ok reading ∧
      (reading.document.node? 3).isSome = true ∧ (reading.document.node? 6).isSome = true ∧
      reading.document.path 3 = "/r/text()[1]".toList ∧
      reading.document.path 6 = "/r/text()[3]".toList ∧
      reading.document.path 3 ≠ reading.document.path 6 := by
  have facts : (parseText {} "<r>x<![CDATA[y]]><a/>z</r>".toList).toOption.any (fun reading =>
      (reading.document.node? 3).isSome && (reading.document.node? 6).isSome &&
        reading.document.path 3 == "/r/text()[1]".toList &&
        reading.document.path 6 == "/r/text()[3]".toList) = true := by
    decide +kernel
  obtain ⟨reading, read, facts⟩ := exists_ok_of_any facts
  simp only [Bool.and_eq_true, beq_iff_eq] at facts
  obtain ⟨⟨⟨known, known'⟩, first⟩, last⟩ := facts
  exact ⟨reading, read, known, known', first, last,
    @path_injective {} _ [] _ inferInstance (.inr (.inl read)) 3 6 known known' (by decide)⟩

end Markup

end XmlSelect
