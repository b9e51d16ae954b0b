import XmlSelect.Proofs.DeclarationText
import XmlSelect.Proofs.LineEndDocument

/-! What stands in front of the element of a document: the declaration and the document type
declaration. Their literals are written as they stand between double quotes, whatever the quotes
around them were. A literal without double quotes is read back with its line ends joined, so that
the declarations are the same exactly if no line end is left in them. -/
namespace XmlSelect

/-- The declaration that is written for a document. -/
def Document.declared (document : Document) : Declaration :=
  document.declaration.getD ⟨"1.0".toList, none, none⟩

/-- The literals of the declaration and of the document type declaration. -/
def Document.prologLiterals (document : Document) : List Text :=
  document.declaration.toList.flatMap Declaration.literals ++
    document.content.doctypes.flatMap Leaf.literals

/-- A document has the declaration that is written for another one, and its document type
declaration if there is one. -/
structure Document.SameProlog (document again : Document) : Prop where
  declaration : again.declaration = some document.declared
  doctypes : again.content.doctypes = document.content.doctypes

/-- A declaration as it is read back once it is written. -/
def Declaration.joined (declaration : Declaration) : Declaration :=
  { declaration with
    version := Markup.joinLineEnds declaration.version
    encoding := declaration.encoding.map Markup.joinLineEnds }

theorem Option.map_eq_self_iff {α : Type} {change : α → α} {option : Option α} :
    option.map change = option ↔ ∀ value ∈ option.toList, change value = value := by
  cases option <;> simp

theorem Declaration.joined_eq_self_iff {declaration : Declaration} :
    declaration.joined = declaration ↔
      ∀ literal ∈ declaration.literals, Markup.joinLineEnds literal = literal := by
  obtain ⟨version, encoding, standalone⟩ := declaration
  simp only [joined, literals, mk.injEq, and_true, List.forall_mem_cons, Option.map_eq_self_iff]

theorem Leaf.isDoctype_joined (leaf : Leaf) : leaf.joined.isDoctype = leaf.isDoctype := by
  cases leaf <;> rfl

theorem Leaf.joined_eq_self_iff {leaf : Leaf} :
    leaf.joined = leaf ↔ ∀ literal ∈ leaf.literals, Markup.joinLineEnds literal = literal := by
  cases leaf with
  | text => simp [joined, literals]
  | cdata => simp [joined, literals]
  | comment => simp [joined, literals]
  | instruction => simp only [joined, literals, instruction.injEq, true_and, Option.map_eq_self_iff]
  | doctype =>
    simp only [joined, literals, doctype.injEq, true_and, Option.map_eq_self_iff,
      List.forall_mem_append]

theorem Forest.doctypes_joined (forest : Forest) :
    forest.joined.doctypes = forest.doctypes.map Leaf.joined := by
  induction forest with
  | nil => rfl
  | leaf first rest ih =>
    rw [joined, doctypes, doctypes, Leaf.isDoctype_joined]
    split
    · rw [List.map_cons, ih]
    · exact ih
  | element name attributes content rest _ ih => exact ih

/-- Reading a document back keeps its declarations exactly if it joins no line end in them. -/
theorem Document.sameProlog_iff {document again : Document}
    (declaration : again.declaration = some document.declared.joined)
    (content : again.content = document.content.joined) :
    document.SameProlog again ↔
      ∀ literal ∈ document.prologLiterals, ¬['\r', '\n'] <:+: literal := by
  have declared : document.declared.joined = document.declared ↔
      ∀ literal ∈ document.declaration.toList.flatMap Declaration.literals,
        Markup.joinLineEnds literal = literal := by
    rw [Document.declared]
    cases document.declaration with
    | none => exact iff_of_true rfl nofun
    | some declaration => simp [Declaration.joined_eq_self_iff]
  have doctypes : document.content.doctypes.map Leaf.joined = document.content.doctypes ↔
      ∀ literal ∈ document.content.doctypes.flatMap Leaf.literals,
        Markup.joinLineEnds literal = literal := by
    have same := List.map_inj_left (l := document.content.doctypes) (f := Leaf.joined) (g := id)
    rw [List.map_id] at same
    simp only [same, id, Leaf.joined_eq_self_iff, List.mem_flatMap]
    exact ⟨fun each literal ⟨leaf, member, inside⟩ => each leaf member literal inside,
      fun each leaf member literal inside => each literal ⟨leaf, member, inside⟩⟩
  simp only [← Markup.joinLineEnds_eq_self_iff, prologLiterals, List.forall_mem_append, ← declared,
    ← doctypes, ← Forest.doctypes_joined, ← content]
  constructor
  · exact fun same => ⟨Option.some.inj (declaration.symm.trans same.declaration), same.doctypes⟩
  · exact fun ⟨first, second⟩ => ⟨first ▸ declaration, second⟩

namespace Markup

/-- The fields that are written for a declaration. -/
def writtenFields (declaration : Declaration) : List Field :=
  writtenField "version".toList declaration.version ::
    ((declaration.encoding.map (writtenField "encoding".toList)).toList ++
      (declaration.standalone.map fun standalone => writtenField "standalone".toList
        (if standalone then "yes" else "no").toList).toList)

theorem printDeclaration_eq (document : Document) :
    printDeclaration document.declaration =
      "<?xml".toList ++ (writtenFields document.declared).flatMap Field.text ++ "?>".toList ++
        ['\n'] := by
  have version : "<?xml version=\"".toList =
      "<?xml".toList ++ (' ' :: "version".toList ++ ['=', '"']) := rfl
  have encoding : " encoding=\"".toList = ' ' :: "encoding".toList ++ ['=', '"'] := rfl
  have standalone : " standalone=\"".toList = ' ' :: "standalone".toList ++ ['=', '"'] := rfl
  have ending : "?>\n".toList = "?>".toList ++ ['\n'] := rfl
  unfold printDeclaration
  rw [version, encoding, standalone, ending, Document.declared]
  obtain _ | ⟨version, _ | encoding, _ | standalone⟩ := document.declaration
  all_goals simp only [writtenFields, writtenField, Field.text, Option.map_none, Option.map_some,
    Option.getD_none, Option.getD_some, Option.bind_none, Option.bind_some, Option.toList_none,
    Option.toList_some, List.flatMap_cons, List.flatMap_nil, List.nil_append, List.append_nil,
    List.cons_append, List.append_assoc]

theorem writtenFields_proper {declaration : Declaration}
    (each : ∀ literal ∈ declaration.literals, XmlText literal ∧ '"' ∉ literal) :
    ∀ field ∈ writtenFields declaration, field.Proper := by
  obtain ⟨version, encoding, standalone⟩ := declaration
  rw [Declaration.literals, List.forall_mem_cons] at each
  obtain ⟨⟨held, unquoted⟩, each⟩ := each
  rw [writtenFields, List.forall_mem_cons, List.forall_mem_append]
  refine ⟨writtenField_proper ⟨rfl, List.all_eq_true.mp rfl⟩ held unquoted, ?_, ?_⟩
  · cases encoding with
    | none => exact List.forall_mem_nil _
    | some encoding =>
      obtain ⟨held, unquoted⟩ := each encoding List.mem_cons_self
      exact List.forall_mem_singleton.mpr
        (writtenField_proper ⟨rfl, List.all_eq_true.mp rfl⟩ held unquoted)
  · cases standalone with
    | none => exact List.forall_mem_nil _
    | some standalone =>
      refine List.forall_mem_singleton.mpr
        (writtenField_proper ⟨rfl, List.all_eq_true.mp rfl⟩ ?_ ?_)
      all_goals cases standalone
      · exact List.all_eq_true.mp rfl
      · exact List.all_eq_true.mp rfl
      · decide
      · decide

/-- The fields that are written for a declaration say what it says, its line ends joined. -/
theorem declares_writtenFields {declaration : Declaration}
    (each : ∀ literal ∈ declaration.literals, XmlText literal ∧ '"' ∉ literal) :
    Declares (writtenFields declaration) declaration.joined where
  proper := writtenFields_proper each
  complete := by obtain ⟨version, _ | encoding, _ | _ | _⟩ := declaration <;> rfl

/-- What is written for a document is read back, line ends joined, if no literal of its declarations
holds the quote that is written around it. -/
theorem parseText_print {options : Options} {document : Document}
    (top : Topmost Leaf.InContent options.maxDepth false false document.content)
    (held : ∀ declaration ∈ document.declaration, ∀ literal ∈ declaration.literals,
      XmlText literal)
    (unquoted : ∀ literal ∈ document.prologLiterals, '"' ∉ literal) :
    ∃ again, parseText options (print {} document) = .ok again ∧
      again.document.declaration = some document.declared.joined ∧
        again.document.content = document.content.joined := by
  rw [Document.prologLiterals, List.forall_mem_append] at unquoted
  have each : ∀ literal ∈ document.declared.literals, XmlText literal ∧ '"' ∉ literal := by
    rw [Document.declared]
    cases given : document.declaration with
    | none => exact List.forall_mem_singleton.mpr ⟨List.all_eq_true.mp rfl, by decide⟩
    | some declaration =>
      refine fun literal member => ⟨held declaration given literal member, unquoted.1 literal ?_⟩
      simpa [given] using member
  obtain ⟨suffix, declared⟩ := takes_optionalDeclaration (declares_writtenFields each)
    ('\n' :: printTop {} document.content) _ rfl
  obtain ⟨progress, read, together⟩ := topLevel_printTop top
    (fun leaf member literal inside =>
      unquoted.2 literal (List.mem_flatMap.mpr ⟨leaf, member, inside⟩))
    {} rfl rfl
  have text : print {} document = "<?xml".toList ++
      (writtenFields document.declared).flatMap Field.text ++ "?>".toList ++
        '\n' :: printTop {} document.content := by
    rw [print, if_pos rfl, printDeclaration_eq, List.append_assoc, List.singleton_append]
  have again : parse options (print {} document) =
      .ok (progress.reading (some document.declared.joined) (print {} document)) := by
    rw [text]
    exact parse_eq_ok_iff.mpr ⟨_, progress, declared,
      by rw [rest_skipBlanks_lineFeed, rest_skipBlanks_printTop top]; exact read, rfl⟩
  have unmarked : withoutMark (print {} document) = print {} document := by
    rw [text]
    rfl
  refine ⟨_, by rw [parseText_eq, unmarked]; exact again, rfl, ?_⟩
  exact (congrArg Forest.reverse together).trans document.content.joined.reverse_reverse

/-- The declarations of a document that was read are made of characters that documents may hold, and
what stands at its top is in order. -/
theorem parseText_prolog {options : Options} {source : Text} {reading : Reading}
    (read : parseText options source = .ok reading) (resolves : options.ResolvesPlain) :
    Topmost Leaf.InContent options.maxDepth false false reading.document.content ∧
      ∀ declaration ∈ reading.document.declaration, ∀ literal ∈ declaration.literals,
        XmlText literal := by
  rw [parseText_eq] at read
  refine ⟨parse_topmost read resolves (fun nonempty held => ⟨nonempty, held⟩)
    fun leaf => leaf.proper, fun declaration given => ?_⟩
  obtain ⟨declared, progress, start, -, rfl⟩ := parse_eq_ok_iff.mp read
  obtain ⟨written, blanks, -, -, declares⟩ := optionalDeclaration_fields start given
  rw [Declaration.literals, List.forall_mem_cons]
  exact ⟨declares.xml.1, fun literal member => declares.xml.2 literal (Option.mem_toList.mp member)⟩

/-- What is written for a document that was read is read again if no literal of its declarations
holds a double quote, and then the declarations are the same exactly if none of these literals holds
a line end of two characters. -/
theorem parseText_print_prolog {source : Text} {reading : Reading}
    (read : parseText {} source = .ok reading)
    (unquoted : ∀ literal ∈ reading.document.prologLiterals, '"' ∉ literal) :
    ∃ again, parseText {} (print {} reading.document) = .ok again ∧
      (reading.document.SameProlog again.document ↔
        ∀ literal ∈ reading.document.prologLiterals, ¬['\r', '\n'] <:+: literal) := by
  have ⟨top, held⟩ := parseText_prolog read nofun
  obtain ⟨again, reread, declaration, content⟩ := parseText_print top held unquoted
  exact ⟨again, reread, Document.sameProlog_iff declaration content⟩

/-- Apostrophes, markup and a carriage return that stands alone, in literals with quotes of either
kind around them. -/
theorem parseText_print_prolog_apostrophes :
    let source :=
      "<?xml version='<1>' encoding=\"'&\"?><!DOCTYPE a PUBLIC '\r' \"it's\"><a/>".toList
    ∃ reading again, parseText {} source = .ok reading ∧
      (∀ literal ∈ reading.document.prologLiterals, '"' ∉ literal) ∧
      parseText {} (print {} reading.document) = .ok again ∧
      (reading.document.SameProlog again.document ↔
        ∀ literal ∈ reading.document.prologLiterals, ¬['\r', '\n'] <:+: literal) := by
  intro source
  have literals : (parseText {} source).toOption.map (·.document.prologLiterals) =
      some (["<1>", "'&", "it's", "\r"].map String.toList) := by
    decide +kernel
  cases read : parseText {} source with
  | error => rw [read] at literals; cases literals
  | ok reading =>
    rw [read] at literals
    have unquoted : ∀ literal ∈ reading.document.prologLiterals, '"' ∉ literal := by
      rw [show reading.document.prologLiterals = _ from Option.some.inj literals]
      decide
    obtain ⟨again, reread, same⟩ := parseText_print_prolog read unquoted
    exact ⟨reading, again, rfl, unquoted, reread, same⟩

/-- A double quote in the declaration ends the literal that is written for it, and a line end that
is left in an identifier is joined when it is read again. -/
theorem prolog_changed :
    (∃ reading, parseText {} "<?xml version='1\"0'?><a/>".toList = .ok reading ∧
      (parseText {} (print {} reading.document)).toOption.isNone = true) ∧
    ∃ reading again, parseText {} "<!DOCTYPE a SYSTEM '\r\r\n'><a/>".toList = .ok reading ∧
      parseText {} (print {} reading.document) = .ok again ∧
      ¬reading.document.SameProlog again.document := by
  constructor
  · have measured : (parseText {} "<?xml version='1\"0'?><a/>".toList).toOption.map (fun reading =>
        (parseText {} (print {} reading.document)).toOption.isNone) = some true := by
      decide +kernel
    cases read : parseText {} "<?xml version='1\"0'?><a/>".toList with
    | error => rw [read] at measured; cases measured
    | ok reading =>
      rw [read] at measured
      exact ⟨reading, rfl, Option.some.inj measured⟩
  · have measured : (parseText {} "<!DOCTYPE a SYSTEM '\r\r\n'><a/>".toList).toOption.map
        (fun reading => (reading.document.content.doctypes,
          (parseText {} (print {} reading.document)).toOption.map (·.document.content.doctypes))) =
        some ([.doctype ['a'] (some ['\r', '\n']) none],
          some [.doctype ['a'] (some ['\n']) none]) := by
      decide +kernel
    cases read : parseText {} "<!DOCTYPE a SYSTEM '\r\r\n'><a/>".toList with
    | error => rw [read] at measured; cases measured
    | ok reading =>
      rw [read] at measured
      obtain ⟨first, second⟩ := Prod.mk.inj (Option.some.inj measured)
      cases reread : parseText {} (print {} reading.document) with
      | error => rw [reread] at second; cases second
      | ok again =>
        rw [reread] at second
        refine ⟨reading, again, rfl, reread, fun same => ?_⟩
        have doctypes := same.doctypes
        rw [first, show again.document.content.doctypes = _ from Option.some.inj second] at doctypes
        exact absurd doctypes (by decide)

end Markup

end XmlSelect
