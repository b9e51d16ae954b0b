import XmlSelect.Markup.Bytes
import XmlSelect.Proofs.DeclarationText
import XmlSelect.Proofs.DeclaredLabel

/-! The encoding of documents without a byte order mark. It is looked for in the bytes, and once
they are a text the declaration is read again. Both find the same encoding if the field that counts
is the first with the word `encoding` in it, and the first end of an instruction is behind that
field; without a declaration, if the word does not stand in front of the first end of an
instruction. -/
namespace XmlSelect

namespace Text

variable {word before after : Text} {c : Char}

/-- A word is on one side of each character that is none of its own. -/
theorem infix_append_cons (other : c ∉ word) (inside : word <:+: before ++ c :: after) :
    word <:+: before ∨ word <:+: after := by
  obtain inside | inside | ⟨front, behind, rfl, first, last⟩ := List.infix_append_iff.mp inside
  · exact .inl inside
  · obtain start | inside := List.infix_cons_iff.mp inside
    · obtain rfl | ⟨behind, rfl, -⟩ := List.prefix_cons_iff.mp start
      · exact .inl (List.nil_infix)
      · exact absurd List.mem_cons_self other
    · exact .inr inside
  · obtain rfl | ⟨behind, rfl, -⟩ := List.prefix_cons_iff.mp last
    · exact .inl ((List.append_nil front).symm ▸ first.isInfix)
    · exact absurd (List.mem_append_right front List.mem_cons_self) other

theorem infix_of_append_left (filled : word ≠ []) (other : ∀ c ∈ before, c ∉ word)
    (inside : word <:+: before ++ after) : word <:+: after := by
  induction before with
  | nil => exact inside
  | cons c before ih =>
    obtain ⟨first, other⟩ := List.forall_mem_cons.mp other
    have split : word <:+: [] ++ c :: (before ++ after) := inside
    obtain none | inside := infix_append_cons first split
    · exact absurd (List.infix_nil.mp none) filled
    · exact ih other inside

theorem infix_of_append_right (filled : word ≠ []) (other : ∀ c ∈ after, c ∉ word)
    (inside : word <:+: before ++ after) : word <:+: before := by
  cases after with
  | nil => rwa [List.append_nil] at inside
  | cons c after =>
    obtain ⟨first, other⟩ := List.forall_mem_cons.mp other
    obtain inside | inside := infix_append_cons first inside
    · exact inside
    · have none := infix_of_append_left filled other ((List.append_nil after).symm ▸ inside)
      exact absurd (List.infix_nil.mp none) filled

end Text

/-- The label of the encoding that a document declares. -/
def Document.encodingLabel (document : Document) : Text :=
  (document.declaration.bind (·.encoding)).getD "UTF-8".toList

namespace Markup

open Encoding

section Fields

variable {word front : Text}

/-- A word that neither blanks nor quotes nor signs belong to. -/
structure IsPlain (word : Text) : Prop where
  filled : word ≠ []
  plain : ∀ c ∈ word, isBlank c = false ∧ isQuote c = false ∧ c ≠ '='

theorem IsPlain.of_all (filled : word ≠ [])
    (plain : (word.all fun c => !isBlank c && !isQuote c && c != '=') = true) : IsPlain word :=
  ⟨filled, by simpa [and_assoc] using plain⟩

theorem IsPlain.notMem_of_isBlank (plain : IsPlain word) {blanks : Text}
    (each : ∀ c ∈ blanks, isBlank c = true) : ∀ c ∈ blanks, c ∉ word :=
  fun c member inside => absurd (each c member) (by simp [(plain.plain c inside).1])

/-- Such a word stands in the key of a field or in its value, if it stands there at all. -/
theorem infix_of_field (plain : IsPlain word) {field : Field} (proper : field.Proper)
    (inside : word <:+: front ++ field.text) :
    word <:+: front ∨ word <:+: field.key ∨ word <:+: field.value := by
  have sign : '=' ∉ word := fun member => (plain.plain _ member).2.2 rfl
  have quote : field.quote ∉ word := fun member =>
    absurd proper.quotes (by simp [(plain.plain _ member).2.1])
  obtain ⟨first, gap, same⟩ := List.exists_cons_of_ne_nil proper.spaced
  have gaps := plain.notMem_of_isBlank (same ▸ proper.gap)
  obtain ⟨opening, gaps⟩ := List.forall_mem_cons.mp gaps
  rw [Field.text, same, List.cons_append] at inside
  obtain inside | inside := Text.infix_append_cons opening inside
  · exact .inl inside
  have inside := Text.infix_of_append_left plain.filled gaps inside
  rw [← List.append_assoc] at inside
  obtain inside | inside := Text.infix_append_cons sign inside
  · exact .inr (.inl (Text.infix_of_append_right plain.filled
      (plain.notMem_of_isBlank proper.before) inside))
  have inside :=
    Text.infix_of_append_left plain.filled (plain.notMem_of_isBlank proper.after) inside
  have around : word <:+: [] ++ field.quote :: (field.value ++ field.quote :: []) := inside
  obtain none | inside := Text.infix_append_cons quote around
  · exact absurd (List.infix_nil.mp none) plain.filled
  obtain inside | none := Text.infix_append_cons quote inside
  · exact .inr (.inr inside)
  · exact absurd (List.infix_nil.mp none) plain.filled

theorem infix_of_fields (plain : IsPlain word) {written : List Field}
    (proper : ∀ field ∈ written, field.Proper)
    (inside : word <:+: front ++ written.flatMap Field.text) :
    word <:+: front ∨ ∃ field ∈ written, word <:+: field.key ∨ word <:+: field.value := by
  induction written generalizing front with
  | nil => exact .inl ((List.append_nil front) ▸ inside)
  | cons field written ih =>
    obtain ⟨first, proper⟩ := List.forall_mem_cons.mp proper
    rw [List.flatMap_cons, ← List.append_assoc] at inside
    obtain here | ⟨later, member, inside⟩ := ih proper inside
    · obtain inside | inside := infix_of_field plain first here
      · exact .inl inside
      · exact .inr ⟨field, List.mem_cons_self, inside⟩
    · exact .inr ⟨later, List.mem_cons_of_mem _ member, inside⟩

theorem not_infix_of_fields (plain : IsPlain word) {written : List Field}
    (proper : ∀ field ∈ written, field.Proper)
    (absent : ∀ field ∈ written, ¬word <:+: field.key ∧ ¬word <:+: field.value) :
    ¬word <:+: written.flatMap Field.text := by
  intro inside
  have inside : word <:+: [] ++ written.flatMap Field.text := inside
  obtain none | ⟨field, member, key | value⟩ := infix_of_fields plain proper inside
  · exact plain.filled (List.infix_nil.mp none)
  · exact (absent field member).1 key
  · exact (absent field member).2 value

end Fields

section Labels

variable [Library]

/-- Joining line ends in a label changes nothing but the white space around it. -/
theorem ofLabel?_joinLineEnds [LawfulLibrary] {label : Text} {charset : Library.Charset}
    (known : Library.ofLabel? label = some charset) :
    Library.ofLabel? (joinLineEnds label) = some charset := by
  obtain ⟨lead, trail, whole, before, behind, first, last⟩ := Text.exists_trim isAsciiSpace label
  obtain ⟨filled, letters⟩ := LawfulLibrary.word known
  have same : Text.trim isAsciiSpace (joinLineEnds label) = Text.trim isAsciiSpace label := by
    generalize Text.trim isAsciiSpace label = core at whole first last filled letters
    have plain : '\r' ∉ core := fun member => absurd (letters _ member).2 (by decide)
    obtain ⟨c, rest, same⟩ := List.exists_cons_of_ne_nil filled
    have apart : (core ++ trail).head? ≠ some '\n' := by
      intro here
      rw [same] at here letters
      exact absurd (letters c List.mem_cons_self).2 (by rw [Option.some.inj here]; decide)
    rw [whole, List.append_assoc, joinLineEnds_append apart, joinLineEnds_append_of_plain plain,
      ← List.append_assoc]
    exact Text.trim_append (fun c member => before c (mem_of_mem_joinLineEnds member))
      (fun c member => behind c (mem_of_mem_joinLineEnds member)) filled first last
  rw [← LawfulLibrary.spaced, same, LawfulLibrary.spaced, known]

theorem ascii_of_ofLabel? [LawfulLibrary] {label : Text} {charset : Library.Charset}
    (known : Library.ofLabel? label = some charset) : Ascii label := by
  obtain ⟨lead, trail, whole, before, behind, -⟩ := Text.exists_trim isAsciiSpace label
  have word := (LawfulLibrary.word known).2
  rw [whole, Ascii, List.forall_mem_append, List.forall_mem_append]
  exact ⟨⟨fun c member => ascii_of_isAsciiSpace (before c member),
    fun c member => (word c member).1⟩, fun c member => ascii_of_isAsciiSpace (behind c member)⟩

end Labels

section Parsed

variable {options : Options} {reading : Reading}

/-- A document begins with markup, a blank or a byte order mark. -/
theorem head_of_parseText {c : Char} {rest : Text}
    (read : parseText options (c :: rest) = .ok reading) :
    c = '<' ∨ isBlank c = true ∨ c = '\ufeff' := by
  by_contra other
  simp only [not_or, Bool.not_eq_true] at other
  obtain ⟨noMarkup, noBlank, noMark⟩ := other
  have unmarked : withoutMark (c :: rest) = c :: rest := by
    unfold withoutMark
    split
    · rename_i same
      exact absurd (List.cons.inj same).1 noMark
    · rfl
  rw [parseText_eq, unmarked] at read
  obtain ⟨declared, progress, start, top, -⟩ := parse_eq_ok_iff.mp read
  have none : optionalDeclaration (c :: rest) = .ok ⟨none, c :: rest, List.suffix_refl _⟩ :=
    optionalDeclaration_none fun rest same => absurd (List.cons.inj same).1 noMarkup
  rw [none] at start
  cases start
  rw [skipBlanks_of_head noBlank] at top
  rw [topLevel] at top
  · cases top
  · exact noMarkup

variable [Library]

theorem decode_unmarked {bytes : List UInt8} (unmarked : Mark.detect bytes = .none) :
    decode bytes = match declaredLabel? bytes with
      | some label => if isUtf8Label label then decode.plain bytes else transcode bytes label
      | none => decode.plain bytes := by
  rw [decode, unmarked]
  rfl

/-- How a text without a mark was decoded. -/
inductive DecodedAs (bytes : List UInt8) (text : Text) : Option Text → Prop
  | unicode {label : Option Text} (names : ∀ name ∈ label, isUtf8Label name = true)
      (decoded : Utf8.decode? bytes = some text) : DecodedAs bytes text label
  | named {label : Text} (decoded : transcode bytes label = .ok text) :
      DecodedAs bytes text (some label)

theorem decodedAs {bytes : List UInt8} {text : Text} (unmarked : Mark.detect bytes = .none)
    (decoded : decode bytes = .ok text) : DecodedAs bytes text (declaredLabel? bytes) := by
  have unicode (plain : decode.plain bytes = .ok text) : Utf8.decode? bytes = some text := by
    unfold decode.plain at plain
    split at plain
    · rename_i found
      exact found.trans (congrArg some (Except.ok.inj plain))
    · cases plain
  rw [decode_unmarked unmarked] at decoded
  split at decoded
  · rename_i label declared
    rw [declared]
    split at decoded
    · rename_i named
      exact .unicode (fun name same => Option.mem_some.mp same ▸ named) (unicode decoded)
    · exact .named decoded
  · rename_i none
    rw [none]
    exact .unicode (fun _ member => absurd member (Option.not_mem_none _)) (unicode decoded)

/-- What bytes are in an encoding that extends ASCII, or in UTF-16. -/
def PlainlyEncoded (bytes : List UInt8) (text : Text) : Prop :=
  Renders bytes text ∨ ∃ order, Utf16.decode? order bytes = some text

/-- No document with a declaration was decoded as UTF-16. -/
theorem renders_of_decodedAs {bytes : List UInt8} {text : Text}
    (decoded : DecodedAs bytes text (declaredLabel? bytes))
    (plainly : ∀ label ∈ declaredLabel? bytes, PlainlyEncoded bytes text)
    (read : parseText options text = .ok reading) : Renders bytes text := by
  generalize declares : declaredLabel? bytes = declared at decoded plainly
  cases decoded with
  | unicode _ decoded => exact Utf8.decode?_eq_some_iff.mp decoded ▸ Utf8.renders text
  | named decoded =>
    obtain renders | ⟨order, decoded⟩ := plainly _ rfl
    · exact renders
    · exfalso
      obtain ⟨rest, rfl⟩ := opening_of_declaredLabel? declares
      obtain ⟨c, behind, rfl, either⟩ := Utf16.head_of_opening decoded
      obtain rfl | blank | rfl := head_of_parseText read
      · exact absurd either (by decide)
      · have := ascii_of_isAsciiSpace (isAsciiSpace_of_isBlank blank)
        omega
      · exact absurd either (by decide)

end Parsed

section Declared

/-- A field in which the word `encoding` does not stand. -/
def Field.Silent (field : Field) : Prop :=
  ¬"encoding".toList <:+: field.key ∧ ¬"encoding".toList <:+: field.value

/-- A text begins with a declaration that is written in fields. -/
structure BeginsWith (text : Text) (written : List Field) (declared : Declaration) : Prop where
  whole : ∃ blanks rest, (∀ c ∈ blanks, isBlank c = true) ∧
    text = "<?xml".toList ++ (written.flatMap Field.text ++ (blanks ++ ("?>".toList ++ rest)))
  declares : Declares written declared

/-- The encoding is declared by the first word `encoding` in front of the first end of an
instruction, or there is no such word. -/
inductive PlainlyDeclared (text : Text) : Option Declaration → Prop
  | undeclared (absent : ∀ front behind,
        text = "<?xml".toList ++ (front ++ ("?>".toList ++ behind)) →
          ¬"?>".toList <:+: front → ¬"encoding".toList <:+: front) :
      PlainlyDeclared text none
  | unnamed {declared : Declaration} {written : List Field}
      (begins : BeginsWith text written declared) (silent : ∀ field ∈ written, field.Silent) :
      PlainlyDeclared text (some declared)
  | named {declared : Declaration} {before behind : List Field} {field : Field}
      (begins : BeginsWith text (before ++ field :: behind) declared)
      (silent : ∀ other ∈ before, other.Silent) (key : field.key = "encoding".toList)
      (unended : ∀ other ∈ before ++ [field], ¬"?>".toList <:+: other.value)
      (counts : declared.encoding = some (joinLineEnds field.value)) :
      PlainlyDeclared text (some declared)

theorem isPlain_encoding : IsPlain "encoding".toList := .of_all (by decide) (by decide)

theorem isPlain_instructionEnd : IsPlain "?>".toList := .of_all (by decide) (by decide)

variable {written : List Field} {declared : Declaration}

/-- Fields without the key name no encoding. -/
theorem encoding_of_setAll? {fields last : DeclarationFields}
    (set : fields.setAll? written = some last)
    (other : ∀ field ∈ written, field.key ≠ "encoding".toList) :
    last.encoding = fields.encoding := by
  induction written generalizing fields with
  | nil =>
    cases set
    rfl
  | cons field written ih =>
    obtain ⟨first, other⟩ := List.forall_mem_cons.mp other
    obtain ⟨next, here, further⟩ := Option.bind_eq_some_iff.mp set
    refine (ih further other).trans ?_
    rw [← DeclarationFields.set_eq_ok_iff []] at here
    unfold DeclarationFields.set at here
    split at here
    · cases here
      rfl
    · rw [if_neg (by simpa using first)] at here
      repeat' split at here
      all_goals cases here
      all_goals rfl

theorem encoding_of_silent (declares : Declares written declared)
    (silent : ∀ field ∈ written, field.Silent) : declared.encoding = none := by
  obtain ⟨last, set, complete⟩ := Option.bind_eq_some_iff.mp declares.complete
  obtain ⟨version, found, rfl⟩ := Option.map_eq_some_iff.mp complete
  exact encoding_of_setAll? set fun field member same =>
    (silent field member).1 (same ▸ List.infix_rfl)

/-- The first end of an instruction is no later than any. -/
theorem prefix_of_unended {front behind before rest : Text}
    (same : front ++ ("?>".toList ++ behind) = before ++ ("?>".toList ++ rest))
    (unended : ¬"?>".toList <:+: front) : front <+: before := by
  have word : "?>".toList = ['?', '>'] := rfl
  rw [word] at same unended
  obtain ⟨middle, whole, -⟩ | ⟨middle, whole, ending⟩ := List.append_eq_append_iff.mp same
  · exact ⟨middle, whole.symm⟩
  · cases middle with
    | nil => exact ⟨[], by simpa using whole⟩
    | cons first middle =>
      exfalso
      obtain ⟨rfl, ends⟩ := List.cons.inj ending
      cases middle with
      | nil => exact absurd (List.cons.inj ends).1 (by decide)
      | cons second middle =>
        obtain ⟨rfl, -⟩ := List.cons.inj ends
        exact unended ⟨before, middle, by simp [whole]⟩

variable {bytes : List UInt8} {text label value : Text}

section Labels

variable [Library] [LawfulLibrary]

theorem DecodedAs.transcode_none (decoded : DecodedAs bytes text none) :
    transcode bytes "UTF-8".toList = .ok text := by
  cases decoded with
  | unicode _ decoded => exact (transcode_of_isUtf8Label (by decide)).mpr decoded

theorem DecodedAs.transcode_some (decoded : DecodedAs bytes text (some label)) :
    transcode bytes label = .ok text := by
  cases decoded with
  | unicode names decoded => exact (transcode_of_isUtf8Label (names label rfl)).mpr decoded
  | named decoded => exact decoded

/-- A label in use is made of characters of ASCII, and line ends in it make no difference. -/
theorem transcode_joinLineEnds (decoded : transcode bytes label = .ok text)
    (alike : Alike label value) : transcode bytes (joinLineEnds value) = .ok text := by
  obtain ⟨charset, known, found⟩ := transcode_eq_ok_iff.mp decoded
  obtain rfl := alike.symm.eq_of_ascii (ascii_of_ofLabel? known)
  exact transcode_eq_ok_iff.mpr ⟨charset, ofLabel?_joinLineEnds known, found⟩

end Labels

/-- Fields in which the word does not stand do not bring it about in front of the end. -/
theorem not_infix_of_silent (begins : BeginsWith text written declared)
    (silent : ∀ field ∈ written, field.Silent) (front behind : Text)
    (same : text = "<?xml".toList ++ (front ++ ("?>".toList ++ behind)))
    (unended : ¬"?>".toList <:+: front) : ¬"encoding".toList <:+: front := by
  obtain ⟨⟨blanks, rest, blank, whole⟩, declares⟩ := begins
  intro inside
  rw [same, List.append_right_inj, ← List.append_assoc (written.flatMap _)] at whole
  have inside := inside.trans (prefix_of_unended whole unended).isInfix
  exact not_infix_of_fields isPlain_encoding declares.proper silent (Text.infix_of_append_right
    isPlain_encoding.filled (isPlain_encoding.notMem_of_isBlank blank) inside)

/-- The first field with the word in it has the label, if no end of an instruction stands in front
of its own end. -/
theorem declaredLabel?_of_fields (renders : Renders bytes text)
    (readable : Utf8.decode? bytes = some text ∨ (declaredLabel? bytes).isSome = true)
    {before behind : List Field} {field : Field}
    (begins : BeginsWith text (before ++ field :: behind) declared)
    (silent : ∀ other ∈ before, other.Silent) (key : field.key = "encoding".toList)
    (unended : ∀ other ∈ before ++ [field], ¬"?>".toList <:+: other.value) :
    ∃ label, declaredLabel? bytes = some label ∧ Alike label field.value := by
  obtain ⟨⟨blanks, rest, -, whole⟩, ⟨proper, -⟩⟩ := begins
  have ends : "?>".toList <:+: behind.flatMap Field.text ++ (blanks ++ ("?>".toList ++ rest)) :=
    ⟨behind.flatMap Field.text ++ blanks, rest, by simp only [List.append_assoc]⟩
  obtain ⟨⟨further, last⟩, found⟩ := Option.isSome_iff_exists.mp (Text.includes_iff.mpr ends)
  have split := Text.append_of_breakOn? found
  rw [List.forall_mem_append, List.forall_mem_cons] at proper
  obtain ⟨properBefore, proper, -⟩ := proper
  have quotes : field.quote = '"' ∨ field.quote = '\'' := by
    simpa [isQuote] using proper.quotes
  have mark : field.quote ∉ "?>".toList := by
    rcases quotes with same | same <;> rw [same] <;> decide
  have written : text = "<?xml".toList ++ ((before.flatMap Field.text ++ field.gap ++
      ("encoding".toList ++ (field.before ++ '=' :: (field.after ++ field.quote ::
        (field.value ++ field.quote :: further))))) ++ ("?>".toList ++ last)) := by
    rw [whole, List.flatMap_append, List.flatMap_cons, List.append_assoc, List.append_assoc, split,
      Field.text, key]
    simp only [List.append_assoc, List.cons_append, List.nil_append]
  have absent : ¬"encoding".toList <:+: before.flatMap Field.text ++ field.gap := fun inside =>
    not_infix_of_fields isPlain_encoding properBefore silent (Text.infix_of_append_right
      isPlain_encoding.filled (isPlain_encoding.notMem_of_isBlank proper.gap) inside)
  refine declaredLabel?_named renders readable written (fun inside => ?_) absent proper.before
    proper.after quotes proper.unquoted
  have around : "?>".toList <:+: (before.flatMap Field.text ++ field.gap ++ ("encoding".toList ++
      (field.before ++ '=' :: (field.after ++ field.quote :: field.value)))) ++
        field.quote :: further := by
    simpa only [List.append_assoc, List.cons_append] using inside
  obtain inside | inside := Text.infix_append_cons mark around
  · have within : "?>".toList <:+: (before ++ [field]).flatMap Field.text := by
      refine inside.trans ⟨[], [field.quote], ?_⟩
      rw [List.flatMap_append, List.flatMap_cons, List.flatMap_nil, Field.text, key]
      simp only [List.append_assoc, List.cons_append, List.nil_append, List.append_nil]
    have properAll : ∀ other ∈ before ++ [field], other.Proper :=
      List.forall_mem_append.mpr ⟨properBefore, List.forall_mem_singleton.mpr proper⟩
    refine not_infix_of_fields isPlain_instructionEnd properAll
      (fun other member => ⟨fun inside => ?_, unended other member⟩) within
    have sign := (properAll other member).named.isNameChar (inside.subset List.mem_cons_self)
    exact absurd sign (by decide)
  · exact Text.not_infix_of_breakOn? (List.cons_ne_nil _ _) found inside

/-- A document without a byte order mark was read from the text that its bytes are in the encoding
that it declares, if it declares one plainly or none. What the encoding of a declared label takes
for ASCII has to be ASCII. -/
theorem parseBytes_transcode [Library] [LawfulLibrary] {options : Options} {reading : Reading}
    (unmarked : Mark.detect bytes = .none) (read : parseBytes options bytes = .ok reading) :
    ∃ text, decode bytes = .ok text ∧ parseText options text = .ok reading ∧
      ((∀ label ∈ declaredLabel? bytes, PlainlyEncoded bytes text) →
        PlainlyDeclared text reading.document.declaration →
          transcode bytes reading.document.encodingLabel = .ok text) := by
  unfold parseBytes at read
  split at read
  · cases read
  rename_i text decoded
  have parsed := mapError_ok read
  refine ⟨text, decoded, parsed, fun encoded plainly => ?_⟩
  have found := decodedAs unmarked decoded
  have renders := renders_of_decodedAs found encoded parsed
  have readable : Utf8.decode? bytes = some text ∨ (declaredLabel? bytes).isSome = true := by
    generalize declaredLabel? bytes = label at found
    cases found with
    | unicode _ decoded => exact .inl decoded
    | named => exact .inr rfl
  rw [Document.encodingLabel]
  generalize reading.document.declaration = declaration at plainly ⊢
  cases plainly with
  | undeclared absent =>
    rw [declaredLabel?_unnamed renders absent] at found
    exact found.transcode_none
  | unnamed begins silent =>
    rw [declaredLabel?_unnamed renders (not_infix_of_silent begins silent)] at found
    rw [Option.bind_some, encoding_of_silent begins.declares silent]
    exact found.transcode_none
  | named begins silent key unended counts =>
    obtain ⟨label, declared, alike⟩ :=
      declaredLabel?_of_fields renders readable begins silent key unended
    rw [declared] at found
    rw [Option.bind_some, counts]
    exact transcode_joinLineEnds found.transcode_some alike

/-- A letter beyond ASCII behind a declaration of another encoding than UTF-8. -/
theorem parseBytes_transcode_windows1252 :
    let source := "<?xml version=\"1.0\" encoding=\"windows-1252\"?><a>é</a>".toList
    let bytes := Utf8.encode "<?xml version=\"1.0\" encoding=\"windows-1252\"?><a>".toList ++
      0xE9 :: Utf8.encode "</a>".toList
    ∃ reading, Mark.detect bytes = .none ∧ parseBytes {} bytes = .ok reading ∧
      decode bytes = .ok source ∧ parseText {} source = .ok reading ∧
      PlainlyEncoded bytes source ∧ PlainlyDeclared source reading.document.declaration ∧
      transcode bytes reading.document.encodingLabel = .ok source := by
  intro source bytes
  have unmarked : Mark.detect bytes = .none := by decide +kernel
  have letters : decode bytes = .ok source := by decide +kernel
  have version : (writtenField "version".toList "1.0".toList).Proper :=
    writtenField_proper ⟨rfl, List.all_eq_true.mp rfl⟩ (List.all_eq_true.mp rfl) (by decide)
  have encoding : (writtenField "encoding".toList "windows-1252".toList).Proper :=
    writtenField_proper ⟨rfl, List.all_eq_true.mp rfl⟩ (List.all_eq_true.mp rfl) (by decide)
  have begins : BeginsWith source ([writtenField "version".toList "1.0".toList] ++
      writtenField "encoding".toList "windows-1252".toList :: [])
      ⟨"1.0".toList, some "windows-1252".toList, none⟩ :=
    ⟨⟨[], "<a>é</a>".toList, nofun, by decide⟩,
      List.forall_mem_cons.mpr ⟨version, List.forall_mem_singleton.mpr encoding⟩, by decide⟩
  have silent : ∀ other ∈ [writtenField "version".toList "1.0".toList], other.Silent :=
    List.forall_mem_singleton.mpr ⟨by decide +kernel, by decide +kernel⟩
  have unended : ∀ other ∈ [writtenField "version".toList "1.0".toList] ++
      [writtenField "encoding".toList "windows-1252".toList], ¬"?>".toList <:+: other.value := by
    decide +kernel
  have declared : (parseBytes {} bytes).toOption.map (·.document.declaration) =
      some (some ⟨"1.0".toList, some "windows-1252".toList, none⟩) := by decide +kernel
  cases read : parseBytes {} bytes with
  | error => rw [read] at declared; cases declared
  | ok reading =>
    rw [read] at declared
    have plainly : PlainlyDeclared source reading.document.declaration := by
      rw [show reading.document.declaration = _ from Option.some.inj declared]
      exact .named begins silent rfl unended rfl
    have encoded : PlainlyEncoded bytes source :=
      @Charset.renders_or_utf16 .windows1252 _ _ (by decide +kernel)
    obtain ⟨text, decoded, parsed, same⟩ := parseBytes_transcode unmarked read
    have letter : text = source := Except.ok.inj (decoded.symm.trans letters)
    subst letter
    exact ⟨reading, unmarked, rfl, decoded, parsed, encoded, plainly,
      same (fun _ _ => encoded) plainly⟩

/-- The bytes of a text, which have no mark, are read in another encoding than the document has. -/
def Misread (source : Text) : Prop :=
  ∃ reading text, Mark.detect (Utf8.encode source) = .none ∧
    parseBytes {} (Utf8.encode source) = .ok reading ∧
    decode (Utf8.encode source) = .ok text ∧
    transcode (Utf8.encode source) reading.document.encodingLabel ≠ .ok text

theorem misread_of_any {source : Text} (unmarked : Mark.detect (Utf8.encode source) = .none)
    (differs : ((parseBytes {} (Utf8.encode source)).toOption.any fun reading =>
      (decode (Utf8.encode source)).toOption.any fun text =>
        transcode (Utf8.encode source) reading.document.encodingLabel ≠ .ok text) = true) :
    Misread source := by
  cases read : parseBytes {} (Utf8.encode source) with
  | error => rw [read] at differs; cases differs
  | ok reading =>
    cases decoded : decode (Utf8.encode source) with
    | error => rw [read, decoded] at differs; cases differs
    | ok text =>
      rw [read, decoded] at differs
      exact ⟨reading, text, unmarked, read, decoded, of_decide_eq_true differs⟩

/-- An instruction that only begins as a declaration does, a field that comes twice, and the word
`encoding` inside a literal. -/
theorem encodingLabel_overlooked :
    Misread "<?xml-a encoding='windows-1252'?><a>é</a>".toList ∧
      Misread "<?xml version='1.0' encoding='windows-1252' encoding='utf-8'?><a>é</a>".toList ∧
      Misread "<?xml version=\"encoding='windows-1252'\"?><a>é</a>".toList := by
  refine ⟨misread_of_any ?_ ?_, misread_of_any ?_ ?_, misread_of_any ?_ ?_⟩ <;> decide +kernel

end Declared

end Markup

end XmlSelect
