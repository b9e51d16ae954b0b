import Mathlib.Data.List.Infix
import XmlSelect.Proofs.AsciiBytes
import XmlSelect.Proofs.ByteOrderMarks

/-! The label that is looked for in the bytes of a document. It is searched for in front of the
first end of an instruction, as the value behind the first word `encoding`, whatever that word
stands in; what bytes beyond ASCII mean in the declaration makes no difference. -/
namespace XmlSelect

namespace Utf8

theorem decode?_encode_append (front : Text) (rest : List UInt8) :
    decode? (encode front ++ rest) = (decode? rest).map (front ++ ·) := by
  induction front with
  | nil => exact Option.map_id'.symm
  | cons c front ih =>
    rw [encode_cons, List.append_assoc, decode?_encodeChar, ih, Option.map_map]
    rfl

end Utf8

/-- Nothing is found where no character begins the pattern. -/
theorem Text.breakOn?_append_of_ne {p : Char} (pattern : Text) {front : Text} (other : p ∉ front)
    (rest : Text) :
    breakOn? (p :: pattern) (front ++ rest) =
      (breakOn? (p :: pattern) rest).map fun parts => (front ++ parts.1, parts.2) := by
  induction front with
  | nil => exact Option.map_id'.symm
  | cons c front ih =>
    rw [List.mem_cons, not_or] at other
    have later : dropPrefix? (p :: pattern) (c :: (front ++ rest)) = none := if_neg other.1
    rw [List.cons_append, breakOn?_cons_of_none later, ih other.2, Option.map_map]
    rfl

namespace Encoding

section InstructionEnd

variable {before bytes : List UInt8}

theorem beforeInstructionEnd?_cons {byte : UInt8} {rest : List UInt8}
    (other : ¬[0x3F, 0x3E] <+: byte :: rest) :
    beforeInstructionEnd? (byte :: rest) = (beforeInstructionEnd? rest).map (byte :: ·) := by
  rw [beforeInstructionEnd?]
  rintro after rfl rfl
  exact other ⟨after, rfl⟩

/-- What stands in front of the first end of an instruction. -/
theorem beforeInstructionEnd?_append (absent : ¬[0x3F, 0x3E] <:+: before) (after : List UInt8) :
    beforeInstructionEnd? (before ++ 0x3F :: 0x3E :: after) = some before := by
  induction before with
  | nil => rfl
  | cons byte before ih =>
    rw [List.infix_cons_iff, not_or] at absent
    rw [List.cons_append, beforeInstructionEnd?_cons, ih absent.2, Option.map_some]
    intro begins
    obtain ⟨rfl, ends⟩ := List.cons_prefix_cons.mp begins
    cases before with
    | nil => exact absurd (List.cons_prefix_cons.mp ends).1 (by decide)
    | cons next before =>
      obtain ⟨rfl, -⟩ := List.cons_prefix_cons.mp ends
      exact absent.1 ⟨before, rfl⟩

theorem of_beforeInstructionEnd? (found : beforeInstructionEnd? bytes = some before) :
    ¬[0x3F, 0x3E] <:+: before ∧ ∃ after, bytes = before ++ 0x3F :: 0x3E :: after := by
  induction bytes generalizing before with
  | nil => cases found
  | cons byte bytes ih =>
    by_cases start : [0x3F, 0x3E] <+: byte :: bytes
    · obtain ⟨after, same⟩ := start
      cases same
      cases found
      exact ⟨by simp, after, rfl⟩
    · rw [beforeInstructionEnd?_cons start] at found
      obtain ⟨before, later, rfl⟩ := Option.map_eq_some_iff.mp found
      obtain ⟨absent, after, rfl⟩ := ih later
      refine ⟨?_, after, rfl⟩
      rw [List.infix_cons_iff, not_or]
      refine ⟨fun begins => start (begins.trans ?_), absent⟩
      exact List.prefix_append (byte :: before) _

end InstructionEnd

/-- The label in the text of a declaration, if there is one. -/
def scanLabel? (declaration : Text) : Option Text := do
  let (_, after) ← Text.breakOn? "encoding".toList declaration
  let '=' :: value := after.dropWhile isSpace | none
  match value.dropWhile isSpace with
  | '"' :: rest => (Text.breakOn? ['"'] rest).map (·.1)
  | '\'' :: rest => (Text.breakOn? ['\''] rest).map (·.1)
  | _ => none

theorem scanLabel?_opening (declaration : Text) :
    scanLabel? ("<?xml".toList ++ declaration) = scanLabel? declaration := by
  have searched := Text.breakOn?_append_of_ne (p := 'e') "ncoding".toList
    (by decide : 'e' ∉ "<?xml".toList) declaration
  have word : 'e' :: "ncoding".toList = "encoding".toList := rfl
  rw [word] at searched
  rw [scanLabel?, searched, scanLabel?]
  cases Text.breakOn? "encoding".toList declaration <;> rfl

/-- A label is looked for behind the first letters of a declaration. -/
theorem declaredLabel?_opening (bytes : List UInt8) :
    declaredLabel? (Utf8.encode "<?xml".toList ++ bytes) =
      ((beforeInstructionEnd? bytes).bind Utf8.decode?).bind scanLabel? := by
  have ended : beforeInstructionEnd? (Utf8.encode "<?xml".toList ++ bytes) =
      (beforeInstructionEnd? bytes).map (Utf8.encode "<?xml".toList ++ ·) := by
    have letters : Utf8.encode "<?xml".toList = [0x3C, 0x3F, 0x78, 0x6D, 0x6C] := by decide
    rw [letters]
    simp [beforeInstructionEnd?, Function.comp_def]
  have opened : (Utf8.encode "<?xml".toList).isPrefixOf (Utf8.encode "<?xml".toList ++ bytes) =
      true := List.isPrefixOf_iff_prefix.mpr (List.prefix_append _ _)
  rw [declaredLabel?, opened, ended]
  cases beforeInstructionEnd? bytes with
  | none => rfl
  | some before =>
    change (Utf8.decode? (Utf8.encode "<?xml".toList ++ before)).bind scanLabel? = _
    rw [Utf8.decode?_encode_append, Option.bind_some]
    cases Utf8.decode? before with
    | none => rfl
    | some declaration => exact scanLabel?_opening declaration

theorem infix_of_scanLabel? {declaration label : Text}
    (scanned : scanLabel? declaration = some label) : "encoding".toList <:+: declaration := by
  obtain ⟨⟨front, behind⟩, found, -⟩ := Option.bind_eq_some_iff.mp scanned
  exact ⟨front, behind, (Text.append_of_breakOn? found).symm⟩

/-- The value behind the first word `encoding` is the label. -/
theorem scanLabel?_named {front before after value : Text} {quote : Char}
    (absent : ¬"encoding".toList <:+: front) (beforeBlank : ∀ c ∈ before, isSpace c = true)
    (afterBlank : ∀ c ∈ after, isSpace c = true) (quotes : quote = '"' ∨ quote = '\'')
    (unquoted : quote ∉ value) (behind : Text) :
    scanLabel? (front ++ ("encoding".toList ++ (before ++ '=' ::
      (after ++ quote :: (value ++ quote :: behind))))) = some value := by
  have found (rest : Text) :
      Text.breakOn? "encoding".toList (front ++ ("encoding".toList ++ rest)) = some (front, rest) :=
    Text.breakOn?_append (by decide : 'g' ∉ "encodin".toList) absent rest
  have skipped {blanks : Text} (each : ∀ c ∈ blanks, isSpace c = true) {c : Char}
      (other : isSpace c = false) (rest : Text) :
      (blanks ++ c :: rest).dropWhile isSpace = c :: rest :=
    (span_append each (stops_cons other rest)).2
  have closed := Text.breakOn?_singleton unquoted behind
  rw [scanLabel?, found, Option.bind_eq_bind, Option.bind_some]
  dsimp only
  rw [skipped beforeBlank (by decide)]
  rcases quotes with rfl | rfl
  · simp only [skipped afterBlank (by decide : isSpace '"' = false), closed, Option.map_some]
  · simp only [skipped afterBlank (by decide : isSpace '\'' = false), closed, Option.map_some]

theorem isSpace_of_isBlank {c : Char} (blank : isBlank c = true) : isSpace c = true := by
  simp only [isBlank, Bool.or_eq_true, beq_iff_eq] at blank
  rcases blank with ((rfl | rfl) | rfl) | rfl <;> decide

section Bytes

variable {bytes : List UInt8} {text : Text}

/-- No label is found in front of the first end of an instruction without the word. -/
theorem declaredLabel?_unnamed (renders : Renders bytes text)
    (absent : ∀ front behind, text = "<?xml".toList ++ (front ++ ("?>".toList ++ behind)) →
      ¬"?>".toList <:+: front → ¬"encoding".toList <:+: front) :
    declaredLabel? bytes = none := by
  cases declared : declaredLabel? bytes with
  | none => rfl
  | some label =>
    exfalso
    obtain ⟨rest, rfl⟩ := opening_of_declaredLabel? declared
    rw [declaredLabel?_opening] at declared
    obtain ⟨declaration, found, scanned⟩ := Option.bind_eq_some_iff.mp declared
    obtain ⟨before, ended, decoded⟩ := Option.bind_eq_some_iff.mp found
    obtain rfl := Utf8.decode?_eq_some_iff.mp decoded
    obtain ⟨unended, after, rfl⟩ := of_beforeInstructionEnd? ended
    obtain ⟨inside, rfl, later⟩ := Renders.of_prefix (by decide) renders
    have ending : Renders (Utf8.encode declaration ++ (Utf8.encode "?>".toList ++ after)) inside :=
      later
    obtain ⟨front, behind, rfl, here, -⟩ := Renders.of_word (by decide) (by decide) ending
    have alike : Alike front declaration := ⟨_, here, Utf8.renders declaration⟩
    refine absent front behind rfl (fun ends => ?_)
      ((alike.infix_iff (by decide) (by decide)).mpr (infix_of_scanLabel? scanned))
    have ends := (alike.infix_iff (by decide) (by decide)).mp ends
    exact unended (List.IsInfix.flatMap ends Utf8.encodeChar)

/-- A label is looked for in what the bytes of the declaration are in UTF-8. -/
theorem declaredLabel?_eq_scanLabel? (renders : Renders bytes text)
    (readable : Utf8.decode? bytes = some text ∨ (declaredLabel? bytes).isSome = true)
    {declaration rest : Text}
    (whole : text = "<?xml".toList ++ (declaration ++ ("?>".toList ++ rest)))
    (unended : ¬"?>".toList <:+: declaration) :
    ∃ similar, Alike similar declaration ∧ declaredLabel? bytes = scanLabel? similar := by
  have ended {before : List UInt8} (here : Renders before declaration) (after : List UInt8) :
      beforeInstructionEnd? (before ++ (Utf8.encode "?>".toList ++ after)) = some before :=
    beforeInstructionEnd?_append
      (fun ends => unended (here.infix_of_encode (by decide) (by decide) ends)) after
  obtain unicode | declared := readable
  · refine ⟨declaration, .refl declaration, ?_⟩
    rw [Utf8.decode?_eq_some_iff.mp unicode, whole, Utf8.encode_append, Utf8.encode_append,
      Utf8.encode_append, declaredLabel?_opening, ended (Utf8.renders declaration),
      Option.bind_some, Utf8.decode?_eq_some_iff.mpr rfl, Option.bind_some]
  · rw [whole] at renders
    obtain ⟨opening, inside, rfl, first, renders⟩ := renders.of_append
    obtain ⟨before, last, rfl, here, renders⟩ := renders.of_append
    obtain ⟨ending, after, rfl, second, -⟩ := renders.of_append
    rw [first.eq_encode (by decide), second.eq_encode (by decide), declaredLabel?_opening,
      ended here, Option.bind_some] at declared ⊢
    cases decoded : Utf8.decode? before with
    | none =>
      rw [decoded] at declared
      cases declared
    | some similar =>
      obtain rfl := Utf8.decode?_eq_some_iff.mp decoded
      exact ⟨similar, ⟨_, Utf8.renders similar, here⟩, rfl⟩

/-- The label that is found is alike to the value behind the first word `encoding`. -/
theorem declaredLabel?_named (renders : Renders bytes text)
    (readable : Utf8.decode? bytes = some text ∨ (declaredLabel? bytes).isSome = true)
    {front before after value behind rest : Text} {quote : Char}
    (whole : text = "<?xml".toList ++ ((front ++ ("encoding".toList ++ (before ++ '=' ::
      (after ++ quote :: (value ++ quote :: behind))))) ++ ("?>".toList ++ rest)))
    (unended : ¬"?>".toList <:+: front ++ ("encoding".toList ++ (before ++ '=' ::
      (after ++ quote :: (value ++ quote :: behind)))))
    (absent : ¬"encoding".toList <:+: front) (beforeBlank : ∀ c ∈ before, isBlank c = true)
    (afterBlank : ∀ c ∈ after, isBlank c = true) (quotes : quote = '"' ∨ quote = '\'')
    (unquoted : quote ∉ value) :
    ∃ label, declaredLabel? bytes = some label ∧ Alike label value := by
  have blanks {text : Text} (each : ∀ c ∈ text, isBlank c = true) : Ascii text :=
    fun c member => ascii_of_isAsciiSpace (isAsciiSpace_of_isBlank (each c member))
  have mark : Ascii [quote] := by
    rcases quotes with rfl | rfl <;> decide
  obtain ⟨similar, whole, scanned⟩ := declaredLabel?_eq_scanLabel? renders readable whole unended
  obtain ⟨front', afterWord, rfl, here, behindWord⟩ := whole.of_word (by decide) (by decide)
  obtain ⟨afterBlanks, rfl, sign⟩ := behindWord.of_prefix (blanks beforeBlank)
  have sign : Alike afterBlanks (['='] ++ (after ++ ([quote] ++ (value ++ ([quote] ++ behind))))) :=
    sign
  obtain ⟨afterSign, rfl, behindSign⟩ := sign.of_prefix (by decide)
  obtain ⟨beforeQuote, rfl, opened⟩ := behindSign.of_prefix (blanks afterBlank)
  obtain ⟨afterQuote, rfl, inside⟩ := opened.of_prefix mark
  obtain ⟨label, last, rfl, similar, -⟩ := inside.of_word mark (List.cons_ne_nil _ _)
  refine ⟨label, ?_, similar⟩
  have absent' : ¬"encoding".toList <:+: front' :=
    fun inside => absent ((here.infix_iff (by decide) (by decide)).mp inside)
  have unquoted' : quote ∉ label := by
    rwa [similar.mem_iff (mark quote List.mem_cons_self)]
  have spaces {text : Text} (each : ∀ c ∈ text, isBlank c = true) :
      ∀ c ∈ text, isSpace c = true := fun c member => isSpace_of_isBlank (each c member)
  exact scanned.trans
    (scanLabel?_named absent' (spaces beforeBlank) (spaces afterBlank) quotes unquoted' last)

end Bytes

end Encoding

end XmlSelect
