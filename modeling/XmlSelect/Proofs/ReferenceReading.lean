import XmlSelect.Proofs.LineEndReferences
import XmlSelect.Proofs.PrintedMarkup
import XmlSelect.Proofs.UnfoldedExpansion

/-! Reading references. A reference in a document is read if it has the form of one and stands for
something, and then for that; where it is, what is behind it and what came before do not matter, but
for the count of the expansions. -/
namespace XmlSelect.Markup

/-- A reference as it may stand in a document: decimal digits, hexadecimal ones, or a name. -/
inductive IsReference : Text → Prop
  | decimal {digits : Text} (nonempty : digits ≠ []) (numeric : ∀ d ∈ digits, d.isDigit = true) :
      IsReference ('#' :: digits)
  | hexadecimal {digits : Text} (nonempty : digits ≠ [])
      (numeric : ∀ d ∈ digits, isHexDigit d = true) : IsReference ('#' :: 'x' :: digits)
  | name {name : Text} (valid : IsName name) : IsReference name

/-- No reference to a character has a sign in front of its digits. -/
def Unsigned (text : Text) : Prop :=
  ∀ number c, numericReference? number = some c → marked ('#' :: number) <:+: text → '+' ∉ number

section Numbers

variable {base : Nat} {isDigit : Char → Bool} {digits tail : Text} {c : Char}

/-- Digits and a semicolon, with the code point of a character. -/
theorem takes_pointReference (noSemicolon : isDigit ';' = false) (nonempty : digits ≠ [])
    (numeric : ∀ d ∈ digits, isDigit d = true)
    (found : charOfPoint? (pointOfDigits base digits) = some c) (tail : Text) :
    Takes (pointReference base isDigit) (digits ++ [';']) tail c := by
  rintro source text
  rw [List.append_assoc, List.singleton_append] at text
  obtain ⟨taken, left⟩ : source.takeWhile isDigit = digits ∧
      source.dropWhile isDigit = ';' :: tail :=
    text ▸ span_append numeric (stops_cons noSemicolon tail)
  have small : pointOfDigits base digits < UInt32.size := by
    rw [← toNat_of_charOfPoint? found]
    exact c.val.toNat_lt
  obtain ⟨closed, semicolon⟩ := takes_expect [';'] tail (source.dropWhile isDigit) left
  refine ⟨closed.trans (List.dropWhile_suffix _), ?_⟩
  simp [pointReference, taken, semicolon, nonempty, bind, Except.bind, Nat.not_le.mpr small, found]
  rfl

theorem pointReference_ok {source : Text} {read : Read source Char}
    (found : pointReference base isDigit source = .ok read) :
    ∃ digits, digits ≠ [] ∧ (∀ d ∈ digits, isDigit d = true) ∧
      source = digits ++ ';' :: read.rest ∧
      charOfPoint? (pointOfDigits base digits) = some read.value := by
  unfold pointReference at found
  dsimp only at found
  split at found
  · cases found
  · rename_i nonempty
    obtain ⟨closed, semicolon, found⟩ := bind_ok found
    split at found
    · cases found
    · split at found
      · cases found
      · rename_i known
        cases found
        refine ⟨source.takeWhile isDigit, by simpa using nonempty,
          fun d member => List.mem_takeWhile_imp member, ?_, known⟩
        have rest := expect_ok semicolon
        rw [List.singleton_append] at rest
        rw [← rest, List.takeWhile_append_dropWhile]

theorem numeric_of_unsigned? {point : Nat} (read : unsigned? base isDigit digits = some point)
    (noSign : ∀ rest, digits ≠ '+' :: rest) :
    digits ≠ [] ∧ ∀ d ∈ digits, isDigit d = true := by
  unfold unsigned? at read
  split at read
  · exact absurd rfl (noSign _)
  · simpa using (Option.ite_none_left_eq_some.mp read).1

/-- A reference to a character by its number is read for what its number stands for. -/
theorem takes_charReference_of_found {number : Text} {c : Char} (written : IsReference ('#' :: number))
    (found : numericReference? number = some c) (tail : Text) :
    Takes charReference (number ++ [';']) tail c := by
  cases written with
  | decimal nonempty numeric =>
    rw [numericReference?_decimal nonempty numeric] at found
    rintro source rfl
    have decimal : ∀ rest, number ++ [';'] ++ tail ≠ 'x' :: rest := by
      intro rest same
      cases number with
      | nil => exact nonempty rfl
      | cons d number =>
        cases same
        exact absurd (numeric 'x' List.mem_cons_self) (by decide)
    rw [charReference_of_decimal decimal]
    exact takes_pointReference (by decide) nonempty numeric found tail _ rfl
  | @hexadecimal digits nonempty numeric =>
    rw [numericReference?_hexadecimal nonempty numeric] at found
    rintro source rfl
    obtain ⟨suffix, read⟩ :=
      takes_pointReference (by decide) nonempty numeric found tail _ rfl
    refine ⟨suffix.trans (List.suffix_cons _ _), ?_⟩
    change (pointReference 16 isHexDigit (digits ++ [';'] ++ tail)).map _ = _
    rw [read]
    rfl
  | name valid => exact absurd valid.1 (by decide)

theorem charReference_ok {source : Text} {read : Read source Char}
    (found : charReference source = .ok read) :
    ∃ number, IsReference ('#' :: number) ∧ source = number ++ ';' :: read.rest ∧
      numericReference? number = some read.value := by
  unfold charReference at found
  split at found
  · obtain ⟨inner, behind, rfl⟩ := map_ok found
    obtain ⟨digits, nonempty, numeric, split, known⟩ := pointReference_ok behind
    exact ⟨'x' :: digits, .hexadecimal nonempty numeric, congrArg ('x' :: ·) split,
      (numericReference?_hexadecimal nonempty numeric).trans known⟩
  · obtain ⟨digits, nonempty, numeric, split, known⟩ := pointReference_ok found
    exact ⟨digits, .decimal nonempty numeric, split,
      (numericReference?_decimal nonempty numeric).trans known⟩

end Numbers

section References

variable {setting : Setting} {place : Place} {ledger : Ledger} {text value : Text} {spent : Nat}

/-- How many more expansions the limit allows. -/
def Setting.left (setting : Setting) (ledger : Ledger) : Nat :=
  setting.options.maxExpansions - ledger.expansions

theorem IsReference.isName (written : IsReference text) (other : ∀ number, text ≠ '#' :: number) :
    IsName text := by
  cases written with
  | decimal => exact absurd rfl (other _)
  | hexadecimal => exact absurd rfl (other _)
  | name valid => exact valid

/-- A reference that is none to a name in the document has a number without a sign. -/
theorem IsReference.of_stands (stands : setting.Stands place text value spent)
    (unsigned : Unsigned (marked text)) : IsReference text := by
  cases stands with
  | character isCharacter =>
    rcases isCharacter with ⟨number, rfl, found⟩ | known
    · have noSign : '+' ∉ number := unsigned number _ found List.infix_rfl
      obtain ⟨point, read, -⟩ := Option.bind_eq_some_iff.mp found
      split at read
      · rename_i digits
        have plain := numeric_of_unsigned? read fun digits same => by simp [same] at noSign
        exact .hexadecimal plain.1 plain.2
      · have plain := numeric_of_unsigned? read fun digits same => by simp [same] at noSign
        exact .decimal plain.1 plain.2
    · exact .name (isName_of_predefined? known)
  | skipped declares => exact .name declares.valid
  | entity declares => exact .name declares.valid

theorem reference_of_number {number : Text} {c : Char} (written : IsReference ('#' :: number))
    (found : numericReference? number = some c) (setting : Setting) (place : Place)
    (ledger : Ledger) (tail : Text) :
    ∀ source, source = '#' :: number ++ ';' :: tail → ∃ suffix,
      reference setting place ledger source = .ok ⟨([c], ledger), tail, suffix⟩ := by
  rintro source rfl
  obtain ⟨suffix, read⟩ := takes_charReference_of_found written found tail
    (number ++ ';' :: tail) (by simp)
  refine ⟨suffix.trans (List.suffix_cons _ _), ?_⟩
  have opened := reference_number setting place ledger (number ++ ';' :: tail)
  rw [read] at opened
  exact opened

/-- A reference that stands for something is read for that. -/
theorem reference_of_stands (written : IsReference text)
    (stands : setting.Stands place text value spent) (fits : spent ≤ setting.left ledger)
    (tail : Text) : ∀ source, source = text ++ ';' :: tail → ∃ after suffix,
      reference setting place ledger source = .ok ⟨(value, after), tail, suffix⟩ ∧
        after.expansions = ledger.expansions + spent := by
  intro source same
  by_cases number : ∃ number, text = '#' :: number
  · obtain ⟨number, rfl⟩ := number
    obtain ⟨c, found, rfl, rfl⟩ := stands.number
    obtain ⟨suffix, read⟩ := reference_of_number written found setting place ledger tail source same
    exact ⟨ledger, suffix, read, rfl⟩
  · have valid := written.isName fun digits same => number ⟨digits, same⟩
    obtain ⟨suffix, read⟩ := reference_named valid setting place ledger tail source same
    let expansion : Expansion := ⟨setting.options, setting.table, place, tail⟩
    have stands : expansion.setting.Stands expansion.place text value spent := stands
    obtain ⟨after, named, counts⟩ := Expansion.named_of_stands valid stands fits
    exact ⟨after, suffix, by rw [read, named]; rfl, counts⟩

/-- A reference that is read has the form of one, and is read for what it stands for. -/
theorem stands_of_reference (names : ∀ entry ∈ setting.table, IsName entry.1) {source : Text}
    {read : Read source (Text × Ledger)}
    (referred : reference setting place ledger source = .ok read) :
    ∃ text spent, IsReference text ∧ source = text ++ ';' :: read.rest ∧
      setting.Stands place text read.value.1 spent ∧
      read.value.2.expansions = ledger.expansions + spent ∧ spent ≤ setting.left ledger := by
  by_cases number : ∃ rest, source = '#' :: rest
  · obtain ⟨rest, rfl⟩ := number
    rw [reference_number] at referred
    obtain ⟨inner, found, same⟩ := bind_ok referred
    obtain rfl := Except.ok.inj same
    obtain ⟨number, written, split, known⟩ := charReference_ok (mapError_ok found)
    exact ⟨'#' :: number, 0, written, congrArg ('#' :: ·) split,
      .character (.inl ⟨number, rfl, known⟩), rfl, Nat.zero_le _⟩
  · rw [reference_of_name fun rest same => number ⟨rest, same⟩] at referred
    obtain ⟨entity, named, referred⟩ := bind_ok referred
    obtain ⟨closed, expected, referred⟩ := bind_ok referred
    obtain ⟨⟨value, after⟩, expanded, same⟩ := bind_ok referred
    obtain rfl := Except.ok.inj same
    obtain ⟨valid, split⟩ := name_ok (mapError_ok named)
    let expansion : Expansion := ⟨setting.options, setting.table, place, closed.rest⟩
    have names : ∀ entry ∈ expansion.table, IsName entry.1 := names
    obtain ⟨spent, stands, counts, few⟩ :=
      Expansion.stands_of_named names (fun _ _ found => found) expanded
    refine ⟨entity.value, spent, .name valid, ?_, stands, counts, few⟩
    have rest := expect_ok (mapError_ok expected)
    rw [List.singleton_append] at rest
    rw [← rest]
    exact split

end References

end XmlSelect.Markup
