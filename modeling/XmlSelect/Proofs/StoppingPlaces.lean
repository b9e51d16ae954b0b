import XmlSelect.Markup.Parse

/-! Where reading stops. Each reader that comes to a fault tells the rest of the text at its place,
and that rest is an end of the text that it started from. -/
namespace XmlSelect.Markup

/-- Reading that stops does so within a text. -/
def Halts {α : Type} (whole : Text) : Except Stop α → Prop
  | .ok _ => True
  | .error stop => stop.rest <:+ whole

section Outcomes

variable {α β : Type} {source whole : Text} {outcome : Except Stop α}

theorem Halts.of_suffix (halts : Halts source outcome) (suffix : source <:+ whole) :
    Halts whole outcome := by
  cases outcome with
  | ok result => trivial
  | error stop => exact halts.trans suffix

theorem Halts.bind {next : α → Except Stop β} (first : Halts whole outcome)
    (further : ∀ result, outcome = .ok result → Halts whole (next result)) :
    Halts whole (outcome >>= next) := by
  cases outcome with
  | ok result => exact further result rfl
  | error stop => exact first

theorem Halts.map (halts : Halts whole outcome) (convert : α → β) :
    Halts whole (outcome.map convert) := by
  cases outcome with
  | ok result => trivial
  | error stop => exact halts

end Outcomes

section Lexical

variable (source : Text)

theorem expect_halts (wanted : Text) : Halts source (expect wanted source) := by
  unfold expect
  split
  · trivial
  · exact List.suffix_refl source

theorem requireBlank_halts : Halts source (requireBlank source) := by
  unfold requireBlank
  dsimp only
  split
  · trivial
  · exact List.suffix_refl source

theorem nameFrom_halts (first : Char) (others : Text) :
    Halts (first :: others) (nameFrom first others) := by
  unfold nameFrom
  split
  · trivial
  · exact List.suffix_refl _

theorem name_halts : Halts source (name source) := by
  cases source with
  | nil => exact List.suffix_refl _
  | cons first others => exact (nameFrom_halts first others).map _

theorem takeUntil_halts (delimiter : Text) (part : Part) :
    Halts source (takeUntil delimiter part source) := by
  unfold takeUntil
  split
  · exact List.suffix_refl source
  · split
    · exact List.suffix_refl source
    · trivial

theorem quoted_halts : Halts source (quoted source) := by
  unfold quoted
  split
  · exact List.suffix_refl _
  · split
    · exact ((takeUntil_halts _ _ _).of_suffix (List.suffix_cons _ _)).map _
    · exact List.suffix_refl _

theorem pointReference_halts (base : Nat) (isDigit : Char → Bool) :
    Halts source (pointReference base isDigit source) := by
  have behind : source.dropWhile isDigit <:+ source := List.dropWhile_suffix isDigit
  unfold pointReference
  dsimp only
  split
  · exact behind
  · refine .bind ((expect_halts _ _).of_suffix behind) fun semicolon _ => ?_
    have rest := semicolon.suffix.trans behind
    split
    · exact rest
    · split
      · exact rest
      · trivial

theorem charReference_halts : Halts source (charReference source) := by
  unfold charReference
  split
  · exact ((pointReference_halts _ _ _).of_suffix (List.suffix_cons _ _)).map _
  · exact pointReference_halts _ _ _

theorem nextChar_halts (first : Char) (others : Text) :
    Halts (first :: others) (nextChar first others) := by
  unfold nextChar
  split
  · exact List.suffix_refl _
  · split <;> trivial

end Lexical

section Leaves

variable (source : Text)

theorem comment_halts : Halts source (comment source) := by
  refine .bind (takeUntil_halts _ _ _) fun body _ => ?_
  dsimp only
  split
  · exact body.suffix
  · trivial

theorem cdataSection_halts : Halts source (cdataSection source) :=
  .bind (takeUntil_halts _ _ _) fun _ _ => trivial

theorem instruction_halts : Halts source (instruction source) := by
  refine .bind (name_halts _) fun target _ => ?_
  dsimp only
  split
  · exact target.suffix
  · split
    · trivial
    · refine .bind ((requireBlank_halts _).of_suffix target.suffix) fun blanks _ => ?_
      have body := blanks.suffix.trans target.suffix
      exact .bind ((takeUntil_halts _ _ _).of_suffix body) fun _ _ => trivial

variable {source}

theorem commentOrInstruction?_halts {result : Except Stop (Read source Leaf)}
    (found : commentOrInstruction? source = some result) : Halts source result := by
  unfold commentOrInstruction? at found
  split at found
  · cases found
    exact ((comment_halts _).of_suffix (List.suffix_append ['!', '-', '-'] _)).map _
  · cases found
    exact ((instruction_halts _).of_suffix (List.suffix_cons _ _)).map _
  · cases found

theorem contentLeaf?_halts {result : Except Stop (Read source Leaf)}
    (found : contentLeaf? source = some result) : Halts source result := by
  unfold contentLeaf? at found
  split at found
  · rename_i first
    cases found
    exact commentOrInstruction?_halts first
  · obtain ⟨opened, -, rfl⟩ := Option.map_eq_some_iff.mp found
    exact ((cdataSection_halts _).of_suffix opened.suffix).map _

theorem endTag_halts (element source : Text) : Halts source (endTag element source) := by
  refine .bind (name_halts _) fun found _ => ?_
  dsimp only
  split
  · exact found.suffix
  · refine .bind ((expect_halts _ _).of_suffix ?_) fun _ _ => trivial
    exact (List.dropWhile_suffix _).trans found.suffix

end Leaves

section Declarations

variable (source : Text)

theorem externalId_halts : Halts source (externalId source) := by
  unfold externalId
  split
  · rename_i word _
    refine .bind ((requireBlank_halts _).of_suffix word) fun blanks _ => ?_
    exact .bind ((quoted_halts _).of_suffix (blanks.suffix.trans word)) fun _ _ => trivial
  · split
    · rename_i word _
      refine .bind ((requireBlank_halts _).of_suffix word) fun blanks _ => ?_
      have first := blanks.suffix.trans word
      refine .bind ((quoted_halts _).of_suffix first) fun publicId _ => ?_
      have second := publicId.suffix.trans first
      refine .bind ((requireBlank_halts _).of_suffix second) fun gap _ => ?_
      exact .bind ((quoted_halts _).of_suffix (gap.suffix.trans second)) fun _ _ => trivial
    · trivial

theorem entityDefinition_halts (declared : Text) :
    Halts source (entityDefinition declared source) := by
  unfold entityDefinition
  split
  · exact .bind (quoted_halts _) fun _ _ => trivial
  · refine .bind (externalId_halts _) fun identifiers _ => ?_
    dsimp only
    split
    · exact identifiers.suffix
    · split
      · trivial
      · rename_i word _
        have behind := word.trans ((List.dropWhile_suffix _).trans identifiers.suffix)
        refine .bind ((requireBlank_halts _).of_suffix behind) fun gap _ => ?_
        exact .bind ((name_halts _).of_suffix (gap.suffix.trans behind)) fun _ _ => trivial

theorem parameterMark_halts : Halts source (parameterMark source) := by
  unfold parameterMark
  split
  · exact .bind ((requireBlank_halts _).of_suffix (List.suffix_cons _ _)) fun _ _ => trivial
  · trivial

theorem entityDeclaration_halts (table : EntityTable) :
    Halts source (entityDeclaration table source) := by
  refine .bind (requireBlank_halts _) fun first _ => ?_
  refine .bind ((parameterMark_halts _).of_suffix first.suffix) fun parameter _ => ?_
  have marked := parameter.suffix.trans first.suffix
  refine .bind ((name_halts _).of_suffix marked) fun declared _ => ?_
  have named := declared.suffix.trans marked
  refine .bind ((requireBlank_halts _).of_suffix named) fun blanks _ => ?_
  have spaced := blanks.suffix.trans named
  refine .bind ((entityDefinition_halts _ _).of_suffix spaced) fun entity _ => ?_
  have defined := (List.dropWhile_suffix isBlank).trans (entity.suffix.trans spaced)
  exact .bind ((expect_halts _ _).of_suffix defined) fun _ _ => trivial

theorem skipDeclaration_halts (whole source : Text) (within : source <:+ whole) :
    Halts whole (skipDeclaration whole source within) := by
  fun_induction skipDeclaration with
  | case1 => exact List.nil_suffix
  | case2 => trivial
  | case3 =>
    rename_i within _ _ _ ih
    have inner := (List.suffix_cons _ _).trans within
    exact .bind ((takeUntil_halts _ _ _).of_suffix inner) fun taken _ => ih _ taken.suffix
  | case4 =>
    rename_i within _ _ _ ih
    exact .bind ((nextChar_halts _ _).of_suffix within) fun next _ => ih _ next.suffix

theorem subsetItem_halts (table : EntityTable) {opening : Text} (here : source <:+ opening) :
    Halts opening (subsetItem table opening source) := by
  unfold subsetItem
  split
  · rename_i opened _
    exact ((entityDeclaration_halts _ _).of_suffix (opened.trans here)).map _
  · split
    · have inner := (List.suffix_append ['!', '-', '-'] _).trans here
      exact .bind ((takeUntil_halts _ _ _).of_suffix inner) fun _ _ => trivial
    · have inner := (List.suffix_cons _ _).trans here
      exact .bind ((takeUntil_halts _ _ _).of_suffix inner) fun _ _ => trivial
    · exact .bind ((skipDeclaration_halts _ _ _).of_suffix here) fun _ _ => trivial
    · exact List.suffix_refl _

theorem set_halts (fields : DeclarationFields) (key value rest : Text) :
    Halts rest (fields.set key value rest) := by
  unfold DeclarationFields.set
  split
  · trivial
  · split
    · trivial
    · split
      · split
        · trivial
        · split
          · trivial
          · exact List.suffix_refl rest
      · exact List.suffix_refl rest

theorem declaration_halts (whole : Text) (fields : DeclarationFields) (spaced : Bool)
    (source : Text) (within : source <:+ whole) :
    Halts whole (declaration whole fields spaced source within) := by
  fun_induction declaration with
  | case1 =>
    rename_i within _ _ closed _ _
    exact closed.trans within
  | case2 => trivial
  | case3 =>
    rename_i within _ _
    exact within
  | case4 => exact List.nil_suffix
  | case5 =>
    rename_i within _ ih
    refine .bind ((nameFrom_halts _ _).of_suffix within) fun key _ => ?_
    have inner := (List.suffix_cons _ _).trans within
    have named := (List.dropWhile_suffix isBlank).trans (key.suffix.trans inner)
    refine .bind ((expect_halts _ _).of_suffix named) fun sign _ => ?_
    have signed := (List.dropWhile_suffix isBlank).trans (sign.suffix.trans named)
    refine .bind ((quoted_halts _).of_suffix signed) fun value _ => ?_
    refine .bind ((set_halts _ _ _ _).of_suffix (value.suffix.trans signed)) fun fields _ => ?_
    exact ih _ key.suffix _ (List.dropWhile_suffix _) _ sign.suffix _ (List.dropWhile_suffix _) _
      value.suffix fields _ _ (List.dropWhile_suffix _)

theorem optionalDeclaration_halts : Halts source (optionalDeclaration source) := by
  unfold optionalDeclaration
  split
  · split
    · exact .bind (declaration_halts _ _ _ _ _) fun _ _ => trivial
    · trivial
  · trivial

end Declarations

end XmlSelect.Markup
