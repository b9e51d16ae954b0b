import XmlSelect.Markup.Parse

/-! Texts that break off between the parts of a document: where a value is due, in an element, or in
front of the root. The readers of the parts themselves never find that, so it is the loops around
them that came to the end. -/
namespace XmlSelect.Markup

/-- Whether a text lacks a whole part of a document: a value, the rest of an element, or the root. -/
def Fault.breaksOff : Fault → Bool
  | unquotedAttribute => true
  | unclosedElement _ => true
  | missingRoot => true
  | _ => false

/-- Reading that stops does so for another reason than that a part is lacking. -/
def Settled {ε α : Type} (fault : ε → Fault) : Except ε α → Prop
  | .ok _ => True
  | .error error => (fault error).breaksOff = false

section Outcomes

variable {ε α β : Type} {fault : ε → Fault} {outcome : Except ε α}

theorem Settled.bind {next : α → Except ε β} (first : Settled fault outcome)
    (further : ∀ result, Settled fault (next result)) : Settled fault (outcome >>= next) := by
  cases outcome with
  | ok result => exact further result
  | error error => exact first

theorem Settled.map (settled : Settled fault outcome) (convert : α → β) :
    Settled fault (outcome.map convert) := by
  cases outcome with
  | ok result => trivial
  | error error => exact settled

theorem Settled.withLedger {outcome : Except Stop α} (settled : Settled Stop.fault outcome)
    (ledger : Ledger) : Settled Failure.fault (withLedger ledger outcome) := by
  cases outcome with
  | ok result => trivial
  | error stop => exact settled

theorem Settled.not_error (settled : Settled fault outcome) {error : ε}
    (found : outcome = .error error) : (fault error).breaksOff = false := by
  rwa [found] at settled

/-- What breaks off does so behind the parts that never do. -/
theorem Settled.further (settled : Settled fault outcome) {next : α → Except ε β} {error : ε}
    (broken : (outcome >>= next) = .error error) (breaks : (fault error).breaksOff = true) :
    ∃ value, outcome = .ok value ∧ next value = .error error := by
  cases outcome with
  | ok value => exact ⟨value, rfl, broken⟩
  | error other =>
    cases broken
    exact absurd (breaks.symm.trans settled) (by decide)

end Outcomes

section Lexical

variable (source : Text)

theorem expect_settled (wanted : Text) : Settled Stop.fault (expect wanted source) := by
  unfold expect
  split
  · trivial
  · rfl

theorem requireBlank_settled : Settled Stop.fault (requireBlank source) := by
  unfold requireBlank
  dsimp only
  split
  · trivial
  · rfl

theorem nameFrom_settled (first : Char) (others : Text) :
    Settled Stop.fault (nameFrom first others) := by
  unfold nameFrom
  split
  · trivial
  · rfl

theorem name_settled : Settled Stop.fault (name source) := by
  cases source with
  | nil => rfl
  | cons first others => exact (nameFrom_settled first others).map _

theorem takeUntil_settled (delimiter : Text) (part : Part) :
    Settled Stop.fault (takeUntil delimiter part source) := by
  unfold takeUntil
  split
  · rfl
  · split
    · rfl
    · trivial

theorem quoted_settled : Settled Stop.fault (quoted source) := by
  unfold quoted
  split
  · rfl
  · split
    · exact (takeUntil_settled _ _ _).map _
    · rfl

theorem pointReference_settled (base : Nat) (isDigit : Char → Bool) :
    Settled Stop.fault (pointReference base isDigit source) := by
  unfold pointReference
  dsimp only
  split
  · rfl
  · refine .bind (expect_settled _ _) fun semicolon => ?_
    split
    · rfl
    · split
      · rfl
      · trivial

theorem charReference_settled : Settled Stop.fault (charReference source) := by
  unfold charReference
  split
  · exact (pointReference_settled _ _ _).map _
  · exact pointReference_settled _ _ _

theorem nextChar_settled (first : Char) (others : Text) :
    Settled Stop.fault (nextChar first others) := by
  unfold nextChar
  split
  · rfl
  · split <;> trivial

end Lexical

section Leaves

variable (source : Text)

theorem comment_settled : Settled Stop.fault (comment source) := by
  refine .bind (takeUntil_settled _ _ _) fun body => ?_
  dsimp only
  split
  · rfl
  · trivial

theorem cdataSection_settled : Settled Stop.fault (cdataSection source) :=
  .bind (takeUntil_settled _ _ _) fun _ => trivial

theorem instruction_settled : Settled Stop.fault (instruction source) := by
  refine .bind (name_settled _) fun target => ?_
  dsimp only
  split
  · rfl
  · split
    · trivial
    · refine .bind (requireBlank_settled _) fun blanks => ?_
      exact .bind (takeUntil_settled _ _ _) fun _ => trivial

variable {source}

theorem commentOrInstruction?_settled {result : Except Stop (Read source Leaf)}
    (found : commentOrInstruction? source = some result) : Settled Stop.fault result := by
  unfold commentOrInstruction? at found
  split at found
  · cases found
    exact (comment_settled _).map _
  · cases found
    exact (instruction_settled _).map _
  · cases found

theorem contentLeaf?_settled {result : Except Stop (Read source Leaf)}
    (found : contentLeaf? source = some result) : Settled Stop.fault result := by
  unfold contentLeaf? at found
  split at found
  · rename_i first
    cases found
    exact commentOrInstruction?_settled first
  · obtain ⟨opened, -, rfl⟩ := Option.map_eq_some_iff.mp found
    exact (cdataSection_settled _).map _

theorem endTag_settled (element source : Text) : Settled Stop.fault (endTag element source) := by
  refine .bind (name_settled _) fun found => ?_
  dsimp only
  split
  · rfl
  · exact .bind (expect_settled _ _) fun _ => trivial

end Leaves

section Declarations

variable (source : Text)

theorem externalId_settled : Settled Stop.fault (externalId source) := by
  unfold externalId
  split
  · refine .bind (requireBlank_settled _) fun blanks => ?_
    exact .bind (quoted_settled _) fun _ => trivial
  · split
    · refine .bind (requireBlank_settled _) fun blanks => ?_
      refine .bind (quoted_settled _) fun publicId => ?_
      refine .bind (requireBlank_settled _) fun gap => ?_
      exact .bind (quoted_settled _) fun _ => trivial
    · trivial

theorem entityDefinition_settled (declared : Text) :
    Settled Stop.fault (entityDefinition declared source) := by
  unfold entityDefinition
  split
  · exact .bind (quoted_settled _) fun _ => trivial
  · refine .bind (externalId_settled _) fun identifiers => ?_
    dsimp only
    split
    · rfl
    · split
      · trivial
      · refine .bind (requireBlank_settled _) fun gap => ?_
        exact .bind (name_settled _) fun _ => trivial

theorem parameterMark_settled : Settled Stop.fault (parameterMark source) := by
  unfold parameterMark
  split
  · exact .bind (requireBlank_settled _) fun _ => trivial
  · trivial

theorem entityDeclaration_settled (table : EntityTable) :
    Settled Stop.fault (entityDeclaration table source) := by
  refine .bind (requireBlank_settled _) fun first => ?_
  refine .bind (parameterMark_settled _) fun parameter => ?_
  refine .bind (name_settled _) fun declared => ?_
  refine .bind (requireBlank_settled _) fun blanks => ?_
  refine .bind (entityDefinition_settled _ _) fun entity => ?_
  exact .bind (expect_settled _ _) fun _ => trivial

theorem skipDeclaration_settled (whole source : Text) (within : source <:+ whole) :
    Settled Stop.fault (skipDeclaration whole source within) := by
  fun_induction skipDeclaration with
  | case1 => rfl
  | case2 => trivial
  | case3 _ _ _ _ _ _ ih => exact .bind (takeUntil_settled _ _ _) fun taken => ih _ taken.suffix
  | case4 _ _ _ _ _ _ ih => exact .bind (nextChar_settled _ _) fun next => ih _ next.suffix

theorem subsetItem_settled (table : EntityTable) (opening : Text) :
    Settled Stop.fault (subsetItem table opening source) := by
  unfold subsetItem
  split
  · exact (entityDeclaration_settled _ _).map _
  · split
    · exact .bind (takeUntil_settled _ _ _) fun _ => trivial
    · exact .bind (takeUntil_settled _ _ _) fun _ => trivial
    · exact .bind (skipDeclaration_settled _ _ _) fun _ => trivial
    · rfl

theorem internalSubset_settled (whole : Text) (table : EntityTable) (ledger : Ledger)
    (source : Text) (within : source <:+ whole) :
    Settled Failure.fault (internalSubset whole table ledger source within) := by
  fun_induction internalSubset with
  | case1 => rfl
  | case2 => trivial
  | case3 _ _ _ _ _ _ _ _ ih =>
    refine .bind ((name_settled _).withLedger _) fun entity => ?_
    refine .bind ((expect_settled _ _).withLedger _) fun semicolon => ?_
    exact ih _ _ entity.suffix _ semicolon.suffix _ (skipBlanks semicolon.rest).suffix
  | case4 _ _ _ _ _ _ _ _ _ ih =>
    refine .bind ((subsetItem_settled _ _ _).withLedger _) fun item => ?_
    exact ih _ _ item.suffix _ (skipBlanks item.rest).suffix
  | case5 => rfl

theorem optionalSubset_settled (ledger : Ledger) :
    Settled Failure.fault (optionalSubset ledger source) := by
  unfold optionalSubset
  split
  · exact .bind (internalSubset_settled _ _ _ _ _) fun _ => trivial
  · trivial

theorem doctype_settled (ledger : Ledger) : Settled Failure.fault (doctype ledger source) := by
  refine .bind ((requireBlank_settled _).withLedger _) fun first => ?_
  refine .bind ((name_settled _).withLedger _) fun declared => ?_
  refine .bind ((externalId_settled _).withLedger _) fun identifiers => ?_
  refine .bind (optionalSubset_settled _ _) fun subset => ?_
  exact .bind ((expect_settled _ _).withLedger _) fun _ => trivial

theorem set_settled (fields : DeclarationFields) (key value rest : Text) :
    Settled Stop.fault (fields.set key value rest) := by
  unfold DeclarationFields.set
  split
  · trivial
  · split
    · trivial
    · split
      · split
        · trivial
        · split
          · trivial
          · rfl
      · rfl

theorem declaration_settled (whole : Text) (fields : DeclarationFields) (spaced : Bool)
    (source : Text) (within : source <:+ whole) :
    Settled Stop.fault (declaration whole fields spaced source within) := by
  fun_induction declaration with
  | case1 => rfl
  | case2 => trivial
  | case3 => rfl
  | case4 => rfl
  | case5 =>
    rename_i ih
    refine .bind (nameFrom_settled _ _) fun key => ?_
    refine .bind (expect_settled _ _) fun sign => ?_
    refine .bind (quoted_settled _) fun value => ?_
    refine .bind (set_settled _ _ _ _) fun fields => ?_
    exact ih _ key.suffix _ (skipBlanks key.rest).suffix _ sign.suffix _
      (skipBlanks sign.rest).suffix _ value.suffix fields _ _ (skipBlanks value.rest).suffix

theorem optionalDeclaration_settled : Settled Stop.fault (optionalDeclaration source) := by
  unfold optionalDeclaration
  split
  · split
    · exact .bind (declaration_settled _ _ _ _ _) fun _ => trivial
    · trivial
  · trivial

end Declarations

section References

namespace Expansion

variable (expansion : Expansion) (ledger : Ledger)

theorem count_settled : Settled Failure.fault (expansion.count ledger) := by
  unfold count
  split
  · trivial
  · rfl

theorem replacement_settled (name : Text) (entity : Entity) :
    Settled Failure.fault (expansion.replacement ledger name entity) := by
  unfold replacement
  split
  · trivial
  · split
    · rfl
    · split
      · trivial
      · split
        · rfl
        · dsimp only
          split
          · trivial
          · rfl

mutual

theorem named_settled (available : EntityTable) (ledger : Ledger) (name : Text) :
    Settled Failure.fault (expansion.named available ledger name) := by
  rw [named]
  split
  · trivial
  · split
    · split
      · rfl
      · rfl
    · refine .bind (count_settled _ _) fun counted => ?_
      refine .bind (replacement_settled _ _ _ _) fun replacement => ?_
      split
      · trivial
      · exact replaced_settled _ _ _
termination_by (available.length, 0)
decreasing_by exact Prod.Lex.left _ _ (EntityTable.length_without ‹_›)

theorem replaced_settled (available : EntityTable) (ledger : Ledger) (text : Text) :
    Settled Failure.fault (expansion.replaced available ledger text) := by
  rw [replaced_eq]
  split
  · trivial
  · rename_i opened
    split
    · rfl
    · rename_i later closed
      have opening := congrArg List.length (Text.append_of_breakOn? opened)
      have closing := congrArg List.length (Text.append_of_breakOn? closed)
      simp only [List.length_append, List.length_cons, List.length_nil] at opening closing
      have shorter : later.length < text.length := by omega
      have further (counted : Ledger) :
          Settled Failure.fault (expansion.replaced available counted later) :=
        replaced_settled available counted later
      dsimp only
      split
      · split
        · exact .bind trivial fun _ => .bind (further _) fun _ => trivial
        · rfl
      · exact .bind (named_settled _ _ _) fun _ => .bind (further _) fun _ => trivial
termination_by (available.length, text.length + 1)
decreasing_by
  · exact Prod.Lex.right _ (by omega)
  · exact Prod.Lex.right _ (Nat.succ_pos _)

end

end Expansion

variable (setting : Setting) (ledger : Ledger)

theorem reference_settled (place : Place) (source : Text) :
    Settled Failure.fault (reference setting place ledger source) := by
  unfold reference
  split
  · exact .bind ((charReference_settled _).withLedger _) fun _ => trivial
  · refine .bind ((name_settled _).withLedger _) fun entity => ?_
    refine .bind ((expect_settled _ _).withLedger _) fun semicolon => ?_
    exact .bind (Expansion.named_settled _ _ _ _) fun _ => trivial

theorem attributeText_settled (quote : Char) (whole : Text) (ledger : Ledger) (done source : Text)
    (within : source <:+ whole) :
    Settled Failure.fault (attributeText setting quote whole ledger done source within) := by
  fun_induction attributeText with
  | case1 => rfl
  | case2 => trivial
  | case3 => rfl
  | case4 =>
    rename_i ih
    exact .bind (reference_settled _ _ _ _) fun value => ih _ _ _ value.suffix
  | case5 =>
    rename_i ih
    exact .bind ((nextChar_settled _ _).withLedger _) fun next => ih _ _ next.suffix

end References

end XmlSelect.Markup
