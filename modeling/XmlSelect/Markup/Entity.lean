import XmlSelect.Markup.Lexical
/-! General entities: their declarations, and the text that references to them stand for. -/
namespace XmlSelect.Markup

/-- What a document declares an entity to be. The value of an internal entity is kept as it is
written and expanded where it is used. -/
inductive Entity
  | internal (value : Text)
  | external (systemId : Text) (publicId : Option Text)
deriving DecidableEq

/-- The declared entities by name, in order of declaration. -/
abbrev EntityTable := List (Text × Entity)

namespace EntityTable

def find? (table : EntityTable) (name : Text) : Option Entity := table.lookup name

/-- Adds a declaration, unless the name has one already: the first is binding. -/
def declare (table : EntityTable) (name : Text) (entity : Entity) : EntityTable :=
  if (table.find? name).isSome then table else table ++ [(name, entity)]

/-- The table without an entity. -/
def without (table : EntityTable) (name : Text) : EntityTable :=
  List.filter (fun entry => !(entry.1 == name)) table

theorem length_without {table : EntityTable} {name : Text} {entity : Entity}
    (found : table.find? name = some entity) : (table.without name).length < table.length := by
  unfold without
  induction table with
  | nil => simp [find?] at found
  | cons entry rest ih =>
    obtain ⟨key, value⟩ := entry
    by_cases same : key = name
    · simp only [List.filter_cons, same, beq_self_eq_true, Bool.not_true, Bool.false_eq_true,
        if_false, List.length_cons]
      exact Nat.lt_succ_of_le (List.length_filter_le _ _)
    · have other : (name == key) = false := by simpa using Ne.symm same
      rw [find?, List.lookup_cons, other] at found
      simp [same, ih found]

theorem find?_without_self (table : EntityTable) (name : Text) :
    (table.without name).find? name = none := by
  refine List.lookup_eq_none_iff.mpr fun entry member => ?_
  have other : entry.1 ≠ name := by simpa using (List.mem_filter.mp member).2
  exact bne_iff_ne.mpr other.symm

/-- Leaving out an entity changes nothing for the others. -/
theorem find?_without (table : EntityTable) {name other : Text}
    (differ : other ≠ name) : (table.without name).find? other = table.find? other := by
  induction table with
  | nil => rfl
  | cons entry table ih =>
    obtain ⟨key, entity⟩ := entry
    simp only [find?, without, List.filter_cons, List.lookup_cons] at ih ⊢
    by_cases same : key = name
    · subst same
      have elsewhere : (other == key) = false := by simpa using differ
      simp [elsewhere, ih]
    · simp [same, List.lookup_cons, ih]

/-- The table without the entities that are being expanded. -/
def beside (table : EntityTable) (stack : List Text) : EntityTable :=
  stack.foldr (fun name table => table.without name) table

theorem beside_cons (table : EntityTable) (stack : List Text) (name : Text) :
    table.beside (name :: stack) = (table.beside stack).without name := rfl

theorem find?_beside (table : EntityTable) (stack : List Text) (name : Text) :
    (table.beside stack).find? name = if name ∈ stack then none else table.find? name := by
  induction stack with
  | nil => rfl
  | cons top stack ih =>
    rw [beside_cons]
    by_cases same : name = top
    · rw [same, find?_without_self, if_pos List.mem_cons_self]
    · rw [find?_without _ same, ih]
      simp [same]

/-- An entity that is expanded from now on is one less. -/
theorem length_beside_cons {table : EntityTable} {stack : List Text} {name : Text} {entity : Entity}
    (found : table.find? name = some entity) (fresh : ¬stack.contains name) :
    (table.beside (name :: stack)).length < (table.beside stack).length := by
  have left : (table.beside stack).find? name = some entity := by
    rw [find?_beside, if_neg (mt List.contains_iff_mem.mpr fresh), found]
  exact length_without left

end EntityTable

/-- A request for the text of an external entity. -/
structure EntityRequest where
  name : Text
  systemId : Text
  publicId : Option Text
deriving DecidableEq

/-- What reading a document allows. Without a resolver no external entity is found. -/
structure Options where
  allowExternal : Bool := false
  maxDepth : Nat := 256
  maxExpansions : Nat := 10000
  resolver : Option (EntityRequest → Option Text) := none

/-- What has happened so far: how many entities were expanded, what was passed over with a warning
(and the rest of the text at its place), and which external entities were asked for. -/
structure Ledger where
  expansions : Nat := 0
  warnings : List (Warning × Text) := []
  requests : List EntityRequest := []

namespace Ledger

def warn (ledger : Ledger) (warning : Warning) (rest : Text) : Ledger :=
  { ledger with warnings := ledger.warnings ++ [(warning, rest)] }

def request (ledger : Ledger) (request : EntityRequest) : Ledger :=
  { ledger with requests := ledger.requests ++ [request] }

end Ledger

/-- A fault, the rest of the text at its place, and what had happened before. -/
structure Failure where
  fault : Fault
  rest : Text
  ledger : Ledger

/-- A result that leaves the ledger as it is. -/
def withLedger {α : Type} (ledger : Ledger) (result : Except Stop α) : Except Failure α :=
  result.mapError fun stop => ⟨stop.fault, stop.rest, ledger⟩

@[simp] theorem withLedger_ok {α : Type} (ledger : Ledger) (value : α) :
    withLedger ledger (.ok value) = .ok value := rfl

/-- Where a reference stands: external entities are not allowed in attribute values, and blanks
that come out of an entity are spaces there. -/
inductive Place
  | content
  | attributeValue
deriving DecidableEq

def Place.normalize (place : Place) (text : Text) : Text :=
  match place with
  | content => text
  | attributeValue => text.map fun c => if isBlank c then ' ' else c

/-- The character that a predefined entity stands for. -/
def predefined? (name : Text) : Option Char :=
  [("amp".toList, '&'), ("lt".toList, '<'), ("gt".toList, '>'), ("apos".toList, '\''),
    ("quot".toList, '"')].lookup name

/-- A number without a sign, or with a plus sign. -/
def unsigned? (base : Nat) (isDigit : Char → Bool) (text : Text) : Option Nat :=
  let digits := match text with
    | '+' :: digits => digits
    | digits => digits
  if digits.isEmpty || !digits.all isDigit then none else some (pointOfDigits base digits)

/-- The character that a numeric reference in an entity value stands for. -/
def numericReference? (number : Text) : Option Char :=
  let point := match number with
    | 'x' :: digits => unsigned? 16 isHexDigit digits
    | digits => unsigned? 10 Char.isDigit digits
  point.bind charOfPoint?

/-- What the expansion of references depends on; `rest` is the text behind the reference that is
being expanded. -/
structure Expansion where
  options : Options
  table : EntityTable
  place : Place
  rest : Text

namespace Expansion

def fail {α : Type} (expansion : Expansion) (ledger : Ledger) (fault : Fault) :
    Except Failure α :=
  .error ⟨fault, expansion.rest, ledger⟩

/-- Counts one more expansion, if the limit allows it. -/
def count (expansion : Expansion) (ledger : Ledger) : Except Failure Ledger :=
  if ledger.expansions < expansion.options.maxExpansions then
    .ok { ledger with expansions := ledger.expansions + 1 }
  else expansion.fail ledger (.tooManyExpansions expansion.options.maxExpansions)

/-- The text to be expanded in place of an entity, or none if the reference is passed over. -/
def replacement (expansion : Expansion) (ledger : Ledger) (name : Text) :
    Entity → Except Failure (Option Text × Ledger)
  | .internal value => .ok (some value, ledger)
  | .external systemId publicId =>
    if expansion.place = .attributeValue then
      expansion.fail ledger (.externalEntityInAttribute name)
    else if !expansion.options.allowExternal then
      .ok (none, ledger.warn (.externalEntitySkipped name systemId) expansion.rest)
    else match expansion.options.resolver with
      | none => expansion.fail ledger (.unresolvedEntity name systemId)
      | some resolve =>
        let request : EntityRequest := ⟨name, systemId, publicId⟩
        match resolve request with
        | some text => .ok (some text, ledger.request request)
        | none => expansion.fail (ledger.request request) (.unresolvedEntity name systemId)

/-- A replacement text in which `expand` gives what the named references stand for; markup in it is
character data. -/
def replacedBy (expansion : Expansion) (expand : Ledger → Text → Except Failure (Text × Ledger))
    (ledger : Ledger) (text : Text) : Except Failure (Text × Ledger) :=
  match _opened : Text.breakOn? ['&'] text with
  | none => .ok (expansion.place.normalize text, ledger)
  | some (before, behind) =>
    match _closed : Text.breakOn? [';'] behind with
    | none => expansion.fail ledger .unterminatedReference
    | some (reference, later) => do
      let (value, counted) ← match reference with
        | '#' :: number =>
          match numericReference? number with
          | some c => .ok ([c], ledger)
          | none => expansion.fail ledger (.invalidReference reference)
        | name => expand ledger name
      let (rest, after) ← expansion.replacedBy expand counted later
      return (expansion.place.normalize before ++ value ++ rest, after)
termination_by text.length
decreasing_by
  have opening := congrArg List.length (Text.append_of_breakOn? _opened)
  have closing := congrArg List.length (Text.append_of_breakOn? _closed)
  simp only [List.length_append, List.length_cons, List.length_nil] at opening closing
  omega

/-- The text that a named reference stands for. `available` are the entities that are not being
expanded already: a declared entity that is not among them refers to itself. -/
def named (expansion : Expansion) (available : EntityTable) (ledger : Ledger) (name : Text) :
    Except Failure (Text × Ledger) :=
  match predefined? name with
  | some c => .ok ([c], ledger)
  | none =>
    match _found : available.find? name with
    | none =>
      if (expansion.table.find? name).isSome then expansion.fail ledger (.recursiveEntity name)
      else expansion.fail ledger (.undefinedEntity name)
    | some entity => do
      let counted ← expansion.count ledger
      match ← expansion.replacement counted name entity with
      | (none, after) => return ([], after)
      | (some text, after) =>
        expansion.replacedBy
          (fun ledger inner => expansion.named (available.without name) ledger inner) after text
termination_by available.length
decreasing_by exact EntityTable.length_without _found

/-- A replacement text with its own references expanded. -/
def replaced (expansion : Expansion) (available : EntityTable) (ledger : Ledger) (text : Text) :
    Except Failure (Text × Ledger) :=
  expansion.replacedBy (expansion.named available) ledger text

/-- A replacement text is expanded from reference to reference. -/
theorem replaced_eq (expansion : Expansion) (available : EntityTable) (ledger : Ledger)
    (text : Text) :
    expansion.replaced available ledger text =
      match Text.breakOn? ['&'] text with
      | none => .ok (expansion.place.normalize text, ledger)
      | some (before, behind) =>
        match Text.breakOn? [';'] behind with
        | none => expansion.fail ledger .unterminatedReference
        | some (reference, later) => do
          let (value, counted) ← match reference with
            | '#' :: number =>
              match numericReference? number with
              | some c => .ok ([c], ledger)
              | none => expansion.fail ledger (.invalidReference reference)
            | name => expansion.named available ledger name
          let (rest, after) ← expansion.replaced available counted later
          return (expansion.place.normalize before ++ value ++ rest, after) := by
  rw [replaced, replacedBy]
  split
  · rename_i unmarked
    rw [unmarked]
  · rename_i opened
    rw [opened]
    dsimp only
    split
    · rename_i unclosed
      rw [unclosed]
    · rename_i closed
      rw [closed]
      rfl

end Expansion

end XmlSelect.Markup
