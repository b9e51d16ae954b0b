import XmlSelect.Machine.Input
/-! References to entities and to characters, read by the machine. -/
namespace XmlSelect.Machine

open Markup

variable (options : Options)

/-- The text of an external entity, or none if the reference is passed over. -/
def resolveExternal (name systemId : Text) (publicId : Option Text) : Parser (Option Text) := do
  if !options.allowExternal then
    warn (.externalEntitySkipped name systemId)
    return none
  else match options.resolver with
    | none => fatal (.unresolvedEntity name systemId)
    | some resolve =>
      let request : EntityRequest := ⟨name, systemId, publicId⟩
      modify fun state => { state with requests := state.requests ++ [request] }
      match resolve request with
      | some text => return some text
      | none => fatal (.unresolvedEntity name systemId)

/-- The text to be expanded in place of an entity, or none if the reference is passed over. -/
def replacement (name : Text) (place : Place) : Entity → Parser (Option Text)
  | .internal value => return some value
  | .external systemId publicId =>
    if place = .attributeValue then fatal (.externalEntityInAttribute name)
    else resolveExternal options name systemId publicId

mutual

/-- The text that a named reference stands for. `expanding` are the entities that are being
expanded. -/
def expandEntity (table : EntityTable) (expanding : List Text) (place : Place) (name : Text) :
    Parser Text := do
  match predefined? name with
  | some c => return [c]
  | none =>
    match _found : table.find? name with
    | none => fatal (.undefinedEntity name)
    | some entity =>
      if _inside : expanding.contains name then fatal (.recursiveEntity name)
      else
        countExpansion options
        match ← replacement options name place entity with
        | none => return []
        | some text => expandText table (name :: expanding) place text
termination_by ((table.beside expanding).length, 0)
decreasing_by exact Prod.Lex.left _ _ (EntityTable.length_beside_cons _found _inside)

/-- What a reference in a replacement text stands for, without its delimiters. -/
def expandReference (table : EntityTable) (expanding : List Text) (place : Place) :
    Text → Parser Text
  | '#' :: number =>
    match numericReference? number with
    | some c => return [c]
    | none => fatal (.invalidReference ('#' :: number))
  | name => expandEntity table expanding place name
termination_by ((table.beside expanding).length, 1)
decreasing_by exact Prod.Lex.right _ Nat.zero_lt_one

/-- A replacement text with its own references expanded; markup in it is character data. -/
def expandText (table : EntityTable) (expanding : List Text) (place : Place) (text : Text) :
    Parser Text := do
  match _opened : Text.breakOn? ['&'] text with
  | none => return place.normalize text
  | some (before, behind) =>
    match _closed : Text.breakOn? [';'] behind with
    | none => fatal .unterminatedReference
    | some (reference, later) =>
      let value ← expandReference table expanding place reference
      let rest ← expandText table expanding place later
      return place.normalize before ++ value ++ rest
termination_by ((table.beside expanding).length, text.length + 2)
decreasing_by
  · exact Prod.Lex.right _ (Nat.lt_add_left _ Nat.one_lt_two)
  · have opening := congrArg List.length (Text.append_of_breakOn? _opened)
    have closing := congrArg List.length (Text.append_of_breakOn? _closed)
    simp only [List.length_append, List.length_cons, List.length_nil] at opening closing
    exact Prod.Lex.right _ (by omega)

end

/-- The text that a reference stands for, from the ampersand on. -/
def reference (place : Place) : Parser Text := do
  expect ['&']
  if ← eat ['#'] then return [← charReference]
  else
    let entity ← name
    expect [';']
    expandEntity options (← get).table [] place entity

end XmlSelect.Machine
