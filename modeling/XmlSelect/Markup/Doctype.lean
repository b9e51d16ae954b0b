import XmlSelect.Markup.Entity
import XmlSelect.Tree.Forest
/-! Document type declarations. Of the internal subset only the declarations of general entities
count; all other declarations are passed over. -/
namespace XmlSelect.Markup

/-- The system and public identifiers, if any are next. -/
def externalId (source : Text) : Except Stop (Read source (Option (Text × Option Text))) :=
  match take? "SYSTEM".toList source with
  | some ⟨_, afterWord, word⟩ => do
    let ⟨_, body, blanks⟩ ← requireBlank afterWord
    let ⟨system, rest, suffix⟩ ← quoted body
    return ⟨some (system, none), rest, suffix.trans (blanks.trans word)⟩
  | none =>
    match take? "PUBLIC".toList source with
    | some ⟨_, afterWord, word⟩ => do
      let ⟨_, body, blanks⟩ ← requireBlank afterWord
      let ⟨publicId, afterPublic, first⟩ ← quoted body
      let ⟨_, next, gap⟩ ← requireBlank afterPublic
      let ⟨system, rest, suffix⟩ ← quoted next
      return ⟨some (system, some publicId), rest,
        suffix.trans (gap.trans (first.trans (blanks.trans word)))⟩
    | none => .ok ⟨none, source, List.suffix_refl _⟩

/-- What an entity is declared to be, up to the end of the declaration. -/
def entityDefinition (declared : Text) (source : Text) : Except Stop (Read source Entity) :=
  if source.head?.any isQuote then do
    let ⟨value, rest, suffix⟩ ← quoted source
    return ⟨.internal value, rest, suffix⟩
  else do
    let ⟨identifiers, afterId, first⟩ ← externalId source
    match identifiers with
    | none => throw ⟨.entityWithoutValue declared, afterId⟩
    | some (system, publicId) =>
      let ⟨_, body, blanks⟩ := skipBlanks afterId
      match take? "NDATA".toList body with
      | none => return ⟨.external system publicId, body, blanks.trans first⟩
      | some ⟨_, afterWord, word⟩ =>
        let ⟨_, next, gap⟩ ← requireBlank afterWord
        let ⟨_, rest, suffix⟩ ← name next
        return ⟨.external system publicId, rest,
          suffix.trans (gap.trans (word.trans (blanks.trans first)))⟩

/-- The percent sign of a parameter entity with the blanks behind it, if it is next. -/
def parameterMark (source : Text) : Except Stop (Read source Bool) :=
  match source with
  | '%' :: rest => do
    let ⟨_, body, blanks⟩ ← requireBlank rest
    return ⟨true, body, blanks.trans (List.suffix_cons _ _)⟩
  | source => .ok ⟨false, source, List.suffix_refl _⟩

/-- The declaration of an entity from behind `<!ENTITY` on, added to the table if it is general. -/
def entityDeclaration (table : EntityTable) (source : Text) :
    Except Stop (Read source EntityTable) := do
  let ⟨_, beforeMark, first⟩ ← requireBlank source
  let ⟨parameter, beforeName, mark⟩ ← parameterMark beforeMark
  let ⟨declared, afterName, named⟩ ← name beforeName
  let ⟨_, body, blanks⟩ ← requireBlank afterName
  let ⟨entity, afterEntity, defined⟩ ← entityDefinition declared body
  let ⟨_, beforeEnd, gap⟩ := skipBlanks afterEntity
  let ⟨_, rest, closed⟩ ← expect ['>'] beforeEnd
  return ⟨if parameter then table else table.declare declared entity, rest,
    closed.trans (gap.trans (defined.trans (blanks.trans (named.trans (mark.trans first)))))⟩

/-- Passes over a declaration up to its closing bracket, which does not count inside quotes. -/
def skipDeclaration (whole source : Text) (within : source <:+ whole) :
    Except Stop (Read whole Unit) :=
  match source with
  | [] => .error ⟨.unterminatedMarkupDeclaration, []⟩
  | c :: rest =>
    if c == '>' then .ok ⟨(), rest, (List.suffix_cons _ _).trans within⟩
    else if isQuote c then do
      let ⟨_, after, suffix⟩ ← takeUntil [c] .literal rest
      have := suffix.length_le
      skipDeclaration whole after (suffix.trans ((List.suffix_cons _ _).trans within))
    else do
      let ⟨_, after, suffix⟩ ← nextChar c rest
      have := suffix.length_le
      skipDeclaration whole after (suffix.trans ((List.suffix_cons _ _).trans within))
termination_by source.length

/-- A declaration, comment or instruction of the internal subset from behind `<` on. `opening` is
the text from the bracket on, where anything else is a fault. -/
def subsetItem (table : EntityTable) (opening : Text) (source : Text) :
    Except Stop (Read source EntityTable) :=
  match take? "!ENTITY".toList source with
  | some ⟨_, rest, opened⟩ => (entityDeclaration table rest).map (·.within opened)
  | none =>
    match source with
    | '!' :: '-' :: '-' :: rest => do
      let ⟨_, after, suffix⟩ ← takeUntil "-->".toList .comment rest
      return ⟨table, after, suffix.trans (List.suffix_append ['!', '-', '-'] rest)⟩
    | '?' :: rest => do
      let ⟨_, after, suffix⟩ ← takeUntil "?>".toList .instruction rest
      return ⟨table, after, suffix.trans (List.suffix_cons _ _)⟩
    | '!' :: rest => do
      let ⟨_, after, suffix⟩ ← skipDeclaration _ rest (List.suffix_cons _ _)
      return ⟨table, after, suffix⟩
    | _ => .error ⟨.unexpectedInSubset, opening⟩

/-- The rest of the internal subset with its closing bracket; no blanks are in front. -/
def internalSubset (whole : Text) (table : EntityTable) (ledger : Ledger) (source : Text)
    (within : source <:+ whole) : Except Failure (Read whole (EntityTable × Ledger)) :=
  match source with
  | [] => .error ⟨.unterminatedSubset, [], ledger⟩
  | c :: rest => do
    if c == ']' then return ⟨(table, ledger), rest, (List.suffix_cons _ _).trans within⟩
    else if c == '%' then
      let ⟨entity, afterName, named⟩ ← withLedger ledger (name rest)
      let ⟨_, after, closed⟩ ← withLedger ledger (expect [';'] afterName)
      let ⟨_, next, blanks⟩ := skipBlanks after
      have suffix : next <:+ rest := blanks.trans (closed.trans named)
      have := suffix.length_le
      internalSubset whole table (ledger.warn (.parameterEntityIgnored entity) after) next
        (suffix.trans ((List.suffix_cons _ _).trans within))
    else if c == '<' then
      let ⟨declared, after, item⟩ ← withLedger ledger (subsetItem table (c :: rest) rest)
      let ⟨_, next, blanks⟩ := skipBlanks after
      have suffix : next <:+ rest := blanks.trans item
      have := suffix.length_le
      internalSubset whole declared ledger next
        (suffix.trans ((List.suffix_cons _ _).trans within))
    else throw ⟨.unexpectedInSubset, c :: rest, ledger⟩
termination_by source.length

/-- The internal subset in its brackets, if one is next. -/
def optionalSubset (ledger : Ledger) (source : Text) :
    Except Failure (Read source (EntityTable × Ledger)) :=
  match source with
  | '[' :: rest => do
    let ⟨_, first, opened⟩ := skipBlanks rest
    let ⟨declared, after, suffix⟩ ←
      internalSubset _ [] ledger first (opened.trans (List.suffix_cons _ _))
    let ⟨_, body, blanks⟩ := skipBlanks after
    return ⟨declared, body, blanks.trans suffix⟩
  | source => .ok ⟨([], ledger), source, List.suffix_refl _⟩

/-- What a document type declaration gives: its node, the entities and the ledger. -/
structure Doctype where
  leaf : Leaf
  table : EntityTable
  ledger : Ledger

/-- A document type declaration from behind `<!DOCTYPE` on. -/
def doctype (ledger : Ledger) (source : Text) : Except Failure (Read source Doctype) := do
  let ⟨_, beforeName, first⟩ ← withLedger ledger (requireBlank source)
  let ⟨declared, afterName, named⟩ ← withLedger ledger (name beforeName)
  let ⟨_, beforeId, gap⟩ := skipBlanks afterName
  let ⟨identifiers, afterId, identified⟩ ← withLedger ledger (externalId beforeId)
  let ⟨_, beforeSubset, blanks⟩ := skipBlanks afterId
  let ⟨(table, warned), afterSubset, subset⟩ ← optionalSubset ledger beforeSubset
  let ⟨_, rest, closed⟩ ← withLedger warned (expect ['>'] afterSubset)
  let leaf := Leaf.doctype declared (identifiers.map (·.1)) (identifiers.bind (·.2))
  return ⟨⟨leaf, table, warned⟩, rest, closed.trans
    (subset.trans (blanks.trans (identified.trans (gap.trans (named.trans first)))))⟩

end XmlSelect.Markup
