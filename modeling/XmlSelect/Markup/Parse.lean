import XmlSelect.Markup.Content
import XmlSelect.Markup.Doctype
import XmlSelect.Tree.Document
/-! Reading whole documents: the declaration, then comments, instructions and one document type
declaration around exactly one element. -/
namespace XmlSelect.Markup

/-- What the declaration has said so far; a later field of the same name counts. -/
structure DeclarationFields where
  version : Option Text := none
  encoding : Option Text := none
  standalone : Option Bool := none

/-- One more field of the declaration; `rest` is the text behind it. -/
def DeclarationFields.set (fields : DeclarationFields) (key value rest : Text) :
    Except Stop DeclarationFields :=
  if key == "version".toList then .ok { fields with version := some value }
  else if key == "encoding".toList then .ok { fields with encoding := some value }
  else if key == "standalone".toList then
    if value == "yes".toList then .ok { fields with standalone := some true }
    else if value == "no".toList then .ok { fields with standalone := some false }
    else .error ⟨.invalidStandalone value, rest⟩
  else .error ⟨.unexpectedInDeclaration key, rest⟩

/-- The rest of the declaration, with no blanks in front; `spaced` tells whether there were any. -/
def declaration (whole : Text) (fields : DeclarationFields) (spaced : Bool) (source : Text)
    (within : source <:+ whole) : Except Stop (Read whole Declaration) :=
  match take? "?>".toList source with
  | some ⟨_, rest, closed⟩ =>
    match fields.version with
    | none => .error ⟨.missingVersion, rest⟩
    | some version =>
      .ok ⟨⟨version, fields.encoding, fields.standalone⟩, rest, closed.trans within⟩
  | none =>
    if !spaced then .error ⟨.blankRequiredInDeclaration, source⟩
    else match source with
    | [] => .error ⟨.nameAtEnd, []⟩
    | first :: others => do
      let ⟨key, afterName, named⟩ ← nameFrom first others
      let ⟨_, beforeSign, before⟩ := skipBlanks afterName
      let ⟨_, afterSign, signed⟩ ← expect ['='] beforeSign
      let ⟨_, beforeValue, behind⟩ := skipBlanks afterSign
      let ⟨value, after, valued⟩ ← quoted beforeValue
      let fields ← fields.set key value after
      let ⟨spaced, next, blanks⟩ := skipBlanks after
      have suffix : next <:+ others :=
        blanks.trans (valued.trans (behind.trans (signed.trans (before.trans named))))
      have := suffix.length_le
      declaration whole fields spaced next (suffix.trans ((List.suffix_cons _ _).trans within))
termination_by source.length

/-- The declaration at the start of a document, if there is one. -/
def optionalDeclaration (source : Text) : Except Stop (Read source (Option Declaration)) :=
  match take? "<?xml".toList source with
  | some ⟨_, rest, opened⟩ =>
    if rest.head?.any isBlank then do
      let ⟨spaced, body, blanks⟩ := skipBlanks rest
      let ⟨declared, after, suffix⟩ ← declaration _ {} spaced body (blanks.trans opened)
      return ⟨some declared, after, suffix⟩
    else .ok ⟨none, source, List.suffix_refl _⟩
  | none => .ok ⟨none, source, List.suffix_refl _⟩

/-- What has been read at the top of a document; the nodes are kept last first. -/
structure Progress where
  before : Forest := .nil
  table : EntityTable := []
  seenDoctype : Bool := false
  seenRoot : Bool := false
  ledger : Ledger := {}

/-- The rest of a document at the top; no blanks are in front. -/
def topLevel (options : Options) (progress : Progress) (source : Text) :
    Except Failure Progress :=
  match source with
  | [] => if progress.seenRoot then .ok progress else .error ⟨.missingRoot, [], progress.ledger⟩
  | '<' :: rest =>
    match commentOrInstruction? rest with
    | some result => do
      let ⟨leaf, after, suffix⟩ ← withLedger progress.ledger result
      let ⟨_, next, blanks⟩ := skipBlanks after
      have := (blanks.trans suffix).length_le
      topLevel options { progress with before := .leaf leaf progress.before } next
    | none =>
      match take? "!DOCTYPE".toList rest with
      | some ⟨_, afterWord, word⟩ => do
        if progress.seenDoctype || progress.seenRoot then
          throw ⟨.misplacedDoctype, '<' :: rest, progress.ledger⟩
        let ⟨declared, after, suffix⟩ ← doctype progress.ledger afterWord
        let ⟨_, next, blanks⟩ := skipBlanks after
        have := (blanks.trans (suffix.trans word)).length_le
        topLevel options
          { progress with
            before := .leaf declared.leaf progress.before, table := declared.table
            seenDoctype := true, ledger := declared.ledger } next
      | none => do
        if progress.seenRoot then
          throw ⟨.contentAfterRoot, '<' :: rest, progress.ledger⟩
        let ⟨(element, ledger), after, suffix⟩ ←
          rootElement ⟨options, progress.table⟩ progress.ledger rest
        let ⟨_, next, blanks⟩ := skipBlanks after
        have := (blanks.trans suffix).length_le
        topLevel options
          { progress with
            before := .element element.name element.attributes element.before.reverse
              progress.before
            seenRoot := true, ledger := ledger } next
  | c :: rest =>
    .error ⟨if progress.seenRoot then .contentAfterRoot else .textOutsideRoot, c :: rest,
      progress.ledger⟩
termination_by source.length

/-- A document that was read, with what happened on the way. -/
structure Reading where
  document : Document
  diagnostics : List Diagnostic
  requests : List EntityRequest
  expansions : Nat

/-- Why a text was not read, and where, with what happened before. -/
structure ParseError where
  fault : Fault
  place : Location
  diagnostics : List Diagnostic
  requests : List EntityRequest

def ParseError.message (error : ParseError) : Text :=
  "parse error at ".toList ++ error.place.text ++ ": ".toList ++ error.fault.message

/-- The warnings of a ledger with their places in the text. -/
def Ledger.diagnostics (ledger : Ledger) (source : Text) : List Diagnostic :=
  ledger.warnings.map fun (warning, rest) => ⟨warning, .ofRest source rest⟩

/-- Reads a document. -/
def parse (options : Options) (source : Text) : Except ParseError Reading :=
  let outcome : Except Failure (Option Declaration × Progress) := do
    let ⟨declared, rest, _⟩ ← withLedger {} (optionalDeclaration source)
    return (declared, ← topLevel options {} (skipBlanks rest).rest)
  match outcome with
  | .error failure =>
    .error ⟨failure.fault, .ofRest source failure.rest, failure.ledger.diagnostics source,
      failure.ledger.requests⟩
  | .ok (declared, progress) =>
    .ok ⟨.ofForest declared progress.before.reverse, progress.ledger.diagnostics source,
      progress.ledger.requests, progress.ledger.expansions⟩

/-- Reads a document; a byte order mark in front of it is no part of it. -/
def parseText (options : Options) (source : Text) : Except ParseError Reading :=
  match source with
  | '\ufeff' :: rest => parse options rest
  | source => parse options source

end XmlSelect.Markup
