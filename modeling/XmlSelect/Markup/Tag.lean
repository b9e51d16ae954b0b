import XmlSelect.Markup.Entity
import XmlSelect.Tree.Forest
/-! References and start tags. -/
namespace XmlSelect.Markup

/-- What the content of a document is read with. -/
structure Setting where
  options : Options
  table : EntityTable

/-- The text that a reference stands for, from behind the ampersand on. -/
def reference (setting : Setting) (place : Place) (ledger : Ledger) (source : Text) :
    Except Failure (Read source (Text × Ledger)) :=
  match source with
  | '#' :: rest => do
    let ⟨c, after, suffix⟩ ← withLedger ledger (charReference rest)
    return ⟨([c], ledger), after, suffix.trans (List.suffix_cons _ _)⟩
  | source => do
    let ⟨entity, afterName, named⟩ ← withLedger ledger (name source)
    let ⟨_, after, closed⟩ ← withLedger ledger (expect [';'] afterName)
    let expansion : Expansion := ⟨setting.options, setting.table, place, after⟩
    let expanded ← expansion.named setting.table ledger entity
    return ⟨expanded, after, closed.trans named⟩

/-- An attribute value up to its closing quote; `done` is what was read of it, last first. -/
def attributeText (setting : Setting) (quote : Char) (whole : Text) (ledger : Ledger)
    (done : Text) (source : Text) (within : source <:+ whole) :
    Except Failure (Read whole (Text × Ledger)) :=
  match source with
  | [] => .error ⟨.unterminatedAttribute, [], ledger⟩
  | c :: rest =>
    if c == quote then .ok ⟨(done.reverse, ledger), rest, (List.suffix_cons _ _).trans within⟩
    else if c == '<' then .error ⟨.lessThanInAttribute, c :: rest, ledger⟩
    else if c == '&' then do
      let ⟨(value, expanded), after, suffix⟩ ← reference setting .attributeValue ledger rest
      have := suffix.length_le
      attributeText setting quote whole expanded (value.reverse ++ done) after
        (suffix.trans ((List.suffix_cons _ _).trans within))
    else do
      let ⟨next, after, suffix⟩ ← withLedger ledger (nextChar c rest)
      have := suffix.length_le
      attributeText setting quote whole ledger (Place.attributeValue.normalize [next] ++ done) after
        (suffix.trans ((List.suffix_cons _ _).trans within))
termination_by source.length

/-- An attribute value with its quotes. -/
def attributeValue (setting : Setting) (ledger : Ledger) (source : Text) :
    Except Failure (Read source (Text × Ledger)) :=
  match source with
  | [] => .error ⟨.unquotedAttribute, [], ledger⟩
  | quote :: rest =>
    if isQuote quote then
      attributeText setting quote _ ledger [] rest (List.suffix_cons quote rest)
    else .error ⟨.unquotedAttribute, quote :: rest, ledger⟩

/-- A start tag, or the tag of an element without content. -/
structure StartTag where
  name : Text
  attributes : List Attribute
  closed : Bool

/-- The attributes of an element and the end of its start tag, with no blanks in front; `spaced`
tells whether there were any. `done` are the attributes read before, last first. -/
def attributeList (setting : Setting) (element whole : Text) (ledger : Ledger)
    (done : List Attribute) (spaced : Bool) (source : Text) (within : source <:+ whole) :
    Except Failure (Read whole (StartTag × Ledger)) :=
  match take? "/>".toList source with
  | some ⟨_, rest, closed⟩ =>
    .ok ⟨(⟨element, done.reverse, true⟩, ledger), rest, closed.trans within⟩
  | none =>
    match take? ['>'] source with
    | some ⟨_, rest, closed⟩ =>
      .ok ⟨(⟨element, done.reverse, false⟩, ledger), rest, closed.trans within⟩
    | none =>
      match source with
      | [] => .error ⟨.unterminatedStartTag element, [], ledger⟩
      | first :: others => do
        if !spaced then
          throw ⟨.blankRequiredBetweenAttributes, first :: others, ledger⟩
        let ⟨key, afterName, named⟩ ← withLedger ledger (nameFrom first others)
        let ⟨_, beforeSign, before⟩ := skipBlanks afterName
        let ⟨_, afterSign, signed⟩ ← withLedger ledger (expect ['='] beforeSign)
        let ⟨_, beforeValue, behind⟩ := skipBlanks afterSign
        let ⟨(value, expanded), after, valued⟩ ← attributeValue setting ledger beforeValue
        if done.any (·.name == key) then
          throw ⟨.duplicateAttribute key element, after, expanded⟩
        let ⟨spaced, next, blanks⟩ := skipBlanks after
        have suffix : next <:+ others :=
          blanks.trans (valued.trans (behind.trans (signed.trans (before.trans named))))
        have := suffix.length_le
        attributeList setting element whole expanded (⟨key, value⟩ :: done) spaced next
          (suffix.trans ((List.suffix_cons _ _).trans within))
termination_by source.length

/-- A start tag from behind its opening bracket on, below `depth` open elements. -/
def startTag (setting : Setting) (depth : Nat) (ledger : Ledger) (source : Text) :
    Except Failure (Read source (StartTag × Ledger)) := do
  let ⟨element, rest, suffix⟩ ← withLedger ledger (name source)
  if setting.options.maxDepth ≤ depth then
    throw ⟨.tooDeep setting.options.maxDepth, rest, ledger⟩
  let ⟨spaced, body, blanks⟩ := skipBlanks rest
  attributeList setting element source ledger [] spaced body (blanks.trans suffix)

end XmlSelect.Markup
