import XmlSelect.CommandLine.Command
import XmlSelect.CommandLine.Folder
import XmlSelect.Markup.Bytes
import XmlSelect.Markup.Print
/-! Carrying out what the command line asks for. Files are queried one by one with one cache, and
the greatest exit code counts. -/
namespace XmlSelect.CommandLine

/-- The ends that a program can come to: all files were queried, one could not be read, the query
was turned down, it had no value, a limit is none, or the arguments make no command. -/
inductive Status
  | success
  | unreadable
  | rejected
  | failed
  | invalidLimit
  | misused
deriving DecidableEq

def Status.code : Status → Nat
  | success => 0
  | unreadable => 1
  | rejected | misused => 2
  | failed => 3
  | invalidLimit => 4

/-- The end with the greater code. -/
def Status.worse (status other : Status) : Status :=
  if status.code < other.code then other else status

/-- What a program prints and how it ends, with the paths of the files it read or tried to read. -/
structure Outcome where
  status : Status := .success
  printed : Text := []
  complaints : Text := []
  paths : List Text := []
deriving DecidableEq

namespace Outcome

/-- One outcome and then another. -/
def append (earlier later : Outcome) : Outcome :=
  { status := earlier.status.worse later.status
    printed := earlier.printed ++ later.printed
    complaints := earlier.complaints ++ later.complaints
    paths := earlier.paths ++ later.paths }

instance : Append Outcome := ⟨append⟩

end Outcome

/-- A line of complaint about a file or about the program. -/
def complaint (about message : Text) : Text := about ++ ": ".toList ++ message ++ ['\n']

/-- The path of the file that holds an external entity of the document in a folder. Addresses of
other kinds are never fetched. -/
def entityPath? (folder systemId : Text) : Option Text :=
  let path := (Text.dropPrefix? "file://".toList systemId).getD systemId
  if Text.includes "://".toList path then none else some (pathFrom folder path)

/-- What a program can read: files by path, and the standard input. -/
structure Inputs where
  file : Text → Except FileError (List UInt8)
  standard : List UInt8

namespace Inputs

/-- The bytes under a name on the command line. -/
def read (inputs : Inputs) (name : Text) : Except FileError (List UInt8) :=
  if name == ['-'] then .ok inputs.standard else inputs.file name

/-- What is left after the bytes under a name were read: standard input can be read only once. -/
def after (inputs : Inputs) (name : Text) : Inputs :=
  if name == ['-'] then { inputs with standard := [] } else inputs

/-- The text of an external entity, if its file is there and holds UTF-8. -/
def entity? (inputs : Inputs) (folder : Text) (request : Markup.EntityRequest) : Option Text := do
  let path ← entityPath? folder request.systemId
  Utf8.decode? (← (inputs.file path).toOption)

end Inputs

namespace Command

/-- How the document in a file is read. -/
def options (command : Command) (inputs : Inputs) (name : Text) : Markup.Options :=
  if command.given.has .allowExternalEntities then
    { allowExternal := true, resolver := some (inputs.entity? (folderPart name)) }
  else {}

/-- What is printed for the nodes that a query selects. -/
def printNodes (command : Command) (document : Document) (nodes : List Nat) : Text :=
  if command.given.has .count then Text.ofNat nodes.length ++ ['\n']
  else
    (if command.given.has .first then nodes.take 1 else nodes).flatMap fun node =>
      Markup.printNode document node ++ ['\n']

/-- Queries the document in a file. -/
def queryDocument (command : Command) (cache : Gate.Cache) (name : Text) (document : Document) :
    Outcome × Gate.Cache :=
  match Query.run cache document Document.root command.kind command.selector with
  | (.ok nodes, after) => ({ printed := command.printNodes document nodes }, after)
  | (.error error, after) =>
    ({ status := if error.isInputValidation then .rejected else .failed
       complaints := complaint name error.message }, after)

/-- The paths of the external entities that were asked for. -/
def entityPaths (name : Text) (requests : List Markup.EntityRequest) : List Text :=
  requests.filterMap fun request => entityPath? (folderPart name) request.systemId

/-- The warnings about a document, if they are wanted. -/
def warnings (command : Command) (name : Text) (diagnostics : List Markup.Diagnostic) : Text :=
  if command.given.has .verbose then
    diagnostics.flatMap fun diagnostic => complaint name diagnostic.text
  else []

variable [Encoding.Library]

/-- Queries one file. -/
def queryFile (command : Command) (inputs : Inputs) (cache : Gate.Cache) (name : Text) :
    Outcome × Gate.Cache :=
  let opened : Outcome := { paths := if name == ['-'] then [] else [name] }
  match inputs.read name with
  | .error error =>
    (opened ++ { status := .unreadable
                 complaints := complaint name ("failed to read: ".toList ++ error.message) },
      cache)
  | .ok bytes =>
    match Markup.parseBytes (command.options inputs name) bytes with
    | .error error =>
      (opened ++ { status := .unreadable, complaints := complaint name error.message
                   paths := entityPaths name error.requests }, cache)
    | .ok reading =>
      let noted : Outcome :=
        { complaints := command.warnings name reading.diagnostics
          paths := entityPaths name reading.requests }
      let (outcome, after) := command.queryDocument cache name reading.document
      (opened ++ noted ++ outcome, after)

/-- Queries files in order, each with the cache that the one before left. -/
def queryFiles (command : Command) (inputs : Inputs) (cache : Gate.Cache) : List Text → Outcome
  | [] => {}
  | name :: rest =>
    let (outcome, after) := command.queryFile inputs cache name
    outcome ++ command.queryFiles (inputs.after name) after rest

/-- Carries out a command. -/
def run (command : Command) (inputs : Inputs) : Outcome :=
  match command.settings with
  | .error error =>
    { status := .invalidLimit, complaints := complaint "xmlquery".toList error.message }
  | .ok settings => command.queryFiles inputs { settings } command.given.files

end Command

/-- Carries out the command that arguments ask for, as they are read by `read?`. -/
def execute [Encoding.Library] (read? : List Text → Option Command) (arguments : List Text)
    (inputs : Inputs) : Outcome :=
  match read? arguments with
  | none => { status := .misused }
  | some command => command.run inputs

end XmlSelect.CommandLine
