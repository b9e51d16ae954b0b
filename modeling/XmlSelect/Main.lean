import XmlSelect.CommandLine.Run
/-! The program `xmlquery`. -/
namespace XmlSelect.CommandLine

def usage : String :=
  "usage: xmlquery (--xpath EXPR | --css SELECTOR) [--first | --count] [--no-cache]\n" ++
  "  [--max-length N] [--cache-size N] [--allow-external-entities] [--verbose] FILE..."

/-- Files that have been read, or that could not be. -/
abbrev Loaded := List (Text × Except FileError (List UInt8))

def Loaded.read (loaded : Loaded) (path : Text) : Except FileError (List UInt8) :=
  (loaded.lookup path).getD (.error .missing)

/-- Reads a file. A folder can be opened but not read; opening fails where a file stands in the
way of a path, and a name is only invalid if it is too long. -/
def load (path : Text) : IO (Text × Except FileError (List UInt8)) := do
  try
    return (path, .ok (← IO.FS.readBinFile (String.ofList path)).toList)
  catch
    | .inappropriateType (some _) .. => return (path, .error .notFolder)
    | .inappropriateType none .. => return (path, .error .isFolder)
    | .permissionDenied .. => return (path, .error .notAllowed)
    | .invalidArgument .. => return (path, .error .nameTooLong)
    | _ => return (path, .error .missing)

/-- Carries out a command with the files at hand, and again as long as it asks for more. -/
partial def complete (arguments : List Text) (standard : List UInt8) (loaded : Loaded) :
    IO Outcome := do
  let outcome := run arguments ⟨loaded.read, standard⟩
  let wanted := outcome.paths.eraseDups.filter fun path => (loaded.lookup path).isNone
  if wanted.isEmpty then return outcome
  complete arguments standard (loaded ++ (← wanted.mapM load))

end XmlSelect.CommandLine

open XmlSelect CommandLine in
def main (arguments : List String) : IO UInt32 := do
  let standard ←
    if arguments.contains "-" then (← IO.getStdin).readBinToEnd else pure ByteArray.empty
  let outcome ← complete (arguments.map String.toList) standard.toList []
  IO.print (String.ofList outcome.printed)
  IO.eprint (String.ofList outcome.complaints)
  if outcome.status = .misused then IO.eprintln usage
  return outcome.status.code.toUInt32
