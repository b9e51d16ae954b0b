import XmlSelect.CommandLine.Command
/-! The arguments of the command line as they are written: files, one selector, and options. -/
namespace XmlSelect.CommandLine

def Setting.ofText? (text : Text) : Option Setting :=
  [xpath, css, maxLength, cacheSize].find? (·.text == text)

def Switch.text : Switch → Text
  | first => "--first".toList
  | count => "--count".toList
  | noCache => "--no-cache".toList
  | allowExternalEntities => "--allow-external-entities".toList
  | verbose => "--verbose".toList

def Switch.ofText? (text : Text) : Option Switch :=
  [first, count, noCache, allowExternalEntities, verbose].find? (·.text == text)

namespace Arguments

/-- Adds an option, unless it is there already. -/
def turnOn? (given : Arguments) (switch : Switch) : Option Arguments :=
  if given.has switch then none else some { given with switches := switch :: given.switches }

/-- Adds an option with its value, unless it is there already. -/
def set? (given : Arguments) (setting : Setting) (value : Text) : Option Arguments :=
  if (given.value? setting).isSome then none
  else some { given with settings := (setting, value) :: given.settings }

/-- Whether an argument is an option; a hyphen alone is a file. -/
def isOption (argument : Text) : Bool := argument.head? = some '-' && 1 < argument.length

/-- Reads arguments. The value of an option stands behind an equals sign or is the next argument,
which then must not look like an option. Behind two hyphens all arguments are files. -/
def read? (given : Arguments) : List Text → Option Arguments
  | [] => some given
  | argument :: rest =>
    if argument == ['-', '-'] then some { given with files := given.files ++ rest }
    else if !isOption argument then
      { given with files := given.files ++ [argument] }.read? rest
    else match Text.breakOn? ['='] argument with
      | some (option, value) => do
        (← given.set? (← Setting.ofText? option) value).read? rest
      | none =>
        match Switch.ofText? argument, rest with
        | some switch, rest => do (← given.turnOn? switch).read? rest
        | none, [] => none
        | none, value :: rest => do
          let setting ← Setting.ofText? argument
          if isOption value then none else (← given.set? setting value).read? rest

end Arguments

/-- The command that arguments ask for: they have to name a file and one selector, and not both to
print the first node and to count. -/
def Command.ofArguments? (arguments : List Text) : Option Command := do
  let given ← Arguments.read? {} arguments
  if given.files.isEmpty || given.has .first && given.has .count then none
  match given.value? .xpath, given.value? .css with
  | some selector, none => some ⟨.xpath, selector, given⟩
  | none, some selector => some ⟨.css, selector, given⟩
  | _, _ => none

end XmlSelect.CommandLine
