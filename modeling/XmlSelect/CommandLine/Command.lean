import XmlSelect.Query
/-! What the command line asks for: a selector, files, and options. -/
namespace XmlSelect.CommandLine

/-- The options that stand on their own. -/
inductive Switch
  | first
  | count
  | noCache
  | allowExternalEntities
  | verbose
deriving DecidableEq

/-- The options that have a value. -/
inductive Setting
  | xpath
  | css
  | maxLength
  | cacheSize
deriving DecidableEq

/-- The option as it is written. -/
def Setting.text : Setting → Text
  | xpath => "--xpath".toList
  | css => "--css".toList
  | maxLength => "--max-length".toList
  | cacheSize => "--cache-size".toList

/-- The arguments that have been read, each option once and the files in order. -/
structure Arguments where
  switches : List Switch := []
  settings : List (Setting × Text) := []
  files : List Text := []
deriving DecidableEq

namespace Arguments

def has (given : Arguments) (switch : Switch) : Bool := given.switches.contains switch

def value? (given : Arguments) (setting : Setting) : Option Text := given.settings.lookup setting

end Arguments

/-- What the command line asks for. -/
structure Command where
  kind : QueryKind
  selector : Text
  given : Arguments
deriving DecidableEq

/-- The settings of the cache, with the greatest length looked at first. -/
def Command.settings (command : Command) : Except Gate.LimitError Gate.Settings := do
  let limit (setting : Setting) (default : Nat) : Except Gate.LimitError Nat :=
    match command.given.value? setting with
    | some text => Gate.parseLimit setting.text text
    | none => .ok default
  let defaults : Gate.Settings := {}
  let maxLength ← limit .maxLength defaults.maxLength
  let maxSize ← limit .cacheSize defaults.maxSize
  return ⟨!command.given.has .noCache, maxSize, maxLength⟩

end XmlSelect.CommandLine
