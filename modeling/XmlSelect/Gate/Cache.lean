import XmlSelect.Gate.Limit
import XmlSelect.Gate.Recency
import XmlSelect.Gate.Validator
/-! A cache of the expressions that passed validation. It holds a limited number of them and drops
the one that was not used for the longest time first. -/
namespace XmlSelect.Gate

/-- What the cache and the validation behind it go by. -/
structure Settings where
  caching : Bool := true
  maxSize : Nat := 10000
  maxLength : Nat := 10000
deriving DecidableEq

/-- A validator with the expressions that passed it under the present settings. -/
structure Cache where
  settings : Settings := {}
  validator : Validator := {}
  accepted : Recency := .empty

namespace Cache

/-- The accepted expressions from the latest used to the earliest. -/
def entries (cache : Cache) : List Text := cache.accepted.toList

def size (cache : Cache) : Nat := cache.accepted.size

def contains (cache : Cache) (text : Text) : Bool := cache.accepted.contains text

/-- Stores an expression that passed as the latest used, making room for it first. -/
def store (cache : Cache) (text : Text) : Cache :=
  if cache.settings.maxSize = 0 then cache
  else { cache with accepted := (cache.accepted.shrinkTo (cache.settings.maxSize - 1)).push text }

/-- Checks an expression. One that is stored passes at once and becomes the latest used; another
one is validated, and stored if it passes. -/
def check (cache : Cache) (text : Text) : Except Rejection Unit × Cache :=
  match if cache.settings.caching then cache.accepted.touch? text else none with
  | some touched => (.ok (), { cache with accepted := touched })
  | none =>
    match cache.validator.validate text cache.settings.maxLength with
    | .error rejection => (.error rejection, cache)
    | .ok () => (.ok (), if cache.settings.caching then cache.store text else cache)

def clear (cache : Cache) : Cache := { cache with accepted := .empty }

/-- Turns caching on or off; what is stored stays. -/
def setCaching (cache : Cache) (caching : Bool) : Cache :=
  { cache with settings := { cache.settings with caching := caching } }

/-- Changes how many expressions are stored, dropping those that are too many. -/
def setMaxSize (cache : Cache) (value : Int) : Except LimitError Unit × Cache :=
  match checkLimit "cache_max_size".toList value with
  | .error error => (.error error, cache)
  | .ok limit =>
    (.ok (), { cache with
      settings := { cache.settings with maxSize := limit }
      accepted := cache.accepted.shrinkTo limit })

/-- Changes the greatest length of expressions; if it differs, nothing stays stored. -/
def setMaxLength (cache : Cache) (value : Int) : Except LimitError Unit × Cache :=
  match checkLimit "max_expression_length".toList value with
  | .error error => (.error error, cache)
  | .ok limit =>
    if cache.settings.maxLength = limit then (.ok (), cache)
    else
      let settings := { cache.settings with maxLength := limit }
      (.ok (), { cache with settings := settings, accepted := .empty })

end Cache

end XmlSelect.Gate
