import Std.Data.HashMap
import XmlSelect.Text.Basic
/-! A set of keys in the order of their last use. Each key has a slot in an array; the slots are
linked in both directions from the newest key to the oldest, and an index leads from each key to
its slot, so that no operation looks through the keys. Slots of dropped keys are used again. -/
namespace XmlSelect.Gate

/-- Texts are hashed as strings. -/
instance : Hashable Text := ⟨fun text => hash (String.ofList text)⟩

/-- A key with the slots of the keys that were used next after and next before it. -/
structure Slot where
  key : Text
  newer : Option Nat := none
  older : Option Nat := none

/-- Keys in the order of their last use. -/
structure Recency where
  slots : Array Slot := #[]
  vacant : List Nat := []
  index : Std.HashMap Text Nat := ∅
  newest : Option Nat := none
  oldest : Option Nat := none

namespace Recency

def empty : Recency := {}

def size (recency : Recency) : Nat := recency.index.size

def contains (recency : Recency) (key : Text) : Bool := recency.index.contains key

/-- The keys from a slot on to older ones, at most `count` of them. -/
def keysFrom (recency : Recency) : Nat → Option Nat → List Text
  | 0, _ | _, none => []
  | count + 1, some id =>
    match recency.slots[id]? with
    | some slot => slot.key :: recency.keysFrom count slot.older
    | none => []

/-- The keys from the newest to the oldest. -/
def toList (recency : Recency) : List Text :=
  recency.keysFrom recency.slots.size recency.newest

/-- Changes the link of a slot to an older one, or the newest key if there is no slot. -/
def setOlder (recency : Recency) (id : Option Nat) (older : Option Nat) : Recency :=
  match id with
  | some id => { recency with slots := recency.slots.modify id ({ · with older := older }) }
  | none => { recency with newest := older }

/-- Changes the link of a slot to a newer one, or the oldest key if there is no slot. -/
def setNewer (recency : Recency) (id : Option Nat) (newer : Option Nat) : Recency :=
  match id with
  | some id => { recency with slots := recency.slots.modify id ({ · with newer := newer }) }
  | none => { recency with oldest := newer }

/-- Takes a slot out of the order; its neighbours become neighbours of each other. -/
def unlink (recency : Recency) (id : Nat) : Recency :=
  match recency.slots[id]? with
  | none => recency
  | some slot =>
    let closed := (recency.setOlder slot.newer slot.older).setNewer slot.older slot.newer
    (closed.setNewer (some id) none).setOlder (some id) none

/-- Makes a slot that is not in the order the newest. -/
def linkNewest (recency : Recency) (id : Nat) : Recency :=
  let linked := (recency.setNewer (some id) none).setOlder (some id) recency.newest
  { linked.setNewer recency.newest (some id) with newest := some id }

/-- Makes a key the newest; none if it is not there. -/
def touch? (recency : Recency) (key : Text) : Option Recency :=
  recency.index[key]?.map fun id =>
    if recency.newest = some id then recency else (recency.unlink id).linkNewest id

/-- Adds a key that is not there as the newest, in a vacant slot if there is one. -/
def push (recency : Recency) (key : Text) : Recency :=
  let (id, placed) : Nat × Recency := match recency.vacant with
    | id :: vacant =>
      (id, { recency with slots := recency.slots.setIfInBounds id { key }, vacant := vacant })
    | [] => (recency.slots.size, { recency with slots := recency.slots.push { key } })
  let linked := placed.linkNewest id
  { linked with index := linked.index.insert key id }

/-- Drops the oldest key. -/
def dropOldest (recency : Recency) : Recency :=
  match recency.oldest with
  | none => recency
  | some id =>
    match recency.slots[id]? with
    | none => recency
    | some slot =>
      let unlinked := recency.unlink id
      { unlinked with index := unlinked.index.erase slot.key, vacant := id :: unlinked.vacant }

/-- Drops the oldest keys, so many of them. -/
def dropOldestMany (recency : Recency) : Nat → Recency
  | 0 => recency
  | count + 1 => recency.dropOldest.dropOldestMany count

/-- Drops the oldest keys until at most `limit` are left. -/
def shrinkTo (recency : Recency) (limit : Nat) : Recency :=
  recency.dropOldestMany (recency.size - limit)

end Recency

end XmlSelect.Gate
