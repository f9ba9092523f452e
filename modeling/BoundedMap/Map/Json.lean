import BoundedMap.Json.Codec
import BoundedMap.Map.Basic
/-!
# Maps as JSON text

A map is written as its entries only, in ascending order. A map that is read
gets exactly as many slots as entries were read, repeated keys included, so it
is full unless keys were repeated. How entries become text and text becomes
entries is left to a library for JSON, a `Json.Codec`.
-/

namespace BoundedMap.Map

variable {α β δ ε : Type}

/-- The JSON object with the entries of a map, unless they cannot be written. -/
def toJson (c : Json.Codec δ ε α β) (m : Map α β) : Except Fault (Except δ String) :=
  return c.write (← m.entries)

/-- The greatest number of entries for which room is made in advance. -/
def maxReserve : Nat :=
  4096

/-- Gather entries one after another. A hint at their number comes from outside
and only decides how much room is made in advance. The room for `maxReserve`
entries is always there: that memory could lack it is no part of the model, and
so the bound has no effect on the answer. -/
def gather (hint : Option Nat) (entries : List (α × β)) : Array (α × β) :=
  entries.foldl Array.push (Array.emptyWithCapacity (min (hint.getD 0) maxReserve))

/-- The map with as many slots as there are entries, each of them bound in turn.
Memory is assumed to be ample. -/
def ofEntries (less : α → α → Bool) (hint : Option Nat) (entries : List (α × β)) :
    Except Failure (Map α β) :=
  let gathered := gather hint entries
  match withCapacity less gathered.size with
  | .error why => .error (.refused why)
  | .ok m =>
    match insertMany gathered.toList m with
    | .ok () m => .ok m
    | .error e _ => .error e

/-- Why no map could be read. -/
inductive LoadError (ε : Type)
  | text (why : ε)
  | build (why : Failure)
  deriving DecidableEq, Repr

/-- Read a map from the text of a JSON object. What follows the object is
judged when the map has been built. -/
def ofJson (c : Json.Codec δ ε α β) (less : α → α → Bool) (text : String) :
    Except (LoadError ε) (Map α β) :=
  match c.read text with
  | .error why => .error (.text why)
  | .ok access =>
    match ofEntries less access.hint access.entries with
    | .error why => .error (.build why)
    | .ok m =>
      match access.close with
      | .error why => .error (.text why)
      | .ok () => .ok m

end BoundedMap.Map
