import BoundedMap.Map.Basic
import BoundedMap.Text.Layout
/-!
# The text of a map

A map is shown as its entries between braces, in ascending order, each key
followed by a colon and its value.
-/

namespace BoundedMap.Map

variable {α β : Type} [Inspect α] [Inspect β]

/-- The structured text of entries. -/
def layoutOf (entries : List (α × β)) : Layout :=
  .group "\x7b" "\x7d" (entries.map fun e => .pair (Inspect.layout e.1) (Inspect.layout e.2))

/-- The map on one line. -/
def text (m : Map α β) : Except Fault String :=
  return (layoutOf (← m.entries)).inline

/-- The map with a line for every entry. -/
def spreadText (m : Map α β) : Except Fault String :=
  return (layoutOf (← m.entries)).spread

end BoundedMap.Map
