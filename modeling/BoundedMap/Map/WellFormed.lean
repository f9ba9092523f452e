import BoundedMap.Map.Request
import BoundedMap.Map.Json
import BoundedMap.Pool.Request
/-!
# Well-formed maps

What holds of a map between two requests. `WellFormed` speaks of shape alone
and asks nothing of the order: the links from the root form one tree over
exactly the live slots, its heights are recorded correctly, every node is
balanced, and the counts agree. `Sorted` adds that every key lies between the
keys on the way to it.

`Reachable` says how maps come about: built empty, wherever memory has room for
them, or from entries, then changed by any requests.
-/

namespace BoundedMap.Map

variable {α β : Type}

/-- A tree that fits a map: spelled out by its links, balanced, and over every
live slot exactly once. -/
structure Fits (m : Map α β) (t : Tree Handle α β) : Prop where
  spells : Subtree.Spells m.pool m.root t
  nodup : t.labels.Nodup
  mem_labels : ∀ h, h ∈ t.labels ↔ ∃ n, m.pool.read h = .ok n
  heights : t.HeightsExact
  balanced : t.Balanced
  size_eq : t.size = m.len

/-- The shape that every request keeps, whatever the order. -/
structure WellFormed (m : Map α β) : Prop where
  pool : m.pool.WellFormed
  tree : ∃ t, m.Fits t

/-- The keys lie in the order in which a descent expects them. -/
def Sorted (m : Map α β) : Prop :=
  ∃ t, Subtree.Spells m.pool m.root t ∧ t.Bounded m.less none none

/-- The maps that requests lead to. -/
inductive Reachable (less : α → α → Bool) : Map α β → Prop
  | withCapacity {memory : Memory} {capacity : Nat} {m : Map α β} :
    withCapacityFrom memory less capacity = .ok m → Reachable less m
  | empty : Reachable less (empty less)
  | ofEntries {hint : Option Nat} {entries : List (α × β)} {m : Map α β} :
    ofEntries less hint entries = .ok m → Reachable less m
  | perform {m n : Map α β} {request : Request α β} {answer : Answer α β} :
    Reachable less m → perform request m = .ok answer n → Reachable less n

end BoundedMap.Map
