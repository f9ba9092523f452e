import BoundedMap.Map.Basic
import BoundedMap.Order.Basic
import Std.Data.TreeMap.Basic
/-!
# Workloads

A workload takes a container through phases over the same data: every value is
bound to itself, then every value is looked up, removed and bound again, and
finally removed for good. Look-ups and removals of the last phase have to
succeed; the first that does not stops the workload and is reported by its
position in the data.

The phases are written once, over the operations that a `Subject` provides.
`pooled` measures a map of fixed capacity, `sorted` an ordered map that grows.
-/

namespace BoundedMap.Bench

/-- Why a workload stopped before its end. -/
inductive Stop
  | failed (why : Failure)
  /-- The value at this position of the data was not found. -/
  | notFound (position : Nat)
  /-- The value at this position of the data could not be removed. -/
  | notRemoved (position : Nat)
  deriving DecidableEq, Repr

/-- The wording of the report. -/
def Stop.message : Stop → String
  | failed why => why.message
  | notFound _ => "assertion failed: m.get(k).is_some()"
  | notRemoved _ => "assertion failed: m.remove(k).is_some()"

/-- A kind of container that a workload can be run on. -/
structure Subject (σ : Type) where
  /-- An empty container for so many entries. -/
  empty : Nat → Except Failure σ
  insert : Int64 → Int64 → σ → Except Failure σ
  contains : Int64 → σ → Except Failure Bool
  /-- Whether there was something to remove, and what remains. -/
  remove : Int64 → σ → Except Failure (Bool × σ)

/-- The outcome of an operation within a workload. -/
def within {γ : Type} : Except Failure γ → Except Stop γ
  | .ok a => .ok a
  | .error why => .error (.failed why)

namespace Subject

variable {σ : Type} (c : Subject σ)

/-- Bind each value to itself. -/
def addAll : List Int64 → σ → Except Stop σ
  | [], s => .ok s
  | k :: rest, s =>
    match within (c.insert k k s) with
    | .error why => .error why
    | .ok s => addAll rest s

/-- A container of the right size, filled with the data. -/
def add (data : List Int64) : Except Stop σ :=
  match within (c.empty data.length) with
  | .error why => .error why
  | .ok s => c.addAll data s

/-- Look up each value, the first of which stands at `position`. -/
def find (s : σ) : (position : Nat) → List Int64 → Except Stop Unit
  | _, [] => .ok ()
  | position, k :: rest =>
    match within (c.contains k s) with
    | .error why => .error why
    | .ok false => .error (.notFound position)
    | .ok true => find s (position + 1) rest

/-- Remove each value and bind it again. -/
def churn : List Int64 → σ → Except Stop σ
  | [], s => .ok s
  | k :: rest, s =>
    match within (c.remove k s) with
    | .error why => .error why
    | .ok (_, s) =>
      match within (c.insert k k s) with
      | .error why => .error why
      | .ok s => churn rest s

/-- Remove each value, the first of which stands at `position`. -/
def removeAll : (position : Nat) → List Int64 → σ → Except Stop σ
  | _, [], s => .ok s
  | position, k :: rest, s =>
    match within (c.remove k s) with
    | .error why => .error why
    | .ok (false, _) => .error (.notRemoved position)
    | .ok (true, s) => removeAll (position + 1) rest s

/-- The phases of a container that reuses its storage, one after another. -/
def runWithChurn (data : List Int64) : Except Stop σ := do
  let s ← c.add data
  c.find s 0 data
  let s ← c.churn data s
  c.removeAll 0 data s

/-- The same without the phase in between. -/
def run (data : List Int64) : Except Stop σ := do
  let s ← c.add data
  c.find s 0 data
  c.removeAll 0 data s

end Subject

/-- The answer of a step on a map, and the map after it. -/
def stepping {α β γ : Type} (step : MapM α β γ) (m : Map α β) :
    Except Failure (γ × Map α β) :=
  match step m with
  | .ok a m => .ok (a, m)
  | .error why _ => .error why

/-- Maps of fixed capacity over integers in ascending order. -/
def pooled : Subject (Map Int64 Int64) where
  empty capacity :=
    match Map.withCapacity Order.ascending capacity with
    | .ok m => .ok m
    | .error why => .error (.refused why)
  insert key value m := (·.2) <$> stepping (Map.insert key value) m
  contains key m :=
    match m.contains key with
    | .ok b => .ok b
    | .error what => .error (.fault what)
  remove key m := (fun r => (r.1.isSome, r.2)) <$> stepping (Map.remove key) m

/-- Ordered maps that grow with their entries. -/
def sorted : Subject (Std.TreeMap Int64 Int64) where
  empty _ := .ok ∅
  insert key value m := .ok (m.insert key value)
  contains key m := .ok (m.contains key)
  remove key m := .ok (m.contains key, m.erase key)

end BoundedMap.Bench
