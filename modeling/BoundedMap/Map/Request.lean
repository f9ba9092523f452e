import BoundedMap.Map.Basic
/-!
# Requests

`Request` lists what a caller may ask of a map, and `Answer` the kinds of
results. `Map.perform` answers one request; `Map.run` a whole sequence, each
request on the map that the one before has left. A refusal is an answer like
any other. A fault ends the run.
-/

namespace BoundedMap

/-- What a caller may ask of a map. -/
inductive Request (α β : Type)
  | insert (key : α) (value : β)
  | insertMany (pairs : List (α × β))
  | remove (key : α)
  | removeEntry (key : α)
  | replace (key : α) (value : β)
  | clear
  | get (key : α)
  | getEntry (key : α)
  | contains (key : α)
  | first
  | last
  | entries
  | entriesDown
  | keys
  | values
  | inorder
  | len
  | isEmpty
  | isFull
  deriving DecidableEq, Repr

/-- What a map answers. -/
inductive Answer (α β : Type)
  | done
  | refused (why : Refusal)
  | value (v : Option β)
  | entry (e : Option (α × β))
  | flag (b : Bool)
  | count (n : Nat)
  | entries (es : List (α × β))
  | keys (ks : List α)
  | values (vs : List β)
  deriving DecidableEq, Repr

namespace Map

variable {α β γ : Type}

/-- Answer from what can be read. -/
def reading (read : Map α β → Except Fault γ) (answer : γ → Answer α β) :
    MapM α β (Answer α β) := fun m =>
  match read m with
  | .ok a => .ok (answer a) m
  | .error what => .error (.fault what) m

/-- Take a refusal for an answer. -/
def settling (step : MapM α β γ) (answer : γ → Answer α β) : MapM α β (Answer α β) :=
  fun m =>
    match step m with
    | .ok a m => .ok (answer a) m
    | .error (.refused why) m => .ok (.refused why) m
    | .error (.fault what) m => .error (.fault what) m

/-- Answer one request. -/
def perform : Request α β → MapM α β (Answer α β)
  | .insert key value => settling (insert key value) .value
  | .insertMany pairs => settling (insertMany pairs) fun _ => .done
  | .remove key => settling (remove key) .value
  | .removeEntry key => settling (removeEntry key) .entry
  | .replace key value => settling (replace key value) .value
  | .clear => settling clear fun _ => .done
  | .get key => reading (·.get? key) .value
  | .getEntry key => reading (·.lookup? key) .entry
  | .contains key => reading (·.contains key) .flag
  | .first => reading (·.first?) .entry
  | .last => reading (·.last?) .entry
  | .entries => reading (·.entries) .entries
  | .entriesDown => reading (·.entriesDown) .entries
  | .keys => reading (·.keys) .keys
  | .values => reading (·.values) .values
  | .inorder =>
    reading (·.inorder (fun seen key value => seen.push (key, value)) #[])
      fun seen => .entries seen.toList
  | .len => reading (fun m => .ok m.len) .count
  | .isEmpty => reading (fun m => .ok m.isEmpty) .flag
  | .isFull => reading (fun m => .ok m.isFull) .flag

/-- Answer requests one after another. -/
def run : List (Request α β) → MapM α β (List (Answer α β))
  | [] => return []
  | request :: rest => do
    let answer ← perform request
    return answer :: (← run rest)

/-! ## Tallies -/

/-- How a sequence of insertions went. -/
structure InsertTally where
  added : Nat
  replaced : Nat
  refused : Nat
  deriving DecidableEq, Repr

/-- How a sequence of removals went. -/
structure RemoveTally where
  removed : Nat
  absent : Nat
  deriving DecidableEq, Repr

/-- Bind each key to its value in turn, going on after a refusal, and count how
it went. -/
def insertEach : List (α × β) → InsertTally → MapM α β InsertTally
  | [], tally => return tally
  | (key, value) :: rest, tally => do
    match ← perform (.insert key value) with
    | .value none => insertEach rest { tally with added := tally.added + 1 }
    | .value (some _) => insertEach rest { tally with replaced := tally.replaced + 1 }
    | _ => insertEach rest { tally with refused := tally.refused + 1 }

/-- Remove each key in turn and count how many were there. -/
def removeEach : List α → RemoveTally → MapM α β RemoveTally
  | [], tally => return tally
  | key :: rest, tally => do
    match ← remove key with
    | some _ => removeEach rest { tally with removed := tally.removed + 1 }
    | none => removeEach rest { tally with absent := tally.absent + 1 }

end Map

end BoundedMap
