import BoundedMap.Map.Request
/-!
# What a map stands for

A `SortedList` answers the requests to a map from a list of entries in
ascending order, at most `capacity` of them. It has no tree, no slots and no
heights, and so says what the answers of a map mean: keys that the order does
not tell apart are one key, a binding keeps the key that was there first, and a
new key is refused when the list is full.
-/

namespace BoundedMap

/-- A bounded list of entries, the keys ascending. -/
structure SortedList (α β : Type) where
  less : α → α → Bool
  capacity : Nat
  entries : List (α × β)

namespace SortedList

variable {α β : Type}

/-- Whether the order does not tell two keys apart. -/
def same (less : α → α → Bool) (a b : α) : Bool :=
  !less a b && !less b a

/-- The entries with one more binding. -/
def bind (less : α → α → Bool) (key : α) (value : β) : List (α × β) → List (α × β)
  | [] => [(key, value)]
  | e :: rest =>
    if less key e.1 then (key, value) :: e :: rest
    else if less e.1 key then e :: bind less key value rest
    else (e.1, value) :: rest

/-- The list without entries. -/
def empty (less : α → α → Bool) (capacity : Nat) : SortedList α β :=
  ⟨less, capacity, []⟩

/-- The entry whose key matches. -/
def find? (s : SortedList α β) (probe : α) : Option (α × β) :=
  s.entries.find? fun e => same s.less probe e.1

/-- Whether a new key would be refused. -/
def isFull (s : SortedList α β) : Bool :=
  s.entries.length == s.capacity

/-- Bind a key. A new one is refused when the list is full. -/
def insert (s : SortedList α β) (key : α) (value : β) :
    Except Refusal (Option β) × SortedList α β :=
  match s.find? key with
  | some e => (.ok (some e.2), { s with entries := bind s.less key value s.entries })
  | none =>
    if s.isFull then (.error (.exhausted s.capacity), s)
    else (.ok none, { s with entries := bind s.less key value s.entries })

/-- Bind keys in turn, up to the first that is refused. -/
def insertMany (s : SortedList α β) : List (α × β) → Except Refusal Unit × SortedList α β
  | [] => (.ok (), s)
  | (key, value) :: rest =>
    match s.insert key value with
    | (.ok _, s) => insertMany s rest
    | (.error why, s) => (.error why, s)

/-- The list without the entry whose key matches. -/
def erase (s : SortedList α β) (probe : α) : SortedList α β :=
  { s with entries := s.entries.filter fun e => !same s.less probe e.1 }

/-- Write a value where a key is bound. -/
def replace (s : SortedList α β) (probe : α) (value : β) : SortedList α β :=
  if (s.find? probe).isSome then { s with entries := bind s.less probe value s.entries }
  else s

/-- A result, or its refusal as an answer. -/
def settle {γ : Type} (answer : γ → Answer α β) :
    Except Refusal γ × SortedList α β → Answer α β × SortedList α β
  | (.ok a, s) => (answer a, s)
  | (.error why, s) => (.refused why, s)

/-- Answer one request. -/
def perform (s : SortedList α β) : Request α β → Answer α β × SortedList α β
  | .insert key value => settle .value (s.insert key value)
  | .insertMany pairs => settle (fun _ => .done) (s.insertMany pairs)
  | .remove key => (.value ((s.find? key).map (·.2)), s.erase key)
  | .removeEntry key => (.entry (s.find? key), s.erase key)
  | .replace key value => (.value ((s.find? key).map (·.2)), s.replace key value)
  | .clear => (.done, { s with entries := [] })
  | .get key => (.value ((s.find? key).map (·.2)), s)
  | .getEntry key => (.entry (s.find? key), s)
  | .contains key => (.flag (s.find? key).isSome, s)
  | .first => (.entry s.entries.head?, s)
  | .last => (.entry s.entries.getLast?, s)
  | .entries => (.entries s.entries, s)
  | .entriesDown => (.entries s.entries.reverse, s)
  | .keys => (.keys (s.entries.map (·.1)), s)
  | .values => (.values (s.entries.map (·.2)), s)
  | .inorder => (.entries s.entries, s)
  | .len => (.count s.entries.length, s)
  | .isEmpty => (.flag s.entries.isEmpty, s)
  | .isFull => (.flag s.isFull, s)

/-- Answer requests one after another. -/
def run (s : SortedList α β) : List (Request α β) → List (Answer α β) × SortedList α β
  | [] => ([], s)
  | request :: rest =>
    let (answer, s) := s.perform request
    let (answers, s) := run s rest
    (answer :: answers, s)

/-- Ascending keys, and no more entries than there is room for. -/
structure Valid (s : SortedList α β) : Prop where
  ascending : s.entries.Pairwise fun a b => s.less a.1 b.1 = true
  length_le : s.entries.length ≤ s.capacity

end SortedList

end BoundedMap
