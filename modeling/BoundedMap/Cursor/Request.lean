import BoundedMap.Cursor.Basic
/-!
# Requests to a cursor

`Request` lists what a caller may ask of a cursor, and `perform` answers it,
given what is to be shown of an entry: all of it, its key or its value. What
looks at the entries that remain without taking them leaves the cursor where it
is.
-/

namespace BoundedMap.Cursor

variable {α β γ : Type}

/-- What a caller may ask of a cursor. -/
inductive Request
  /-- The next entry at one end. -/
  | pull (s : Side)
  /-- The entry at one end after passing over some. -/
  | nth (s : Side) (n : Nat)
  | remaining
  | sizeHint
  /-- All entries that remain, from one end. -/
  | rest (s : Side)
  | count
  | last
  deriving DecidableEq, Repr

/-- What a cursor answers. -/
inductive Answer (γ : Type)
  | item (e : Option γ)
  | number (n : Nat)
  | bounds (least greatest : Nat)
  | items (es : List γ)
  deriving DecidableEq, Repr

/-- Answer one request, `view` telling what is shown of an entry. -/
def perform (view : α × β → γ) :
    Request → Cursor α β → Except Fault (Answer γ × Cursor α β)
  | .pull s, c => do
    let (e, c) ← c.pull s
    return (.item (e.map view), c)
  | .nth s n, c => do
    let (e, c) ← c.nth s n
    return (.item (e.map view), c)
  | .remaining, c => return (.number c.remaining, c)
  | .sizeHint, c => return (.bounds c.sizeHint.1 c.sizeHint.2, c)
  | .rest s, c => return (.items ((← c.drain s).map view), c)
  | .count, c => return (.number (← c.count), c)
  | .last, c => return (.item ((← c.last?).map view), c)

/-- Answer requests one after another. -/
def run (view : α × β → γ) :
    List Request → Cursor α β → Except Fault (List (Answer γ) × Cursor α β)
  | [], c => return ([], c)
  | request :: rest, c => do
    let (answer, c) ← perform view request c
    let (answers, c) ← run view rest c
    return (answer :: answers, c)

end BoundedMap.Cursor
