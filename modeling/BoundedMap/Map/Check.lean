import BoundedMap.Map.Basic
import BoundedMap.Pool.Check
import BoundedMap.Text.Layout
/-!
# The self-check of a map

`Map.check` walks the tree from the root, each node before those below it, and
verifies that no slot is linked twice, that every key lies between the keys
which the way to it has passed, that heights are recorded correctly and that
every node is balanced. Then it compares the counts and checks the pool. The
first violation ends it. It ends on every map, whatever its links are.
-/

namespace BoundedMap.Map

variable {α β : Type}

/-- What can be wrong with a map. -/
inductive Violation (α : Type)
  /-- A link leads to no node. -/
  | fault (what : Fault)
  | linkedTwice (h : Handle)
  | notAbove (key lower : α)
  | notBelow (key upper : α)
  | wrongHeight (recorded actual : Nat) (key : α)
  | unbalanced (key : α) (left right : Nat)
  | wrongLen (recorded counted : Nat)
  | wrongLive (live len : Nat)
  /-- The pool does not pass its own check. -/
  | pool (what : Pool.Violation)

/-- The wording of the report. -/
def Violation.message [Inspect α] : Violation α → String
  | fault what => what.message
  | linkedTwice h => s!"slot {h.text} is linked into the tree twice"
  | notAbove key lower =>
    s!"key {Inspect.text key} is not above its lower bound {Inspect.text lower}"
  | notBelow key upper =>
    s!"key {Inspect.text key} is not below its upper bound {Inspect.text upper}"
  | wrongHeight recorded actual key =>
    s!"node height is wrong {recorded} vs {actual} at {Inspect.text key}"
  | unbalanced key left right =>
    s!"tree is unbalanced at {Inspect.text key}: {left} vs {right}"
  | wrongLen recorded counted => s!"len is wrong {recorded} vs {counted}"
  | wrongLive live len => s!"pool holds {live} live nodes, tree has {len}"
  | pool what => what.message

/-- What the check of a subtree has found out. -/
structure Survey where
  height : Nat
  count : Nat
  /-- The slots met so far, in the whole tree. -/
  marks : Array Bool

/-- Check the subtree at a link, whose keys have to lie between two bounds.
Every node met marks its slot and a marked slot ends the walk, so `limit` need
not exceed the capacity by more than one. -/
def survey (less : α → α → Bool) (p : Pool α β) :
    (limit : Nat) → Option Handle → (lower upper : Option α) → (marks : Array Bool) →
      Except (Violation α) Survey
  | _, none, _, _, marks => .ok ⟨0, 0, marks⟩
  | 0, some _, _, _, _ => .error (.fault .endlessPath)
  | limit + 1, some x, lower, upper, marks =>
    match marks[x.index]? with
    | none => .error (.fault (.outOfBounds p.capacity x.index))
    | some true => .error (.linkedTwice x)
    | some false =>
      match p.read x with
      | .error what => .error (.fault what)
      | .ok n => do
        if let some b := lower then
          unless less b n.key do
            throw (.notAbove n.key b)
        if let some b := upper then
          unless less n.key b do
            throw (.notBelow n.key b)
        let l ← survey less p limit n.left lower (some n.key)
          (marks.setIfInBounds x.index true)
        let r ← survey less p limit n.right (some n.key) upper l.marks
        let height := 1 + max l.height r.height
        if height ≠ n.height then
          throw (.wrongHeight n.height height n.key)
        if max l.height r.height - min l.height r.height > 1 then
          throw (.unbalanced n.key l.height r.height)
        return ⟨height, 1 + l.count + r.count, r.marks⟩

/-- Verify a map from its root to its free list. -/
def check (m : Map α β) : Except (Violation α) Unit := do
  let found ← survey m.less m.pool (m.capacity + 1) m.root none none
    (Array.replicate m.capacity false)
  if found.count ≠ m.len then
    throw (.wrongLen m.len found.count)
  if m.pool.live ≠ m.len then
    throw (.wrongLive m.pool.live m.len)
  match m.pool.check with
  | .ok () => return ()
  | .error what => throw (.pool what)

end BoundedMap.Map
