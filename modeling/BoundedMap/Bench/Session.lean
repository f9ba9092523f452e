import BoundedMap.Bench.Sample
/-!
# Parties that draw at the same time

`sample` has the parties draw one after another. Here they do so side by side: a `Session` is
what all of them have at some moment, and a `Step` is one turn of one of them, whichever it is.
A share that is sent waits in a channel, from which the first party takes the shares in the order in
which they were sent. A party leaves with its share; when all have left and the channel is empty,
there is nothing to wait for.

The set of the first party becomes a list in the end, and a set has no order: every list of its
values is one that may come out.
-/

namespace BoundedMap.Bench

/-- A party: the source of its draws, the values that it has, and the number of its next draw. -/
structure Party where
  draws : Draws
  seen : Std.HashSet Int64
  next : Nat

namespace Party

/-- A party that has not drawn yet. -/
def fresh (draws : Draws) : Party :=
  ⟨draws, ∅, 0⟩

/-- One draw. -/
def draw (p : Party) : Party :=
  { p with seen := p.seen.insert (p.draws p.next), next := p.next + 1 }

/-- Merge a share of somebody else. -/
def take (p : Party) (chunk : Std.HashSet Int64) : Party :=
  { p with seen := absorb p.seen chunk }

end Party

/-- What the first party is about. -/
inductive Stage
  /-- It draws its own share. -/
  | drawing
  /-- It takes the shares of the others. -/
  | receiving
  /-- It draws what is missing. -/
  | completing
  /-- The sample is complete. -/
  | done
  deriving DecidableEq, Repr

/-- All parties at some moment. -/
structure Session where
  first : Party
  stage : Stage
  /-- Those that have not sent their shares yet. -/
  others : List Party
  /-- The shares that were sent and not received, in the order of sending. -/
  channel : List (Std.HashSet Int64)

namespace Session

/-- Nobody has drawn yet. -/
def start (draw : Draws) (others : List Draws) : Session :=
  ⟨.fresh draw, .drawing, others.map .fresh, []⟩

/-- One turn of one party. A share has `size` values, the sample has `len`. -/
inductive Step (size len : Nat) : Session → Session → Prop
  | shareDraw {first p : Party} {stage : Stage} {before after : List Party}
    {channel : List (Std.HashSet Int64)} :
    p.seen.size < size → Step size len ⟨first, stage, before ++ p :: after, channel⟩
      ⟨first, stage, before ++ p.draw :: after, channel⟩
  | send {first p : Party} {stage : Stage} {before after : List Party}
    {channel : List (Std.HashSet Int64)} :
    size ≤ p.seen.size → Step size len ⟨first, stage, before ++ p :: after, channel⟩
      ⟨first, stage, before ++ after, channel ++ [p.seen]⟩
  | draw {first : Party} {others : List Party} {channel : List (Std.HashSet Int64)} :
    first.seen.size < size → Step size len ⟨first, .drawing, others, channel⟩
      ⟨first.draw, .drawing, others, channel⟩
  | listen {first : Party} {others : List Party} {channel : List (Std.HashSet Int64)} :
    size ≤ first.seen.size → Step size len ⟨first, .drawing, others, channel⟩
      ⟨first, .receiving, others, channel⟩
  | receive {first : Party} {others : List Party} {chunk : Std.HashSet Int64}
    {channel : List (Std.HashSet Int64)} :
    Step size len ⟨first, .receiving, others, chunk :: channel⟩
      ⟨first.take chunk, .receiving, others, channel⟩
  | hangUp {first : Party} :
    Step size len ⟨first, .receiving, [], []⟩ ⟨first, .completing, [], []⟩
  | complete {first : Party} {others : List Party} {channel : List (Std.HashSet Int64)} :
    first.seen.size < len → Step size len ⟨first, .completing, others, channel⟩
      ⟨first.draw, .completing, others, channel⟩
  | finish {first : Party} {others : List Party} {channel : List (Std.HashSet Int64)} :
    len ≤ first.seen.size → Step size len ⟨first, .completing, others, channel⟩
      ⟨first, .done, others, channel⟩

/-- The sessions that turns lead to, in whatever order they are taken. -/
inductive Reachable (parties len : Nat) (draw : Draws) (others : List Draws) : Session → Prop
  | start : Reachable parties len draw others (start draw others)
  | step {s t : Session} : Reachable parties len draw others s →
    Step (share parties len) len s t → Reachable parties len draw others t

/-- A sample that some session comes to: the values of the first party, in any order. -/
def Outcome (parties len : Nat) (draw : Draws) (others : List Draws) (data : List Int64) : Prop :=
  ∃ s, Reachable parties len draw others s ∧ s.stage = .done ∧ data.Perm s.first.seen.toList

end Session

end BoundedMap.Bench
