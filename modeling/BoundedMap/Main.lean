import BoundedMap.Bench.CommandLine
import BoundedMap.Bench.Sample
/-!
# The program

Draws a sample of the size that the command line asks for, runs the workloads
over it, and prints a line of mean times for each.
-/

namespace BoundedMap.Bench

/-- Do some work and measure it, in nanoseconds. -/
@[noinline] def timed {γ : Type} (work : Unit → Except Stop γ) : IO (γ × Nat) := do
  let begin ← IO.monoNanosNow
  match work () with
  | .error why => throw (IO.userError why.message)
  | .ok a =>
    let done ← IO.monoNanosNow
    return (a, done - begin)

/-- Run the phases of a workload one by one; `withChurn` says whether there is
a phase of removing and binding again. -/
def measure {σ : Type} (c : Subject σ) (withChurn : Bool) (data : List Int64) :
    IO Times := do
  let (s, add) ← timed fun _ => c.add data
  let ((), find) ← timed fun _ => c.find s 0 data
  let (s, churn) ← if withChurn then timed fun _ => c.churn data s else pure (s, 0)
  let (_, remove) ← timed fun _ => c.removeAll 0 data s
  return { add, find, churn, remove }

/-- A sample that differs from run to run. Every draw of the first party is new
to it, so it needs at most as many as there are values in all shares together. -/
def randomSample (parties len : Nat) : IO (List Int64) := do
  let seed ← IO.rand 0 maxCount
  let draws := (List.range parties).map fun i => drawsFrom (seed + i).toUInt64
  match sample (2 * len + 1) (draws.headD (drawsFrom 0)) draws.tail len with
  | some data => return data
  | none => throw (IO.userError "the draws repeat too often")

/-- Run what a command asks for, on a sample that `parties` draw together. -/
def execute (parties : Nat) (command : Command) : IO Unit := do
  let data ← randomSample parties command.size
  if command.choice ≠ .sorted then
    IO.println (pooledLine data.length (← measure pooled true data))
  if command.choice ≠ .pooled then
    IO.println (sortedLine data.length (← measure sorted false data))

/-- Answer a command line where there are `parties` processors. -/
def run (parties : Nat) (args : List String) : IO Unit :=
  match Command.parse? args with
  | some command => execute parties command
  | none => IO.println Command.usage

end BoundedMap.Bench

/-- The entry point. How many processors there are cannot be asked for, so four are assumed. -/
def main : List String → IO Unit :=
  BoundedMap.Bench.run 4
