import BoundedMap.Bench.Report
import BoundedMap.Bench.Workload
import BoundedMap.Text.Decimal
/-!
# The command line

Two words: which workloads to run, and the size of the data. Everything else is
answered by a line on usage. `lines` says what is printed for given data and
times; measuring the times is left to the program.
-/

namespace BoundedMap.Bench

/-- The workloads that can be asked for. -/
inductive Choice
  | pooled
  | sorted
  | all
  deriving DecidableEq, Repr

/-- What the words of a command line ask for. -/
structure Command where
  choice : Choice
  size : Nat
  deriving DecidableEq, Repr

namespace Command

/-- The answer to a command line that asks for nothing. -/
def usage : String :=
  "usage: <pool|btm|all> <size>"

/-- The workloads that a word names. -/
def choice? : String → Option Choice
  | "pool" => some .pooled
  | "btm" => some .sorted
  | "all" => some .all
  | _ => none

/-- A number below `2 ^ 64` in ASCII digits, with or without a plus sign. -/
def size? (word : String) : Option Nat :=
  let ds :=
    match word.toList with
    | '+' :: ds => ds
    | ds => ds
  if ds.isEmpty || !ds.all Decimal.isDigit then none
  else if Decimal.value ds ≤ maxCount then some (Decimal.value ds)
  else none

/-- What a command line asks for. -/
def parse? : List String → Option Command
  | [which, size] => return ⟨← choice? which, ← size? size⟩
  | _ => none

end Command

/-- The lines that report a run of workloads over data, or why it stopped. -/
def lines (choice : Choice) (data : List Int64) (times : Times) :
    Except Stop (List String) := do
  let n := data.length
  match choice with
  | .pooled =>
    let _ ← pooled.runWithChurn data
    return [pooledLine n times]
  | .sorted =>
    let _ ← sorted.run data
    return [sortedLine n times]
  | .all =>
    let _ ← pooled.runWithChurn data
    let _ ← sorted.run data
    return [pooledLine n times, sortedLine n times]

end BoundedMap.Bench
