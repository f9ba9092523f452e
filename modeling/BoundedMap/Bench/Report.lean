import BoundedMap.Binary64.Fixed
/-!
# Reports

A report is one line per workload: the mean time of an operation in each phase,
in nanoseconds with one decimal.
-/

namespace BoundedMap.Bench

/-- The nanoseconds of one out of `n` operations that took `nanos` together.
Both numbers are rounded to double precision before they are divided, and no
operations count as one. -/
def nsPer (nanos n : Nat) : Binary64 :=
  (Binary64.ofNat nanos).div (.ofNat (max n 1))

/-- A mean time in a report. -/
def meanText (nanos n : Nat) : String :=
  (nsPer nanos n).fixed 1 ++ "ns"

/-- The line of a workload: its name, and its phases with their total times in
nanoseconds, over data of length `n`. -/
def line (name : String) (n : Nat) (phases : List (String × Nat)) : String :=
  name ++ " " ++ ", ".intercalate (phases.map fun p => p.1 ++ ": " ++ meanText p.2 n)

/-- The times of the phases of a workload, in nanoseconds. -/
structure Times where
  add : Nat
  find : Nat
  churn : Nat
  remove : Nat
  deriving DecidableEq, Repr

/-- The report on a map of fixed capacity. -/
def pooledLine (n : Nat) (t : Times) : String :=
  line "pool" n [("add", t.add), ("find", t.find), ("churn", t.churn), ("remove", t.remove)]

/-- The report on an ordered map that grows. -/
def sortedLine (n : Nat) (t : Times) : String :=
  line "btm" n [("add", t.add), ("find", t.find), ("remove", t.remove)]

end BoundedMap.Bench
