/-!
# Ranges of code points

A class of characters is a list of ranges of code points, in rising order and
apart from each other. The search stops at the first range that begins beyond
the code point; `covers_iff` says that it misses nothing.
-/

namespace BoundedMap.Text

/-- The code points from `first` to `last`, both included. -/
structure CodeRange where
  first : Nat
  last : Nat
  deriving DecidableEq, Repr

namespace CodeRange

/-- Whether no range is empty or begins below `least`, and each begins beyond
the code point that follows the range before it. -/
def rising : (least : Nat) → List CodeRange → Bool
  | _, [] => true
  | least, r :: rs => least ≤ r.first && r.first ≤ r.last && rising (r.last + 2) rs

/-- Whether a code point lies in one of the ranges, which are in rising order. -/
def covers : List CodeRange → Nat → Bool
  | [], _ => false
  | r :: rs, n => r.first ≤ n && (n ≤ r.last || covers rs n)

theorem le_of_mem {least : Nat} {rs : List CodeRange} (up : rising least rs = true)
    {r : CodeRange} (mem : r ∈ rs) : least ≤ r.first := by
  induction rs generalizing least with
  | nil => cases mem
  | cons s rs ih =>
    simp only [rising, Bool.and_eq_true, decide_eq_true_eq] at up
    rcases List.mem_cons.mp mem with rfl | later
    · exact up.1.1
    · have := ih up.2 later
      omega

/-- The search finds a code point exactly when some range holds it. -/
theorem covers_iff {least : Nat} {rs : List CodeRange} (up : rising least rs = true) (n : Nat) :
    covers rs n = true ↔ ∃ r ∈ rs, r.first ≤ n ∧ n ≤ r.last := by
  induction rs generalizing least with
  | nil => simp [covers]
  | cons s rs ih =>
    simp only [rising, Bool.and_eq_true, decide_eq_true_eq] at up
    simp only [covers, Bool.and_eq_true, Bool.or_eq_true, decide_eq_true_eq, ih up.2]
    constructor
    · rintro ⟨above, inside | ⟨r, mem, bounds⟩⟩
      · exact ⟨s, List.mem_cons_self, above, inside⟩
      · exact ⟨r, List.mem_cons_of_mem s mem, bounds⟩
    · rintro ⟨r, mem, bounds⟩
      rcases List.mem_cons.mp mem with rfl | later
      · exact ⟨bounds.1, .inl bounds.2⟩
      · have := le_of_mem up.2 later
        exact ⟨by omega, .inr ⟨r, later, bounds⟩⟩

end CodeRange

end BoundedMap.Text
