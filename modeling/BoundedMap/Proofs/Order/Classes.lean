import BoundedMap.Order.Basic
import BoundedMap.Side
/-!
# Classes of equivalent keys

Under a strict weak order a key may be exchanged for an equivalent one in every
comparison. `turn` answers with a side exactly as the order says. Every linear
order is a strict weak one, and so is the order by a measure in it.
-/

namespace BoundedMap

namespace StrictWeak

variable {α : Type} {less : α → α → Bool}

/-- What is less than a key is less than all that is not below that key. -/
theorem less_of_less_of_not (order : StrictWeak less) {a b c : α} (below : less a b = true)
    (level : less c b = false) : less a c = true := by
  cases above : less a c with
  | true => rfl
  | false =>
    have reached := order.negTrans a c b above level
    rw [below] at reached
    cases reached

/-- What a key is less than is greater than all that the key is not below. -/
theorem less_of_not_of_less (order : StrictWeak less) {a b c : α} (level : less b a = false)
    (below : less b c = true) : less a c = true := by
  cases above : less a c with
  | true => rfl
  | false =>
    have reached := order.negTrans b a c level above
    rw [below] at reached
    cases reached

end StrictWeak

namespace Order

variable {α γ : Type} [LT α] [LE α] [DecidableLT α] [Std.LawfulOrderLT α] [Std.IsLinearOrder α]

theorem strictWeak_ascending : StrictWeak (ascending : α → α → Bool) where
  irrefl a := decide_eq_false Std.lt_irrefl
  trans a b c below above :=
    decide_eq_true (Std.lt_trans (of_decide_eq_true below) (of_decide_eq_true above))
  negTrans a b c notBelow notAbove := by
    have first := Std.not_lt.1 (of_decide_eq_false notBelow)
    have second := Std.not_lt.1 (of_decide_eq_false notAbove)
    exact decide_eq_false (Std.not_lt.2 (Std.le_trans second first))

theorem strictWeak_through (measure : γ → α) : StrictWeak (through measure) :=
  strictWeak_ascending.through measure

end Order

section Turn

variable {α : Type} {less : α → α → Bool} {probe key : α}

theorem turn_eq_left_iff : turn less probe key = some .left ↔ less probe key = true := by
  cases h : less probe key <;> cases h' : less key probe <;> simp [turn, h, h']

theorem turn_eq_right_iff :
    turn less probe key = some .right ↔ less probe key = false ∧ less key probe = true := by
  cases h : less probe key <;> cases h' : less key probe <;> simp [turn, h, h']

end Turn

end BoundedMap
