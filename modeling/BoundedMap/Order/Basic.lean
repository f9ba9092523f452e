/-!
# Ordering predicates

A map never asks for more than whether one key orders strictly before another.
`StrictWeak` states what makes such a predicate an order of equivalence
classes: keys of which neither orders before the other count as the same.

`General` names the predicates that any type with a `<` has. The first two are
orders; the others are not, and serve to see what a map does without one.
-/

namespace BoundedMap

/-- The laws of an order whose incomparable elements form classes. -/
structure StrictWeak {α : Type} (less : α → α → Bool) : Prop where
  irrefl : ∀ a, less a a = false
  trans : ∀ a b c, less a b = true → less b c = true → less a c = true
  /-- What is not below `b`, above which `c` is not, is not below `c`. -/
  negTrans : ∀ a b c, less a b = false → less b c = false → less a c = false

namespace StrictWeak

variable {α γ : Type} {less : α → α → Bool}

theorem asymm (order : StrictWeak less) {a b : α} (below : less a b = true) :
    less b a = false := by
  cases h : less b a with
  | false => rfl
  | true => simpa [order.irrefl a] using (order.trans a b a below h).symm

/-- The reverse of an order is one. -/
theorem flip (order : StrictWeak less) : StrictWeak fun a b => less b a where
  irrefl := order.irrefl
  trans a b c h h' := order.trans c b a h' h
  negTrans a b c h h' := order.negTrans c b a h' h

/-- Ordering by a measure is an order. -/
theorem through (order : StrictWeak less) (measure : γ → α) :
    StrictWeak fun a b => less (measure a) (measure b) where
  irrefl a := order.irrefl (measure a)
  trans a b c := order.trans (measure a) (measure b) (measure c)
  negTrans a b c := order.negTrans (measure a) (measure b) (measure c)

end StrictWeak

namespace Order

variable {α γ : Type} [LT α] [DecidableLT α]

/-- The smaller key first. -/
def ascending (a b : α) : Bool :=
  decide (a < b)

/-- The greater key first. -/
def descending (a b : α) : Bool :=
  decide (b < a)

/-- The smaller measure first. -/
def through (measure : γ → α) (a b : γ) : Bool :=
  ascending (measure a) (measure b)

/-- The predicates that need nothing but a `<`. -/
inductive General
  | ascending
  | descending
  /-- Equal keys are put before each other. -/
  | notAbove
  /-- The reverse of `notAbove`. -/
  | notBelow
  /-- Any two keys that differ are put before each other. -/
  | distinct
  | always
  | never
  deriving DecidableEq, Repr

/-- The predicate of that name. -/
def General.less : General → α → α → Bool
  | ascending, a, b => Order.ascending a b
  | descending, a, b => Order.descending a b
  | notAbove, a, b => !decide (b < a)
  | notBelow, a, b => !decide (a < b)
  | distinct, a, b => decide (a < b) || decide (b < a)
  | always, _, _ => true
  | never, _, _ => false

end Order

end BoundedMap
