/-!
# Decimal digits

Natural numbers and integers written in decimal, as lists of characters:
no leading zeros, and a minus sign directly before the digits of a negative
number. `value` reads digits back, and `value_digits` says that it does.
-/

namespace BoundedMap.Decimal

/-- The character of a digit. -/
def digit (d : Nat) : Char :=
  Char.ofNat (48 + d)

/-- Whether a character is one of the ten ASCII digits. -/
def isDigit (c : Char) : Bool :=
  48 ≤ c.toNat && c.toNat ≤ 57

/-- The number that a digit stands for. -/
def digitValue (c : Char) : Nat :=
  c.toNat - 48

/-- The digits of a natural number, the most significant one first. -/
def digits (n : Nat) : List Char :=
  if n < 10 then [digit n] else digits (n / 10) ++ [digit (n % 10)]
termination_by n
decreasing_by omega

/-- The natural number that digits spell out. -/
def value (ds : List Char) : Nat :=
  ds.foldl (fun acc c => acc * 10 + digitValue c) 0

/-- An integer in decimal. -/
def ofInt : Int → List Char
  | .ofNat n => digits n
  | .negSucc n => '-' :: digits (n + 1)

theorem digitValue_digit {d : Nat} (small : d < 10) : digitValue (digit d) = d := by
  have all : ∀ d < 10, digitValue (digit d) = d := by decide
  exact all d small

theorem isDigit_digit {d : Nat} (small : d < 10) : isDigit (digit d) = true := by
  have all : ∀ d < 10, isDigit (digit d) = true := by decide
  exact all d small

/-- Digits read back as the number that they were written for. -/
theorem value_digits (n : Nat) : value (digits n) = n := by
  rw [digits]
  split
  · rename_i small
    simp [value, digitValue_digit small]
  · have ih := value_digits (n / 10)
    simp only [value] at ih
    simp only [value, List.foldl_append, ih, List.foldl_cons, List.foldl_nil,
      digitValue_digit (Nat.mod_lt n (by decide : 10 > 0))]
    omega
termination_by n
decreasing_by omega

theorem isDigit_of_mem_digits {n : Nat} {c : Char} (mem : c ∈ digits n) :
    isDigit c = true := by
  rw [digits] at mem
  split at mem
  · rename_i small
    rw [List.mem_singleton.1 mem]
    exact isDigit_digit small
  · rcases List.mem_append.1 mem with front | last
    · exact isDigit_of_mem_digits front
    · rw [List.mem_singleton.1 last]
      exact isDigit_digit (Nat.mod_lt n (by decide))
termination_by n
decreasing_by omega

theorem digits_ne_nil (n : Nat) : digits n ≠ [] := by
  rw [digits]
  split <;> simp

end BoundedMap.Decimal
