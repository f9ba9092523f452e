import BoundedMap.Json.Reader
import Mathlib.Data.Option.Basic
/-!
# Integers read back

The decimal of a 64-bit integer reads as that integer. Two things have to be seen to: no zero
leads the digits of another number, and the significand of 20 digits overflows for no integer
of 64 bits. What follows the digits must not go on with the number (`EndsInteger`).
-/

namespace BoundedMap

namespace Decimal

theorem exists_digits (n : Nat) : ∃ c cs, digits n = c :: cs ∧ isDigit c = true := by
  obtain ⟨c, cs, shape⟩ := List.exists_cons_of_ne_nil (digits_ne_nil n)
  exact ⟨c, cs, shape, isDigit_of_mem_digits (shape ▸ List.mem_cons_self)⟩

/-- Digits that start with a zero are those of zero. -/
theorem eq_zero_of_digits {n : Nat} {cs : List Char} (leads : digits n = '0' :: cs) :
    n = 0 ∧ cs = [] := by
  rw [digits] at leads
  split at leads
  · rename_i small
    have all : ∀ d < 10, digit d = '0' → d = 0 := by decide
    obtain ⟨zero, alone⟩ := List.cons.inj leads
    exact ⟨all n small zero, alone.symm⟩
  · obtain ⟨c, front, shape, -⟩ := exists_digits (n / 10)
    rw [shape, List.cons_append] at leads
    obtain ⟨rfl, -⟩ := List.cons.inj leads
    have := (eq_zero_of_digits shape).1
    omega
termination_by n
decreasing_by omega

/-- The digits of a number are the usual ones. -/
theorem toList_repr (n : Nat) : n.repr.toList = digits n := by
  have one : ∀ d < 10, d.repr.toList = [digit d] := by decide
  rw [digits]
  split
  · rename_i small
    exact one n small
  · rename_i large
    have last := one (n % 10) (Nat.mod_lt n (by decide))
    rw [Nat.repr_eq_repr_append_repr (Nat.le_of_not_lt large), String.toList_append,
      toList_repr (n / 10), last]
termination_by n
decreasing_by omega

theorem toList_toString (n : Int) : (toString n).toList = ofInt n := by
  cases n with
  | ofNat n => exact toList_repr n
  | negSucc n =>
    show ("-" ++ (n + 1).repr).toList = '-' :: digits (n + 1)
    rw [String.toList_append, toList_repr]
    rfl

end Decimal

namespace Json

variable {c : Char} {cs ds rest : List Char} {minus : Bool} {n s : Nat}

/-- Texts that do not go on with an integer that has been read up to them. -/
def EndsInteger (rest : List Char) : Prop :=
  ∀ c ∈ rest.head?, Decimal.isDigit c = false ∧ c ≠ '.' ∧ c ≠ 'e' ∧ c ≠ 'E'

theorem endsInteger_cons (digit : Decimal.isDigit c = false)
    (others : c ≠ '.' ∧ c ≠ 'e' ∧ c ≠ 'E') : EndsInteger (c :: rest) := by
  rintro d same
  obtain rfl := Option.some.inj same
  exact ⟨digit, others⟩

namespace Number

/-! ## The parts of a number -/

theorem spanDigits_append (all : ∀ c ∈ ds, Decimal.isDigit c = true) (ends : EndsInteger rest) :
    spanDigits (ds ++ rest) = (ds, rest) := by
  unfold spanDigits
  rw [List.takeWhile_append_of_pos all, List.dropWhile_append_of_pos all]
  cases rest with
  | nil => rw [List.takeWhile_nil, List.dropWhile_nil, List.append_nil]
  | cons c rest =>
    have stops : ¬ Decimal.isDigit c = true := by simp [(ends c rfl).1]
    rw [List.takeWhile_cons_of_neg stops, List.dropWhile_cons_of_neg stops, List.append_nil]

/-- The number spelled out by digits that come behind others. -/
def extend (s : Nat) (ds : List Char) : Nat :=
  ds.foldl (fun acc c => acc * 10 + Decimal.digitValue c) s

theorem le_extend (s : Nat) (ds : List Char) : s ≤ extend s ds := by
  induction ds generalizing s with
  | nil => exact Nat.le_refl s
  | cons c ds ih =>
    have longer : s * 10 + Decimal.digitValue c ≤ extend s (c :: ds) := ih _
    omega

/-- No digit is left over when the number of all of them fits. -/
theorem gather_eq (small : extend s ds ≤ maxSignificand) : gather s ds = (extend s ds, []) := by
  induction ds generalizing s with
  | nil => rfl
  | cons c ds ih =>
    have fits : s * 10 + Decimal.digitValue c ≤ maxSignificand :=
      Nat.le_trans (le_extend _ ds) small
    rw [gather, if_pos fits]
    exact ih small

theorem gather_digits (small : n ≤ maxSignificand) : gather 0 (Decimal.digits n) = (n, []) := by
  have value : extend 0 (Decimal.digits n) = n := Decimal.value_digits n
  rw [gather_eq (value.symm ▸ small), value]

theorem fraction_of_ends (ends : EndsInteger rest) (e : Int) :
    fraction s e rest = some (s, e, false, rest) := by
  unfold fraction
  split
  · exact absurd rfl (ends '.' rfl).2.1
  · rfl

theorem exponent?_of_ends (ends : EndsInteger rest) : exponent? rest = some (none, rest) := by
  unfold exponent?
  split
  · exact absurd rfl (ends 'e' rfl).2.2.1
  · exact absurd rfl (ends 'E' rfl).2.2.2
  · rfl

/-! ## Integers -/

theorem signBit_le_maxSignificand : signBit ≤ maxSignificand := by decide

/-- The digits of a number that fits a significand are read as an integer. -/
theorem readUnsigned?_digits (small : n ≤ maxSignificand) (ends : EndsInteger rest) :
    readUnsigned? minus (Decimal.digits n ++ rest) = some (ofInteger minus n, rest) := by
  have span : spanDigits (Decimal.digits n ++ rest) = (Decimal.digits n, rest) :=
    spanDigits_append (fun _ => Decimal.isDigit_of_mem_digits) ends
  have passed : (guard (!(Decimal.digits n).isEmpty &&
      ((Decimal.digits n).head? != some '0' || (Decimal.digits n).length == 1)) : Option Unit) =
        some () := by
    obtain ⟨c, cs, shape, -⟩ := Decimal.exists_digits n
    refine if_pos ?_
    by_cases leads : c = '0'
    · subst leads
      rw [shape, (Decimal.eq_zero_of_digits shape).2]
      rfl
    · simp [shape, leads]
  unfold readUnsigned?
  simp only [span, passed, gather_digits small, fraction_of_ends ends, exponent?_of_ends ends,
    Option.bind_eq_bind, Option.bind_some]
  rfl

/-- A number that starts with a digit has no sign. -/
theorem read?_of_isDigit (digit : Decimal.isDigit c = true) (cs : List Char) :
    read? (c :: cs) = readUnsigned? false (c :: cs) := by
  unfold read?
  split
  · rename_i same
    obtain ⟨rfl, -⟩ := List.cons.inj same
    cases digit
  · rfl

theorem read?_digits (small : n ≤ maxSignificand) (ends : EndsInteger rest) :
    read? (Decimal.digits n ++ rest) = some (.unsigned n, rest) := by
  have read : readUnsigned? false (Decimal.digits n ++ rest) = some (.unsigned n, rest) :=
    readUnsigned?_digits small ends
  obtain ⟨c, cs, shape, digit⟩ := Decimal.exists_digits n
  rw [shape, List.cons_append] at read ⊢
  rw [read?_of_isDigit digit, read]

theorem read?_minus_digits (positive : 0 < n) (small : n ≤ signBit) (ends : EndsInteger rest) :
    read? ('-' :: Decimal.digits n ++ rest) = some (.negative n, rest) := by
  have kept : ofInteger true n = .negative n := by
    have : ¬ (n = 0 ∨ n > signBit) := by omega
    rw [ofInteger, if_pos rfl, if_neg this]
  rw [← kept]
  exact readUnsigned?_digits (Nat.le_trans small signBit_le_maxSignificand) ends

/-- The decimal of a 64-bit integer reads as that integer. -/
theorem read?_ofInt (i : Int64) (ends : EndsInteger rest) :
    ∃ n, read? (Decimal.ofInt i.toInt ++ rest) = some (n, rest) ∧ n.int64? = some i := by
  have least := i.le_toInt
  have greatest := i.toInt_lt
  have whole := i.ofInt_toInt
  cases size : i.toInt with
  | ofNat n =>
    rw [size, Int.ofNat_eq_natCast] at greatest whole
    have small : n < signBit := by
      unfold signBit
      omega
    have room : n ≤ maxSignificand := Nat.le_trans (Nat.le_of_lt small) signBit_le_maxSignificand
    refine ⟨.unsigned n, read?_digits room ends, ?_⟩
    rw [int64?, if_pos small, ← whole]
    rfl
  | negSucc n =>
    rw [size] at least whole
    have small : n + 1 ≤ signBit := by
      unfold signBit
      omega
    refine ⟨.negative (n + 1), read?_minus_digits n.succ_pos small ends, ?_⟩
    rw [int64?, ← whole]
    rfl

end Number

theorem readInteger_ofInt (i : Int64) (ends : EndsInteger rest) :
    readInteger (Decimal.ofInt i.toInt ++ rest) = .ok (i, rest) := by
  obtain ⟨n, read, fits⟩ := Number.read?_ofInt i ends
  unfold readInteger
  rw [read]
  simp only [orMalformed, Except.bind, bind, fits]
  rfl

/-- A decimal is not empty, and it starts as numbers do. -/
theorem exists_ofInt (i : Int) :
    ∃ c cs, Decimal.ofInt i = c :: cs ∧ startsNumber c = true := by
  cases i with
  | ofNat n =>
    obtain ⟨c, cs, shape, digit⟩ := Decimal.exists_digits n
    exact ⟨c, cs, shape, by simp [startsNumber, digit]⟩
  | negSucc n => exact ⟨'-', Decimal.digits (n + 1), rfl, rfl⟩

end Json

end BoundedMap
