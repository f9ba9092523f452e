import Mathlib.Data.Finset.Card
import Mathlib.Order.Interval.Finset.Nat
import Std.Data.HashSet.Lemmas
import BoundedMap.Bench.Session
/-!
# Drawing until there is enough

A party draws while it has too few values, so it never has more than it needs, and what it has are
draws of its own (`Advances`). `fill` does nothing else: it comes to what a party comes to that
advances as far as it can, from some limit on (`Advances.fill`, `advances_of_fill`), and there is
such a limit if the draws hold enough values (`fill_ends`).
-/

namespace BoundedMap.Bench

variable {size limit next : Nat} {draw : Draws} {seen chunk : Std.HashSet Int64} {v : Int64}
  {p q : Party}

/-! ## Sets of values -/

theorem nodup_toList (seen : Std.HashSet Int64) : seen.toList.Nodup := by
  refine seen.distinct_toList.imp fun differ => ?_
  exact ne_of_beq_false differ

theorem mem_absorb : v ∈ absorb seen chunk ↔ v ∈ seen ∨ v ∈ chunk := by
  rw [absorb, Std.HashSet.fold_eq_foldl_toList, ← Std.HashSet.mem_toList (m := chunk)]
  generalize chunk.toList = values
  induction values generalizing seen with
  | nil => simp
  | cons k rest ih =>
    rw [List.foldl_cons, ih, Std.HashSet.mem_insert, beq_iff_eq, List.mem_cons]
    rw [eq_comm (a := k), or_assoc, or_left_comm]

/-- The values of a share are merged one by one, so none of them counts twice. -/
theorem size_absorb_le : (absorb seen chunk).size ≤ seen.size + chunk.size := by
  rw [absorb, Std.HashSet.fold_eq_foldl_toList, ← Std.HashSet.length_toList (m := chunk)]
  generalize chunk.toList = values
  induction values generalizing seen with
  | nil => simp
  | cons k rest ih =>
    have first : (seen.insert k).size ≤ seen.size + 1 := Std.HashSet.size_insert_le
    have later : (rest.foldl (·.insert ·) (seen.insert k)).size ≤
        (seen.insert k).size + rest.length := ih
    rw [List.foldl_cons, List.length_cons]
    omega

theorem mem_foldl_absorb {chunks : List (Std.HashSet Int64)} :
    v ∈ chunks.foldl absorb seen ↔ v ∈ seen ∨ ∃ c ∈ chunks, v ∈ c := by
  induction chunks generalizing seen with
  | nil => simp
  | cons c rest ih => rw [List.foldl_cons, ih, mem_absorb, List.exists_mem_cons_iff, or_assoc]

theorem size_foldl_absorb_le {chunks : List (Std.HashSet Int64)}
    (small : ∀ c ∈ chunks, c.size ≤ size) :
    (chunks.foldl absorb seen).size ≤ seen.size + size * chunks.length := by
  induction chunks generalizing seen with
  | nil => simp
  | cons c rest ih =>
    have first : (absorb seen c).size ≤ seen.size + c.size := size_absorb_le
    have here : c.size ≤ size := small c List.mem_cons_self
    have later : (rest.foldl absorb (absorb seen c)).size ≤
        (absorb seen c).size + size * rest.length :=
      ih fun d member => small d (List.mem_cons_of_mem c member)
    rw [List.foldl_cons, List.length_cons, Nat.mul_succ]
    omega

/-! ## Parties that advance -/

/-- A party comes to another state by draws, each of which it made while it had too few values. -/
inductive Party.Advances (size : Nat) (p : Party) : Party → Prop
  | refl : Advances size p p
  | draw {q : Party} : Advances size p q → q.seen.size < size → Advances size p q.draw

theorem fill_of_full (full : size ≤ seen.size) :
    fill draw size limit next seen = some (seen, next) := by
  cases limit <;> simp [fill, full]

theorem fill_of_short (short : seen.size < size) : fill draw size (limit + 1) next seen =
    fill draw size limit (next + 1) (seen.insert (draw next)) := by
  rw [fill, if_neg (Nat.not_le_of_lt short)]

namespace Party.Advances

theorem head (short : p.seen.size < size) (advances : p.draw.Advances size q) :
    p.Advances size q := by
  induction advances with
  | refl => exact .draw .refl short
  | draw _ shorter ih => exact .draw ih shorter

theorem draws_eq (advances : p.Advances size q) : q.draws = p.draws := by
  induction advances with
  | refl => rfl
  | draw _ _ ih => exact ih

/-- Nobody draws more than is asked for. -/
theorem size_le (advances : p.Advances size q) (small : p.seen.size ≤ size) :
    q.seen.size ≤ size := by
  induction advances with
  | refl => exact small
  | draw _ short _ => exact Nat.le_trans Std.HashSet.size_insert_le short

theorem mem (advances : p.Advances size q) (member : v ∈ q.seen) :
    v ∈ p.seen ∨ ∃ i, p.draws i = v := by
  induction advances with
  | refl => exact .inl member
  | @draw q advances _ ih =>
    rw [Party.draw, Std.HashSet.mem_insert, beq_iff_eq] at member
    rcases member with drawn | before
    · exact .inr ⟨q.next, by rw [← advances.draws_eq, drawn]⟩
    · exact ih before

/-- A party keeps what it draws. -/
theorem drawn (advances : p.Advances size q) {i : Nat} (from_here : p.next ≤ i)
    (before : i < q.next) : p.draws i ∈ q.seen := by
  induction advances with
  | refl => exact absurd before (Nat.not_lt_of_le from_here)
  | @draw q advances _ ih =>
    rw [Party.draw, Std.HashSet.mem_insert, beq_iff_eq, advances.draws_eq]
    by_cases last : i = q.next
    · exact .inl (by rw [last])
    · exact .inr (ih (Nat.lt_of_le_of_ne (Nat.le_of_lt_succ before) last))

/-- What is left to fill is the same, but for the draws that were made. -/
theorem fill (advances : p.Advances size q) : ∃ k, ∀ limit,
    Bench.fill p.draws size (k + limit) p.next p.seen =
      Bench.fill p.draws size limit q.next q.seen := by
  induction advances with
  | refl => exact ⟨0, fun limit => by rw [Nat.zero_add]⟩
  | @draw q advances short ih =>
    obtain ⟨k, same⟩ := ih
    refine ⟨k + 1, fun limit => ?_⟩
    rw [Nat.add_assoc, Nat.add_comm 1, same, fill_of_short short]
    simp only [Party.draw, advances.draws_eq]

end Party.Advances

/-- A party that has its share, by draws of its own. -/
structure Party.Full (size : Nat) (p : Party) : Prop where
  advances : (fresh p.draws).Advances size p
  full : size ≤ p.seen.size

namespace Party.Full

theorem size_eq (full : p.Full size) : p.seen.size = size := by
  have most := full.advances.size_le (Nat.zero_le size)
  exact Nat.le_antisymm most full.full

/-- From some limit on, a party that is filled comes to its share. -/
theorem fill (full : p.Full size) : ∃ k, ∀ limit, k ≤ limit →
    Bench.fill p.draws size limit 0 ∅ = some (p.seen, p.next) := by
  obtain ⟨k, same⟩ := full.advances.fill
  refine ⟨k, fun limit enough => ?_⟩
  obtain ⟨rest, rfl⟩ := Nat.exists_eq_add_of_le enough
  exact (same rest).trans (fill_of_full full.full)

end Party.Full

/-- What is filled is what a party comes to. -/
theorem advances_of_fill {n : Nat}
    (filled : fill p.draws size limit p.next p.seen = some (chunk, n)) :
    ∃ q, p.Advances size q ∧ q.seen = chunk ∧ q.next = n ∧ size ≤ q.seen.size := by
  induction limit generalizing p with
  | zero =>
    by_cases full : size ≤ p.seen.size
    · rw [fill_of_full full] at filled
      cases filled
      exact ⟨p, .refl, rfl, rfl, full⟩
    · rw [fill, if_neg full] at filled
      cases filled
  | succ limit ih =>
    by_cases full : size ≤ p.seen.size
    · rw [fill_of_full full] at filled
      cases filled
      exact ⟨p, .refl, rfl, rfl, full⟩
    · have short : p.seen.size < size := Nat.lt_of_not_le full
      rw [fill_of_short short] at filled
      obtain ⟨q, advances, rest⟩ := ih (p := p.draw) filled
      exact ⟨q, advances.head short, rest⟩

theorem full_of_fill {n : Nat} (filled : fill draw size limit 0 ∅ = some (chunk, n)) :
    ∃ q : Party, q.Full size ∧ q.draws = draw ∧ q.seen = chunk ∧ q.next = n := by
  obtain ⟨q, advances, same, count, full⟩ := advances_of_fill (p := .fresh draw) filled
  have draws : q.draws = draw := advances.draws_eq
  exact ⟨q, ⟨draws.symm ▸ advances, full⟩, draws, same, count⟩

/-- Drawing ends if the next draws, together with what there is, hold as many values as are asked
for. -/
theorem fill_ends (enough : size ≤
      (seen.toList.toFinset ∪ (Finset.Ico next (next + limit)).image draw).card) :
    ∃ result, fill draw size limit next seen = some result := by
  induction limit generalizing next seen with
  | zero =>
    have nothing : Finset.Ico next (next + 0) = ∅ := Finset.Ico_self next
    rw [nothing, Finset.image_empty, Finset.union_empty,
      List.toFinset_card_of_nodup (nodup_toList seen), Std.HashSet.length_toList] at enough
    exact ⟨_, fill_of_full enough⟩
  | succ limit ih =>
    by_cases full : size ≤ seen.size
    · exact ⟨_, fill_of_full full⟩
    · rw [fill_of_short (Nat.lt_of_not_le full)]
      apply ih
      refine Nat.le_trans enough (Finset.card_le_card ?_)
      intro w member
      simp only [Finset.mem_union, List.mem_toFinset, Std.HashSet.mem_toList, Finset.mem_image,
        Finset.mem_Ico, Std.HashSet.mem_insert, beq_iff_eq] at member ⊢
      rcases member with before | ⟨i, ⟨low, high⟩, drawn⟩
      · exact .inl (.inr before)
      · by_cases first : i = next
        · exact .inl (.inl (first ▸ drawn))
        · exact .inr ⟨i, ⟨by omega, by omega⟩, drawn⟩

end BoundedMap.Bench
