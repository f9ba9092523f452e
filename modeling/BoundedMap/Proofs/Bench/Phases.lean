import Mathlib.Data.Finset.Card
import Mathlib.Data.List.Nodup
import BoundedMap.Bench.Workload
/-!
# What a workload does to a set of values

Every phase of a workload is a loop over the data, and binds each value to itself or to nothing. Of
a container that keeps its promises (`Faithful`) it is therefore enough to know which values it
holds. Adding all values leaves those of the data, churning leaves the same ones, and the last
phase runs to the end unless a value comes for the second time (`runWithChurn_ends`, `run_ends`).
Whatever the values, there is never a need for more entries than there are data.
-/

namespace BoundedMap.Bench

variable {σ : Type} {c : Subject σ} {capacity : Nat} {Holds : σ → Finset Int64 → Prop} {s : σ}
  {vs : Finset Int64} {data seen : List Int64} {i j : Nat}

/-- A container that holds sets of at most `capacity` values, each bound to itself. -/
structure Subject.Faithful (c : Subject σ) (capacity : Nat) (Holds : σ → Finset Int64 → Prop) :
    Prop where
  empty : ∃ s, c.empty capacity = .ok s ∧ Holds s ∅
  insert : ∀ {s vs}, Holds s vs → ∀ k, (Insert.insert k vs).card ≤ capacity →
    ∃ t, c.insert k k s = .ok t ∧ Holds t (Insert.insert k vs)
  contains : ∀ {s vs}, Holds s vs → ∀ k, c.contains k s = .ok (decide (k ∈ vs))
  remove : ∀ {s vs}, Holds s vs → ∀ k,
    ∃ t, c.remove k s = .ok (decide (k ∈ vs), t) ∧ Holds t (vs.erase k)

/-! ## The first value that comes again -/

/-- At this position stands the first value that has come before. -/
structure FirstRepeat (data : List Int64) (i : Nat) : Prop where
  again : ∃ k, data[i]? = some k ∧ k ∈ data.take i
  nodup : (data.take i).Nodup

theorem FirstRepeat.not_nodup (repeats : FirstRepeat data i) (later : i < j) :
    ¬ (data.take j).Nodup := by
  intro nodup
  obtain ⟨k, here, before⟩ := repeats.again
  have within : (data.take (i + 1)).Nodup :=
    nodup.sublist (List.take_sublist_take_left later)
  rw [List.take_add_one, here, Option.toList_some, List.nodup_append] at within
  exact within.2.2 k before k List.mem_cons_self rfl

theorem FirstRepeat.unique (repeats : FirstRepeat data i) (repeats' : FirstRepeat data j) :
    i = j := by
  rcases Nat.lt_trichotomy i j with earlier | same | later
  · exact absurd repeats'.nodup (repeats.not_nodup earlier)
  · exact same
  · exact absurd repeats.nodup (repeats'.not_nodup later)

theorem FirstRepeat.not_nodup_data (repeats : FirstRepeat data i) : ¬ data.Nodup := by
  intro nodup
  have whole : data.take (data.length + i + 1) = data := List.take_of_length_le (by omega)
  exact repeats.not_nodup (j := data.length + i + 1) (by omega) (whole.symm ▸ nodup)

/-- How a workload ends: at the first value that comes again, or, if there is none, with the
container as it is `left`. -/
structure Ends (data : List Int64) (left : σ → Prop) (outcome : Except Stop σ) : Prop where
  ok_iff : (∃ s, outcome = .ok s) ↔ data.Nodup
  error_iff : ∀ why, outcome = .error why ↔ ∃ i, why = .notRemoved i ∧ FirstRepeat data i
  left : ∀ s, outcome = .ok s → left s

theorem Ends.mono {left left' : σ → Prop} {outcome : Except Stop σ} (ends : Ends data left outcome)
    (implied : ∀ s, left s → left' s) : Ends data left' outcome where
  ok_iff := ends.ok_iff
  error_iff := ends.error_iff
  left s done := implied s (ends.left s done)

/-! ## The phases -/

/-- There is room for as many different values as there are data. -/
theorem addAll_ends (faithful : c.Faithful capacity Holds) (holds : Holds s vs)
    (room : (vs ∪ data.toFinset).card ≤ capacity) :
    ∃ t, c.addAll data s = .ok t ∧ Holds t (vs ∪ data.toFinset) := by
  induction data generalizing s vs with
  | nil => exact ⟨s, rfl, by simpa using holds⟩
  | cons k rest ih =>
    have split : vs ∪ (k :: rest).toFinset = insert k vs ∪ rest.toFinset := by
      rw [List.toFinset_cons, Finset.union_insert, Finset.insert_union]
    rw [split] at room ⊢
    have first : (insert k vs).card ≤ capacity :=
      Nat.le_trans (Finset.card_le_card Finset.subset_union_left) room
    obtain ⟨t, inserted, holds'⟩ := faithful.insert holds k first
    rw [Subject.addAll, inserted]
    exact ih holds' room

theorem add_ends (faithful : c.Faithful data.length Holds) :
    ∃ t, c.add data = .ok t ∧ Holds t data.toFinset := by
  obtain ⟨s, made, holds⟩ := faithful.empty
  have room : (∅ ∪ data.toFinset).card ≤ data.length := by
    rw [Finset.empty_union]
    exact data.toFinset_card_le
  obtain ⟨t, added, holds'⟩ := addAll_ends faithful holds room
  rw [Finset.empty_union] at holds'
  refine ⟨t, ?_, holds'⟩
  rw [Subject.add, made]
  exact added

/-- Values that are held are found. -/
theorem find_ends (faithful : c.Faithful capacity Holds) (holds : Holds s vs)
    (held : ∀ k ∈ data, k ∈ vs) (position : Nat) : c.find s position data = .ok () := by
  induction data generalizing position with
  | nil => rfl
  | cons k rest ih =>
    have first : k ∈ vs := held k List.mem_cons_self
    rw [Subject.find, faithful.contains holds, decide_eq_true first]
    exact ih (fun x member => held x (List.mem_cons_of_mem k member)) (position + 1)

/-- Removing a value and binding it again leaves the same values. -/
theorem churn_ends (faithful : c.Faithful capacity Holds) (holds : Holds s vs)
    (held : ∀ k ∈ data, k ∈ vs) (room : vs.card ≤ capacity) :
    ∃ t, c.churn data s = .ok t ∧ Holds t vs := by
  induction data generalizing s with
  | nil => exact ⟨s, rfl, holds⟩
  | cons k rest ih =>
    have back : insert k (vs.erase k) = vs := Finset.insert_erase (held k List.mem_cons_self)
    obtain ⟨s', removed, holds'⟩ := faithful.remove holds k
    obtain ⟨t, inserted, holds''⟩ := faithful.insert holds' k (back.symm ▸ room)
    rw [back] at holds''
    rw [Subject.churn, removed]
    simp only [within, inserted]
    exact ih holds'' fun x member => held x (List.mem_cons_of_mem k member)

/-- The values that were seen are gone, so the phase ends where one of them comes again. -/
theorem removeAll_ends (faithful : c.Faithful capacity Holds) (nodup : seen.Nodup)
    (holds : Holds s (vs \ seen.toFinset)) (held : ∀ k ∈ data, k ∈ vs) :
    ((seen ++ data).Nodup ∧ ∃ t, c.removeAll seen.length data s = .ok t ∧
      Holds t (vs \ (seen ++ data).toFinset)) ∨
    ∃ i, FirstRepeat (seen ++ data) i ∧
      c.removeAll seen.length data s = .error (.notRemoved i) := by
  induction data generalizing s seen with
  | nil =>
    rw [List.append_nil]
    exact .inl ⟨nodup, s, rfl, holds⟩
  | cons k rest ih =>
    have present : k ∈ vs := held k List.mem_cons_self
    obtain ⟨t, removed, holds'⟩ := faithful.remove holds k
    rw [Subject.removeAll, removed]
    by_cases before : k ∈ seen
    · have gone : k ∉ vs \ seen.toFinset := by simp [before]
      refine .inr ⟨seen.length, ⟨⟨k, ?_, ?_⟩, ?_⟩, ?_⟩
      · simp
      · simpa using before
      · rw [List.take_left]
        exact nodup
      · rw [decide_eq_false gone]
        rfl
    · have there : k ∈ vs \ seen.toFinset := by simp [before, present]
      have nodup' : (seen ++ [k]).Nodup := by
        rw [← List.concat_eq_append]
        exact nodup.concat before
      have left : (vs \ seen.toFinset).erase k = vs \ (seen ++ [k]).toFinset := by
        ext x
        simp [and_left_comm]
      rw [left] at holds'
      have further := ih nodup' holds' fun x member => held x (List.mem_cons_of_mem k member)
      rw [List.append_assoc, List.length_append, List.length_singleton] at further
      rw [decide_eq_true there]
      exact further

theorem removeAll_verdict (faithful : c.Faithful capacity Holds) (holds : Holds s data.toFinset) :
    Ends data (Holds · ∅) (c.removeAll 0 data s) := by
  have none_seen : Holds s (data.toFinset \ ([] : List Int64).toFinset) := by
    rw [List.toFinset_nil, Finset.sdiff_empty]
    exact holds
  have held : ∀ k ∈ data, k ∈ data.toFinset := fun k member => List.mem_toFinset.2 member
  rcases removeAll_ends faithful .nil none_seen held with
    ⟨nodup, t, done, left⟩ | ⟨i, repeats, stopped⟩
  · rw [List.length_nil] at done
    rw [List.nil_append, Finset.sdiff_self] at left
    rw [done]
    refine ⟨iff_of_true ⟨t, rfl⟩ nodup, ?_, ?_⟩
    · intro why
      refine iff_of_false nofun ?_
      rintro ⟨i, -, repeats⟩
      exact repeats.not_nodup_data nodup
    · rintro _ ⟨⟩
      exact left
  · rw [List.length_nil] at stopped
    rw [List.nil_append] at repeats
    rw [stopped]
    refine ⟨iff_of_false nofun repeats.not_nodup_data, ?_, nofun⟩
    intro why
    constructor
    · rintro ⟨⟩
      exact ⟨i, rfl, repeats⟩
    · rintro ⟨j, rfl, repeats'⟩
      rw [repeats.unique repeats']

/-! ## Workloads -/

/-- Without churning. -/
theorem run_ends (faithful : c.Faithful data.length Holds) :
    ∃ s, c.add data = .ok s ∧ Holds s data.toFinset ∧ c.find s 0 data = .ok () ∧
      Ends data (Holds · ∅) (c.run data) := by
  obtain ⟨s, added, holds⟩ := add_ends faithful
  have found := find_ends faithful holds (fun k member => List.mem_toFinset.2 member) 0
  have same : c.run data = c.removeAll 0 data s := by
    rw [Subject.run, added]
    show (c.find s 0 data >>= fun _ => _) = _
    rw [found]
    rfl
  exact ⟨s, added, holds, found, same ▸ removeAll_verdict faithful holds⟩

/-- With churning, which needs no more room than there is. -/
theorem runWithChurn_ends (faithful : c.Faithful data.length Holds) :
    ∃ s t, c.add data = .ok s ∧ Holds s data.toFinset ∧ c.find s 0 data = .ok () ∧
      c.churn data s = .ok t ∧ Holds t data.toFinset ∧
      Ends data (Holds · ∅) (c.runWithChurn data) := by
  obtain ⟨s, added, holds⟩ := add_ends faithful
  have held : ∀ k ∈ data, k ∈ data.toFinset := fun k member => List.mem_toFinset.2 member
  have found := find_ends faithful holds held 0
  obtain ⟨t, churned, holds'⟩ := churn_ends faithful holds held data.toFinset_card_le
  have same : c.runWithChurn data = c.removeAll 0 data t := by
    rw [Subject.runWithChurn, added]
    show (c.find s 0 data >>= fun _ => c.churn data s >>= fun t => c.removeAll 0 data t) = _
    rw [found, churned]
    rfl
  exact ⟨s, t, added, holds, found, churned, holds', same ▸ removeAll_verdict faithful holds'⟩

end BoundedMap.Bench
