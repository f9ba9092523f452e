import BoundedMap.Proofs.Chart.Reachable
/-!
# Refused insertions

An insertion into a reachable map fails when the map is full and the key is not bound, and
for no other reason. The map that it leaves is the same one, to the last slot, so a run
goes on from it as if the insertion had not been asked for (`exhausted_of_reachable`).
-/

namespace BoundedMap.Map

variable {α β : Type} {m n : Map α β} {a : Chart α β} {less : α → α → Bool}
  {steps fewer : List (Request α β × Answer α β)}

/-- Of two transcripts of a run, the second is the first without some of the insertions
that were refused in it. -/
inductive Omits : List (Request α β × Answer α β) → List (Request α β × Answer α β) → Prop
  | nil : Omits [] []
  | keep {step : Request α β × Answer α β} {steps fewer : List (Request α β × Answer α β)} :
    Omits steps fewer → Omits (step :: steps) (step :: fewer)
  | leave {key : α} {value : β} {why : Refusal}
    {steps fewer : List (Request α β × Answer α β)} :
    Omits steps fewer → Omits ((.insert key value, .refused why) :: steps) fewer

/-- Refused insertions may be left out of a run: the other answers and the map at the end
stay as they are. -/
theorem run_of_omits (follows : m.Follows a) (omits : Omits steps fewer)
    (ran : run (steps.map (·.1)) m = .ok (steps.map (·.2)) n) :
    run (fewer.map (·.1)) m = .ok (fewer.map (·.2)) n := by
  induction omits generalizing m a with
  | nil => exact ran
  | @keep step steps fewer _ ih =>
    rw [List.map_cons, List.map_cons, run_cons_iff] at ran ⊢
    obtain ⟨k, answered, ended⟩ := ran
    obtain ⟨k', answered', follows'⟩ := perform_run follows step.1
    obtain ⟨-, rfl⟩ := EStateM.Result.ok.inj (answered.symm.trans answered')
    exact ⟨k, answered, ih follows' ended⟩
  | leave _ ih =>
    rw [List.map_cons, List.map_cons, run_cons_iff] at ran
    obtain ⟨k, answered, ended⟩ := ran
    have failed := settling_eq_refused (by intro x; simp) answered
    obtain ⟨-, rfl, -⟩ := insert_failed follows failed
    exact ih follows ended

/-- An insertion into a reachable map fails exactly when the map is full and the key is not
bound. It answers the capacity and leaves the map as it was, slot by slot. Hence no run
shows, in its other answers or in the map that it leads to, whether refused insertions
were among its requests; and as a run may end anywhere, neither do the maps on its way. -/
theorem exhausted_of_reachable (reachable : Reachable less m) :
    (∀ key value, (∃ e n, insert key value m = .error e n) ↔
        m.len = m.capacity ∧ m.get? key = .ok none) ∧
      (∀ key value e n, insert key value m = .error e n →
        e = .refused (.exhausted m.capacity) ∧ n = m) ∧
      ∀ steps fewer n, Omits steps fewer → run (steps.map (·.1)) m = .ok (steps.map (·.2)) n →
        run (fewer.map (·.1)) m = .ok (fewer.map (·.2)) n := by
  obtain ⟨a, follows, -⟩ := reachable.follows
  have full : a.free = [] ↔ m.len = m.capacity := by
    have capacity : m.capacity = a.capacity := follows.capacity
    rw [follows.valid.free_eq_nil_iff, follows.len, capacity]
  have bound : ∀ key, a.tree.find? a.less key = none ↔ m.get? key = .ok none := by
    intro key
    rw [get?_run follows, Except.ok.injEq, Option.map_eq_none_iff]
  refine ⟨?_, ?_, ?_⟩
  · intro key value
    rw [← full, ← bound]
    constructor
    · rintro ⟨e, n, failed⟩
      obtain ⟨-, -, absent, empty⟩ := insert_failed follows failed
      exact ⟨empty, absent⟩
    · rintro ⟨empty, absent⟩
      exact ⟨_, m, insert_of_refused follows (Chart.insert_of_full absent empty value)⟩
  · intro key value e n failed
    obtain ⟨why, same, -⟩ := insert_failed follows failed
    exact ⟨why, same⟩
  · intro steps fewer n omits ran
    exact run_of_omits follows omits ran

/-- A full map refuses two new keys, before and after a removal and an insertion that take
effect. The run without the two refused requests ends in the same map. -/
theorem exhausted_in_between :
    ∃ m n : Map Nat Nat,
      perform (.insertMany [(2, 20), (1, 10)]) (ofPool Order.ascending (.fresh 2)) =
        .ok .done m ∧
      Reachable Order.ascending m ∧
      insert 7 70 m = .error (.refused (.exhausted 2)) m ∧
      run [.insert 7 70, .insert 1 11, .removeEntry 2, .insert 5 50, .insert 8 80, .entries] m =
        .ok [.refused (.exhausted 2), .value (some 10), .entry (some (2, 20)), .value none,
          .refused (.exhausted 2), .entries [(1, 11), (5, 50)]] n ∧
      run [.insert 1 11, .removeEntry 2, .insert 5 50, .entries] m =
        .ok [.value (some 10), .entry (some (2, 20)), .value none,
          .entries [(1, 11), (5, 50)]] n := by
  obtain ⟨m, done, reachable, follows⟩ := perform_ofPool (β := Nat)
    (Order.ascending : Nat → Nat → Bool) (show 2 ≤ maxCapacity by decide)
    (.insertMany [(2, 20), (1, 10)])
  obtain ⟨n, ran, -⟩ := run_run follows
    [.insert 7 70, .insert 1 11, .removeEntry 2, .insert 5 50, .insert 8 80, .entries]
  obtain ⟨fails, atomic, omitted⟩ := exhausted_of_reachable reachable
  have capacity : m.capacity = 2 := follows.capacity
  obtain ⟨e, k, failed⟩ := (fails 7 70).2
    ⟨follows.len.trans follows.capacity.symm, get?_run follows 7⟩
  obtain ⟨rfl, rfl⟩ := atomic 7 70 e k failed
  rw [capacity] at failed
  refine ⟨k, n, done, reachable, failed, ran, ?_⟩
  exact omitted
    [(.insert 7 70, .refused (.exhausted 2)), (.insert 1 11, .value (some 10)),
      (.removeEntry 2, .entry (some (2, 20))), (.insert 5 50, .value none),
      (.insert 8 80, .refused (.exhausted 2)), (.entries, .entries [(1, 11), (5, 50)])]
    [(.insert 1 11, .value (some 10)), (.removeEntry 2, .entry (some (2, 20))),
      (.insert 5 50, .value none), (.entries, .entries [(1, 11), (5, 50)])]
    n (.leave (.keep (.keep (.keep (.leave (.keep .nil)))))) ran

end BoundedMap.Map
