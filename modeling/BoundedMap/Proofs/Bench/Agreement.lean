import BoundedMap.Proofs.Bench.Phases
import BoundedMap.Proofs.Chart.Reachable
import BoundedMap.Proofs.Model.Counting
import Std.Data.TreeMap.Lemmas
/-!
# The two workloads agree

A map of fixed capacity and an ordered map that grows both hold sets of values, as the workloads
use them. They therefore end alike on all data, although the first of them goes through one more
phase and has a slot for each of the data and none to spare (`workloads_agree`).
-/

namespace BoundedMap.Bench

variable {s t : SortedList Int64 Int64} {vs : Finset Int64} {data : List Int64} {capacity : Nat}

/-! ## Maps of fixed capacity -/

theorem same_ascending_iff {a b : Int64} :
    SortedList.same Order.ascending a b = true ↔ a = b := by
  constructor
  · intro here
    simp only [SortedList.same, Order.ascending, Bool.and_eq_true, Bool.not_eq_true',
      decide_eq_false_iff_not, Int64.not_lt] at here
    exact Int64.le_antisymm here.2 here.1
  · rintro rfl
    exact SortedList.same_self Order.strictWeak_ascending a

/-- The keys of a list are the values of a set, and each is bound to itself. -/
structure Mirrors (s : SortedList Int64 Int64) (vs : Finset Int64) : Prop where
  less : s.less = Order.ascending
  ascending : s.Ascending
  find? : ∀ k, s.find? k = if k ∈ vs then some (k, k) else none

namespace Mirrors

theorem order (mirrors : Mirrors s vs) : StrictWeak s.less := by
  rw [mirrors.less]
  exact Order.strictWeak_ascending

theorem same_iff (mirrors : Mirrors s vs) {a b : Int64} :
    SortedList.same s.less a b = true ↔ a = b := by
  rw [mirrors.less, same_ascending_iff]

/-- There is one entry for each value. -/
theorem length_entries (mirrors : Mirrors s vs) : s.entries.length = vs.card := by
  have nodup : (s.entries.map (·.1)).Nodup := by
    rw [List.Nodup, List.pairwise_map]
    refine mirrors.ascending.imp ?_
    intro d e below same
    rw [same, mirrors.order.irrefl] at below
    cases below
  have keys : (s.entries.map (·.1)).toFinset = vs := by
    ext k
    rw [List.mem_toFinset, List.mem_map]
    constructor
    · rintro ⟨e, member, rfl⟩
      have found : s.find? e.1 = some e :=
        (SortedList.find?_eq_some_iff mirrors.order mirrors.ascending).2
          ⟨member, mirrors.same_iff.2 rfl⟩
      rw [mirrors.find?] at found
      by_contra absent
      rw [if_neg absent] at found
      cases found
    · intro member
      have found := mirrors.find? k
      rw [if_pos member] at found
      exact ⟨(k, k), List.mem_of_find?_eq_some found, rfl⟩
  rw [← keys, List.toFinset_card_of_nodup nodup, List.length_map]

/-- Binding a value to itself adds it to the set. -/
theorem bind (mirrors : Mirrors s vs) {k : Int64}
    (updated : SortedList.Updated (.insert k k) s t) : Mirrors t (insert k vs) where
  less := updated.less.trans mirrors.less
  ascending := updated.ascending
  find? := by
    intro probe
    rw [updated.find?, Update.key, mirrors.find?, mirrors.find?, Update.result]
    by_cases here : probe = k
    · rw [if_pos (mirrors.same_iff.2 here), here, if_pos (Finset.mem_insert_self k vs)]
      split <;> rfl
    · rw [if_neg (mirrors.same_iff.not.2 here)]
      simp [here]

/-- Unbinding a value takes it out of the set. -/
theorem erase (mirrors : Mirrors s vs) {k : Int64}
    (updated : SortedList.Updated (.remove k) s t) : Mirrors t (vs.erase k) where
  less := updated.less.trans mirrors.less
  ascending := updated.ascending
  find? := by
    intro probe
    rw [updated.find?, Update.key, mirrors.find?, mirrors.find?, Update.result]
    by_cases here : probe = k
    · rw [if_pos (mirrors.same_iff.2 here), here, if_neg (Finset.notMem_erase k vs)]
    · rw [if_neg (mirrors.same_iff.not.2 here)]
      simp [here]

/-- The room that a value takes is that of the set with it. -/
theorem load_eq (mirrors : Mirrors s vs) (k : Int64) :
    SortedList.load s.less s.entries [(k, k)] = (insert k vs).card := by
  rw [SortedList.load_one mirrors.order mirrors.ascending, mirrors.find?, mirrors.length_entries]
  by_cases present : k ∈ vs
  · simp [present]
  · simp [present]

/-- Lists with the same set have the same entries. -/
theorem entries_eq (mirrors : Mirrors s vs) (mirrors' : Mirrors t vs) : s.entries = t.entries := by
  refine SortedList.eq_of_find? mirrors.order (mirrors'.less.trans mirrors.less.symm)
    mirrors.ascending mirrors'.ascending ?_
  intro probe
  rw [mirrors.find?, mirrors'.find?]

end Mirrors

section Pooled

variable {m n : Map Int64 Int64} {key value : Int64} {old : Option Int64} {b : Bool}

theorem pooled_empty (small : capacity ≤ maxCapacity) :
    pooled.empty capacity = .ok (.ofPool Order.ascending (.fresh capacity)) := by
  simp only [pooled, Map.withCapacity_eq _ small]

theorem pooled_insert (done : Map.insert key value m = .ok old n) :
    pooled.insert key value m = .ok n := by
  simp only [pooled, stepping, done]
  rfl

theorem pooled_contains (found : m.contains key = .ok b) : pooled.contains key m = .ok b := by
  simp only [pooled, found]

theorem pooled_remove (done : Map.remove key m = .ok old n) :
    pooled.remove key m = .ok (old.isSome, n) := by
  simp only [pooled, stepping, done]
  rfl

/-- A map that holds a set of values, each bound to itself. -/
def Holding (capacity : Nat) (m : Map Int64 Int64) (vs : Finset Int64) : Prop :=
  ∃ a, m.Follows a ∧ a.Sorted ∧ a.capacity = capacity ∧ Mirrors a.list vs

theorem holding_empty (small : capacity ≤ maxCapacity) :
    Holding capacity (.ofPool Order.ascending (.fresh capacity)) ∅ := by
  refine ⟨_, Map.follows_ofPool Order.ascending small,
    Chart.sorted_empty Order.strictWeak_ascending capacity, rfl, rfl, .nil, ?_⟩
  intro k
  rw [if_neg (Finset.notMem_empty k)]
  rfl

/-- Maps of fixed capacity keep their promises up to that capacity. -/
theorem pooled_faithful (small : capacity ≤ maxCapacity) :
    pooled.Faithful capacity (Holding capacity) where
  empty := ⟨_, pooled_empty small, holding_empty small⟩
  insert := by
    rintro m vs ⟨a, follows, sorted, fixed, mirrors⟩ k room
    rw [← fixed, ← mirrors.load_eq] at room
    obtain ⟨old, bound, -⟩ := SortedList.insert_of_room mirrors.order
      (Chart.list_valid follows.valid sorted) (k, k) room
    have modelled := Chart.list_insert follows.valid sorted k k
    rw [bound] at modelled
    have ran := Map.insert_run follows k k
    have sorted' := Chart.sorted_insert sorted k k
    cases outcome : a.insert k k with
    | mk result b =>
      rw [outcome] at modelled ran sorted'
      obtain ⟨rfl, list⟩ := Prod.mk.inj modelled
      obtain ⟨n, done, follows'⟩ := ran
      have updated : SortedList.Updated (.insert k k) a.list (a.list.bound [(k, k)]) :=
        SortedList.updated_bind mirrors.order mirrors.ascending k k
      rw [list] at updated
      exact ⟨n, pooled_insert done, b, follows', sorted', updated.capacity.trans fixed,
        mirrors.bind updated⟩
  contains := by
    rintro m vs ⟨a, follows, sorted, -, mirrors⟩ k
    have found := Chart.list_find? sorted k
    rw [mirrors.find?] at found
    refine pooled_contains ((Map.contains_run follows k).trans ?_)
    rw [← Option.isSome_map (f := Cell.entry), ← found]
    by_cases present : k ∈ vs <;> simp [present]
  remove := by
    rintro m vs ⟨a, follows, sorted, fixed, mirrors⟩ k
    obtain ⟨n, done, follows'⟩ := Map.remove_run follows k
    obtain ⟨answered, list⟩ := Chart.list_removeEntry sorted k
    rw [answered, mirrors.find?] at done
    have updated : SortedList.Updated (.remove k) a.list (a.list.erase k) :=
      SortedList.updated_erase mirrors.order mirrors.ascending fun _ => rfl
    rw [← list] at updated
    refine ⟨n, (pooled_remove done).trans ?_, _, follows', Chart.sorted_removeEntry sorted k,
      updated.capacity.trans fixed, mirrors.erase updated⟩
    by_cases present : k ∈ vs <;> simp [present]

/-- Maps that hold the same values have the same entries. -/
theorem exists_entries {vs : Finset Int64} (holds : Holding capacity m vs)
    (holds' : Holding capacity n vs) : ∃ es, m.entries = .ok es ∧ n.entries = .ok es := by
  obtain ⟨a, follows, -, -, mirrors⟩ := holds
  obtain ⟨b, follows', -, -, mirrors'⟩ := holds'
  refine ⟨a.tree.entries, Map.entries_run follows, ?_⟩
  rw [Map.entries_run follows']
  exact congrArg _ (mirrors'.entries_eq mirrors)

theorem entries_of_holding_none (holds : Holding capacity m ∅) :
    m.entries = .ok [] ∧ m.len = 0 := by
  obtain ⟨a, follows, -, -, mirrors⟩ := holds
  have none : a.tree.entries = [] := List.eq_nil_of_length_eq_zero mirrors.length_entries
  rw [Map.entries_run follows, follows.len_entries, none]
  exact ⟨rfl, rfl⟩

end Pooled

/-! ## Ordered maps that grow -/

/-- An ordered map of which a set of values are the keys. -/
def Keyed (t : Std.TreeMap Int64 Int64) (vs : Finset Int64) : Prop :=
  ∀ k, t.contains k = decide (k ∈ vs)

/-- Ordered maps keep their promises at every size. -/
theorem sorted_faithful (capacity : Nat) : sorted.Faithful capacity Keyed where
  empty := by
    refine ⟨∅, rfl, ?_⟩
    intro k
    simp
  insert := by
    intro t vs keyed k _
    refine ⟨t.insert k k, rfl, ?_⟩
    intro probe
    rw [Std.TreeMap.contains_insert, keyed]
    by_cases here : probe = k
    · simp [here]
    · simp [here, Ne.symm here]
  contains := by
    intro t vs keyed k
    exact congrArg _ (keyed k)
  remove := by
    intro t vs keyed k
    refine ⟨t.erase k, ?_, ?_⟩
    · show Except.ok (t.contains k, t.erase k) = _
      rw [keyed]
    · intro probe
      rw [Std.TreeMap.contains_erase, keyed]
      by_cases here : probe = k
      · simp [here]
      · simp [here, Ne.symm here]

theorem isEmpty_of_keyed_none {t : Std.TreeMap Int64 Int64} (keyed : Keyed t ∅) :
    t.isEmpty = true := by
  rw [Std.TreeMap.isEmpty_iff_forall_contains]
  intro k
  rw [keyed, decide_eq_false (Finset.notMem_empty k)]

/-! ## Both workloads -/

/-- On all data for which there are handles, a map with one slot for each of the data takes part in
a workload without being refused anything, every value is found, and churning leaves the entries
as they are. The workload ends with an empty map if no value comes twice, and otherwise at the
first value that comes again. An ordered map that grows ends likewise, with the same reason on the
same data. -/
theorem workloads_agree (small : data.length ≤ maxCapacity) :
    (∃ m n es, pooled.add data = .ok m ∧ m.capacity = data.length ∧
      pooled.find m 0 data = .ok () ∧ pooled.churn data m = .ok n ∧
      m.entries = .ok es ∧ n.entries = .ok es) ∧
    (∃ t, sorted.add data = .ok t ∧ sorted.find t 0 data = .ok ()) ∧
    Ends data (fun m => m.entries = .ok [] ∧ m.len = 0) (pooled.runWithChurn data) ∧
    Ends data (fun t => t.isEmpty = true) (sorted.run data) ∧
    ∀ why, pooled.runWithChurn data = .error why ↔ sorted.run data = .error why := by
  obtain ⟨m, n, added, holds, found, churned, holds', ends⟩ :=
    runWithChurn_ends (pooled_faithful small)
  obtain ⟨t, added', -, found', ends'⟩ := run_ends (sorted_faithful data.length)
  obtain ⟨es, listed, listed'⟩ := exists_entries holds holds'
  refine ⟨⟨m, n, es, added, ?_, found, churned, listed, listed'⟩, ⟨t, added', found'⟩, ?_, ?_, ?_⟩
  · obtain ⟨a, follows, -, fixed, -⟩ := holds
    exact follows.capacity.trans fixed
  · exact ends.mono fun k left => entries_of_holding_none left
  · exact ends'.mono fun k left => isEmpty_of_keyed_none left
  · intro why
    rw [ends.error_iff, ends'.error_iff]

/-- Both workloads stop at the third of four values, which is the first one again, and both run to
the end of three values that differ. -/
theorem workloads_agree_on_repeated :
    [5, -3, 5, 7].length ≤ maxCapacity ∧ FirstRepeat [5, -3, 5, 7] 2 ∧
    pooled.runWithChurn [5, -3, 5, 7] = .error (.notRemoved 2) ∧
    sorted.run [5, -3, 5, 7] = .error (.notRemoved 2) ∧
    (∃ m, pooled.runWithChurn [5, -3, 7] = .ok m ∧ m.entries = .ok []) ∧
    ∃ t, sorted.run [5, -3, 7] = .ok t ∧ t.isEmpty = true := by
  have repeats : FirstRepeat [5, -3, 5, 7] 2 := ⟨⟨5, rfl, by decide⟩, by decide⟩
  have small : ([5, -3, 5, 7] : List Int64).length ≤ maxCapacity := by decide
  have small' : ([5, -3, 7] : List Int64).length ≤ maxCapacity := by decide
  obtain ⟨-, -, ends, ends', -⟩ := workloads_agree small
  obtain ⟨-, -, done, done', -⟩ := workloads_agree small'
  obtain ⟨m, ran⟩ := done.ok_iff.2 (by decide)
  obtain ⟨t, ran'⟩ := done'.ok_iff.2 (by decide)
  exact ⟨small, repeats, (ends.error_iff _).2 ⟨2, rfl, repeats⟩,
    (ends'.error_iff _).2 ⟨2, rfl, repeats⟩, ⟨m, ran, (done.left m ran).1⟩,
    t, ran', done'.left t ran'⟩

end BoundedMap.Bench
