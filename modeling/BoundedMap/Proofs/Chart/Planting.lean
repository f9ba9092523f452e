import BoundedMap.Proofs.Chart.Basic
import BoundedMap.Proofs.Tree.Planting
/-!
# New keys in a row

Keys that match neither a stored key nor each other are inserted into the free slots in the order
in which the chart lists them (`run_plant`), whatever the predicate. When no slot is left, the keys
that remain are refused, and the chart stays as it is (`run_refused`). Together this says what
happens to an empty chart (`run_fill`).
-/

namespace BoundedMap

namespace Request

variable {α β : Type}

/-- The requests to bind pairs one after another. -/
def inserts (pairs : List (α × β)) : List (Request α β) :=
  pairs.map fun e => insert e.1 e.2

end Request

namespace Chart

open Request (inserts)

variable {α β : Type} {a b : Chart α β} {pairs : List (α × β)} {cs : List (Cell Handle α β)}
  {rest : List Handle}

/-! ## Runs of insertions -/

/-- Runs are put together from runs. -/
theorem run_append (a : Chart α β) (first later : List (Request α β)) :
    a.run (first ++ later) =
      ((a.run first).1 ++ ((a.run first).2.run later).1, ((a.run first).2.run later).2) := by
  induction first generalizing a with
  | nil => rfl
  | cons request first ih => simp [run, ih]

theorem run_cons {request : Request α β} {requests : List (Request α β)} {answer : Answer α β}
    {answers : List (Answer α β)} {c : Chart α β} (first : a.perform request = (answer, b))
    (later : b.run requests = (answers, c)) :
    a.run (request :: requests) = (answer :: answers, c) := by
  rw [run, first, later]

/-- Bindings that are not refused lead where the single insertions lead. -/
theorem run_of_insertMany (done : a.insertMany pairs = (.ok (), b)) :
    (a.run (inserts pairs)).2 = b := by
  induction pairs generalizing a with
  | nil => exact (Prod.mk.inj done).2
  | cons pair pairs ih =>
    rw [insertMany] at done
    cases outcome : a.insert pair.1 pair.2 with
    | mk result c =>
      rw [outcome] at done
      cases result with
      | error why => cases done
      | ok old =>
        show ((a.perform (.insert pair.1 pair.2)).2.run (inserts pairs)).2 = b
        rw [perform, outcome]
        exact ih done

/-! ## New keys -/

/-- Pairs and free slots, taken together, are cells, until there are no more of the ones or of the
others. -/
theorem exists_cells (pairs : List (α × β)) (free : List Handle) :
    ∃ (cs : List (Cell Handle α β)) (later : List (α × β)) (rest : List Handle),
      pairs = cs.map Cell.entry ++ later ∧ free = cs.map Cell.label ++ rest ∧
        (later = [] ∨ rest = []) := by
  induction pairs generalizing free with
  | nil => exact ⟨[], [], free, rfl, rfl, .inl rfl⟩
  | cons pair pairs ih =>
    cases free with
    | nil => exact ⟨[], pair :: pairs, [], rfl, rfl, .inr rfl⟩
    | cons h free =>
      obtain ⟨cs, later, rest, rfl, rfl, ended⟩ := ih free
      exact ⟨⟨h, pair.1, pair.2⟩ :: cs, later, rest, rfl, rfl, ended⟩

/-- New keys are not refused as long as there are free slots, and take these in their order. -/
theorem run_plant (slots : a.free = cs.map Cell.label ++ rest)
    (turns : Tree.Turns (· ≠ none) a.less a.tree cs) :
    a.run (inserts (cs.map Cell.entry)) = (List.replicate cs.length (.value none),
      { a with tree := a.tree.plant a.less cs, free := rest }) := by
  induction cs generalizing a with
  | nil =>
    obtain ⟨less, capacity, tree, free⟩ := a
    obtain rfl : free = rest := slots
    rfl
  | cons c cs ih =>
    have apart : ¬ (none : Option Side) ≠ none := by simp
    have absent := turns.head_absent apart
    have first : a.perform (.insert c.key c.value) = (.value none,
        { a with
          tree := (a.tree.insert a.less c.label c.key c.value).1
          free := cs.map Cell.label ++ rest }) := by
      rw [perform, insert_of_free absent slots]
      rfl
    exact run_cons first (ih rfl (turns.tail apart))

/-- Without a free slot new keys are refused, one after another. -/
theorem run_refused (full : a.free = [])
    (apart : ∀ e ∈ pairs, ∀ d ∈ a.tree.cells, turn a.less e.1 d.key ≠ none) :
    a.run (inserts pairs) =
      (List.replicate pairs.length (.refused (.exhausted a.capacity)), a) := by
  induction pairs with
  | nil => rfl
  | cons e pairs ih =>
    have absent := Tree.find?_eq_none_of_apart (apart e List.mem_cons_self)
    have first : a.perform (.insert e.1 e.2) = (.refused (.exhausted a.capacity), a) := by
      rw [perform, insert_of_full absent full]
      rfl
    exact run_cons first (ih fun d member => apart d (List.mem_cons_of_mem _ member))

/-- New keys inserted into an empty chart take the slots in the order of the free list, and the
keys that remain when there is none left are refused. -/
theorem run_fill {later : List (α × β)} (empty : a.tree = .nil)
    (slots : a.free = cs.map Cell.label ++ rest) (ended : later = [] ∨ rest = [])
    (apart : (cs.map Cell.entry ++ later).Pairwise fun d e => turn a.less e.1 d.1 ≠ none) :
    ∃ t, a.run (inserts (cs.map Cell.entry ++ later)) =
        (List.replicate cs.length (.value none) ++
          List.replicate later.length (.refused (.exhausted a.capacity)),
        { a with tree := t, free := rest }) ∧ t.cells.Perm cs := by
  obtain ⟨among, -, across⟩ := List.pairwise_append.1 apart
  have turns : Tree.Turns (· ≠ none) a.less a.tree cs := by
    rw [empty]
    exact .start (List.pairwise_map.1 among)
  have planted := Tree.cells_plant turns
  rw [empty] at planted
  refine ⟨a.tree.plant a.less cs, ?_, empty ▸ planted⟩
  rw [inserts, List.map_append, run_append, ← inserts, ← inserts, run_plant slots turns]
  rcases ended with rfl | rfl
  · simp [inserts, run]
  · rw [run_refused rfl]
    intro e member d stored
    rw [empty] at stored
    have new : d ∈ cs := planted.mem_iff.1 stored
    exact across d.entry (List.mem_map_of_mem new) e member

end Chart

end BoundedMap
