import BoundedMap.Proofs.Pool.Stack
/-!
# Released slots come back first

A `Ledger` is kept beside a pool by someone who sees the requests and their answers only: it
records which slots were ever handed out, which of them were released and not handed out
again, and the most slots that were live at a time, the peak. `Recycled` is the law that ties
a pool to its ledger: the slots ever handed out are those below the peak, and the free list
is what was released, the latest release first, followed by the slots from the peak on.

The law is kept by each request (`attempt_kept`), whatever the handles, and so it holds after
every sequence of requests to a fresh pool (`run_recycled`).
-/

namespace BoundedMap.Pool

variable {α β : Type} {p : Pool α β} {s : Stack α β} {g h : Handle} {n : Node α β}

/-! ## The ledger -/

/-- What the requests to a pool and their answers tell about its past. -/
structure Ledger where
  /-- The slots ever handed out. -/
  used : List Handle
  /-- The slots released and not handed out again, the latest release first. -/
  returned : List Handle
  /-- The largest number of slots that were live at a time. -/
  peak : Nat
  deriving DecidableEq

namespace Ledger

/-- The ledger of a pool that nothing was asked of. -/
def opened : Ledger :=
  ⟨[], [], 0⟩

/-- Enter a request and its answer. -/
def note (l : Ledger) : Request α β → Except Failure (Answer α β) → Ledger
  | .acquire _ _, .ok (.slot (some h)) =>
    { l with used := h :: l.used, returned := l.returned.erase h }
  | .release h, .ok _ => { l with returned := h :: l.returned }
  | _, _ => l

/-- Enter how many slots are live now. -/
def attain (l : Ledger) (live : Nat) : Ledger :=
  { l with peak := max l.peak live }

/-- The slots of a pool that the peak has not reached, in ascending order. -/
def unopened (l : Ledger) (capacity : Nat) : List Handle :=
  (List.range' l.peak (capacity - l.peak)).map .ofIndex

theorem length_unopened (l : Ledger) (capacity : Nat) :
    (l.unopened capacity).length = capacity - l.peak := by
  rw [unopened, List.length_map, List.length_range']

theorem mem_unopened {l : Ledger} {capacity : Nat} (small : capacity ≤ maxCapacity) :
    h ∈ l.unopened capacity ↔ l.peak ≤ h.index ∧ h.index < capacity := by
  rw [maxCapacity] at small
  rw [unopened, List.mem_map]
  constructor
  · rintro ⟨i, member, rfl⟩
    rw [List.mem_range'_1] at member
    rw [Handle.index_ofIndex (by omega)]
    omega
  · intro within
    exact ⟨h.index, List.mem_range'_1.2 (by omega), Handle.ofIndex_index h⟩

/-- Below the capacity, the first unopened slot is the one at the peak. -/
theorem unopened_eq_cons {l : Ledger} {capacity : Nat} (room : l.peak < capacity) :
    l.unopened capacity = .ofIndex l.peak :: (l.attain (l.peak + 1)).unopened capacity := by
  obtain ⟨k, rfl⟩ : ∃ k, capacity = l.peak + (k + 1) := ⟨capacity - l.peak - 1, by omega⟩
  have left : max l.peak (l.peak + 1) = l.peak + 1 := by omega
  have size : l.peak + (k + 1) - l.peak = k + 1 := by omega
  have size' : l.peak + (k + 1) - (l.peak + 1) = k := by omega
  rw [unopened, unopened, attain, left, size, size', List.range'_succ, List.map_cons]

end Ledger

/-- The ledger kept through a sequence of requests. -/
def ledger : List (Request α β) → Pool α β → Ledger → Ledger
  | [], _, l => l
  | request :: rest, p, l =>
    ledger rest (attempt request p).2
      ((l.note request (attempt request p).1).attain (attempt request p).2.occupied)

/-! ## The law -/

/-- A pool and the ledger of its past. -/
structure Recycled (p : Pool α β) (l : Ledger) : Prop where
  peak_le : l.peak ≤ p.capacity
  /-- The slots ever handed out are those below the peak. -/
  used : ∀ h, h ∈ l.used ↔ h.index < l.peak
  /-- The free list is what was returned, and then what was never handed out. -/
  free : Lists p p.free (l.returned ++ l.unopened p.capacity)
  /-- And that is what the view of the free list shows. -/
  freeList : p.freeList = l.returned ++ l.unopened p.capacity
  /-- A slot is handed out for the first time only when all that were before are live. -/
  fresh : ∀ key value h q, acquire key value p = .ok (some h) q → h ∉ l.used →
    ∀ g ∈ l.used, ∃ n, p.read g = .ok n

/-- The law in terms of the stack that a pool shows. -/
structure Kept (s : Stack α β) (l : Ledger) : Prop where
  peak_le : l.peak ≤ s.capacity
  used : ∀ h, h ∈ l.used ↔ h.index < l.peak
  free : s.free = l.returned ++ l.unopened s.capacity

namespace Kept

variable {l : Ledger}

/-- The live slots and the returned ones are as many as the peak. -/
theorem live_add (kept : Kept s l) (shows : p.Shows s) :
    p.occupied + l.returned.length = l.peak := by
  have count := shows.occupied_add
  have peak_le := kept.peak_le
  rw [kept.free, List.length_append, l.length_unopened] at count
  omega

/-- Returned slots were handed out. -/
theorem index_lt (kept : Kept s l) (shows : p.Shows s) (member : h ∈ l.returned) :
    h.index < l.peak := by
  have inFree : h ∈ s.free := by
    rw [kept.free]
    exact List.mem_append_left _ member
  have nodup := shows.nodup
  rw [kept.free, List.nodup_append] at nodup
  by_contra past
  have unopened := (l.mem_unopened shows.small).2
    ⟨Nat.le_of_not_lt past, (shows.live_of_mem inFree).1⟩
  exact nodup.2.2 h member h unopened rfl

/-- With a slot on top that was never handed out, all that were are live. -/
theorem all_live (kept : Kept s l) (shows : p.Shows s) {rest : List Handle}
    (order : s.free = h :: rest) (unseen : h ∉ l.used) : ∀ g ∈ l.used, ∃ n, p.read g = .ok n := by
  intro g seen
  have below := (kept.used g).1 seen
  have peak_le := kept.peak_le
  have split := kept.free
  rw [order] at split
  cases returned : l.returned with
  | cons k others =>
    rw [returned, List.cons_append] at split
    obtain rfl := (List.cons.inj split).1
    have lower := kept.index_lt shows (returned ▸ List.mem_cons_self : h ∈ l.returned)
    exact absurd ((kept.used h).2 lower) unseen
  | nil =>
    cases live : s.live g with
    | some n => exact ⟨n, (shows.live g n).2 live⟩
    | none =>
      have inFree := shows.unused g (by omega) live
      rw [kept.free, returned, List.nil_append, Ledger.mem_unopened shows.small] at inFree
      omega

/-- As long as the peak is not passed, the number of live slots tells nothing new. -/
theorem attain (kept : Kept s l) {live : Nat} (le : live ≤ l.peak) : Kept s (l.attain live) := by
  rwa [Ledger.attain, Nat.max_eq_left le]

theorem occupied_le (kept : Kept s l) (shows : p.Shows s) : p.occupied ≤ l.peak := by
  have count := kept.live_add shows
  omega

section Acquire

variable {q : Pool α β} {rest : List Handle} {n : Option (Node α β)}

/-- While no slot waits to be handed out again, the first unopened one is, and the peak rises. -/
theorem acquire_unopened (kept : Kept s l) (shows : p.Shows s) (order : s.free = h :: rest)
    (none_returned : l.returned = []) (shows' : q.Shows { s.set h n with free := rest }) :
    Kept { s.set h n with free := rest }
      (Ledger.attain { l with used := h :: l.used, returned := l.returned.erase h }
        q.occupied) := by
  have split := kept.free
  rw [none_returned, List.nil_append, order] at split
  have total := congrArg List.length split
  rw [List.length_cons, l.length_unopened] at total
  rw [Ledger.unopened_eq_cons (by omega)] at split
  obtain ⟨rfl, below⟩ := List.cons.inj split
  have count : q.occupied + rest.length = s.capacity := shows'.occupied_add
  have peaked : q.occupied = l.peak + 1 := by omega
  have top : max l.peak (l.peak + 1) = l.peak + 1 := by omega
  have small := shows.small
  rw [maxCapacity] at small
  rw [peaked, none_returned]
  refine ⟨?_, fun g => ?_, below⟩
  · show max l.peak (l.peak + 1) ≤ s.capacity
    omega
  · show g ∈ Handle.ofIndex l.peak :: l.used ↔ g.index < max l.peak (l.peak + 1)
    rw [List.mem_cons, kept.used, top, ← Handle.index_inj, Handle.index_ofIndex (by omega)]
    omega

/-- The slot that was returned last is handed out again, and the peak stays. -/
theorem acquire_returned (kept : Kept s l) (shows : p.Shows s) (order : s.free = h :: rest)
    {g : Handle} {others : List Handle} (returned : l.returned = g :: others)
    (shows' : q.Shows { s.set h n with free := rest }) :
    Kept { s.set h n with free := rest }
      (Ledger.attain { l with used := h :: l.used, returned := l.returned.erase h }
        q.occupied) := by
  have below := kept.index_lt shows (returned ▸ List.mem_cons_self : g ∈ l.returned)
  have peak_le := kept.peak_le
  have split := kept.free
  rw [returned, order, List.cons_append] at split
  obtain ⟨rfl, remaining⟩ := List.cons.inj split
  have used : ∀ g, g ∈ h :: l.used ↔ g.index < l.peak := by
    intro g
    rw [List.mem_cons, kept.used]
    constructor
    · rintro (rfl | before)
      · exact below
      · exact before
    · exact .inr
  rw [returned, List.erase_cons_head]
  apply attain
  · exact { peak_le, used, free := remaining }
  · have count : q.occupied + rest.length = s.capacity := shows'.occupied_add
    rw [remaining, List.length_append, l.length_unopened] at count
    show q.occupied ≤ l.peak
    omega

theorem acquire (kept : Kept s l) (shows : p.Shows s) (order : s.free = h :: rest)
    (shows' : q.Shows { s.set h n with free := rest }) :
    Kept { s.set h n with free := rest }
      (Ledger.attain { l with used := h :: l.used, returned := l.returned.erase h }
        q.occupied) := by
  cases returned : l.returned with
  | nil => exact returned ▸ kept.acquire_unopened shows order returned shows'
  | cons g others => exact returned ▸ kept.acquire_returned shows order returned shows'

end Acquire

/-- Taking back a live slot. -/
theorem release (kept : Kept s l) {q : Pool α β} {n : Option (Node α β)}
    (shows' : q.Shows { s.set h n with free := h :: s.free }) :
    Kept { s.set h n with free := h :: s.free }
      (Ledger.attain { l with returned := h :: l.returned } q.occupied) := by
  have count : q.occupied + (h :: s.free).length = s.capacity := shows'.occupied_add
  have peak_le := kept.peak_le
  rw [kept.free, List.length_cons, List.length_append, l.length_unopened] at count
  apply attain
  · exact { peak_le, used := kept.used, free := congrArg (h :: ·) kept.free }
  · show q.occupied ≤ l.peak
    omega

end Kept

/-- Every request keeps the law, also one that fails. -/
theorem attempt_kept {l : Ledger} (shows : p.Shows s) (kept : Kept s l) (request : Request α β) :
    Kept (s.perform request).2
      ((l.note request (attempt request p).1).attain (attempt request p).2.occupied) := by
  obtain ⟨answered, shows'⟩ := attempt_shows shows request
  rw [answered]
  have written : ∀ {t : Stack α β}, t.free = s.free → t.capacity = s.capacity →
      (attempt request p).2.Shows t → Kept t (l.attain (attempt request p).2.occupied) := by
    intro t free capacity shows'
    have kept' : Kept t l :=
      ⟨capacity ▸ kept.peak_le, kept.used, by rw [free, capacity, kept.free]⟩
    exact kept'.attain (kept'.occupied_le shows')
  cases request with
  | acquire key value =>
    rw [Stack.perform] at shows' ⊢
    cases order : s.free with
    | nil =>
      rw [order] at shows'
      exact written rfl rfl shows'
    | cons h rest =>
      rw [order] at shows'
      exact kept.acquire shows order shows'
  | release h =>
    rw [Stack.perform] at shows' ⊢
    cases live : s.live h with
    | none =>
      rw [live] at shows'
      exact written rfl rfl shows'
    | some n =>
      rw [live] at shows'
      exact kept.release shows'
  | _ h =>
    -- Reading and writing leaves the stack of free handles alone.
    rw [Stack.perform] at shows' ⊢
    cases live : s.live h <;> rw [live] at shows' <;> exact written rfl rfl shows'

theorem run_kept {l : Ledger} (shows : p.Shows s) (kept : Kept s l)
    (requests : List (Request α β)) : Kept (s.run requests).2 (ledger requests p l) := by
  induction requests generalizing p s l with
  | nil => exact kept
  | cons request rest ih =>
    exact ih (attempt_shows shows request).2 (attempt_kept shows kept request)

theorem Kept.recycled {l : Ledger} (kept : Kept s l) (shows : p.Shows s) : p.Recycled l where
  peak_le := shows.capacity ▸ kept.peak_le
  used := kept.used
  free := by
    rw [shows.capacity, ← kept.free]
    exact shows.free
  freeList := by
    have count := shows.count
    rw [shows.capacity, ← kept.free]
    refine shows.free.freeFrom_eq ?_
    rw [shows.capacity]
    omega
  fresh key value h q done unseen := by
    cases order : s.free with
    | nil =>
      have empty := acquire_of_empty key value (shows.free.eq_nil_iff.1 order)
      cases done.symm.trans empty
    | cons top rest =>
      obtain ⟨q', done', -⟩ := shows.acquire order key value
      cases done.symm.trans done'
      exact kept.all_live shows order unseen

/-- Nothing was ever handed out by a fresh pool. -/
theorem fresh_kept (capacity : Nat) : Kept (Stack.fresh capacity : Stack α β) .opened where
  peak_le := Nat.zero_le _
  used h := by simp [Ledger.opened]
  free := by simp [Stack.fresh, Ledger.opened, Ledger.unopened, List.range_eq_range']

/-- A pool that was fresh is recycled, whatever was asked of it. -/
theorem run_recycled {capacity : Nat} (small : capacity ≤ maxCapacity)
    (requests : List (Request α β)) :
    (run requests (fresh capacity)).2.Recycled (ledger requests (fresh capacity) .opened) :=
  (run_kept (fresh_shows small) (fresh_kept capacity) requests).recycled
    (run_shows (fresh_shows small) requests).2

end BoundedMap.Pool
