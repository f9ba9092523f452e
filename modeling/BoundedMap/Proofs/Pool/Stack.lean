import BoundedMap.Proofs.Pool.Check
/-!
# Pools are stacks of free handles

`Shows p s` says that a pool stands for a stack: its free list is the stack of free handles,
and the nodes that can be read are those of the live ones. Every request, by whatever
handle, is answered alike by both and keeps this (`perform_shows`), and a fault leaves the
pool as it was.

`Orderly` collects what a caller may rely on at any time, and holds after every sequence of
requests to a fresh pool (`run_eq_stack`).
-/

namespace BoundedMap.Pool

variable {α β : Type} {p q : Pool α β} {s : Stack α β} {g h : Handle} {n : Node α β}

/-! ## The stack that a pool shows -/

/-- A stack that a pool stands for. -/
structure Shows (p : Pool α β) (s : Stack α β) : Prop where
  small : s.capacity ≤ maxCapacity
  capacity : p.capacity = s.capacity
  free : Lists p p.free s.free
  nodup : s.free.Nodup
  live : ∀ h n, p.read h = .ok n ↔ s.live h = some n
  /-- Every handle in range that is not live is on the stack. -/
  unused : ∀ h, h.index < s.capacity → s.live h = none → h ∈ s.free
  count : p.live + s.free.length = s.capacity

namespace Shows

theorem index_lt (shows : p.Shows s) (live : s.live h = some n) : h.index < s.capacity := by
  rw [← shows.capacity]
  exact index_lt_of_read ((shows.live h n).2 live)

theorem live_of_mem (shows : p.Shows s) (member : h ∈ s.free) :
    h.index < s.capacity ∧ s.live h = none := by
  obtain ⟨next, unused⟩ := shows.free.slot_of_mem member
  obtain ⟨inRange, dead⟩ := free_iff.1 ⟨next, unused⟩
  rw [shows.capacity] at inRange
  refine ⟨inRange, Option.eq_none_iff_forall_ne_some.2 fun n live => ?_⟩
  exact dead n ((shows.live h n).2 live)

theorem not_mem_free (shows : p.Shows s) (live : s.live h = some n) : h ∉ s.free := by
  intro member
  rw [(shows.live_of_mem member).2] at live
  cases live

theorem mem_free_iff (shows : p.Shows s) :
    h ∈ s.free ↔ h.index < s.capacity ∧ s.live h = none :=
  ⟨shows.live_of_mem, fun unused => shows.unused h unused.1 unused.2⟩

/-- Where there is a live handle, the free ones are not all. -/
theorem length_lt (shows : p.Shows s) (live : s.live h = some n) :
    s.free.length < s.capacity := by
  have distinct : (h :: s.free).Nodup := List.nodup_cons.2 ⟨shows.not_mem_free live, shows.nodup⟩
  have within : h :: s.free ⊆ (List.range s.capacity).map Handle.ofIndex := by
    intro g member
    rw [Handle.mem_below shows.small]
    rcases List.mem_cons.1 member with rfl | member
    · exact shows.index_lt live
    · exact (shows.live_of_mem member).1
  have fits := (distinct.subperm within).length_le
  rwa [List.length_cons, List.length_map, List.length_range] at fits

/-- The slot of a handle that is not live is free or not there. -/
theorem slot_of_absent (shows : p.Shows s) (absent : s.live h = none) :
    (h.index < s.capacity ∧ ∃ next, p.slot h = .ok (.free next)) ∨
      (¬ h.index < s.capacity ∧ p.slot h = .error (.outOfBounds s.capacity h.index)) := by
  by_cases inRange : h.index < s.capacity
  · exact .inl ⟨inRange, shows.free.slot_of_mem (shows.unused h inRange absent)⟩
  · have past : p.slots[h.index]? = none := by
      have size : p.slots.size = s.capacity := shows.capacity
      rw [Array.getElem?_eq_none_iff]
      omega
    refine .inr ⟨inRange, ?_⟩
    rw [slot, past, shows.capacity]

theorem read_of_absent (shows : p.Shows s) (absent : s.live h = none) :
    p.read h = .error (s.absent h .freeSlot) := by
  rw [Stack.absent]
  rcases shows.slot_of_absent absent with ⟨inRange, next, found⟩ | ⟨past, found⟩
  · rw [if_pos inRange, read, found]
  · rw [if_neg past, read, found]

theorem node_of_absent (shows : p.Shows s) (absent : s.live h = none) :
    node h p = .error (.fault (s.absent h .freeSlot)) p := by
  rw [node, shows.read_of_absent absent]

theorem update_of_absent (shows : p.Shows s) (absent : s.live h = none)
    (change : Node α β → Node α β) :
    Pool.update h change p = .error (.fault (s.absent h .freeSlot)) p := by
  rw [Pool.update, shows.read_of_absent absent]

theorem release_of_absent (shows : p.Shows s) (absent : s.live h = none) :
    release h p = .error (.fault (s.absent h .releaseOfFree)) p := by
  rw [Stack.absent]
  rcases shows.slot_of_absent absent with ⟨inRange, next, found⟩ | ⟨past, found⟩
  · simp only [release, found, if_pos inRange]
  · simp only [release, found, if_neg past]

/-! ### What each step does to the stack -/

/-- An acquisition takes the top of the stack. -/
theorem acquire (shows : p.Shows s) {rest : List Handle} (order : s.free = h :: rest) (key : α)
    (value : β) : ∃ q, acquire key value p = .ok (some h) q ∧
      q.Shows { s.set h (some (.leaf key value)) with free := rest } := by
  have lists := shows.free
  have nodup := shows.nodup
  have count := shows.count
  have small := shows.small
  rw [order] at lists nodup count
  obtain ⟨apart, nodup⟩ := List.nodup_cons.1 nodup
  rw [maxCapacity] at small
  generalize start : p.free = link at lists
  cases lists with
  | cons unused below =>
    obtain ⟨q, done, agree, leaf, free, live⟩ :=
      acquire_of_free key value start unused (by rw [maxCount]; omega)
    refine ⟨q, done, shows.small, agree.capacity.trans shows.capacity, ?_, nodup, ?_, ?_, ?_⟩
    · rw [free]
      exact below.frame agree fun g member inside =>
        apart (List.mem_singleton.1 inside ▸ member)
    · intro g n
      by_cases same : g = h
      · subst same
        rw [leaf]
        simp [Stack.set, eq_comm]
      · rw [agree.read_of_ne same, shows.live]
        simp [Stack.set, same]
    · intro g inRange absent
      have differ : g ≠ h := by
        rintro rfl
        simp [Stack.set] at absent
      have member := shows.unused g inRange (by simpa [Stack.set, differ] using absent)
      rw [order] at member
      exact (List.mem_cons.1 member).resolve_left differ
    · show q.live + rest.length = s.capacity
      rw [live]
      rw [List.length_cons] at count
      omega

/-- A release answers the entry and puts the handle on top of the stack. -/
theorem release (shows : p.Shows s) (live : s.live h = some n) :
    ∃ q, release h p = .ok (n.key, n.value) q ∧
      q.Shows { s.set h none with free := h :: s.free } := by
  have found := (shows.live h n).2 live
  have apart := shows.not_mem_free live
  have count := shows.count
  have fewer := shows.length_lt live
  obtain ⟨q, done, agree, unused, free, fall⟩ := release_of_read found (by omega)
  refine ⟨q, done, shows.small, agree.capacity.trans shows.capacity, ?_,
    List.nodup_cons.2 ⟨apart, shows.nodup⟩, ?_, ?_, ?_⟩
  · rw [free]
    exact .cons unused (shows.free.frame agree fun g member inside =>
      apart (List.mem_singleton.1 inside ▸ member))
  · intro g k
    by_cases same : g = h
    · subst same
      have dead : ¬ q.read g = .ok k := fun live => ne_of_read_of_slot live unused rfl
      simp [Stack.set, dead]
    · rw [agree.read_of_ne same, shows.live]
      simp [Stack.set, same]
  · intro g inRange absent
    by_cases same : g = h
    · exact same ▸ List.mem_cons_self
    · have before : s.live g = none := by simpa [Stack.set, same] using absent
      exact List.mem_cons_of_mem _ (shows.unused g inRange before)
  · show q.live + (h :: s.free).length = s.capacity
    rw [List.length_cons]
    omega

/-- A write changes the node of one live handle. -/
theorem update (shows : p.Shows s) (live : s.live h = some n) (change : Node α β → Node α β) :
    update h change p = .ok () (p.put h (.occupied (change n))) ∧
      (p.put h (.occupied (change n))).Shows (s.set h (some (change n))) := by
  have found := (shows.live h n).2 live
  have apart := shows.not_mem_free live
  have rewrites := Rewrites.put p h (.occupied (change n))
  refine ⟨update_of_read found change, shows.small, (capacity_put p h _).trans shows.capacity, ?_,
    shows.nodup, ?_, ?_, shows.count⟩
  · exact shows.free.frame rewrites.toAgreeOff fun g member inside =>
      apart (List.mem_singleton.1 inside ▸ member)
  · intro g k
    by_cases same : g = h
    · subst same
      rw [read_put_self found]
      simp [Stack.set]
    · rw [read_put_of_ne _ same, shows.live]
      simp [Stack.set, same]
  · intro g inRange absent
    have differ : g ≠ h := by
      rintro rfl
      simp [Stack.set] at absent
    exact shows.unused g inRange (by simpa [Stack.set, differ] using absent)

end Shows

/-! ## Requests -/

/-- A request is answered alike by a pool and by the stack that it shows, or it is a fault
of both and leaves both as they are. -/
theorem perform_shows (shows : p.Shows s) (request : Request α β) :
    (∃ answer q, perform request p = .ok answer q ∧ (s.perform request).1 = .ok answer ∧
      q.Shows (s.perform request).2) ∨
    (∃ what, perform request p = .error (.fault what) p ∧
      s.perform request = (.error what, s)) := by
  cases request with
  | acquire key value =>
    left
    rw [perform, Stack.perform]
    cases order : s.free with
    | nil =>
      have empty : p.free = none := shows.free.eq_nil_iff.1 order
      rw [bind_of_ok (acquire_of_empty key value empty)]
      exact ⟨_, p, rfl, rfl, shows⟩
    | cons h rest =>
      obtain ⟨q, done, shows'⟩ := shows.acquire order key value
      rw [bind_of_ok done]
      exact ⟨_, q, rfl, rfl, shows'⟩
  | release h =>
    rw [perform, Stack.perform]
    cases live : s.live h with
    | none =>
      rw [bind_of_error (shows.release_of_absent live)]
      exact .inr ⟨_, rfl, rfl⟩
    | some n =>
      obtain ⟨q, done, shows'⟩ := shows.release live
      rw [bind_of_ok done]
      exact .inl ⟨_, q, rfl, rfl, shows'⟩
  | read h =>
    rw [perform, Stack.perform]
    cases live : s.live h with
    | none =>
      rw [bind_of_error (shows.node_of_absent live)]
      exact .inr ⟨_, rfl, rfl⟩
    | some n =>
      rw [bind_of_ok (node_of_read ((shows.live h n).2 live))]
      exact .inl ⟨_, p, rfl, rfl, shows⟩
  | replace h value =>
    rw [perform, Stack.perform]
    cases live : s.live h with
    | none =>
      rw [bind_of_error (shows.node_of_absent live)]
      exact .inr ⟨_, rfl, rfl⟩
    | some n =>
      obtain ⟨done, shows'⟩ := shows.update live ({ · with value })
      rw [bind_of_ok (node_of_read ((shows.live h n).2 live)), setValue, bind_of_ok done]
      exact .inl ⟨_, _, rfl, rfl, shows'⟩
  | link h left right =>
    rw [perform, Stack.perform]
    cases live : s.live h with
    | none =>
      rw [bind_of_error (shows.update_of_absent live _)]
      exact .inr ⟨_, rfl, rfl⟩
    | some n =>
      obtain ⟨done, shows'⟩ := shows.update live ({ · with left, right })
      rw [bind_of_ok done]
      exact .inl ⟨_, _, rfl, rfl, shows'⟩
  | setHeight h height =>
    rw [perform, Stack.perform]
    cases live : s.live h with
    | none =>
      rw [setHeight, bind_of_error (shows.update_of_absent live _)]
      exact .inr ⟨_, rfl, rfl⟩
    | some n =>
      obtain ⟨done, shows'⟩ := shows.update live ({ · with height })
      rw [setHeight, bind_of_ok done]
      exact .inl ⟨_, _, rfl, rfl, shows'⟩

/-- A request to a stack is a fault exactly when it names a handle that is not live. -/
theorem Stack.perform_error_iff (s : Stack α β) (request : Request α β) :
    (∃ what, (s.perform request).1 = .error what) ↔
      ∃ h, request.target = some h ∧ s.live h = none := by
  cases request with
  | acquire key value =>
    rw [Stack.perform]
    split <;> simp [Request.target]
  | _ g =>
    rw [Stack.perform]
    cases live : s.live g <;> simp [Request.target, live]

theorem attempt_shows (shows : p.Shows s) (request : Request α β) :
    (attempt request p).1 = (s.perform request).1.mapError .fault ∧
      (attempt request p).2.Shows (s.perform request).2 := by
  rw [attempt]
  rcases perform_shows shows request with ⟨answer, q, done, same, shows'⟩ | ⟨what, failed, same⟩
  · rw [done, same]
    exact ⟨rfl, shows'⟩
  · rw [failed, same]
    exact ⟨rfl, shows⟩

theorem run_shows (shows : p.Shows s) (requests : List (Request α β)) :
    (run requests p).1 = (s.run requests).1.map (Except.mapError .fault) ∧
      (run requests p).2.Shows (s.run requests).2 := by
  induction requests generalizing p s with
  | nil => exact ⟨rfl, shows⟩
  | cons request rest ih =>
    obtain ⟨answered, shows'⟩ := attempt_shows shows request
    obtain ⟨others, shows''⟩ := ih shows'
    refine ⟨?_, shows''⟩
    rw [run, Stack.run, List.map_cons, answered, others]

/-- A fresh pool shows the stack of all handles, the least on top. -/
theorem fresh_shows {capacity : Nat} (small : capacity ≤ maxCapacity) :
    (fresh capacity : Pool α β).Shows (Stack.fresh capacity) where
  small := small
  capacity := capacity_fresh capacity
  free := lists_fresh small
  nodup := Handle.nodup_below small
  live h n := by
    constructor
    · intro live
      have inRange := index_lt_of_read live
      rw [capacity_fresh] at inRange
      have unused := slot_fresh (α := α) (β := β) inRange small
      rw [Handle.ofIndex_index] at unused
      exact absurd rfl (ne_of_read_of_slot live unused)
    · rintro ⟨⟩
  unused h inRange _ := (Handle.mem_below small).2 inRange
  count := by simp [fresh, Stack.fresh]

/-! ## What stays as it is -/

/-- A request that names another handle leaves a live one as it is. -/
theorem live_perform (shows : p.Shows s) (live : s.live h = some n) {request : Request α β}
    (other : request.target ≠ some h) : (s.perform request).2.live h = some n := by
  have kept : ∀ (g : Handle) (k : Option (Node α β)), some g ≠ some h →
      (s.set g k).live h = some n := by
    intro g k differ
    have apart : h ≠ g := fun same => differ (congrArg some same.symm)
    simp [Stack.set, apart, live]
  cases request with
  | acquire key value =>
    rw [Stack.perform]
    split
    · exact live
    · rename_i g rest order
      refine kept g _ fun same => shows.not_mem_free live ?_
      rw [order, Option.some.inj same]
      exact List.mem_cons_self
  | read g =>
    rw [Stack.perform]
    split <;> exact live
  | _ g =>
    rw [Stack.perform]
    split
    · exact live
    · exact kept g _ other

/-- A live handle keeps its key until it is released. -/
theorem key_perform (shows : p.Shows s) (live : s.live h = some n) {request : Request α β}
    (held : request ≠ .release h) :
    ∃ k, (s.perform request).2.live h = some k ∧ k.key = n.key := by
  by_cases named : request.target = some h
  · cases request with
    | acquire key value => cases named
    | release g =>
      obtain rfl : g = h := Option.some.inj named
      exact absurd rfl held
    | read g =>
      obtain rfl : g = h := Option.some.inj named
      exact ⟨n, by simp [Stack.perform, live], rfl⟩
    | replace g value =>
      obtain rfl : g = h := Option.some.inj named
      exact ⟨{ n with value }, by simp [Stack.perform, live, Stack.set], rfl⟩
    | link g left right =>
      obtain rfl : g = h := Option.some.inj named
      exact ⟨{ n with left, right }, by simp [Stack.perform, live, Stack.set], rfl⟩
    | setHeight g height =>
      obtain rfl : g = h := Option.some.inj named
      exact ⟨{ n with height }, by simp [Stack.perform, live, Stack.set], rfl⟩
  · exact ⟨n, live_perform shows live named, rfl⟩

/-- What was written last is read until the handle is named again. -/
theorem read_run (shows : p.Shows s) (found : p.read h = .ok n) {later : List (Request α β)}
    (others : ∀ request ∈ later, request.target ≠ some h) : (run later p).2.read h = .ok n := by
  induction later generalizing p s with
  | nil => exact found
  | cons request rest ih =>
    obtain ⟨-, shows'⟩ := attempt_shows shows request
    have live := live_perform shows ((shows.live h n).1 found) (others request List.mem_cons_self)
    exact ih shows' ((shows'.live h n).2 live) fun r member =>
      others r (List.mem_cons_of_mem _ member)

/-- The key that a handle was acquired with is there until the handle is released. -/
theorem key_run (shows : p.Shows s) (found : p.read h = .ok n) {later : List (Request α β)}
    (held : ∀ request ∈ later, request ≠ .release h) :
    ∃ k, (run later p).2.read h = .ok k ∧ k.key = n.key := by
  induction later generalizing p s n with
  | nil => exact ⟨n, found, rfl⟩
  | cons request rest ih =>
    obtain ⟨-, shows'⟩ := attempt_shows shows request
    obtain ⟨k, live, same⟩ :=
      key_perform shows ((shows.live h n).1 found) (held request List.mem_cons_self)
    obtain ⟨k', found', same'⟩ := ih shows' ((shows'.live h k).2 live) fun r member =>
      held r (List.mem_cons_of_mem _ member)
    exact ⟨k', found', same'.trans same⟩

/-! ## What a caller may rely on -/

theorem Shows.wellFormed (shows : p.Shows s) : p.WellFormed := by
  refine wellFormed_of_lists (shows.capacity ▸ shows.small) shows.free shows.nodup (fun h => ?_) ?_
  · rw [free_iff, shows.mem_free_iff, shows.capacity, Option.eq_none_iff_forall_ne_some]
    simp only [ne_eq, shows.live]
  · rw [shows.capacity]
    exact shows.count

/-- The slots that hold a node and those on the stack are all there are. -/
theorem Shows.occupied_add (shows : p.Shows s) : p.occupied + s.free.length = s.capacity := by
  rw [← shows.wellFormed.live_eq]
  exact shows.count

/-- Live handles and free ones share out all handles. -/
theorem Shows.perm (shows : p.Shows s) :
    (s.taken ++ s.free).Perm ((List.range p.capacity).map .ofIndex) := by
  have below := Handle.nodup_below shows.small
  rw [shows.capacity, List.perm_ext_iff_of_nodup _ below]
  · intro h
    rw [List.mem_append, Stack.taken, List.mem_filter, Handle.mem_below shows.small,
      shows.mem_free_iff]
    cases live : s.live h with
    | none => simp
    | some n => simp [shows.index_lt live]
  · rw [List.nodup_append]
    refine ⟨below.filter _, shows.nodup, ?_⟩
    rintro h inTaken g inFree rfl
    have live := (List.mem_filter.1 inTaken).2
    rw [(shows.live_of_mem inFree).2] at live
    cases live

/-- No slot is handed out exactly when every slot is live. -/
theorem Shows.acquire_eq_none_iff (shows : p.Shows s) (key : α) (value : β) :
    (∃ q, Pool.acquire key value p = .ok none q) ↔
      ∀ h : Handle, h.index < p.capacity → ∃ n, p.read h = .ok n := by
  have full : s.free = [] ↔ ∀ h : Handle, h.index < p.capacity → ∃ n, p.read h = .ok n := by
    rw [List.eq_nil_iff_forall_not_mem, shows.capacity]
    refine forall_congr' fun h => ?_
    rw [shows.mem_free_iff, not_and, ← ne_eq, Option.ne_none_iff_exists']
    simp only [shows.live]
  rw [← full]
  constructor
  · rintro ⟨q, done⟩
    cases order : s.free with
    | nil => rfl
    | cons h rest =>
      obtain ⟨q', done', -⟩ := shows.acquire order key value
      cases done.symm.trans done'
  · intro order
    exact ⟨p, acquire_of_empty key value (shows.free.eq_nil_iff.1 order)⟩

/-- A handle that is not live is out of range or on the stack. -/
theorem Shows.absent_iff (shows : p.Shows s) :
    s.live h = none ↔ p.capacity ≤ h.index ∨ h ∈ s.free := by
  rw [shows.mem_free_iff, shows.capacity]
  constructor
  · intro absent
    rcases Nat.lt_or_ge h.index s.capacity with inRange | past
    · exact .inr ⟨inRange, absent⟩
    · exact .inl past
  · rintro (past | ⟨-, absent⟩)
    · cases live : s.live h with
      | none => rfl
      | some n => exact absurd (shows.index_lt live) (Nat.not_lt.2 past)
    · exact absent

/-- A request fails exactly when it names a handle that is out of range or free. -/
theorem Shows.fails_iff (shows : p.Shows s) (request : Request α β) :
    (∃ e q, perform request p = .error e q) ↔
      ∃ h, request.target = some h ∧ (p.capacity ≤ h.index ∨ h ∈ s.free) := by
  simp only [← shows.absent_iff, ← Stack.perform_error_iff]
  constructor
  · rintro ⟨e, q, failed⟩
    rcases perform_shows shows request with ⟨answer, q', done, -⟩ | ⟨what, -, same⟩
    · cases failed.symm.trans done
    · exact ⟨what, by rw [same]⟩
  · rintro ⟨what, failed⟩
    rcases perform_shows shows request with ⟨answer, q, -, same, -⟩ | ⟨what', failed', -⟩
    · cases failed.symm.trans same
    · exact ⟨_, p, failed'⟩

/-- What a caller may rely on of a pool that shows a stack. -/
structure Orderly (p : Pool α β) (s : Stack α β) : Prop where
  shows : p.Shows s
  /-- The pool passes its own check. -/
  check : p.check = .ok ()
  /-- Live handles and free ones share out all handles. -/
  parts : (s.taken ++ s.free).Perm ((List.range p.capacity).map .ofIndex)
  live : p.live = s.taken.length
  /-- No slot is handed out exactly when every slot is live. -/
  acquire_none : ∀ key value, (∃ q, acquire key value p = .ok none q) ↔
    ∀ h : Handle, h.index < p.capacity → ∃ n, p.read h = .ok n
  /-- A request fails exactly when it names a handle that is out of range or free. -/
  fails_iff : ∀ request, (∃ e q, perform request p = .error e q) ↔
    ∃ h, request.target = some h ∧ (p.capacity ≤ h.index ∨ h ∈ s.free)
  /-- A request that fails changes nothing. -/
  atomic : ∀ request e q, perform request p = .error e q → q = p
  /-- The node of a live handle stays as it is until the handle is named. -/
  read : ∀ h n, p.read h = .ok n → ∀ later : List (Request α β),
    (∀ request ∈ later, request.target ≠ some h) → (run later p).2.read h = .ok n
  /-- The key of a live handle stays until the handle is released. -/
  key : ∀ h n, p.read h = .ok n → ∀ later : List (Request α β),
    (∀ request ∈ later, request ≠ .release h) →
      ∃ k, (run later p).2.read h = .ok k ∧ k.key = n.key

theorem Shows.orderly (shows : p.Shows s) : p.Orderly s where
  shows := shows
  check := (check_eq_ok_iff_wellFormed (shows.capacity ▸ shows.small)).2 shows.wellFormed
  parts := shows.perm
  live := by
    have total := shows.perm.length_eq
    rw [List.length_append, List.length_map, List.length_range, shows.capacity] at total
    have count := shows.count
    omega
  acquire_none := shows.acquire_eq_none_iff
  fails_iff := shows.fails_iff
  atomic request e q failed := by
    rcases perform_shows shows request with ⟨answer, q', done, -⟩ | ⟨what, failed', -⟩
    · cases failed.symm.trans done
    · cases failed.symm.trans failed'
      rfl
  read h n found later := read_run shows found
  key h n found later := key_run shows found

/-- Whatever is asked of a fresh pool, by handles that are live or not, it answers as the
stack of all its handles does, which starts with the least index on top, and remains
orderly. -/
theorem run_eq_stack {capacity : Nat} (small : capacity ≤ maxCapacity)
    (requests : List (Request α β)) :
    ∃ start answers p s, allocate capacity = .ok start ∧
      (Stack.fresh capacity).run requests = (answers, s) ∧
      run requests start = (answers.map (Except.mapError .fault), p) ∧ p.Orderly s ∧
      (Stack.fresh capacity : Stack α β).free.map Handle.index = List.range capacity := by
  obtain ⟨answered, shows⟩ := run_shows (fresh_shows small) requests
  exact ⟨fresh capacity, _, _, _, allocate_eq small, rfl, Prod.ext answered rfl, shows.orderly,
    Handle.map_index_below small⟩

/-- Two slots: both handed out, a third one refused, the first released twice and read in
vain, taken again, and a handle past the end. -/
theorem run_under_misuse :
    2 ≤ maxCapacity ∧ ∃ (start p : Pool Nat Nat) (s : Stack Nat Nat), allocate 2 = .ok start ∧
      run [.acquire 5 50, .acquire 6 60, .acquire 7 70, .release (.ofIndex 0),
        .release (.ofIndex 0), .read (.ofIndex 0), .replace (.ofIndex 1) 61, .acquire 8 80,
        .release (.ofIndex 1), .release (.ofIndex 2)] start =
        ([.ok (.slot (some (.ofIndex 0))), .ok (.slot (some (.ofIndex 1))), .ok (.slot none),
          .ok (.entry 5 50), .error (.fault (.releaseOfFree (.ofIndex 0))),
          .error (.fault (.freeSlot (.ofIndex 0))), .ok (.value 60),
          .ok (.slot (some (.ofIndex 0))), .ok (.entry 6 61),
          .error (.fault (.outOfBounds 2 2))], p) ∧
      p.Orderly s := by
  have small : 2 ≤ maxCapacity := by decide
  obtain ⟨start, answers, p, s, allocated, modelled, ran, orderly, -⟩ :=
    run_eq_stack (α := Nat) (β := Nat) small [.acquire 5 50, .acquire 6 60, .acquire 7 70,
      .release (.ofIndex 0), .release (.ofIndex 0), .read (.ofIndex 0), .replace (.ofIndex 1) 61,
      .acquire 8 80, .release (.ofIndex 1), .release (.ofIndex 2)]
  obtain ⟨rfl, -⟩ := Prod.mk.inj modelled
  exact ⟨small, start, p, s, allocated, ran, orderly⟩

end BoundedMap.Pool
