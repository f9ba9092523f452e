import BoundedMap.Proofs.Chart.Basic
import BoundedMap.Proofs.Cursor.Walk
import BoundedMap.Proofs.Subtree.Insertion
import BoundedMap.Proofs.Subtree.Removal
/-!
# Maps follow their charts

`Follows m a` says that the links of a map spell out the tree of a chart and that
its free list is the chart's. Every request keeps map and chart together and is
answered alike by both (`perform_run`), so whatever is shown of charts holds of
maps; that a map ends every request with an answer is part of it.
-/

namespace BoundedMap.Map

open Pool (AgreeOff Rewrites Lists)
open Subtree (Spells Stands)

variable {α β γ : Type} {m n : Map α β} {a b : Chart α β}

/-- A chart that shows a map as it is. -/
structure Follows (m : Map α β) (a : Chart α β) : Prop where
  less : m.less = a.less
  capacity : m.pool.capacity = a.capacity
  spells : Spells m.pool m.root a.tree
  lists : Lists m.pool m.pool.free a.free
  live : m.pool.live = a.tree.size
  len : m.len = a.tree.size
  valid : a.Valid

namespace Follows

theorem stands (follows : m.Follows a) : Stands m.pool m.root a.tree :=
  ⟨follows.spells, follows.valid.nodup_labels, follows.valid.avl⟩

theorem room (follows : m.Follows a) : a.tree.depth ≤ m.pool.capacity := by
  rw [follows.capacity]
  exact follows.valid.depth_le

theorem len_entries (follows : m.Follows a) : m.len = a.tree.entries.length := by
  rw [follows.len, Tree.length_entries]

/-- Without entries all slots are free. -/
theorem length_free (follows : m.Follows a) (empty : a.tree = .nil) :
    a.free.length = m.capacity := by
  have slots := follows.valid.size_add_length
  rw [empty] at slots
  exact (Nat.zero_add _).symm.trans (slots.trans follows.capacity.symm)

theorem len_lt (follows : m.Follows a) : m.len < maxCount := by
  have few := Nat.le_trans follows.valid.size_le follows.valid.capacity_le
  rw [follows.len, maxCount]
  rw [maxCapacity] at few
  omega

/-- Every live node is one of the tree. -/
theorem mem_labels_of_read {x : Handle} {d : Node α β} (follows : m.Follows a)
    (live : m.pool.read x = .ok d) : x ∈ a.tree.labels := by
  have inRange := Pool.index_lt_of_read live
  rw [follows.capacity, ← follows.valid.mem_iff] at inRange
  rcases inRange with inTree | unused
  · exact inTree
  · obtain ⟨next, slot⟩ := follows.lists.slot_of_mem unused
    exact absurd rfl (Pool.ne_of_read_of_slot live slot)

/-- The first slot of the free list. -/
theorem head {h : Handle} {rest : List Handle} (follows : m.Follows a)
    (order : a.free = h :: rest) :
    ∃ next, m.pool.free = some h ∧ m.pool.slot h = .ok (.free next) ∧
      Lists m.pool next rest := by
  have lists := follows.lists
  rw [order] at lists
  generalize start : m.pool.free = link at lists
  cases lists with
  | cons unused below => exact ⟨_, rfl, unused, below⟩

theorem free_eq_none (follows : m.Follows a) (full : a.free = []) : m.pool.free = none :=
  follows.lists.eq_nil_iff.1 full

/-- The pool of a map accounts for every slot once. -/
theorem pool_wellFormed (follows : m.Follows a) : m.pool.WellFormed := by
  refine Pool.wellFormed_of_lists ?_ follows.lists follows.valid.nodup_free (fun h => ?_) ?_
  · rw [follows.capacity]
    exact follows.valid.capacity_le
  · refine ⟨follows.lists.slot_of_mem, ?_⟩
    rintro ⟨next, unused⟩
    have inRange := Pool.index_lt_of_slot unused
    rw [follows.capacity, ← follows.valid.mem_iff] at inRange
    rcases inRange with inTree | listed
    · obtain ⟨n, found⟩ := follows.spells.read_of_mem inTree
      exact absurd rfl (Pool.ne_of_read_of_slot found unused)
    · exact listed
  · rw [follows.live, follows.capacity]
    exact follows.valid.size_add_length

end Follows

/-! ## Steps on the pool of a map -/

section OnPool

variable {step : (α → α → Bool) → Option Handle → Nat → PoolM α β γ} {q : Pool α β}

theorem onPool_of_ok {x : γ} (done : step m.less m.root m.pool.capacity m.pool = .ok x q) :
    onPool step m = .ok x { m with pool := q } := by
  rw [onPool, done]

theorem onPool_of_error {e : Failure}
    (failed : step m.less m.root m.pool.capacity m.pool = .error e q) :
    onPool step m = .error e { m with pool := q } := by
  rw [onPool, failed]

end OnPool

/-! ## Insertion -/

/-- How a step that can be refused follows a chart. -/
def Refines (step : MapM α β γ) (m : Map α β) (outcome : Except Refusal γ × Chart α β) : Prop :=
  match outcome with
  | (.ok result, a) => ∃ n, step m = .ok result n ∧ n.Follows a
  | (.error why, a) => ∃ n, step m = .error (.refused why) n ∧ n.Follows a

/-- The state after an insertion below the root. A new key counts. -/
def inserted (m : Map α β) (x : Handle) (old : Option β) (q : Pool α β) : Map α β :=
  { m with root := some x, pool := q, len := if old.isNone then m.len + 1 else m.len }

theorem insert_of_ok {key : α} {value : β} {x : Handle} {old : Option β} {q : Pool α β}
    (done : Subtree.insert m.less key value m.pool.capacity m.root m.pool = .ok (x, old) q)
    (room : m.len < maxCount) : insert key value m = .ok old (m.inserted x old q) := by
  rw [insert, bind_of_ok (onPool_of_ok done)]
  cases old with
  | some v => rfl
  | none =>
    show (liftM (countUp m.len) >>= fun len => setLen len >>= fun _ => pure none)
      { m with root := some x, pool := q } = _
    rw [countUp_of_lt room]
    rfl

theorem insert_of_error {key : α} {value : β} {e : Failure} {q : Pool α β}
    (failed : Subtree.insert m.less key value m.pool.capacity m.root m.pool = .error e q) :
    insert key value m = .error e { m with pool := q } := by
  rw [insert, bind_of_error (onPool_of_error failed)]

/-- An insertion into the tree of a map, at any limit from its depth on: it follows
the chart, or it is refused with nothing written. -/
theorem insert_subtree (follows : m.Follows a) (key : α) (value : β) :
    (∃ x old q b, a.insert key value = (.ok old, b) ∧
      (∀ limit, a.tree.depth ≤ limit →
        Subtree.insert m.less key value limit m.root m.pool = .ok (x, old) q) ∧
      (m.inserted x old q).Follows b) ∨
    (a.insert key value = (.error (.exhausted m.capacity), a) ∧
      ∀ limit, a.tree.depth ≤ limit → Subtree.insert m.less key value limit m.root m.pool =
        .error (.refused (.exhausted m.capacity)) m.pool) := by
  have valid := Chart.valid_insert follows.valid key value
  rw [follows.less]
  cases found : a.tree.find? a.less key with
  | some c =>
    -- the key is bound: nodes of the tree are rewritten, and the free list is not
    left
    rw [Chart.insert_of_find? found] at valid ⊢
    obtain ⟨q, y, run, stands, rewrites⟩ :=
      Subtree.insert_run_of_find? follows.stands found c.label value
    refine ⟨y, some c.value, q, _, rfl, run, follows.less, ?_, stands.spells, ?_, ?_, ?_, valid⟩
    · exact rewrites.capacity.trans follows.capacity
    · show Lists q q.free a.free
      rw [rewrites.free]
      exact follows.lists.frame rewrites.toAgreeOff fun h => follows.valid.not_mem_labels
    · show q.live = _
      rw [Tree.size_insert_of_find? a.less key found, rewrites.live, follows.live]
    · show m.len = _
      rw [Tree.size_insert_of_find? a.less key found, follows.len]
  | none =>
    cases order : a.free with
    | nil =>
      right
      have exhausted := Pool.acquire_of_empty key value (follows.free_eq_none order)
      have capacity : m.capacity = a.capacity := follows.capacity
      rw [Chart.insert_of_full found order, capacity, ← follows.capacity]
      exact ⟨rfl, fun limit => Subtree.insert_run_of_exhausted follows.stands found exhausted⟩
    | cons h rest =>
      left
      rw [Chart.insert_of_free found order] at valid ⊢
      obtain ⟨next, start, unused, lists⟩ := follows.head order
      have counted : m.pool.live < maxCount := follows.live ▸ follows.len ▸ follows.len_lt
      obtain ⟨p₀, acquired, agree, leaf, free₀, live₀⟩ :=
        Pool.acquire_of_free key value start unused counted
      have fresh : h ∉ a.tree.labels :=
        follows.valid.not_mem_labels (order ▸ List.mem_cons_self)
      have distinct := follows.valid.nodup_free
      rw [order, List.nodup_cons] at distinct
      obtain ⟨q, y, run, stands, rewrites⟩ :=
        Subtree.insert_run_of_acquired follows.stands found acquired agree leaf fresh
      refine ⟨y, none, q, _, rfl, run, follows.less, ?_, stands.spells, ?_, ?_, ?_, valid⟩
      -- the rest of the free list was written neither by the acquisition nor below the root
      · exact (rewrites.capacity.trans agree.capacity).trans follows.capacity
      · show Lists q q.free rest
        rw [rewrites.free, free₀]
        refine (lists.frame agree fun g inRest here => ?_).frame rewrites.toAgreeOff ?_
        · exact distinct.1 (List.mem_singleton.1 here ▸ inRest)
        · intro g inRest written
          rcases List.mem_cons.1 written with rfl | inTree
          · exact distinct.1 inRest
          · exact follows.valid.not_mem_free inTree (order ▸ List.mem_cons_of_mem _ inRest)
      · show q.live = _
        rw [Tree.size_insert_of_absent a.less key found, rewrites.live, live₀, follows.live]
      · show m.len + 1 = _
        rw [Tree.size_insert_of_absent a.less key found, follows.len]

theorem insert_run (follows : m.Follows a) (key : α) (value : β) :
    Refines (insert key value) m (a.insert key value) := by
  rcases insert_subtree follows key value with ⟨x, old, q, b, outcome, run, follows'⟩ | full
  · rw [outcome]
    exact ⟨_, insert_of_ok (run _ follows.room) follows.len_lt, follows'⟩
  · rw [full.1]
    exact ⟨m, insert_of_error (full.2 _ follows.room), follows⟩

/-- An insertion that is answered is answered alike by the chart. -/
theorem insert_answered {key : α} {value : β} {old : Option β} (follows : m.Follows a)
    (done : insert key value m = .ok old n) :
    ∃ b, a.insert key value = (.ok old, b) ∧ n.Follows b := by
  have ran := insert_run follows key value
  cases outcome : a.insert key value with
  | mk result b =>
    rw [outcome] at ran
    cases result with
    | ok old' =>
      obtain ⟨k, done', follows'⟩ := ran
      obtain ⟨rfl, rfl⟩ := EStateM.Result.ok.inj (done.symm.trans done')
      exact ⟨b, rfl, follows'⟩
    | error why =>
      obtain ⟨k, failed, -⟩ := ran
      rw [done] at failed
      cases failed

/-- A refused insertion leaves the map exactly as it is. -/
theorem insert_of_refused {key : α} {value : β} {why : Refusal} (follows : m.Follows a)
    (refused : a.insert key value = (.error why, b)) :
    insert key value m = .error (.refused (.exhausted m.capacity)) m := by
  rcases insert_subtree follows key value with ⟨x, old, q, b, outcome, -, -⟩ | ⟨-, run⟩
  · rw [outcome] at refused
    cases refused
  · exact insert_of_error (run _ follows.room)

/-- An insertion fails in one way only, and only where the chart refuses it. -/
theorem insert_failed {key : α} {value : β} {e : Failure} (follows : m.Follows a)
    (failed : insert key value m = .error e n) :
    e = .refused (.exhausted m.capacity) ∧ n = m ∧ a.tree.find? a.less key = none ∧
      a.free = [] := by
  rcases insert_subtree follows key value with ⟨x, old, q, b, -, run, -⟩ | ⟨refused, run⟩
  · rw [insert_of_ok (run _ follows.room) follows.len_lt] at failed
    cases failed
  · rw [insert_of_error (run _ follows.room)] at failed
    cases failed
    exact ⟨rfl, rfl, Chart.insert_error_iff.1 ⟨_, _, refused⟩⟩

theorem insertMany_cons_of_ok {d : α × β} {rest : List (α × β)} {old : Option β}
    (done : insert d.1 d.2 m = .ok old n) : insertMany (d :: rest) m = insertMany rest n := by
  show (EStateM.map _ (insert d.1 d.2) >>= _) m = _
  rw [bind_of_ok (by rw [EStateM.map, done])]

theorem insertMany_cons_of_error {d : α × β} {rest : List (α × β)} {e : Failure}
    (failed : insert d.1 d.2 m = .error e n) : insertMany (d :: rest) m = .error e n := by
  show (EStateM.map _ (insert d.1 d.2) >>= _) m = _
  rw [bind_of_error (by rw [EStateM.map, failed])]

theorem insertMany_run (follows : m.Follows a) (pairs : List (α × β)) :
    Refines (insertMany pairs) m (a.insertMany pairs) := by
  induction pairs generalizing m a with
  | nil => exact ⟨m, rfl, follows⟩
  | cons pair rest ih =>
    obtain ⟨key, value⟩ := pair
    have first := insert_run follows key value
    rw [Chart.insertMany]
    cases outcome : a.insert key value with
    | mk result b =>
      rw [outcome] at first
      cases result with
      | ok old =>
        obtain ⟨n, done, follows'⟩ := first
        have further := ih follows'
        unfold Refines at further ⊢
        rw [insertMany_cons_of_ok done]
        exact further
      | error why =>
        obtain ⟨n, failed, follows'⟩ := first
        exact ⟨n, insertMany_cons_of_error failed, follows'⟩

/-! ## Removal -/

/-- The state after a removal below the root. -/
def removed (m : Map α β) (link : Option Handle) (e : Option (α × β)) (q : Pool α β) :
    Map α β :=
  { m with root := link, pool := q, len := if e.isSome then m.len - 1 else m.len }

theorem removeEntry_of_ok {probe : α} {link : Option Handle} {e : Option (α × β)}
    {q : Pool α β} (done : Subtree.remove m.less probe m.pool.capacity m.root m.pool =
      .ok (link, e) q) (counted : e.isSome → 0 < m.len) :
    removeEntry probe m = .ok e (m.removed link e q) := by
  rw [removeEntry, bind_of_ok (onPool_of_ok done)]
  cases e with
  | none => rfl
  | some e =>
    have more := counted rfl
    have fewer : countDown m.len = .ok (m.len - 1) := by
      obtain ⟨k, hk⟩ : ∃ k, m.len = k + 1 := ⟨m.len - 1, by omega⟩
      rw [hk]
      rfl
    show (liftM (countDown m.len) >>= fun len => setLen len >>= fun _ => pure (some e))
      { m with root := link, pool := q } = _
    rw [fewer]
    rfl

/-- A removal from the tree of a map, at any limit from its depth on. -/
theorem remove_subtree (follows : m.Follows a) (probe : α) :
    ∃ link q, (∀ limit, a.tree.depth ≤ limit →
        Subtree.remove m.less probe limit m.root m.pool =
          .ok (link, (a.removeEntry probe).1) q) ∧
      (m.removed link (a.removeEntry probe).1 q).Follows (a.removeEntry probe).2 := by
  have valid := Chart.valid_removeEntry follows.valid probe
  rw [follows.less]
  cases found : a.tree.find? a.less probe with
  | none =>
    rw [Chart.removeEntry_of_absent found]
    obtain ⟨q, run, stands, rewrites⟩ := Subtree.remove_run_of_absent follows.stands found
    refine ⟨m.root, q, run, follows.less, ?_, stands.spells, ?_, ?_, follows.len, follows.valid⟩
    · exact rewrites.capacity.trans follows.capacity
    · show Lists q q.free a.free
      rw [rewrites.free]
      exact follows.lists.frame rewrites.toAgreeOff fun h => follows.valid.not_mem_labels
    · exact rewrites.live.trans follows.live
  | some c =>
    rw [Chart.removeEntry_of_find? found] at valid ⊢
    have before := follows.live
    have total := follows.len
    have sizes := Tree.size_remove_of_find? a.less probe found
    obtain ⟨q, link, run, stands, agree, unused, start, count⟩ :=
      Subtree.remove_run_of_find? follows.stands found (by omega)
    refine ⟨link, q, run, follows.less, ?_, stands.spells, ?_, ?_, ?_, valid⟩
    · exact agree.capacity.trans follows.capacity
    · show Lists q q.free (c.label :: a.free)
      rw [start]
      exact .cons unused (follows.lists.frame agree fun h => follows.valid.not_mem_labels)
    · show q.live = (a.tree.remove a.less probe).1.size
      omega
    · show m.len - 1 = (a.tree.remove a.less probe).1.size
      omega

theorem removeEntry_run (follows : m.Follows a) (probe : α) :
    ∃ n, removeEntry probe m = .ok (a.removeEntry probe).1 n ∧
      n.Follows (a.removeEntry probe).2 := by
  obtain ⟨link, q, run, follows'⟩ := remove_subtree follows probe
  refine ⟨_, removeEntry_of_ok (run _ follows.room) fun removed => ?_, follows'⟩
  rw [follows.len]
  cases found : a.tree.find? a.less probe with
  | none =>
    rw [Chart.removeEntry_of_absent found] at removed
    cases removed
  | some c =>
    have sizes := Tree.size_remove_of_find? a.less probe found
    omega

theorem remove_run (follows : m.Follows a) (probe : α) :
    ∃ n, remove probe m = .ok ((a.removeEntry probe).1.map (·.2)) n ∧
      n.Follows (a.removeEntry probe).2 := by
  obtain ⟨n, done, follows'⟩ := removeEntry_run follows probe
  refine ⟨n, ?_, follows'⟩
  rw [remove, bind_of_ok done]
  rfl

/-! ## Writing values and clearing -/

theorem locate_run (follows : m.Follows a) (probe : α) :
    m.locate probe = .ok ((a.tree.find? a.less probe).map Cell.label) := by
  rw [locate, follows.less]
  exact Subtree.locate_run a.less probe follows.spells follows.room

/-- A map in which one value is overwritten follows its chart. -/
theorem follows_overwrite (follows : m.Follows a) {key : α} {c : Cell Handle α β} {d : Node α β}
    (found : a.tree.find? a.less key = some c) (live : m.pool.read c.label = .ok d)
    (label : Handle) (value : β) :
    Follows { m with pool := m.pool.put c.label (.occupied { d with value }) }
      { a with tree := (a.tree.insert a.less label key value).1 } := by
  have rewrites := Rewrites.put m.pool c.label (.occupied { d with value })
  have spells := Subtree.overwrite_spells follows.stands found live label value
  have valid := Chart.valid_overwrite follows.valid found label value
  refine ⟨follows.less, ?_, spells, ?_, ?_, ?_, valid⟩
  · exact rewrites.capacity.trans follows.capacity
  · refine follows.lists.frame rewrites.toAgreeOff fun h unused here => ?_
    rw [List.mem_singleton] at here
    exact follows.valid.not_mem_labels unused (here ▸ Tree.label_mem_of_find? found)
  · show m.pool.live = _
    rw [Tree.size_insert_of_find? a.less key found, follows.live]
  · show m.len = _
    rw [Tree.size_insert_of_find? a.less key found, follows.len]

theorem replace_run (follows : m.Follows a) (probe : α) (value : β) :
    ∃ n, replace probe value m = .ok (a.replace probe value).1 n ∧
      n.Follows (a.replace probe value).2 := by
  have located : (liftM (m.locate probe) : MapM α β (Option Handle)) m =
      .ok ((a.tree.find? a.less probe).map Cell.label) m := by
    rw [locate_run follows, lift_ok]
  have started : (get : MapM α β (Map α β)) m = .ok m m := rfl
  rw [replace, bind_of_ok started, bind_of_ok located]
  cases found : a.tree.find? a.less probe with
  | none =>
    rw [Chart.replace_of_absent found]
    exact ⟨m, rfl, follows⟩
  | some c =>
    rw [Chart.replace_of_find? found]
    -- the node is read and written in place, no link changes
    obtain ⟨d, live, keyEq, valueEq⟩ :=
      follows.spells.read_of_mem_cells (Tree.mem_cells_of_find? found)
    have written : (Pool.node c.label >>= fun n => Pool.setValue c.label value >>= fun _ =>
        pure (some n.value)) m.pool =
        .ok (some c.value) (m.pool.put c.label (.occupied { d with value })) := by
      rw [bind_of_ok (Pool.node_of_read live), Pool.setValue,
        bind_of_ok (Pool.update_of_read live _), valueEq]
      rfl
    exact ⟨_, onPool_of_ok written, follows_overwrite follows found live c.label value⟩

/-- Clearing the tree of a map, at any limit from its depth on. -/
theorem releaseAll_subtree (follows : m.Follows a) :
    ∃ q, (∀ limit, a.tree.depth ≤ limit → Subtree.releaseAll limit m.root m.pool = .ok () q) ∧
      Follows { m with root := none, pool := q, len := 0 } a.clear ∧
      Pool.Releases m.pool a.tree.postorder q := by
  obtain ⟨q, run, lists, agree, count, releases⟩ := Subtree.releaseAll_run follows.spells
    follows.valid.nodup_labels follows.lists (Nat.le_of_eq follows.live.symm)
  have before := follows.live
  refine ⟨q, run, ⟨follows.less, ?_, .nil, lists, ?_, rfl, Chart.valid_clear follows.valid⟩,
    releases⟩
  · exact agree.capacity.trans follows.capacity
  · show q.live = 0
    omega

theorem clear_run (follows : m.Follows a) : ∃ n, clear m = .ok () n ∧ n.Follows a.clear ∧
    Pool.Releases m.pool a.tree.postorder n.pool := by
  obtain ⟨q, run, follows', releases⟩ := releaseAll_subtree follows
  refine ⟨_, ?_, follows', releases⟩
  rw [clear, bind_of_ok (onPool_of_ok (run _ follows.room))]
  rfl

/-! ## Reading -/

theorem lookup?_run (follows : m.Follows a) (probe : α) :
    m.lookup? probe = .ok ((a.tree.find? a.less probe).map Cell.entry) := by
  rw [lookup?, locate_run follows]
  cases found : a.tree.find? a.less probe with
  | none => rfl
  | some c =>
    obtain ⟨d, live, keyEq, valueEq⟩ :=
      follows.spells.read_of_mem_cells (Tree.mem_cells_of_find? found)
    show (m.pool.read c.label >>= fun n => pure (some (n.key, n.value))) = .ok (some c.entry)
    rw [live, Cell.entry, ← keyEq, ← valueEq]
    rfl

theorem get?_run (follows : m.Follows a) (probe : α) :
    m.get? probe = .ok ((a.tree.find? a.less probe).map Cell.value) := by
  rw [get?, lookup?_run follows]
  cases a.tree.find? a.less probe <;> rfl

theorem contains_run (follows : m.Follows a) (probe : α) :
    m.contains probe = .ok (a.tree.find? a.less probe).isSome := by
  rw [contains, lookup?_run follows]
  cases a.tree.find? a.less probe <;> rfl

theorem outermost?_run (follows : m.Follows a) (s : Side) :
    m.outermost? s = .ok (a.tree.entriesFrom s).head? := by
  have spells := follows.spells
  unfold outermost?
  cases start : m.root with
  | none =>
    rw [start] at spells
    obtain nothing : a.tree = .nil := spells.unique .nil
    rw [nothing, Tree.entriesFrom_nil]
    rfl
  | some x =>
    rw [start] at spells
    obtain ⟨d, run, outer⟩ := Subtree.outermost_run s spells
    rw [Tree.entriesFrom, List.head?_map, outer]
    show (Subtree.outermost m.pool s m.pool.capacity x >>= _) = _
    rw [run _ follows.room]
    rfl

theorem cursor_run (follows : m.Follows a) :
    ∃ c, m.cursor = .ok c ∧ c.Walks a.tree.height a.tree.entries := by
  have low := follows.valid.height_le
  exact Cursor.start_walks follows.spells
    (Nat.le_of_eq follows.valid.avl.heights.height_eq_depth.symm)
    (by rw [Cursor.maxDepth]; omega) follows.len

theorem entries_run (follows : m.Follows a) : m.entries = .ok a.tree.entries := by
  obtain ⟨c, started, walks⟩ := cursor_run follows
  rw [entries, started]
  exact Cursor.drain_run walks .left

theorem entriesDown_run (follows : m.Follows a) :
    m.entriesDown = .ok a.tree.entries.reverse := by
  obtain ⟨c, started, walks⟩ := cursor_run follows
  rw [entriesDown, started]
  exact Cursor.drain_run walks .right

theorem toTree_run (follows : m.Follows a) : m.toTree = .ok a.tree :=
  Subtree.toTree_run follows.spells follows.room

theorem height_run (follows : m.Follows a) : m.height = .ok a.tree.height := by
  have spells := follows.spells
  unfold height
  generalize m.root = link at spells
  generalize a.tree = t at spells
  cases spells with
  | nil => rfl
  | node found _ _ =>
    show _ <$> m.pool.read _ = _
    rw [found]
    rfl

/-! ## Requests -/

theorem reading_of_ok {read : Map α β → Except Fault γ} {x : γ} (got : read m = .ok x)
    (answer : γ → Answer α β) : reading read answer m = .ok (answer x) m := by
  rw [reading, got]

theorem settling_of_ok {step : MapM α β γ} {x : γ} (done : step m = .ok x n)
    (answer : γ → Answer α β) : settling step answer m = .ok (answer x) n := by
  rw [settling, done]

/-- The answer is a refusal only if the step was refused. -/
theorem settling_eq_refused {step : MapM α β γ} {answer : γ → Answer α β} {why : Refusal}
    (apart : ∀ x, answer x ≠ .refused why)
    (settled : settling step answer m = .ok (.refused why) n) :
    step m = .error (.refused why) n := by
  rw [settling] at settled
  cases outcome : step m with
  | ok x k =>
    rw [outcome] at settled
    exact absurd (EStateM.Result.ok.inj settled).1 (apart x)
  | error e k =>
    rw [outcome] at settled
    cases e with
    | refused why' =>
      cases settled
      rfl
    | fault what => cases settled

/-- A refusal is an answer, so a step that follows a chart always ends well. -/
theorem settling_run {step : MapM α β γ} {outcome : Except Refusal γ × Chart α β}
    (refines : Refines step m outcome) (answer : γ → Answer α β) :
    ∃ n, settling step answer m = .ok (Chart.settle answer outcome).1 n ∧
      n.Follows (Chart.settle answer outcome).2 := by
  obtain ⟨result, b⟩ := outcome
  cases result with
  | ok x =>
    obtain ⟨n, done, follows⟩ := refines
    exact ⟨n, settling_of_ok done answer, follows⟩
  | error why =>
    obtain ⟨n, failed, follows⟩ := refines
    refine ⟨n, ?_, follows⟩
    rw [settling, failed]
    rfl

/-- A map answers every request as its chart does, and follows it further. -/
theorem perform_run (follows : m.Follows a) (request : Request α β) :
    ∃ n, perform request m = .ok (a.perform request).1 n ∧ n.Follows (a.perform request).2 := by
  cases request with
  | insert key value => exact settling_run (insert_run follows key value) .value
  | insertMany pairs => exact settling_run (insertMany_run follows pairs) fun _ => .done
  | remove key =>
    obtain ⟨n, done, follows'⟩ := remove_run follows key
    exact ⟨n, settling_of_ok done .value, follows'⟩
  | removeEntry key =>
    obtain ⟨n, done, follows'⟩ := removeEntry_run follows key
    exact ⟨n, settling_of_ok done .entry, follows'⟩
  | replace key value =>
    obtain ⟨n, done, follows'⟩ := replace_run follows key value
    exact ⟨n, settling_of_ok done .value, follows'⟩
  | clear =>
    obtain ⟨n, done, follows', -⟩ := clear_run follows
    exact ⟨n, settling_of_ok done fun _ => .done, follows'⟩
  | get key =>
    refine ⟨m, ?_, follows⟩
    show reading (·.get? key) .value m = _
    exact reading_of_ok (get?_run follows key) .value
  | getEntry key =>
    refine ⟨m, ?_, follows⟩
    show reading (·.lookup? key) .entry m = _
    exact reading_of_ok (lookup?_run follows key) .entry
  | contains key =>
    refine ⟨m, ?_, follows⟩
    show reading (·.contains key) .flag m = _
    exact reading_of_ok (contains_run follows key) .flag
  | first =>
    refine ⟨m, ?_, follows⟩
    show reading (·.outermost? .left) .entry m = _
    exact reading_of_ok (outermost?_run follows .left) .entry
  | last =>
    have got := outermost?_run follows .right
    rw [Tree.entriesFrom_right, List.head?_reverse] at got
    refine ⟨m, ?_, follows⟩
    show reading (·.outermost? .right) .entry m = _
    exact reading_of_ok got .entry
  | entries =>
    refine ⟨m, ?_, follows⟩
    show reading (·.entries) .entries m = _
    exact reading_of_ok (entries_run follows) .entries
  | entriesDown =>
    refine ⟨m, ?_, follows⟩
    show reading (·.entriesDown) .entries m = _
    exact reading_of_ok (entriesDown_run follows) .entries
  | keys =>
    have got : m.keys = .ok (a.tree.entries.map (·.1)) := by
      rw [keys, entries_run follows]
      rfl
    refine ⟨m, ?_, follows⟩
    show reading (·.keys) .keys m = _
    exact reading_of_ok got .keys
  | values =>
    have got : m.values = .ok (a.tree.entries.map (·.2)) := by
      rw [values, entries_run follows]
      rfl
    refine ⟨m, ?_, follows⟩
    show reading (·.values) .values m = _
    exact reading_of_ok got .values
  | inorder =>
    have got : m.inorder (fun (seen : Array (α × β)) key value => seen.push (key, value)) #[] =
        .ok a.tree.entries.toArray := by
      rw [inorder, entries_run follows]
      show Except.ok (a.tree.entries.foldl Array.push #[]) = _
      rw [List.foldl_push_eq_append', Array.empty_append]
    refine ⟨m, ?_, follows⟩
    rw [perform, reading_of_ok got]
    rfl
  | len =>
    refine ⟨m, ?_, follows⟩
    show reading (fun m => .ok m.len) .count m = .ok (.count a.tree.size) m
    rw [← follows.len]
    rfl
  | isEmpty =>
    refine ⟨m, ?_, follows⟩
    show reading (fun m => .ok m.isEmpty) .flag m = .ok (.flag (a.tree.size == 0)) m
    rw [← follows.len]
    rfl
  | isFull =>
    refine ⟨m, ?_, follows⟩
    show reading (fun m => .ok m.isFull) .flag m = .ok (.flag (a.tree.size == a.capacity)) m
    rw [← follows.len, ← follows.capacity]
    rfl

/-- A run goes on from the map that its first request leaves. -/
theorem run_cons_iff {request : Request α β} {rest : List (Request α β)} {answer : Answer α β}
    {answers : List (Answer α β)} : run (request :: rest) m = .ok (answer :: answers) n ↔
      ∃ k, perform request m = .ok answer k ∧ run rest k = .ok answers n := by
  rw [run]
  cases first : perform request m with
  | error e k =>
    rw [bind_of_error first]
    constructor
    · intro done
      cases done
    · rintro ⟨k', done, -⟩
      cases done
  | ok x k =>
    rw [bind_of_ok first]
    cases further : run rest k with
    | error e k' =>
      rw [bind_of_error further]
      constructor
      · intro done
        cases done
      · rintro ⟨k'', done, ended⟩
        cases done
        rw [further] at ended
        cases ended
    | ok xs k' =>
      rw [bind_of_ok further]
      constructor
      · intro done
        cases done
        exact ⟨k, rfl, further⟩
      · rintro ⟨k'', done, ended⟩
        cases done
        rw [further] at ended
        cases ended
        rfl

theorem run_run (follows : m.Follows a) (requests : List (Request α β)) :
    ∃ n, run requests m = .ok (a.run requests).1 n ∧ n.Follows (a.run requests).2 := by
  induction requests generalizing m a with
  | nil => exact ⟨m, rfl, follows⟩
  | cons request rest ih =>
    obtain ⟨n, answered, follows'⟩ := perform_run follows request
    obtain ⟨n', finished, follows''⟩ := ih follows'
    exact ⟨n', run_cons_iff.2 ⟨n, answered, finished⟩, follows''⟩

end BoundedMap.Map
