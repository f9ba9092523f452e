import BoundedMap.Proofs.Chart.Reachable
import BoundedMap.Proofs.Pool.Recycling
import BoundedMap.Proofs.Subtree.Accesses
/-!
# Maps recycle the slots of removed entries

What a map asks of its pool is a sequence of pool requests (`Accesses`), and an insertion
asks for no release in it, a removal and `clear` for no acquisition, and any other request
for neither, so that the accesses of a run are determined as far as a ledger records them.
The law of the pool, which holds for all sequences, therefore holds for the pool of a map
after every run (`recycled_of_run`).
-/

namespace BoundedMap.Map

open Pool (Uses)

variable {α β γ : Type} {m n : Map α β}

/-! ## What a request asks of the pool -/

/-- Whether a request may make this access to the pool. -/
def Permits : Request α β → Pool.Request α β → Bool
  | .insert _ _, access => !access.gives
  | .insertMany _, access => !access.gives
  | .remove _, access => !access.takes
  | .removeEntry _, access => !access.takes
  | .clear, access => !access.takes
  | _, access => access.keeps

section Steps

variable {kind : Pool.Request α β → Prop}

theorem onPool_uses {step : (α → α → Bool) → Option Handle → Nat → PoolM α β γ}
    (uses : ∀ less root limit, Uses id kind (step less root limit)) :
    Uses pool kind (onPool step) := by
  rintro ⟨less, root, p, len⟩
  obtain ⟨accesses, allowed, ran⟩ := uses less root p.capacity p
  refine ⟨accesses, allowed, ?_⟩
  rw [leave] at ran ⊢
  rw [onPool]
  dsimp only at ran ⊢
  rw [id_eq] at ran
  rw [ran]
  cases step less root p.capacity p <;> rfl

theorem setRoot_uses (root : Option Handle) : Uses pool kind (setRoot (α := α) (β := β) root) :=
  .of_same fun _ => rfl

theorem setLen_uses (len : Nat) : Uses pool kind (setLen (α := α) (β := β) len) :=
  .of_same fun _ => rfl

theorem reading_uses (read : Map α β → Except Fault γ) (answer : γ → Answer α β) :
    Uses pool kind (reading read answer) := by
  refine .of_same fun m => ?_
  rw [leave, reading]
  cases read m <;> rfl

/-- Taking a refusal for an answer changes nothing. -/
theorem settling_uses {step : MapM α β γ} {answer : γ → Answer α β}
    (uses : Uses pool kind step) : Uses pool kind (settling step answer) := by
  intro m
  obtain ⟨accesses, allowed, ran⟩ := uses m
  refine ⟨accesses, allowed, ran.trans ?_⟩
  rw [leave, leave, settling]
  cases step m with
  | ok x n => rfl
  | error e n => cases e <;> rfl

theorem insert_uses (key : α) (value : β) :
    Uses pool (·.gives = false) (insert (α := α) key value) := by
  refine .bind (onPool_uses fun less root limit => Subtree.insert_uses less key value limit root)
    fun (root, old) => .bind (setRoot_uses (some root)) fun _ => ?_
  dsimp only
  split
  · exact .bind .get fun m => .bind (.lift _) fun len => .bind (setLen_uses len) fun _ => .pure old
  · exact .pure old

theorem insertMany_uses (pairs : List (α × β)) :
    Uses pool (·.gives = false) (insertMany pairs) := by
  induction pairs with
  | nil => exact .pure ()
  | cons pair rest ih =>
    exact .bind (.bind (insert_uses pair.1 pair.2) fun _ => .pure ()) fun _ => ih

theorem removeEntry_uses (probe : α) :
    Uses (β := β) pool (·.takes = false) (removeEntry (α := α) probe) := by
  refine .bind (onPool_uses fun less root limit => Subtree.remove_uses less probe limit root)
    fun (root, removed) => .bind (setRoot_uses root) fun _ => ?_
  dsimp only
  split
  · exact .bind .get fun m => .bind (.lift _) fun len => .bind (setLen_uses len) fun _ =>
      .pure removed
  · exact .pure removed

theorem remove_uses (probe : α) :
    Uses (β := β) pool (·.takes = false) (remove (α := α) probe) :=
  .bind (removeEntry_uses probe) fun _ => .pure _

theorem replace_uses (probe : α) (value : β) :
    Uses pool (·.keeps = true) (replace (α := α) probe value) := by
  refine .bind .get fun m => .bind (.lift _) fun found => ?_
  cases found with
  | none => exact .pure none
  | some x =>
    exact onPool_uses fun _ _ _ => .bind (Pool.uses_node x) fun n =>
      .bind (Pool.uses_setValue rfl) fun _ => .pure _

theorem clear_uses : Uses (α := α) (β := β) pool (·.takes = false) clear :=
  .bind (onPool_uses fun _ root limit => Subtree.releaseAll_uses limit root) fun _ =>
    .bind (setRoot_uses none) fun _ => setLen_uses 0

end Steps

/-- A request makes no access that it is not permitted. -/
theorem perform_uses (request : Request α β) :
    Uses pool (Permits request · = true) (perform request) := by
  cases request with
  | insert key value =>
    exact (settling_uses (insert_uses key value)).mono fun access none => by simp [Permits, none]
  | insertMany pairs =>
    exact (settling_uses (insertMany_uses pairs)).mono fun access none => by simp [Permits, none]
  | remove key =>
    exact (settling_uses (remove_uses key)).mono fun access none => by simp [Permits, none]
  | removeEntry key =>
    exact (settling_uses (removeEntry_uses key)).mono fun access none => by simp [Permits, none]
  | replace key value => exact settling_uses (replace_uses key value)
  | clear => exact (settling_uses clear_uses).mono fun access none => by simp [Permits, none]
  | len => exact reading_uses (fun m => .ok m.len) .count
  | isEmpty => exact reading_uses (fun m => .ok m.isEmpty) .flag
  | isFull => exact reading_uses (fun m => .ok m.isFull) .flag
  | _ => exact reading_uses _ _

/-! ## Runs -/

/-- The accesses to the pool by which a run of requests leads from one map to another. -/
inductive Accesses : List (Request α β) → Map α β → List (Pool.Request α β) → Map α β → Prop
  | nil {m : Map α β} : Accesses [] m [] m
  | cons {request : Request α β} {requests : List (Request α β)} {answer : Answer α β}
    {m k n : Map α β} {first later : List (Pool.Request α β)} :
    perform request m = .ok answer k → (∀ access ∈ first, Permits request access) →
      (Pool.run first m.pool).2 = k.pool → Accesses requests k later n →
      Accesses (request :: requests) m (first ++ later) n

/-- A run leaves the pool that its accesses leave. -/
theorem Accesses.run_eq {requests : List (Request α β)} {accesses : List (Pool.Request α β)}
    (made : Accesses requests m accesses n) : (Pool.run accesses m.pool).2 = n.pool := by
  induction made with
  | nil => rfl
  | cons _ _ ran _ ih => rw [Pool.run_append, ran, ih]

/-- A run makes its accesses. -/
theorem exists_accesses {a : Chart α β} (follows : m.Follows a) (requests : List (Request α β)) :
    ∃ accesses n, run requests m = .ok (a.run requests).1 n ∧ Accesses requests m accesses n := by
  induction requests generalizing m a with
  | nil => exact ⟨[], m, rfl, .nil⟩
  | cons request rest ih =>
    obtain ⟨k, answered, follows'⟩ := perform_run follows request
    obtain ⟨later, n, finished, made⟩ := ih follows'
    obtain ⟨first, permitted, ran⟩ := perform_uses request m
    rw [leave, answered] at ran
    exact ⟨first ++ later, n, run_cons_iff.2 ⟨k, answered, finished⟩,
      .cons answered permitted ran made⟩

/-- However a pool was used since it was fresh, its free list is what was released and not
handed out again, the latest release first, and then what was never handed out, in ascending
order; and the slots handed out are those below the largest number of slots that were
live at a time. The accesses of a map to its pool are such a use, in every run of requests. -/
theorem recycled_of_run {capacity : Nat} (small : capacity ≤ maxCapacity) :
    ∃ p : Pool α β, Pool.allocate capacity = .ok p ∧
      (∀ accesses, (Pool.run accesses p).2.Recycled (Pool.ledger accesses p .opened)) ∧
      ∀ less requests, ∃ m answers n accesses, withCapacity less capacity = .ok m ∧
        run requests m = .ok answers n ∧ Accesses requests m accesses n ∧
        n.pool.Recycled (Pool.ledger accesses p .opened) := by
  refine ⟨.fresh capacity, Pool.allocate_eq small, Pool.run_recycled small, ?_⟩
  intro less requests
  obtain ⟨accesses, n, ran, made⟩ := exists_accesses (follows_ofPool less small) requests
  refine ⟨_, _, n, accesses, withCapacity_eq less small, ran, made, ?_⟩
  rw [← made.run_eq]
  exact Pool.run_recycled small accesses

/-- Three of four slots are handed out and two are released, the second one in vain a second
time: the next one comes from those two. The last slot of a map that was cleared and used
again stays at the end of the free list. -/
theorem recycled_after_clear :
    4 ≤ maxCapacity ∧ ∃ p : Pool Nat Nat, Pool.allocate 4 = .ok p ∧
      (∃ l : Pool.Ledger, Pool.ledger [.acquire 5 50, .acquire 6 60, .acquire 7 70,
          .release (.ofIndex 1), .release (.ofIndex 0), .release (.ofIndex 0), .acquire 8 80] p
          .opened = l ∧
        l = ⟨[.ofIndex 0, .ofIndex 2, .ofIndex 1, .ofIndex 0], [.ofIndex 1], 3⟩ ∧
        (Pool.run [.acquire 5 50, .acquire 6 60, .acquire 7 70,
          .release (.ofIndex 1), .release (.ofIndex 0), .release (.ofIndex 0), .acquire 8 80]
          p).2.Recycled l) ∧
      ∃ (m n : Map Nat Nat) (accesses : List (Pool.Request Nat Nat)),
        withCapacity Order.ascending 4 = .ok m ∧
        run [.insertMany [(2, 20), (1, 10), (3, 30)], .remove 1, .clear, .insert 7 70] m =
          .ok [.done, .value (some 10), .done, .value none] n ∧
        n.pool.Recycled (Pool.ledger accesses p .opened) ∧
        n.pool.Lists n.pool.free [.ofIndex 2, .ofIndex 1, .ofIndex 3] := by
  have small : 4 ≤ maxCapacity := by decide
  obtain ⟨p, allocated, law, ofMaps⟩ := recycled_of_run (α := Nat) (β := Nat) small
  obtain rfl := Except.ok.inj ((Pool.allocate_eq small).symm.trans allocated)
  obtain ⟨m, answers, n, accesses, built, ran, -, recycled⟩ := ofMaps Order.ascending
    [.insertMany [(2, 20), (1, 10), (3, 30)], .remove 1, .clear, .insert 7 70]
  obtain ⟨-, follows⟩ := follows_of_withCapacity built
  obtain ⟨n', ran', follows'⟩ := run_run follows
    [.insertMany [(2, 20), (1, 10), (3, 30)], .remove 1, .clear, .insert 7 70]
  obtain ⟨-, rfl⟩ := EStateM.Result.ok.inj (ran.symm.trans ran')
  refine ⟨small, _, allocated, ⟨_, rfl, by decide +kernel, law _⟩, m, n, accesses, built, ran',
    recycled, follows'.lists⟩

end BoundedMap.Map
