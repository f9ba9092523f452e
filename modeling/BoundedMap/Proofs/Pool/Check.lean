import BoundedMap.Proofs.Pool.Slots
/-!
# What the self-check of a pool finds out

The check follows the free list and marks what it meets, then compares counts. It never
looks for a free slot that the list has missed, and need not: distinct free slots in the
right number are all of them. So it passes exactly the well-formed pools
(`check_eq_ok_iff_wellFormed`).

Each slot is marked once, so the limit of the walk is never reached, however the slots are
linked (`check_ends`).
-/

namespace BoundedMap.Pool

variable {α β : Type} {p : Pool α β} {g h : Handle} {hs : List Handle} {t : Option Handle}
  {marks : Array Bool} {limit count total : Nat}

/-! ## Marks -/

/-- The handle names a slot that has not been met. -/
def Unmarked (marks : Array Bool) (h : Handle) : Prop :=
  marks[h.index]? = some false

theorem unmarked_replicate {capacity : Nat} :
    Unmarked (Array.replicate capacity false) h ↔ h.index < capacity := by
  simp [Unmarked, Array.getElem?_replicate]

/-- Marking one slot leaves the others as they were. -/
theorem unmarked_mark_iff : Unmarked (marks.setIfInBounds h.index true) g ↔
    g ≠ h ∧ Unmarked marks g := by
  rw [Unmarked, Unmarked, Array.getElem?_setIfInBounds]
  by_cases same : h.index = g.index
  · obtain rfl := Handle.index_inj.1 same
    simp
  · rw [if_neg same]
    exact ⟨fun unmarked => ⟨fun equal => same (equal ▸ rfl), unmarked⟩, And.right⟩

/-- Slots that were not met are still not met after another one is marked. -/
theorem unmarked_mark (unmarked : ∀ g ∈ hs, Unmarked marks g) (off : h ∉ hs) :
    ∀ g ∈ hs, Unmarked (marks.setIfInBounds h.index true) g :=
  fun g member => unmarked_mark_iff.2 ⟨fun same => off (same ▸ member), unmarked g member⟩

/-- Marking takes one off the slots that are left to be met. -/
theorem count_mark (unmarked : Unmarked marks h) :
    (marks.setIfInBounds h.index true).count false + 1 = marks.count false := by
  obtain ⟨inRange, value⟩ := Array.getElem?_eq_some_iff.1 unmarked
  have positive : 0 < marks.count false :=
    Array.count_pos_iff.2 (value ▸ Array.getElem_mem inRange)
  rw [Array.setIfInBounds_def, dif_pos inRange, Array.count_set, value]
  rw [if_pos BEq.rfl, if_neg (by decide)]
  omega

/-! ## The walk along the free list -/

theorem checkFree_nil : p.checkFree limit none marks count = .ok count := by
  cases limit <;> rfl

/-- One step of the walk, onto a free slot that has not been met. -/
theorem checkFree_cons {next : Option Handle} (unmarked : Unmarked marks h)
    (unused : p.slot h = .ok (.free next)) : p.checkFree (limit + 1) (some h) marks count =
      p.checkFree limit next (marks.setIfInBounds h.index true) (count + 1) := by
  rw [checkFree, unmarked]
  simp only [unused]

/-- Every other step ends the walk, and not for want of a limit. -/
theorem checkFree_stuck (limit count : Nat)
    (stuck : ¬ (Unmarked marks h ∧ ∃ next, p.slot h = .ok (.free next))) :
    ∃ v, p.checkFree (limit + 1) (some h) marks count = .error v ∧ v ≠ .fault .endlessPath := by
  rw [checkFree]
  cases mark : marks[h.index]? with
  | none => exact ⟨_, rfl, by simp⟩
  | some met =>
    cases met with
    | true => exact ⟨_, rfl, by simp⟩
    | false =>
      cases found : p.slot h with
      | error what =>
        refine ⟨_, rfl, ?_⟩
        rintro ⟨⟩
        unfold slot at found
        split at found <;> cases found
      | ok s =>
        cases s with
        | occupied n => exact ⟨_, rfl, by simp⟩
        | free next => exact absurd ⟨mark, next, found⟩ stuck

/-- A walk that ends well has followed a list of distinct free slots. -/
theorem lists_of_checkFree (done : p.checkFree limit t marks count = .ok total) :
    ∃ hs, Lists p t hs ∧ hs.Nodup ∧ (∀ h ∈ hs, Unmarked marks h) ∧ total = count + hs.length := by
  induction limit generalizing t marks count with
  | zero =>
    cases t with
    | none =>
      rw [checkFree_nil] at done
      exact ⟨[], .nil, .nil, by simp, (Except.ok.inj done).symm⟩
    | some h => cases done
  | succ limit ih =>
    cases t with
    | none =>
      rw [checkFree_nil] at done
      exact ⟨[], .nil, .nil, by simp, (Except.ok.inj done).symm⟩
    | some h =>
      by_cases fresh : Unmarked marks h ∧ ∃ next, p.slot h = .ok (.free next)
      · obtain ⟨unmarked, next, unused⟩ := fresh
        rw [checkFree_cons unmarked unused] at done
        obtain ⟨hs, lists, nodup, later, rfl⟩ := ih done
        have apart : h ∉ hs := fun member => (unmarked_mark_iff.1 (later h member)).1 rfl
        refine ⟨h :: hs, .cons unused lists, List.nodup_cons.2 ⟨apart, nodup⟩, ?_, ?_⟩
        · intro g member
          rcases List.mem_cons.1 member with rfl | member
          · exact unmarked
          · exact (unmarked_mark_iff.1 (later g member)).2
        · rw [List.length_cons]
          omega
      · obtain ⟨v, failed, -⟩ := checkFree_stuck limit count fresh
        cases done.symm.trans failed

/-- A list of distinct free slots is walked to its end. -/
theorem checkFree_run (lists : Lists p t hs) (nodup : hs.Nodup)
    (unmarked : ∀ h ∈ hs, Unmarked marks h) (room : hs.length ≤ limit) :
    p.checkFree limit t marks count = .ok (count + hs.length) := by
  induction lists generalizing limit marks count with
  | nil => exact checkFree_nil
  | @cons h next rest unused _ ih =>
    obtain ⟨apart, nodup⟩ := List.nodup_cons.1 nodup
    rw [List.length_cons] at room
    obtain ⟨limit, rfl⟩ : ∃ k, limit = k + 1 := ⟨limit - 1, by omega⟩
    have later := unmarked_mark (fun g member => unmarked g (List.mem_cons_of_mem _ member)) apart
    rw [checkFree_cons (unmarked h List.mem_cons_self) unused, ih nodup later (by omega)]
    rw [List.length_cons]
    congr 1
    omega

/-- The walk ends before a limit that exceeds the number of slots left to be met. -/
theorem checkFree_ends (room : marks.count false < limit) :
    p.checkFree limit t marks count ≠ .error (.fault .endlessPath) := by
  induction limit generalizing t marks count with
  | zero => exact absurd room (Nat.not_lt_zero _)
  | succ limit ih =>
    cases t with
    | none =>
      rw [checkFree_nil]
      exact nofun
    | some h =>
      by_cases fresh : Unmarked marks h ∧ ∃ next, p.slot h = .ok (.free next)
      · obtain ⟨unmarked, next, unused⟩ := fresh
        have fewer := count_mark unmarked
        rw [checkFree_cons unmarked unused]
        exact ih (by omega)
      · obtain ⟨v, failed, other⟩ := checkFree_stuck limit count fresh
        rw [failed]
        exact fun same => other (Except.error.inj same)

/-! ## The whole check -/

/-- After the walk the counts are compared. -/
theorem check_eq (p : Pool α β) : p.check =
    match p.checkFree (p.capacity + 1) p.free (Array.replicate p.capacity false) 0 with
    | .error v => .error v
    | .ok free =>
      if p.occupied ≠ p.live then .error (.wrongLiveCount p.live p.occupied)
      else if free + p.live ≠ p.capacity then .error (.unaccounted free p.live p.capacity)
      else .ok () := by
  rw [check]
  cases p.checkFree (p.capacity + 1) p.free (Array.replicate p.capacity false) 0 with
  | error v => rfl
  | ok free =>
    simp only [bind, Except.bind]
    split
    · rfl
    · split <;> rfl

/-- The check of a pool ends, whatever its links are. -/
theorem check_ends (p : Pool α β) : p.check ≠ .error (.fault .endlessPath) := by
  have ends : p.checkFree (p.capacity + 1) p.free (Array.replicate p.capacity false) 0 ≠
      .error (.fault .endlessPath) := checkFree_ends (by simp)
  rw [check_eq]
  split
  · rename_i v walked
    rintro ⟨⟩
    exact ends walked
  · split
    · exact nofun
    · split <;> exact nofun

/-- The check passes the well-formed pools and no others. -/
theorem check_eq_ok_iff_wellFormed (small : p.capacity ≤ maxCapacity) :
    p.check = .ok () ↔ p.WellFormed := by
  constructor
  · intro passed
    rw [check_eq] at passed
    split at passed
    · cases passed
    · rename_i total walked
      split at passed
      · cases passed
      · rename_i live
        split at passed
        · cases passed
        · rename_i counted
          obtain ⟨hs, lists, nodup, -, rfl⟩ := lists_of_checkFree walked
          have enough : hs.length + p.occupied = p.capacity := by omega
          refine ⟨small, by omega, hs, lists, nodup, fun h => ⟨lists.slot_of_mem, ?_⟩⟩
          rintro ⟨next, unused⟩
          exact mem_of_length_add_occupied small nodup (fun g => lists.slot_of_mem) enough unused
  · rintro ⟨-, live, hs, lists, nodup, all⟩
    have counted := length_freeSlots_add_occupied small
    rw [← (perm_freeSlots small nodup all).length_eq] at counted
    have unmarked : ∀ h ∈ hs, Unmarked (Array.replicate p.capacity false) h := by
      intro h member
      obtain ⟨next, unused⟩ := lists.slot_of_mem member
      exact unmarked_replicate.2 (index_lt_of_slot unused)
    rw [check_eq, checkFree_run lists nodup unmarked (by omega)]
    dsimp only
    rw [if_neg (by omega), if_neg (by omega)]

end BoundedMap.Pool
