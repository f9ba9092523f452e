import BoundedMap.Pool.Request
/-!
# What a step leaves alone

`AgreeOff p q hs` says that two pools hold the same slots off `hs`, and
`Rewrites p q hs` that moreover the free list and the count of live slots are
the same: nothing but nodes at `hs` was written. The steps of a pool are stated
in these terms, so that whoever chains them never looks at an array.
-/

namespace BoundedMap

section Chaining

variable {σ γ δ : Type} {step : EStateM Failure σ γ} {next : γ → EStateM Failure σ δ} {s t : σ}

/-- A step that ends well hands its answer and its state on. -/
theorem bind_of_ok {a : γ} (done : step s = .ok a t) : (step >>= next) s = next a t := by
  show EStateM.bind step next s = next a t
  rw [EStateM.bind, done]

/-- A step that fails ends the computation. -/
theorem bind_of_error {e : Failure} (failed : step s = .error e t) :
    (step >>= next) s = .error e t := by
  show EStateM.bind step next s = .error e t
  rw [EStateM.bind, failed]

end Chaining

namespace Pool

variable {α β : Type} {p q r : Pool α β} {hs ks : List Handle}

/-- The two pools hold the same slots off `hs`. -/
structure AgreeOff (p q : Pool α β) (hs : List Handle) : Prop where
  capacity : q.capacity = p.capacity
  slot : ∀ h, h ∉ hs → q.slot h = p.slot h

/-- Nothing was written but slots at `hs`. -/
structure Rewrites (p q : Pool α β) (hs : List Handle) : Prop extends AgreeOff p q hs where
  free : q.free = p.free
  live : q.live = p.live

namespace AgreeOff

theorem refl (p : Pool α β) (hs : List Handle) : AgreeOff p p hs :=
  ⟨rfl, fun _ _ => rfl⟩

theorem trans (first : AgreeOff p q hs) (second : AgreeOff q r hs) : AgreeOff p r hs where
  capacity := second.capacity.trans first.capacity
  slot h off := (second.slot h off).trans (first.slot h off)

theorem mono (agree : AgreeOff p q hs) (within : hs ⊆ ks) : AgreeOff p q ks where
  capacity := agree.capacity
  slot h off := agree.slot h fun member => off (within member)

theorem read (agree : AgreeOff p q hs) {h : Handle} (off : h ∉ hs) : q.read h = p.read h := by
  rw [Pool.read, Pool.read, agree.slot h off]

theorem read_of_ne {g h : Handle} (agree : AgreeOff p q [g]) (differ : h ≠ g) :
    q.read h = p.read h :=
  agree.read fun here => differ (List.mem_singleton.1 here)

end AgreeOff

namespace Rewrites

theorem refl (p : Pool α β) (hs : List Handle) : Rewrites p p hs :=
  ⟨.refl p hs, rfl, rfl⟩

theorem trans (first : Rewrites p q hs) (second : Rewrites q r hs) : Rewrites p r hs where
  toAgreeOff := first.toAgreeOff.trans second.toAgreeOff
  free := second.free.trans first.free
  live := second.live.trans first.live

theorem mono (rewrites : Rewrites p q hs) (within : hs ⊆ ks) : Rewrites p q ks where
  toAgreeOff := rewrites.toAgreeOff.mono within
  free := rewrites.free
  live := rewrites.live

/-- Writing one node rewrites its slot. -/
theorem put (p : Pool α β) (h : Handle) (s : Slot α β) : Rewrites p (p.put h s) [h] where
  capacity := capacity_put p h s
  slot _ off := slot_put_of_ne s fun same => off (same ▸ List.mem_singleton_self h)
  free := rfl
  live := rfl

end Rewrites

/-! ## Acquiring and releasing -/

theorem slot_of_read {h : Handle} {n : Node α β} (live : p.read h = .ok n) :
    p.slot h = .ok (.occupied n) :=
  read_eq_ok_iff.1 live

/-- A slot is free or live, not both. -/
theorem ne_of_read_of_slot {g h : Handle} {n : Node α β} {next : Option Handle}
    (live : p.read g = .ok n) (unused : p.slot h = .ok (.free next)) : g ≠ h := by
  rintro rfl
  rw [slot_of_read live] at unused
  cases unused

theorem index_lt_of_slot {h : Handle} {s : Slot α β} (found : p.slot h = .ok s) :
    h.index < p.capacity :=
  (Array.getElem?_eq_some_iff.1 (slot_eq_ok_iff.1 found)).1

theorem exists_slot {h : Handle} (inRange : h.index < p.capacity) : ∃ s, p.slot h = .ok s := by
  have present := Array.getElem?_eq_getElem (show h.index < p.slots.size from inRange)
  exact ⟨_, slot_eq_ok_iff.2 present⟩

/-- A slot is read in vain when it is out of range or free. -/
theorem fault_of_read {h : Handle} {what : Fault} (failed : p.read h = .error what) :
    what = .outOfBounds p.capacity h.index ∨ what = .freeSlot h := by
  cases found : p.slots[h.index]? with
  | none => exact .inl (by simpa [read, slot, found] using failed.symm)
  | some s => cases s <;> simp_all [read, slot]

/-- Acquiring takes the head of the free list for a childless node. -/
theorem acquire_of_free {h : Handle} {next : Option Handle} (key : α) (value : β)
    (head : p.free = some h) (unused : p.slot h = .ok (.free next)) (room : p.live < maxCount) :
    ∃ q, acquire key value p = .ok (some h) q ∧ AgreeOff p q [h] ∧
      q.read h = .ok (.leaf key value) ∧ q.free = next ∧ q.live = p.live + 1 := by
  refine ⟨{ p.put h (.occupied (.leaf key value)) with free := next, live := p.live + 1 },
    ?_, ?_, ?_, rfl, rfl⟩
  · simp only [acquire, head, unused, countUp_of_lt room]
  · exact ⟨capacity_put p h _, (Rewrites.put p h _).slot⟩
  · exact read_eq_ok_iff.2 (slot_put_self _ (index_lt_of_slot unused))

/-- Releasing answers the entry and pushes the slot onto the free list. -/
theorem release_of_read {h : Handle} {n : Node α β} (live : p.read h = .ok n)
    (counted : 0 < p.live) :
    ∃ q, release h p = .ok (n.key, n.value) q ∧ AgreeOff p q [h] ∧
      q.slot h = .ok (.free p.free) ∧ q.free = some h ∧ q.live + 1 = p.live := by
  obtain ⟨k, hk⟩ : ∃ k, p.live = k + 1 := ⟨p.live - 1, by omega⟩
  refine ⟨{ p.put h (.free p.free) with free := some h, live := k }, ?_, ?_, ?_, rfl, hk.symm⟩
  · simp only [release, slot_of_read live, hk, countDown_succ]
  · exact ⟨capacity_put p h _, (Rewrites.put p h _).slot⟩
  · exact slot_put_self _ (index_lt_of_read live)

/-- Slots are released one after another, each of them while it is live. -/
inductive Releases : Pool α β → List Handle → Pool α β → Prop
  | nil {p : Pool α β} : Releases p [] p
  | cons {p q r : Pool α β} {h : Handle} {hs : List Handle} {e : α × β} :
    release h p = .ok e q → Releases q hs r → Releases p (h :: hs) r

theorem Releases.append {p q r : Pool α β} {hs ks : List Handle} (first : Releases p hs q)
    (later : Releases q ks r) : Releases p (hs ++ ks) r := by
  induction first with
  | nil => exact later
  | cons released _ ih => exact .cons released (ih later)

/-! ## The free list under writes -/

namespace Lists

variable {t : Option Handle}

theorem congr (lists : Lists p t hs) (same : ∀ h ∈ hs, q.slot h = p.slot h) : Lists q t hs := by
  induction lists with
  | nil => exact .nil
  | cons found _ ih =>
    refine .cons ?_ (ih fun h member => same h (List.mem_cons_of_mem _ member))
    rw [same _ List.mem_cons_self]
    exact found

/-- Writes elsewhere leave the free list as it is. -/
theorem frame (lists : Lists p t hs) (agree : AgreeOff p q ks)
    (apart : ∀ h ∈ hs, h ∉ ks) : Lists q t hs :=
  lists.congr fun h member => agree.slot h (apart h member)

theorem slot_of_mem (lists : Lists p t hs) {h : Handle} (member : h ∈ hs) :
    ∃ next, p.slot h = .ok (.free next) := by
  induction lists with
  | nil => cases member
  | @cons g next rest found _ ih =>
    rcases List.mem_cons.1 member with rfl | member
    · exact ⟨next, found⟩
    · exact ih member

/-- Nothing is listed where the list starts nowhere. -/
theorem eq_nil_iff (lists : Lists p t hs) : hs = [] ↔ t = none := by
  cases lists <;> simp

end Lists

end Pool

end BoundedMap
