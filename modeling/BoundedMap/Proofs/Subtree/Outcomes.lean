import BoundedMap.Proofs.Subtree.Insertion
import BoundedMap.Proofs.Subtree.Removal
/-!
# What an update makes of a subtree

The three recursions, each at any subtree and for any predicate. An insertion, when it succeeds,
leaves a balanced tree as high as before or higher by one (`Grown`); a removal leaves one as high as
before or lower by one (`Cut`), and so does detaching the first node (`Detached`). The slots that
are written are those of the subtree and the one that an insertion acquires.

The statements take in every outcome: which of them it is depends on the descent and on the free
list, and the caller on the way back does not look at either.
-/

namespace BoundedMap

namespace Pool

variable {α β : Type} {p : Pool α β}

/-- The free list can be popped: the slot at its head is free, and there is room to count it. -/
def Pops (p : Pool α β) : Prop :=
  ∀ h, p.free = some h → (∃ next, p.slot h = .ok (.free next)) ∧ p.live < maxCount

/-- The slots that an insertion has acquired which answered `old`. -/
def acquired (p : Pool α β) : (old : Option β) → List Handle
  | none => p.free.toList
  | some _ => []

/-- Slots are acquired from the free ones. -/
theorem Pops.not_mem_acquired (pops : p.Pops) {h : Handle} {n : Node α β}
    (live : p.read h = .ok n) (old : Option β) : h ∉ p.acquired old := by
  cases old with
  | some v => exact List.not_mem_nil
  | none =>
    intro member
    obtain ⟨⟨next, unused⟩, -⟩ := pops h (Option.mem_toList.1 member)
    exact ne_of_read_of_slot live unused rfl

end Pool

namespace Subtree

open Pool (AgreeOff Rewrites Pops acquired)

variable {α β : Type} {p q : Pool α β} {t : Option Handle} {a : Tree Handle α β}
  {less : α → α → Bool}

/-- Below every node of a standing tree stand trees that are smaller. -/
theorem Stands.child_of_mem (stands : Stands p t a) {x : Handle} {n : Node α β}
    (member : x ∈ a.labels) (found : p.read x = .ok n) (s : Side) :
    ∃ b, Stands p (n.child s) b ∧ b.depth < a.depth ∧ b.size < a.size := by
  induction a using Tree.bySides generalizing t with
  | nil => cases member
  | node c h l r ih =>
    obtain ⟨rfl, m, live, -, -, -, standsNear, standsFar⟩ := (stands.sides s).node
    rw [Tree.node_eq_branch s, Tree.mem_labels_branch] at member
    rcases member with rfl | inNear | inFar
    · obtain rfl : m = n := Except.ok.inj (live.symm.trans found)
      exact ⟨_, standsNear, Tree.depth_child_lt c h l r s, Tree.size_child_lt c h l r s⟩
    · obtain ⟨b, standsBelow, lower, fewer⟩ := ih s standsNear inNear
      exact ⟨b, standsBelow, Nat.lt_trans lower (Tree.depth_child_lt c h l r s),
        Nat.lt_trans fewer (Tree.size_child_lt c h l r s)⟩
    · obtain ⟨b, standsBelow, lower, fewer⟩ := ih s.other standsFar inFar
      exact ⟨b, standsBelow, Nat.lt_trans lower (Tree.depth_child_lt c h l r s.other),
        Nat.lt_trans fewer (Tree.size_child_lt c h l r s.other)⟩

/-! ## Insertion -/

/-- What a successful insertion leaves of the subtree `a`: the tree `b` with `y` at its head. -/
structure Grown (p : Pool α β) (a : Tree Handle α β) (old : Option β) (q : Pool α β)
    (y : Handle) (b : Tree Handle α β) : Prop where
  stands : Stands q (some y) b
  least : a.height ≤ b.height
  most : b.height ≤ a.height + 1
  within : b.labels ⊆ p.acquired old ++ a.labels
  agree : AgreeOff p q (p.acquired old ++ a.labels)

/-- An insertion ends well, or it is refused where no slot is free and nothing was written. -/
theorem insert_outcome (stands : Stands p t a) (pops : p.Pops) (less : α → α → Bool) (key : α)
    (value : β) :
    (∃ q y label, (∀ limit, a.depth ≤ limit → insert less key value limit t p =
        .ok (y, (a.find? less key).map Cell.value) q) ∧
      Grown p a ((a.find? less key).map Cell.value) q y (a.insert less label key value).1) ∨
    a.find? less key = none ∧ p.free = none ∧ ∀ limit, a.depth ≤ limit →
      insert less key value limit t p = .error (.refused (.exhausted p.capacity)) p := by
  cases found : a.find? less key with
  | some d =>
    left
    obtain ⟨q, y, run, standsAfter, rewrites⟩ := insert_run_of_find? stands found d.label value
    obtain ⟨-, least, most⟩ := Tree.insert_avl less d.label key value stands.avl
    have labels := Tree.labels_insert_of_find? less key found d.label value
    exact ⟨q, y, d.label, run, standsAfter, least, most, labels ▸ List.Subset.refl _,
      rewrites.toAgreeOff⟩
  | none =>
    cases start : p.free with
    | none =>
      have exhausted := Pool.acquire_of_empty key value start
      exact .inr ⟨rfl, rfl, fun limit => insert_run_of_exhausted stands found exhausted⟩
    | some h =>
      left
      obtain ⟨⟨next, unused⟩, room⟩ := pops h start
      obtain ⟨p₀, popped, agree, leaf, -, -⟩ := Pool.acquire_of_free key value start unused room
      have fresh : h ∉ a.labels := by
        intro member
        obtain ⟨n, live⟩ := stands.spells.read_of_mem member
        exact Pool.ne_of_read_of_slot live unused rfl
      obtain ⟨q, y, run, standsAfter, rewrites⟩ :=
        insert_run_of_acquired stands found popped agree leaf fresh
      obtain ⟨-, least, most⟩ := Tree.insert_avl less h key value stands.avl
      have taken : p.acquired (none : Option β) ++ a.labels = h :: a.labels := by
        rw [acquired, start]
        rfl
      refine ⟨q, y, h, run, standsAfter, least, most, ?_, ?_⟩
      · rw [Option.map_none, taken]
        exact (Tree.labels_insert_of_absent less key found h value).subset
      · rw [Option.map_none, taken]
        exact (agree.mono (by simp)).trans rewrites.toAgreeOff

/-! ## Removal -/

/-- What a removal leaves of the subtree `a`: the tree `b` below `link`. -/
structure Cut (p : Pool α β) (a : Tree Handle α β) (removed : Option (α × β)) (q : Pool α β)
    (link : Option Handle) (b : Tree Handle α β) : Prop where
  stands : Stands q link b
  most : b.height ≤ a.height
  least : a.height ≤ b.height + 1
  within : b.labels ⊆ a.labels
  agree : AgreeOff p q a.labels
  /-- The slot that was released is one of the subtree, and heads the free list. -/
  released : removed.isSome → ∃ x ∈ a.labels, x ∉ b.labels ∧ q.slot x = .ok (.free p.free) ∧
    q.free = some x
  absent : removed = none → q.free = p.free

/-- A removal ends well, with a key that is bound and with one that is not. -/
theorem remove_outcome (stands : Stands p t a) (counted : a.size ≤ p.live) (less : α → α → Bool)
    (probe : α) : ∃ q link, (∀ limit, a.depth ≤ limit → remove less probe limit t p =
        .ok (link, (a.find? less probe).map Cell.entry) q) ∧
      Cut p a ((a.find? less probe).map Cell.entry) q link (a.remove less probe).1 := by
  obtain ⟨-, most, least⟩ := Tree.remove_avl less probe stands.avl
  cases found : a.find? less probe with
  | none =>
    obtain ⟨q, run, standsAfter, rewrites⟩ := remove_run_of_absent stands found
    rw [Tree.remove_of_find?_eq_none stands.avl found] at most least ⊢
    refine ⟨q, t, run, standsAfter, most, least, List.Subset.refl _, rewrites.toAgreeOff,
      fun removed => ?_, fun _ => rewrites.free⟩
    cases removed
  | some d =>
    have sizes := Tree.size_remove_of_find? less probe found
    have labels := Tree.labels_remove_of_find? less probe found
    have distinct := List.nodup_cons.1 (labels.symm.nodup stands.nodup)
    obtain ⟨q, link, run, standsAfter, agree, unused, head, -⟩ :=
      remove_run_of_find? stands found (by omega)
    refine ⟨q, link, run, standsAfter, most, least, ?_, agree, fun _ => ?_, ?_⟩
    · exact fun x member => labels.subset (List.mem_cons_of_mem _ member)
    · exact ⟨d.label, labels.subset List.mem_cons_self, distinct.1, unused, head⟩
    · rintro ⟨⟩

/-! ## Detaching the first node -/

/-- What detaching leaves of the subtree `a`: the node `x` by itself, and the tree `b` of all others
below `link`. -/
structure Detached (p : Pool α β) (a : Tree Handle α β) (q : Pool α β) (link : Option Handle)
    (x : Handle) (b : Tree Handle α β) : Prop where
  stands : Stands q link b
  most : b.height ≤ a.height
  least : a.height ≤ b.height + 1
  first : ∃ c, c.label = x ∧ a.cells = c :: b.cells
  /-- The detached node is live and holds the entry that it held before. -/
  live : ∃ n m, p.read x = .ok n ∧ q.read x = .ok m ∧ m.key = n.key ∧ m.value = n.value
  off : x ∉ b.labels
  rewrites : Rewrites p q a.labels

/-- Whatever remains was there before. -/
theorem Detached.within {link : Option Handle} {x : Handle} {b : Tree Handle α β}
    (detached : Detached p a q link x b) : b.labels ⊆ a.labels := by
  obtain ⟨c, -, cells⟩ := detached.first
  rw [Tree.labels, Tree.labels, cells, List.map_cons]
  exact List.subset_cons_self _ _

/-- Detaching takes the first node of a subtree, whatever its shape. -/
theorem removeMin_outcome {x : Handle} (stands : Stands p (some x) a) :
    ∃ q link y b, (∀ limit, a.depth ≤ limit → removeMin limit x p = .ok (link, y) q) ∧
      Detached p a q link y b := by
  cases a with
  | nil => cases stands.spells
  | node c h l r =>
    obtain ⟨q, link, m, run, standsAfter, live, key, value, rewrites⟩ := removeMin_run stands
    obtain ⟨-, most, least⟩ := Tree.removeMin_avl stands.avl
    have cells := Tree.cells_removeMin c l r
    have distinct := stands.nodup
    rw [← Tree.labels_removeMin, List.nodup_cons] at distinct
    -- the entry is that of the first cell in both pools
    have inTree : (Tree.removeMin c l r).2 ∈ (Tree.node c h l r).cells := by
      show _ ∈ l.cells ++ c :: r.cells
      rw [← cells]
      exact List.mem_cons_self
    obtain ⟨n, live', key', value'⟩ := stands.spells.read_of_mem_cells inTree
    exact ⟨q, link, _, _, run, standsAfter, most, least, ⟨_, rfl, cells.symm⟩,
      ⟨n, m, live', live, key.trans key'.symm, value.trans value'.symm⟩, distinct.1, rewrites⟩

end Subtree

end BoundedMap
