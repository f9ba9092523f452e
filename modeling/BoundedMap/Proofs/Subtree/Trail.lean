import BoundedMap.Proofs.Subtree.Descent
import BoundedMap.Proofs.Tree.Edits
/-!
# The nodes that a descent passes

A descent passes nodes, each towards one side, and ends at a match or falls off the
tree. What it passed towards the right lies before the place where it ends, what it
passed towards the left lies after. When it falls off, both neighbours of that place are
among the nodes passed, so they leave only one place for a gap (`cuts_trail_iff`). No law
is asked of the predicate.

`Descends` is the descent through the links of a pool; it passes what the descent through
the spelled tree passes (`descends_run`).
-/

namespace BoundedMap

namespace Tree

variable {σ α β : Type} {less : α → α → Bool} {probe : α} {t : Tree σ α β} {x : σ}

/-- The labels that a descent for `probe` passes, each with the side it takes there. -/
def trail (less : α → α → Bool) (probe : α) : Tree σ α β → List (σ × Side)
  | nil => []
  | node c _ l r =>
    match turn less probe c.key with
    | some .left => (c.label, .left) :: l.trail less probe
    | some .right => (c.label, .right) :: r.trail less probe
    | none => []

/-- The nodes passed lie on the proper sides of place `p` in a sequence: those passed
towards the right before it, those passed towards the left from it on. -/
structure Cuts (passed : List (σ × Side)) (labels : List σ) (p : Nat) : Prop where
  le : p ≤ labels.length
  before : ∀ x, (x, Side.right) ∈ passed → x ∈ labels.take p
  after : ∀ x, (x, Side.left) ∈ passed → x ∈ labels.drop p

namespace Cuts

variable {passed : List (σ × Side)} {as bs : List σ} {p : Nat}

/-- A sequence is not cut before a label that was passed towards the right. -/
theorem length_le (cuts : Cuts passed (as ++ bs) p) (nodup : (as ++ bs).Nodup)
    (last : ∀ x, as.getLast? = some x → (x, Side.right) ∈ passed) : as.length ≤ p := by
  apply Nat.le_of_not_lt
  intro short
  rcases List.eq_nil_or_concat as with rfl | ⟨rest, x, rfl⟩
  · exact Nat.not_lt_zero p short
  · rw [List.concat_eq_append] at cuts nodup last short
    have member := cuts.before x (last x List.getLast?_concat)
    rw [List.length_append, List.length_singleton] at short
    rw [List.append_assoc] at member nodup
    rw [List.take_append_of_le_length (by omega)] at member
    exact (List.nodup_append.1 nodup).2.2 x (List.mem_of_mem_take member) x List.mem_cons_self rfl

/-- A sequence is not cut after a label that was passed towards the left. -/
theorem le_length (cuts : Cuts passed (as ++ bs) p) (nodup : (as ++ bs).Nodup)
    (first : ∀ x, bs.head? = some x → (x, Side.left) ∈ passed) : p ≤ as.length := by
  apply Nat.le_of_not_lt
  intro far
  cases bs with
  | nil =>
    have le := cuts.le
    rw [List.append_nil] at le
    exact Nat.not_lt.2 le far
  | cons x rest =>
    have member := cuts.after x (first x rfl)
    obtain ⟨k, rfl⟩ : ∃ k, p = as.length + (k + 1) := ⟨p - as.length - 1, by omega⟩
    rw [List.drop_length_add_append, List.drop_succ_cons] at member
    have notRest := (List.nodup_cons.1 (List.nodup_append.1 nodup).2.1).1
    exact notRest (List.mem_of_mem_drop member)

end Cuts

theorem trail_of_turn {c : Cell σ α β} {s : Side} (h : Nat) (l r : Tree σ α β)
    (turned : turn less probe c.key = some s) : (node c h l r).trail less probe =
      (c.label, s) :: ((node c h l r).child s).trail less probe := by
  rw [trail, turned]
  cases s <;> rfl

theorem trail_of_match {c : Cell σ α β} (h : Nat) (l r : Tree σ α β)
    (here : turn less probe c.key = none) : (node c h l r).trail less probe = [] := by
  rw [trail, here]

/-- What a descent passes towards the right lies before its end. -/
theorem mem_before_of_mem_trail (passed : (x, Side.right) ∈ t.trail less probe) :
    x ∈ (t.before less probe).map Cell.label := by
  induction t with
  | nil => cases passed
  | node c h l r ihl ihr =>
    cases turned : turn less probe c.key with
    | none =>
      rw [trail_of_match _ _ _ turned] at passed
      cases passed
    | some s =>
      rw [trail_of_turn _ _ _ turned, List.mem_cons, Prod.mk.injEq] at passed
      cases s with
      | left =>
        obtain ⟨-, other⟩ | below := passed
        · cases other
        · rw [before, turned]
          exact ihl below
      | right =>
        rw [before, turned, List.map_append, List.map_cons, List.mem_append, List.mem_cons]
        obtain ⟨rfl, -⟩ | below := passed
        · exact .inr (.inl rfl)
        · exact .inr (.inr (ihr below))

/-- What a descent passes towards the left lies after its end. -/
theorem mem_after_of_mem_trail (passed : (x, Side.left) ∈ t.trail less probe) :
    x ∈ (t.after less probe).map Cell.label := by
  induction t with
  | nil => cases passed
  | node c h l r ihl ihr =>
    cases turned : turn less probe c.key with
    | none =>
      rw [trail_of_match _ _ _ turned] at passed
      cases passed
    | some s =>
      rw [trail_of_turn _ _ _ turned, List.mem_cons, Prod.mk.injEq] at passed
      cases s with
      | left =>
        rw [after, turned, List.map_append, List.map_cons, List.mem_append, List.mem_cons]
        obtain ⟨rfl, -⟩ | below := passed
        · exact .inr (.inl rfl)
        · exact .inl (ihl below)
      | right =>
        obtain ⟨-, other⟩ | below := passed
        · cases other
        · rw [after, turned]
          exact ihr below

/-- A descent that falls off has passed the cell right before its end. -/
theorem last_before_mem_trail (absent : t.find? less probe = none) {d : Cell σ α β}
    (last : (t.before less probe).getLast? = some d) :
    (d.label, Side.right) ∈ t.trail less probe := by
  induction t with
  | nil => cases last
  | node c h l r ihl ihr =>
    cases turned : turn less probe c.key with
    | none =>
      rw [find?_of_match _ _ _ turned] at absent
      cases absent
    | some s =>
      rw [find?_of_turn _ _ _ turned] at absent
      rw [trail_of_turn _ _ _ turned]
      apply List.mem_cons.2
      cases s with
      | left =>
        rw [before, turned] at last
        exact .inr (ihl absent last)
      | right =>
        rw [before, turned, List.getLast?_append, List.getLast?_cons] at last
        cases below : (r.before less probe).getLast? with
        | none =>
          -- nothing lies between the node passed here and the gap
          rw [below] at last
          obtain rfl : c = d := Option.some.inj last
          exact .inl rfl
        | some e =>
          rw [below] at last
          obtain rfl : e = d := Option.some.inj last
          exact .inr (ihr absent below)

/-- A descent that falls off has passed the cell right after its end. -/
theorem first_after_mem_trail (absent : t.find? less probe = none) {d : Cell σ α β}
    (first : (t.after less probe).head? = some d) :
    (d.label, Side.left) ∈ t.trail less probe := by
  induction t with
  | nil => cases first
  | node c h l r ihl ihr =>
    cases turned : turn less probe c.key with
    | none =>
      rw [find?_of_match _ _ _ turned] at absent
      cases absent
    | some s =>
      rw [find?_of_turn _ _ _ turned] at absent
      rw [trail_of_turn _ _ _ turned]
      apply List.mem_cons.2
      cases s with
      | left =>
        rw [after, turned, List.head?_append, List.head?_cons] at first
        cases below : (l.after less probe).head? with
        | none =>
          rw [below] at first
          obtain rfl : c = d := Option.some.inj first
          exact .inl rfl
        | some e =>
          rw [below] at first
          obtain rfl : e = d := Option.some.inj first
          exact .inr (ihl absent below)
      | right =>
        rw [after, turned] at first
        exact .inr (ihr absent first)

/-- A descent that falls off leaves one place for the gap, the rank of its end. -/
theorem cuts_trail_iff (nodup : t.labels.Nodup) (absent : t.find? less probe = none) {p : Nat} :
    Cuts (t.trail less probe) t.labels p ↔ p = t.rank less probe := by
  have split : t.labels = (t.before less probe).map Cell.label ++
      (t.after less probe).map Cell.label := by
    rw [labels, cells_eq less probe t, absent]
    simp
  rw [split] at nodup ⊢
  rw [← length_before, ← List.length_map (f := Cell.label)]
  constructor
  · intro cuts
    apply Nat.le_antisymm
    · apply cuts.le_length nodup
      intro x first
      rw [List.head?_map] at first
      obtain ⟨d, right, rfl⟩ := Option.map_eq_some_iff.1 first
      exact first_after_mem_trail absent right
    · apply cuts.length_le nodup
      intro x last
      rw [List.getLast?_map] at last
      obtain ⟨d, left, rfl⟩ := Option.map_eq_some_iff.1 last
      exact last_before_mem_trail absent left
  · rintro rfl
    refine ⟨?_, ?_, ?_⟩
    · rw [List.length_append]
      exact Nat.le_add_right _ _
    · intro x passed
      rw [List.take_left]
      exact mem_before_of_mem_trail passed
    · intro x passed
      rw [List.drop_left]
      exact mem_after_of_mem_trail passed

end Tree

namespace Subtree

variable {α β : Type} {p : Pool α β} {t : Option Handle} {a : Tree Handle α β}

/-- The descent for `probe` from a link on: the nodes that it passes, each with the side
it takes there, and the link where it ends, which is that of a match or empty. -/
inductive Descends (p : Pool α β) (less : α → α → Bool) (probe : α) :
    Option Handle → List (Handle × Side) → Option Handle → Prop
  | off : Descends p less probe none [] none
  | found {x : Handle} {n : Node α β} :
    p.read x = .ok n → turn less probe n.key = none → Descends p less probe (some x) [] (some x)
  | pass {x : Handle} {n : Node α β} {s : Side} {passed : List (Handle × Side)}
    {stop : Option Handle} :
    p.read x = .ok n → turn less probe n.key = some s →
      Descends p less probe (n.child s) passed stop →
        Descends p less probe (some x) ((x, s) :: passed) stop

/-- A descent through links passes what the descent through the spelled tree passes. -/
theorem descends_run (less : α → α → Bool) (probe : α) (spells : Spells p t a) :
    Descends p less probe t (a.trail less probe) ((a.find? less probe).map Cell.label) := by
  induction a using Tree.bySides generalizing t with
  | nil =>
    obtain rfl := spells_nil_iff.1 spells
    exact .off
  | node c h l r ih =>
    cases turned : turn less probe c.key with
    | none =>
      obtain ⟨rfl, n, read, key, -⟩ := (spells_node_iff .left).1 spells
      rw [Tree.trail_of_match _ _ _ turned, Tree.find?_of_match _ _ _ turned]
      exact .found read (key ▸ turned)
    | some s =>
      obtain ⟨rfl, n, read, key, -, -, spellsNear, -⟩ := (spells_node_iff s).1 spells
      rw [Tree.trail_of_turn _ _ _ turned, Tree.find?_of_turn _ _ _ turned]
      exact .pass read (key ▸ turned) (ih s spellsNear)

end Subtree

end BoundedMap
