import BoundedMap.Proofs.Order.Classes
import BoundedMap.Proofs.Tree.Sides
/-!
# Updates as edits of a sequence

A descent for a key cuts the cells of a tree in two, `before` and `after` the
place where it ends: a matching cell, or the gap where one would go. Every
update is an edit at that place (`cells_insert`, `cells_remove`), whatever the
predicate, and nothing else moves. Counted from the left the place is `rank`.

Under a strict weak order with ascending keys the cut separates the smaller
keys from the greater ones (`less_of_mem_before`, `less_of_mem_after`).
-/

namespace BoundedMap.Tree

variable {σ α β : Type}

/-- The cells to the left of the place where a descent for `probe` ends. -/
def before (less : α → α → Bool) (probe : α) : Tree σ α β → List (Cell σ α β)
  | nil => []
  | node c _ l r =>
    match turn less probe c.key with
    | some .left => l.before less probe
    | some .right => l.cells ++ c :: r.before less probe
    | none => l.cells

/-- The cells to the right of the place where a descent for `probe` ends. -/
def after (less : α → α → Bool) (probe : α) : Tree σ α β → List (Cell σ α β)
  | nil => []
  | node c _ l r =>
    match turn less probe c.key with
    | some .left => l.after less probe ++ c :: r.cells
    | some .right => r.after less probe
    | none => r.cells

section Edits

variable (less : α → α → Bool) (probe : α)

/-- The cells are those before and after the end of a descent, and the match
between them if there is one. -/
theorem cells_eq (t : Tree σ α β) :
    t.cells = t.before less probe ++ (t.find? less probe).toList ++ t.after less probe := by
  induction t with
  | nil => rfl
  | node c h l r ihl ihr =>
    cases turned : turn less probe c.key with
    | none => simp [cells, before, after, find?, turned]
    | some s =>
      cases s with
      | left => simp [cells, before, after, find?, turned, ihl]
      | right => simp [cells, before, after, find?, turned, ihr]

theorem length_before (t : Tree σ α β) :
    (t.before less probe).length = t.rank less probe := by
  induction t with
  | nil => rfl
  | node c h l r ihl ihr =>
    cases turned : turn less probe c.key with
    | none => simp [before, rank, turned]
    | some s =>
      cases s with
      | left => simp [before, rank, turned, ihl]
      | right =>
        simp only [before, rank, turned, List.length_append, List.length_cons, ihr,
          length_cells]
        omega

/-! ## Insertion -/

/-- The answer of an insertion is the value that was bound before. -/
theorem snd_insert (label : σ) (value : β) (t : Tree σ α β) :
    (t.insert less label probe value).2 = (t.find? less probe).map Cell.value := by
  induction t with
  | nil => rfl
  | node c h l r ihl ihr =>
    cases turned : turn less probe c.key with
    | none => simp [insert, find?, turned]
    | some s =>
      cases s with
      | left => simp [insert, find?, turned, ihl]
      | right => simp [insert, find?, turned, ihr]

/-- An insertion writes the value of the match, or puts a new cell into the gap. -/
theorem cells_insert (label : σ) (value : β) (t : Tree σ α β) :
    (t.insert less label probe value).1.cells = t.before less probe ++
      ((t.find? less probe).elim ⟨label, probe, value⟩ fun c => { c with value }) ::
        t.after less probe := by
  induction t with
  | nil => rfl
  | node c h l r ihl ihr =>
    cases turned : turn less probe c.key with
    | none => simp [insert, cells, before, after, find?, turned]
    | some s =>
      cases s with
      | left => simp [insert, before, after, find?, turned, ihl]
      | right => simp [insert, before, after, find?, turned, ihr]

/-- An overwriting insertion keeps every label where it is. -/
theorem labels_insert_of_find? {t : Tree σ α β} {c : Cell σ α β}
    (found : t.find? less probe = some c) (label : σ) (value : β) :
    (t.insert less label probe value).1.labels = t.labels := by
  rw [labels, labels, cells_insert, cells_eq less probe t, found]
  simp

/-- An insertion that finds no match adds its label. -/
theorem labels_insert_of_absent {t : Tree σ α β} (absent : t.find? less probe = none)
    (label : σ) (value : β) :
    (t.insert less label probe value).1.labels.Perm (label :: t.labels) := by
  rw [labels, labels, cells_insert, cells_eq less probe t, absent]
  simp

/-! ## Removal -/

/-- Detaching takes the first cell. -/
theorem cells_removeMin (c : Cell σ α β) (l r : Tree σ α β) :
    (removeMin c l r).2 :: (removeMin c l r).1.cells = l.cells ++ c :: r.cells := by
  induction l generalizing c r with
  | nil => rfl
  | node d g dl dr ihl _ =>
    simp only [removeMin, cells_balance, cells]
    rw [← List.cons_append, ihl]

@[simp] theorem cells_merge (l r : Tree σ α β) : (merge l r).cells = l.cells ++ r.cells := by
  cases r with
  | nil => simp [merge, cells]
  | node c h rl rr =>
    simp only [merge, cells_balance, cells]
    rw [cells_removeMin]

/-- The answer of a removal is the match. -/
theorem snd_remove (t : Tree σ α β) : (t.remove less probe).2 = t.find? less probe := by
  induction t with
  | nil => rfl
  | node c h l r ihl ihr =>
    cases turned : turn less probe c.key with
    | none => simp [remove, find?, turned]
    | some s =>
      cases s with
      | left => simp [remove, find?, turned, ihl]
      | right => simp [remove, find?, turned, ihr]

/-- A removal takes out the match and nothing else. -/
theorem cells_remove (t : Tree σ α β) :
    (t.remove less probe).1.cells = t.before less probe ++ t.after less probe := by
  induction t with
  | nil => rfl
  | node c h l r ihl ihr =>
    cases turned : turn less probe c.key with
    | none => simp [remove, before, after, turned]
    | some s =>
      cases s with
      | left => simp [remove, before, after, turned, ihl]
      | right => simp [remove, before, after, turned, ihr]

/-- A removal gives up the label of the match. -/
theorem labels_remove_of_find? {t : Tree σ α β} {c : Cell σ α β}
    (found : t.find? less probe = some c) :
    (c.label :: (t.remove less probe).1.labels).Perm t.labels := by
  rw [labels, labels, cells_remove, cells_eq less probe t, found]
  simp [List.perm_middle.symm]

/-! ## Positions -/

theorem insertIdx_length_append {γ : Type} (xs ys : List γ) (y : γ) :
    (xs ++ ys).insertIdx xs.length y = xs ++ y :: ys := by
  induction xs with
  | nil => rw [List.nil_append, List.length_nil, List.insertIdx_zero, List.nil_append]
  | cons x xs ih =>
    rw [List.cons_append, List.length_cons, List.insertIdx_succ_cons, ih, List.cons_append]

section Positions

variable {less} {probe} {t : Tree σ α β} {c : Cell σ α β}

/-- The match stands at the rank of the end of the descent. -/
theorem getElem?_rank_of_find? (found : t.find? less probe = some c) :
    t.cells[t.rank less probe]? = some c := by
  rw [cells_eq less probe t, found, ← length_before]
  simp

/-- An overwriting insertion changes the cell at one position. -/
theorem cells_insert_of_find? (found : t.find? less probe = some c) (label : σ) (value : β) :
    (t.insert less label probe value).1.cells =
      t.cells.set (t.rank less probe) { c with value } := by
  rw [cells_insert, cells_eq less probe t, found, ← length_before]
  simp

/-- An insertion that finds no match puts its cell into one gap. -/
theorem cells_insert_of_absent (absent : t.find? less probe = none) (label : σ) (value : β) :
    (t.insert less label probe value).1.cells =
      t.cells.insertIdx (t.rank less probe) ⟨label, probe, value⟩ := by
  rw [cells_insert, cells_eq less probe t, absent, ← length_before]
  simp [insertIdx_length_append]

/-- The cells after an insertion that finds no match are those before it and the new one. -/
theorem mem_cells_insert_of_absent (absent : t.find? less probe = none) {label : σ} {value : β}
    {d : Cell σ α β} : d ∈ (t.insert less label probe value).1.cells ↔
      d = ⟨label, probe, value⟩ ∨ d ∈ t.cells := by
  rw [cells_insert, cells_eq less probe t, absent]
  simp only [Option.elim_none, Option.toList_none, List.append_nil, List.mem_append, List.mem_cons]
  exact or_left_comm

/-- A removal takes out the cell at one position. -/
theorem cells_remove_of_find? (found : t.find? less probe = some c) :
    (t.remove less probe).1.cells = t.cells.eraseIdx (t.rank less probe) := by
  rw [cells_remove, cells_eq less probe t, found, ← length_before, List.append_assoc,
    List.eraseIdx_append_of_length_le (Nat.le_refl _), Nat.sub_self]
  rfl

end Positions

/-! ## Entries -/

theorem entries_of_find? {t : Tree σ α β} {c : Cell σ α β}
    (found : t.find? less probe = some c) :
    t.entries = (t.before less probe).map Cell.entry ++
      c.entry :: (t.after less probe).map Cell.entry := by
  rw [entries, cells_eq less probe t, found]
  simp

theorem entries_of_absent {t : Tree σ α β} (absent : t.find? less probe = none) :
    t.entries = (t.before less probe).map Cell.entry ++
      (t.after less probe).map Cell.entry := by
  rw [entries, cells_eq less probe t, absent]
  simp

theorem entries_insert_of_find? {t : Tree σ α β} {c : Cell σ α β}
    (found : t.find? less probe = some c) (label : σ) (value : β) :
    (t.insert less label probe value).1.entries = (t.before less probe).map Cell.entry ++
      (c.key, value) :: (t.after less probe).map Cell.entry := by
  rw [entries, cells_insert, found]
  simp [Cell.entry]

theorem entries_insert_of_absent {t : Tree σ α β} (absent : t.find? less probe = none)
    (label : σ) (value : β) :
    (t.insert less label probe value).1.entries = (t.before less probe).map Cell.entry ++
      (probe, value) :: (t.after less probe).map Cell.entry := by
  rw [entries, cells_insert, absent]
  simp [Cell.entry]

theorem entries_remove (t : Tree σ α β) :
    (t.remove less probe).1.entries = (t.before less probe).map Cell.entry ++
      (t.after less probe).map Cell.entry := by
  rw [entries, cells_remove, List.map_append]

/-! ## Sizes -/

theorem size_insert_of_find? {t : Tree σ α β} {c : Cell σ α β}
    (found : t.find? less probe = some c) (label : σ) (value : β) :
    (t.insert less label probe value).1.size = t.size := by
  rw [← length_cells, ← length_cells, cells_insert, cells_eq less probe t, found]
  simp

theorem size_insert_of_absent {t : Tree σ α β} (absent : t.find? less probe = none)
    (label : σ) (value : β) :
    (t.insert less label probe value).1.size = t.size + 1 := by
  rw [← length_cells, ← length_cells, cells_insert, cells_eq less probe t, absent]
  simp
  omega

theorem size_remove_of_find? {t : Tree σ α β} {c : Cell σ α β}
    (found : t.find? less probe = some c) :
    (t.remove less probe).1.size + 1 = t.size := by
  rw [← length_cells, ← length_cells, cells_remove, cells_eq less probe t, found]
  simp
  omega

end Edits

theorem mem_cells_of_find? {less : α → α → Bool} {probe : α} {t : Tree σ α β}
    {c : Cell σ α β} (found : t.find? less probe = some c) : c ∈ t.cells := by
  rw [cells_eq less probe t, found]
  simp

theorem label_mem_of_find? {less : α → α → Bool} {probe : α} {t : Tree σ α β}
    {c : Cell σ α β} (found : t.find? less probe = some c) : c.label ∈ t.labels :=
  List.mem_map_of_mem (mem_cells_of_find? found)

/-- What a descent finds matches. -/
theorem turn_of_find? {less : α → α → Bool} {probe : α} {t : Tree σ α β} {c : Cell σ α β}
    (found : t.find? less probe = some c) : turn less probe c.key = none := by
  induction t with
  | nil => cases found
  | node d h l r ihl ihr =>
    cases turned : turn less probe d.key with
    | none =>
      rw [find?_of_match _ _ _ turned] at found
      cases found
      exact turned
    | some s =>
      rw [find?_of_turn _ _ _ turned] at found
      cases s with
      | left => exact ihl found
      | right => exact ihr found

/-- Where no cell matches, a descent finds none. -/
theorem find?_eq_none_of_apart {less : α → α → Bool} {probe : α} {t : Tree σ α β}
    (apart : ∀ d ∈ t.cells, turn less probe d.key ≠ none) : t.find? less probe = none := by
  cases found : t.find? less probe with
  | none => rfl
  | some c => exact absurd (turn_of_find? found) (apart c (mem_cells_of_find? found))

theorem postorder_perm (t : Tree σ α β) : t.postorder.Perm t.labels := by
  induction t with
  | nil => exact .refl []
  | node c h l r ihl ihr =>
    have below : (l.postorder ++ r.postorder ++ [c.label]).Perm
        (l.labels ++ r.labels ++ [c.label]) := (ihl.append ihr).append_right [c.label]
    refine below.trans ?_
    simp only [labels, cells, List.map_append, List.map_cons, List.append_assoc]
    exact List.Perm.append_left _ (List.perm_append_singleton _ _)

/-! ## Ascending keys -/

/-- The keys ascend from left to right. -/
def Ascending (less : α → α → Bool) (t : Tree σ α β) : Prop :=
  t.cells.Pairwise fun a b => less a.key b.key = true

section Ascending

variable {less : α → α → Bool} {t : Tree σ α β}

theorem ascending_node_iff {c : Cell σ α β} {h : Nat} {l r : Tree σ α β} :
    (node c h l r).Ascending less ↔
      l.Ascending less ∧ r.Ascending less ∧ (∀ d ∈ l.cells, less d.key c.key = true) ∧
        (∀ d ∈ r.cells, less c.key d.key = true) ∧
        ∀ a ∈ l.cells, ∀ b ∈ r.cells, less a.key b.key = true := by
  simp only [Ascending, cells, List.pairwise_append, List.pairwise_cons, List.mem_cons]
  constructor
  · rintro ⟨hl, ⟨above, hr⟩, across⟩
    exact ⟨hl, hr, fun d hd => across d hd c (.inl rfl), above,
      fun a ha b hb => across a ha b (.inr hb)⟩
  · rintro ⟨hl, hr, below, above, across⟩
    refine ⟨hl, ⟨above, hr⟩, fun a ha b hb => ?_⟩
    rcases hb with rfl | hb
    · exact below a ha
    · exact across a ha b hb

/-- Whatever lies before the end of a descent is less than the probe. -/
theorem less_of_mem_before (order : StrictWeak less) (probe : α) (sorted : t.Ascending less) :
    ∀ d ∈ t.before less probe, less d.key probe = true := by
  induction t with
  | nil => simp [before]
  | node c h l r ihl ihr =>
    obtain ⟨sortedLeft, sortedRight, below, -, -⟩ := ascending_node_iff.1 sorted
    intro d
    cases turned : turn less probe c.key with
    | none =>
      simp only [before, turned]
      intro member
      exact order.less_of_less_of_not (below d member) (turn_eq_none_iff.1 turned).1
    | some s =>
      cases s with
      | left =>
        simp only [before, turned]
        exact ihl sortedLeft d
      | right =>
        have passed := (turn_eq_right_iff.1 turned).2
        simp only [before, turned, List.mem_append, List.mem_cons]
        rintro (member | rfl | member)
        · exact order.trans _ _ _ (below d member) passed
        · exact passed
        · exact ihr sortedRight d member

/-- Whatever lies after the end of a descent is greater than the probe. -/
theorem less_of_mem_after (order : StrictWeak less) (probe : α) (sorted : t.Ascending less) :
    ∀ d ∈ t.after less probe, less probe d.key = true := by
  induction t with
  | nil => simp [after]
  | node c h l r ihl ihr =>
    obtain ⟨sortedLeft, sortedRight, -, above, -⟩ := ascending_node_iff.1 sorted
    intro d
    cases turned : turn less probe c.key with
    | none =>
      simp only [after, turned]
      intro member
      exact order.less_of_not_of_less (turn_eq_none_iff.1 turned).2 (above d member)
    | some s =>
      cases s with
      | left =>
        have passed := turn_eq_left_iff.1 turned
        simp only [after, turned, List.mem_append, List.mem_cons]
        rintro (member | rfl | member)
        · exact ihl sortedLeft d member
        · exact passed
        · exact order.trans _ _ _ passed (above d member)
      | right =>
        simp only [after, turned]
        exact ihr sortedRight d

theorem ascending_iff_keys :
    t.Ascending less ↔ (t.cells.map Cell.key).Pairwise fun a b => less a b = true := by
  rw [Ascending, List.pairwise_map]

theorem ascending_iff_entries :
    t.Ascending less ↔ t.entries.Pairwise fun a b => less a.1 b.1 = true := by
  rw [Ascending, entries, List.pairwise_map]
  rfl

/-- Whether keys lie between their bounds can be computed. -/
instance decidableBounded (less : α → α → Bool) :
    (t : Tree σ α β) → (lower upper : Option α) → Decidable (t.Bounded less lower upper)
  | nil, _, _ => .isTrue trivial
  | node c _ l r, lower, upper =>
    let _ := decidableBounded less l lower (some c.key)
    let _ := decidableBounded less r (some c.key) upper
    inferInstanceAs (Decidable ((∀ b ∈ lower, less b c.key = true) ∧
      (∀ b ∈ upper, less c.key b = true) ∧ l.Bounded less lower (some c.key) ∧
        r.Bounded less (some c.key) upper))

/-- When the predicate is transitive, keys between the bounds on the way to them are
ascending keys between the bounds of the whole tree. -/
theorem bounded_iff (trans : ∀ a b c, less a b = true → less b c = true → less a c = true)
    {lower upper : Option α} : t.Bounded less lower upper ↔
      t.Ascending less ∧ (∀ b ∈ lower, ∀ d ∈ t.cells, less b d.key = true) ∧
        ∀ b ∈ upper, ∀ d ∈ t.cells, less d.key b = true := by
  induction t generalizing lower upper with
  | nil => simp [Bounded, Ascending, cells]
  | node c h l r ihl ihr =>
    rw [Bounded, ihl, ihr, ascending_node_iff]
    simp only [cells, List.mem_append, List.mem_cons, Option.mem_some]
    constructor
    · rintro ⟨above, below, ⟨ascendingLeft, aboveLeft, underLeft⟩, ascendingRight, overRight,
        belowRight⟩
      refine ⟨⟨ascendingLeft, ascendingRight, underLeft c.key rfl, overRight c.key rfl, ?_⟩, ?_, ?_⟩
      · intro a inLeft b inRight
        exact trans _ _ _ (underLeft c.key rfl a inLeft) (overRight c.key rfl b inRight)
      · rintro b bound d (inLeft | rfl | inRight)
        · exact aboveLeft b bound d inLeft
        · exact above b bound
        · exact trans _ _ _ (above b bound) (overRight c.key rfl d inRight)
      · rintro b bound d (inLeft | rfl | inRight)
        · exact trans _ _ _ (underLeft c.key rfl d inLeft) (below b bound)
        · exact below b bound
        · exact belowRight b bound d inRight
    · rintro ⟨⟨ascendingLeft, ascendingRight, underLeft, overRight, -⟩, above, below⟩
      refine ⟨fun b bound => above b bound c (.inr (.inl rfl)),
        fun b bound => below b bound c (.inr (.inl rfl)),
        ⟨ascendingLeft, fun b bound d inLeft => above b bound d (.inl inLeft), ?_⟩,
        ascendingRight, ?_, fun b bound d inRight => below b bound d (.inr (.inr inRight))⟩
      · rintro _ rfl d inLeft
        exact underLeft d inLeft
      · rintro _ rfl d inRight
        exact overRight d inRight

/-- An insertion keeps the keys ascending. -/
theorem ascending_insert (order : StrictWeak less) (sorted : t.Ascending less) (label : σ)
    (key : α) (value : β) : (t.insert less label key value).1.Ascending less := by
  have lower := less_of_mem_before order key sorted
  have upper := less_of_mem_after order key sorted
  rw [ascending_iff_keys, cells_insert]
  rw [ascending_iff_keys, cells_eq less key t] at sorted
  cases found : t.find? less key with
  | some c =>
    -- the cell keeps its key, so the list of keys is the same
    rw [found] at sorted
    simpa using sorted
  | none =>
    rw [found] at sorted
    simp only [Option.elim_none, Option.toList_none, List.append_nil, List.map_append,
      List.map_cons, List.pairwise_append, List.pairwise_cons, List.mem_map,
      List.mem_cons] at sorted ⊢
    obtain ⟨sortedBelow, sortedAbove, across⟩ := sorted
    refine ⟨sortedBelow, ⟨?_, sortedAbove⟩, ?_⟩
    · rintro k ⟨d, inAfter, rfl⟩
      exact upper d inAfter
    · rintro j inBefore k (rfl | inAfter)
      · obtain ⟨d, inBefore, rfl⟩ := inBefore
        exact lower d inBefore
      · exact across j inBefore k inAfter

/-- Under a strict weak order a descent finds the cell of a new key again. -/
theorem find?_insert_of_absent (order : StrictWeak less) (sorted : t.Ascending less)
    {key : α} (absent : t.find? less key = none) (label : σ) (value : β) :
    (t.insert less label key value).1.find? less key = some ⟨label, key, value⟩ := by
  have sorted' := ascending_insert order sorted label key value
  have lower := less_of_mem_before order key sorted'
  have upper := less_of_mem_after order key sorted'
  have member : ⟨label, key, value⟩ ∈ (t.insert less label key value).1.cells := by
    rw [cells_insert, absent]
    simp
  rw [cells_eq less key, List.mem_append, List.mem_append, Option.mem_toList] at member
  rcases member with (inBefore | here) | inAfter
  · have below := lower _ inBefore
    rw [order.irrefl] at below
    cases below
  · exact here
  · have above := upper _ inAfter
    rw [order.irrefl] at above
    cases above

/-- A removal keeps the keys ascending, whatever the predicate. -/
theorem ascending_remove (sorted : t.Ascending less) (probe : α) :
    (t.remove less probe).1.Ascending less := by
  rw [Ascending, cells_remove]
  rw [Ascending, cells_eq less probe t] at sorted
  refine sorted.sublist (List.Sublist.append ?_ (List.Sublist.refl _))
  exact List.sublist_append_left _ _

end Ascending

end BoundedMap.Tree
