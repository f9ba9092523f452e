import BoundedMap.Proofs.Chart.Basic
import BoundedMap.Proofs.Tree.Relabel
/-!
# Charts without their slots

What a request does to the tree of a chart depends on the tree alone: `erase_insert`
and `erase_removeEntry` compute it on the tree without labels. Two charts with
the same such tree therefore answer alike (`Twins.perform`), wherever their cells lie and
whatever room they have, until one of them refuses a key.
-/

namespace BoundedMap.Chart

variable {α β γ : Type} {a b : Chart α β}

/-! ## One chart -/

theorem entry_find?_erase (less : α → α → Bool) (key : α) (t : Tree Handle α β) :
    (t.erase.find? less key).map Cell.entry = (t.find? less key).map Cell.entry := by
  rw [Tree.erase, Tree.find?_relabel, Option.map_map]
  rfl

theorem find?_erase_eq_none_iff {less : α → α → Bool} {key : α} {t : Tree Handle α β} :
    t.erase.find? less key = none ↔ t.find? less key = none := by
  rw [Tree.erase, Tree.find?_relabel, Option.map_eq_none_iff]

theorem erase_overwrite {key : α} {c : Cell Handle α β}
    (found : a.tree.find? a.less key = some c) (label : Handle) (value : β) :
    a.tree.erase.insert a.less () key value =
      ((a.tree.insert a.less label key value).1.erase, some c.value) := by
  have relabelled := Tree.insert_relabel (fun _ : Handle => ()) a.less key label value a.tree
  rw [Tree.snd_insert, found] at relabelled
  exact relabelled

/-- An insertion that is not refused inserts into the tree without labels. -/
theorem erase_insert {key : α} {value : β} {old : Option β}
    (done : a.insert key value = (.ok old, b)) :
    a.tree.erase.insert a.less () key value = (b.tree.erase, old) := by
  cases found : a.tree.find? a.less key with
  | some c =>
    rw [insert_of_find? found] at done
    cases done
    exact erase_overwrite found c.label value
  | none =>
    cases order : a.free with
    | nil =>
      rw [insert_of_full found order] at done
      cases done
    | cons h rest =>
      rw [insert_of_free found order] at done
      cases done
      have relabelled := Tree.insert_relabel (fun _ : Handle => ()) a.less key h value a.tree
      rw [Tree.snd_insert, found] at relabelled
      exact relabelled

/-- An insertion is refused when the key is not bound and every slot is in use. -/
theorem insert_refused_iff (valid : a.Valid) (key : α) (value : β) :
    (∃ why c, a.insert key value = (.error why, c)) ↔
      a.tree.erase.find? a.less key = none ∧ a.tree.erase.size = a.capacity := by
  rw [find?_erase_eq_none_iff, Tree.erase, Tree.size_relabel, ← valid.free_eq_nil_iff]
  exact insert_error_iff

/-- A removal removes from the tree without labels. -/
theorem erase_removeEntry (valid : a.Valid) (probe : α) :
    (a.tree.erase.remove a.less probe).1 = (a.removeEntry probe).2.tree.erase ∧
      (a.tree.erase.remove a.less probe).2.map Cell.entry = (a.removeEntry probe).1 := by
  have relabelled := Tree.remove_relabel (fun _ : Handle => ()) a.less probe a.tree
  rw [Tree.erase, relabelled]
  cases found : a.tree.find? a.less probe with
  | none =>
    rw [removeEntry_of_absent found, Tree.remove_of_find?_eq_none valid.avl found]
    exact ⟨rfl, rfl⟩
  | some c =>
    rw [removeEntry_of_find? found, Tree.snd_remove, found]
    exact ⟨rfl, rfl⟩

/-! ## Two charts -/

/-- Charts under one predicate whose trees differ in their labels only. -/
structure Twins (a b : Chart α β) : Prop where
  less : b.less = a.less
  erase : b.tree.erase = a.tree.erase

namespace Twins

theorem entry_find? (twins : Twins a b) (key : α) :
    (b.tree.find? b.less key).map Cell.entry = (a.tree.find? a.less key).map Cell.entry := by
  rw [← entry_find?_erase, ← entry_find?_erase, twins.erase, twins.less]

theorem value_find? (twins : Twins a b) (key : α) :
    (b.tree.find? b.less key).map Cell.value = (a.tree.find? a.less key).map Cell.value := by
  have entries := congrArg (Option.map Prod.snd) (twins.entry_find? key)
  rw [Option.map_map, Option.map_map] at entries
  exact entries

theorem isSome_find? (twins : Twins a b) (key : α) :
    (b.tree.find? b.less key).isSome = (a.tree.find? a.less key).isSome := by
  have entries := congrArg Option.isSome (twins.entry_find? key)
  rwa [Option.isSome_map, Option.isSome_map] at entries

theorem find?_eq_none (twins : Twins a b) {key : α} (absent : a.tree.find? a.less key = none) :
    b.tree.find? b.less key = none := by
  rwa [← find?_erase_eq_none_iff, twins.erase, twins.less, find?_erase_eq_none_iff]

theorem exists_find? (twins : Twins a b) {key : α} {c : Cell Handle α β}
    (found : a.tree.find? a.less key = some c) :
    ∃ d, b.tree.find? b.less key = some d ∧ d.entry = c.entry := by
  have entries := twins.entry_find? key
  rw [found] at entries
  exact Option.map_eq_some_iff.1 entries

theorem entries (twins : Twins a b) : b.tree.entries = a.tree.entries := by
  rw [← Tree.entries_relabel (fun _ => ()) b.tree, ← Tree.entries_relabel (fun _ => ()) a.tree]
  exact congrArg Tree.entries twins.erase

theorem size (twins : Twins a b) : b.tree.size = a.tree.size := by
  rw [← Tree.length_entries, twins.entries, Tree.length_entries]

theorem insert (twins : Twins a b) {key : α} {value : β} {old old' : Option β}
    {a' b' : Chart α β} (left : a.insert key value = (.ok old, a'))
    (right : b.insert key value = (.ok old', b')) : old' = old ∧ Twins a' b' := by
  -- both insertions are the one into the tree that the charts share up to labels
  have leftTree := erase_insert left
  have rightTree := erase_insert right
  rw [twins.erase, twins.less, leftTree] at rightTree
  obtain ⟨trees, olds⟩ := Prod.mk.inj rightTree
  have leftLess := (alike_insert (a := a) key value).less
  have rightLess := (alike_insert (a := b) key value).less
  rw [left] at leftLess
  rw [right] at rightLess
  exact ⟨olds.symm, (rightLess.trans twins.less).trans leftLess.symm, trees.symm⟩

theorem insertMany (twins : Twins a b) {pairs : List (α × β)} {a' b' : Chart α β}
    (left : a.insertMany pairs = (.ok (), a')) (right : b.insertMany pairs = (.ok (), b')) :
    Twins a' b' := by
  induction pairs generalizing a b with
  | nil =>
    cases left
    cases right
    exact twins
  | cons pair rest ih =>
    obtain ⟨key, value⟩ := pair
    rw [Chart.insertMany] at left right
    cases leftFirst : a.insert key value with
    | mk leftResult c =>
      cases rightFirst : b.insert key value with
      | mk rightResult d =>
        rw [leftFirst] at left
        rw [rightFirst] at right
        cases leftResult with
        | error why => cases left
        | ok old =>
          cases rightResult with
          | error why => cases right
          | ok old' => exact ih (twins.insert leftFirst rightFirst).2 left right

theorem removeEntry (twins : Twins a b) (probe : α) :
    (b.removeEntry probe).1 = (a.removeEntry probe).1 ∧
      Twins (a.removeEntry probe).2 (b.removeEntry probe).2 := by
  cases found : a.tree.find? a.less probe with
  | none =>
    rw [removeEntry_of_absent found, removeEntry_of_absent (twins.find?_eq_none found)]
    exact ⟨rfl, twins⟩
  | some c =>
    obtain ⟨d, found', entry⟩ := twins.exists_find? found
    rw [removeEntry_of_find? found, removeEntry_of_find? found']
    refine ⟨congrArg some entry, twins.less, ?_⟩
    have leftTree := Tree.remove_relabel (fun _ : Handle => ()) a.less probe a.tree
    have rightTree := Tree.remove_relabel (fun _ : Handle => ()) b.less probe b.tree
    have same := twins.erase
    rw [Tree.erase, Tree.erase] at same
    rw [twins.less, same, leftTree] at rightTree
    show (b.tree.remove b.less probe).1.relabel _ = (a.tree.remove a.less probe).1.relabel _
    rw [twins.less]
    exact (Prod.mk.inj rightTree).1.symm

theorem replace (twins : Twins a b) (probe : α) (value : β) :
    (b.replace probe value).1 = (a.replace probe value).1 ∧
      Twins (a.replace probe value).2 (b.replace probe value).2 := by
  cases found : a.tree.find? a.less probe with
  | none =>
    rw [replace_of_absent found, replace_of_absent (twins.find?_eq_none found)]
    exact ⟨rfl, twins⟩
  | some c =>
    obtain ⟨d, found', entry⟩ := twins.exists_find? found
    rw [replace_of_find? found, replace_of_find? found']
    have leftTree := erase_overwrite found c.label value
    have rightTree := erase_overwrite found' d.label value
    rw [twins.erase, twins.less, leftTree] at rightTree
    obtain ⟨trees, olds⟩ := Prod.mk.inj rightTree
    refine ⟨olds.symm, twins.less, ?_⟩
    rw [twins.less]
    exact trees.symm

/-- Requests that neither chart refuses are answered alike by both. Whether a chart is
full is seen alike where the capacities are the same. -/
theorem perform (twins : Twins a b) (request : Request α β)
    (leftTaken : ∀ why, (a.perform request).1 ≠ .refused why)
    (rightTaken : ∀ why, (b.perform request).1 ≠ .refused why) :
    ((request = .isFull → b.capacity = a.capacity) →
        (b.perform request).1 = (a.perform request).1) ∧
      Twins (a.perform request).2 (b.perform request).2 := by
  cases request with
  | insert key value =>
    simp only [Chart.perform] at leftTaken rightTaken ⊢
    rcases left : a.insert key value with ⟨why | old, a'⟩
    · rw [left] at leftTaken
      exact absurd rfl (leftTaken why)
    · rcases right : b.insert key value with ⟨why | old', b'⟩
      · rw [right] at rightTaken
        exact absurd rfl (rightTaken why)
      · obtain ⟨rfl, twins'⟩ := twins.insert left right
        exact ⟨fun _ => rfl, twins'⟩
  | insertMany pairs =>
    simp only [Chart.perform] at leftTaken rightTaken ⊢
    rcases left : a.insertMany pairs with ⟨why | _, a'⟩
    · rw [left] at leftTaken
      exact absurd rfl (leftTaken why)
    · rcases right : b.insertMany pairs with ⟨why | _, b'⟩
      · rw [right] at rightTaken
        exact absurd rfl (rightTaken why)
      · exact ⟨fun _ => rfl, twins.insertMany left right⟩
  | remove key =>
    obtain ⟨answers, twins'⟩ := twins.removeEntry key
    exact ⟨fun _ => by rw [Chart.perform, Chart.perform, answers], twins'⟩
  | removeEntry key =>
    obtain ⟨answers, twins'⟩ := twins.removeEntry key
    exact ⟨fun _ => by rw [Chart.perform, Chart.perform, answers], twins'⟩
  | replace key value =>
    obtain ⟨answers, twins'⟩ := twins.replace key value
    exact ⟨fun _ => by rw [Chart.perform, Chart.perform, answers], twins'⟩
  | clear => exact ⟨fun _ => rfl, twins.less, rfl⟩
  | get key => exact ⟨fun _ => by rw [Chart.perform, Chart.perform, twins.value_find?], twins⟩
  | getEntry key => exact ⟨fun _ => by rw [Chart.perform, Chart.perform, twins.entry_find?], twins⟩
  | contains key => exact ⟨fun _ => by rw [Chart.perform, Chart.perform, twins.isSome_find?], twins⟩
  | len => exact ⟨fun _ => by rw [Chart.perform, Chart.perform, twins.size], twins⟩
  | isEmpty => exact ⟨fun _ => by rw [Chart.perform, Chart.perform, twins.size], twins⟩
  | isFull => exact ⟨fun same => by rw [Chart.perform, Chart.perform, twins.size, same rfl], twins⟩
  | _ => exact ⟨fun _ => by rw [Chart.perform, Chart.perform, twins.entries], twins⟩

theorem run (twins : Twins a b) (requests : List (Request α β))
    (leftTaken : ∀ why, .refused why ∉ (a.run requests).1)
    (rightTaken : ∀ why, .refused why ∉ (b.run requests).1) :
    (∀ i : Nat, (requests[i]? = some Request.isFull → b.capacity = a.capacity) →
        (b.run requests).1[i]? = (a.run requests).1[i]?) ∧
      Twins (a.run requests).2 (b.run requests).2 := by
  induction requests generalizing a b with
  | nil => exact ⟨fun _ _ => rfl, twins⟩
  | cons request rest ih =>
    simp only [Chart.run, List.mem_cons, not_or] at leftTaken rightTaken
    obtain ⟨answers, twins'⟩ := twins.perform request (fun why => Ne.symm (leftTaken why).1)
      (fun why => Ne.symm (rightTaken why).1)
    obtain ⟨further, twins''⟩ :=
      ih twins' (fun why => (leftTaken why).2) fun why => (rightTaken why).2
    refine ⟨fun i same => ?_, twins''⟩
    cases i with
    | zero => exact congrArg some (answers fun full => same (congrArg some full))
    | succ i =>
      refine further i fun full => ?_
      rw [(alike_perform request).capacity, (alike_perform request).capacity]
      exact same full

end Twins

end BoundedMap.Chart
