import BoundedMap.Proofs.Model.Bindings
/-!
# Updates of different keys

An update binds or unbinds one key. It is answered from what the key was bound to, and changes
what the keys of that class are bound to and nothing else (`perform_update`). So when no two keys
of a list of updates are of one class, each update finds its key as it was before all of them
(`run_updates`). What the list leaves behind is said of its members one by one, and the order in
which they come plays no part in it (`run_updates_perm`).
-/

namespace BoundedMap

/-- A change of what one key is bound to. -/
inductive Update (α β : Type)
  | insert (key : α) (value : β)
  | remove (key : α)
  | removeEntry (key : α)
  deriving DecidableEq, Repr

namespace Update

variable {α β : Type}

/-- The key that the update is about. -/
def key : Update α β → α
  | insert key _ => key
  | remove key => key
  | removeEntry key => key

/-- The request that makes the update. -/
def request : Update α β → Request α β
  | insert key value => .insert key value
  | remove key => .remove key
  | removeEntry key => .removeEntry key

/-- Whether the update may need room for an entry. -/
def binds : Update α β → Bool
  | insert _ _ => true
  | remove _ => false
  | removeEntry _ => false

/-- The answer to the update of a key that is bound as in `old`. -/
def answer (u : Update α β) (old : Option (α × β)) : Answer α β :=
  match u with
  | insert _ _ => .value (old.map (·.2))
  | remove _ => .value (old.map (·.2))
  | removeEntry _ => .entry old

/-- What the key is bound to after the update. -/
def result (u : Update α β) (old : Option (α × β)) : Option (α × β) :=
  match u with
  | insert key value => some (SortedList.rebound key value old)
  | remove _ => none
  | removeEntry _ => none

theorem answer_ne_refused (u : Update α β) (old : Option (α × β)) (why : Refusal) :
    u.answer old ≠ .refused why := by
  cases u <;> exact nofun

end Update

namespace SortedList

variable {α β : Type} {less : α → α → Bool} {s t : SortedList α β} {updates : List (Update α β)}

/-- The order of keys in the list is the one that its predicate gives. -/
def Ascending (s : SortedList α β) : Prop :=
  s.entries.Pairwise fun a b => s.less a.1 b.1 = true

/-! ## One update -/

/-- What an update makes of a list: the keys of its class are bound to its result, all others to
what they were bound to. -/
structure Updated (u : Update α β) (s t : SortedList α β) : Prop where
  less : t.less = s.less
  capacity : t.capacity = s.capacity
  ascending : t.Ascending
  length_le : t.entries.length ≤ s.entries.length + if u.binds then 1 else 0
  find? : ∀ probe, t.find? probe =
    if same s.less probe u.key = true then u.result (s.find? u.key) else s.find? probe

/-- Only keys of the class that is erased are no longer found. -/
theorem find?_erase (order : StrictWeak s.less) (key probe : α) :
    (s.erase key).find? probe =
      if same s.less probe key = true then none else s.find? probe := by
  rw [find?, erase]
  by_cases inClass : same s.less probe key = true
  · rw [if_pos inClass, List.find?_eq_none]
    intro e kept here
    have gone := (List.mem_filter.1 kept).2
    rw [← same_congr order inClass, here] at gone
    cases gone
  · rw [if_neg inClass, List.find?_filter, find?]
    refine congrArg (fun p => s.entries.find? p) (funext fun e => ?_)
    cases here : same s.less probe e.1 with
    | false => simp
    | true =>
      -- an entry of the probe's class is not of the class that is erased
      have alike := same_congr order (c := key) here
      rw [Bool.eq_false_iff.2 inClass, same_comm] at alike
      simp [← alike]

theorem updated_bind (order : StrictWeak s.less) (ascending : s.Ascending) (key : α) (value : β) :
    Updated (.insert key value) s { s with entries := bind s.less key value s.entries } where
  less := rfl
  capacity := rfl
  ascending := pairwise_bind order ascending
  length_le := by
    show (bind s.less key value s.entries).length ≤ s.entries.length + 1
    rw [length_bind order ascending]
    split <;> omega
  find? := find?_bind order ascending

theorem updated_erase (order : StrictWeak s.less) (ascending : s.Ascending) {u : Update α β}
    (unbinds : ∀ old, u.result old = none) : Updated u s (s.erase u.key) where
  less := rfl
  capacity := rfl
  ascending := ascending.filter _
  length_le := Nat.le_add_right_of_le (List.length_filter_le _ _)
  find? := by
    intro probe
    rw [find?_erase order, unbinds]

/-- An update that has room is answered from what its key is bound to. -/
theorem perform_update (order : StrictWeak s.less) (ascending : s.Ascending) (u : Update α β)
    (room : s.entries.length + (if u.binds then 1 else 0) ≤ s.capacity) :
    ∃ t, s.perform u.request = (u.answer (s.find? u.key), t) ∧ Updated u s t := by
  cases u with
  | insert key value =>
    refine ⟨_, ?_, updated_bind order ascending key value⟩
    have space : s.isFull = false := by
      rw [isFull, beq_eq_false_iff_ne]
      exact Nat.ne_of_lt room
    show settle .value (s.insert key value) = _
    rw [insert]
    cases found : s.find? key with
    | some e => simp only [settle, Update.answer, Update.key, found, Option.map_some]
    | none =>
      simp only [space, settle, Update.answer, Update.key, found, Option.map_none,
        Bool.false_eq_true, if_false]
  | remove key => exact ⟨_, rfl, updated_erase order ascending fun _ => rfl⟩
  | removeEntry key => exact ⟨_, rfl, updated_erase order ascending fun _ => rfl⟩

/-! ## Many updates -/

/-- What a list of updates has made of a list, said of each class of keys. -/
structure UpdatedAll (updates : List (Update α β)) (s t : SortedList α β) : Prop where
  less : t.less = s.less
  ascending : t.Ascending
  find?_of_mem : ∀ u ∈ updates, ∀ probe, same s.less probe u.key = true →
    t.find? probe = u.result (s.find? u.key)
  find?_of_apart : ∀ probe, (∀ u ∈ updates, same s.less probe u.key = false) →
    t.find? probe = s.find? probe

/-- Updates of different keys are each answered from the list before all of them. -/
theorem run_updates (order : StrictWeak s.less) (ascending : s.Ascending)
    (apart : updates.Pairwise fun u v => same s.less u.key v.key = false)
    (room : s.entries.length + updates.countP Update.binds ≤ s.capacity) :
    ∃ t, s.run (updates.map Update.request) = (updates.map fun u => u.answer (s.find? u.key), t) ∧
      UpdatedAll updates s t := by
  induction updates generalizing s with
  | nil => exact ⟨s, rfl, rfl, ascending, nofun, fun _ _ => rfl⟩
  | cons u rest ih =>
    obtain ⟨first, apart⟩ := List.pairwise_cons.1 apart
    rw [List.countP_cons] at room
    obtain ⟨t, done, updated⟩ := perform_update order ascending u (by omega)
    have less := updated.less
    have short := updated.length_le
    have fixed := updated.capacity
    obtain ⟨t', ran, further⟩ := ih (s := t) (less ▸ order) updated.ascending (less ▸ apart)
      (by omega)
    -- the keys of the other updates are not of the class that was changed
    have kept : ∀ v ∈ rest, t.find? v.key = s.find? v.key := by
      intro v member
      rw [updated.find?, if_neg]
      rw [same_comm, first v member]
      exact Bool.false_ne_true
    refine ⟨t', ?_, further.less.trans less, further.ascending, ?_, ?_⟩
    · rw [List.map_cons, run, done]
      simp only [ran, List.map_cons]
      refine Prod.ext (congrArg (u.answer (s.find? u.key) :: ·) ?_) rfl
      exact List.map_congr_left fun v member => congrArg v.answer (kept v member)
    · intro v member probe here
      rcases List.mem_cons.1 member with rfl | member
      · have others : ∀ w ∈ rest, same t.less probe w.key = false := by
          intro w later
          rw [less, same_congr order here]
          exact first w later
        rw [further.find?_of_apart probe others, updated.find?, if_pos here]
      · rw [further.find?_of_mem v member probe (less ▸ here), kept v member]
    · intro probe others
      rw [further.find?_of_apart probe fun v member => ?_, updated.find?, if_neg]
      · rw [others u List.mem_cons_self]
        exact Bool.false_ne_true
      · rw [less]
        exact others v (List.mem_cons_of_mem u member)

/-- What a list of updates of different keys leaves does not depend on their order. -/
theorem UpdatedAll.entries_eq {updates' : List (Update α β)} {t' : SortedList α β}
    (order : StrictWeak s.less) (updated : UpdatedAll updates s t)
    (updated' : UpdatedAll updates' s t') (mem_iff : ∀ u, u ∈ updates ↔ u ∈ updates') :
    t.entries = t'.entries := by
  refine eq_of_find? (updated.less ▸ order) (updated'.less.trans updated.less.symm)
    updated.ascending updated'.ascending fun probe => ?_
  by_cases changed : ∃ u ∈ updates, same s.less probe u.key = true
  · obtain ⟨u, member, here⟩ := changed
    rw [updated.find?_of_mem u member probe here,
      updated'.find?_of_mem u ((mem_iff u).1 member) probe here]
  · have others : ∀ u ∈ updates, same s.less probe u.key = false := by
      intro u member
      exact Bool.eq_false_iff.2 fun here => changed ⟨u, member, here⟩
    rw [updated.find?_of_apart probe others,
      updated'.find?_of_apart probe fun u member => others u ((mem_iff u).2 member)]

/-- Updates of different keys may be made in any order. -/
theorem run_updates_perm {updates' : List (Update α β)} (order : StrictWeak s.less)
    (ascending : s.Ascending)
    (apart : updates.Pairwise fun u v => same s.less u.key v.key = false)
    (room : s.entries.length + updates.countP Update.binds ≤ s.capacity)
    (perm : updates.Perm updates') :
    ∃ t t', s.run (updates.map Update.request) =
        (updates.map fun u => u.answer (s.find? u.key), t) ∧
      s.run (updates'.map Update.request) =
        (updates'.map fun u => u.answer (s.find? u.key), t') ∧ t.entries = t'.entries := by
  have apart' := perm.pairwise apart fun h => by rw [same_comm]; exact h
  obtain ⟨t, ran, updated⟩ := run_updates order ascending apart room
  obtain ⟨t', ran', updated'⟩ := run_updates order ascending apart' (perm.countP_eq _ ▸ room)
  exact ⟨t, t', ran, ran', updated.entries_eq order updated' fun u => perm.mem_iff⟩

end SortedList

end BoundedMap
