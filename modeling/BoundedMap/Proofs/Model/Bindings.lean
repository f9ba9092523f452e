import BoundedMap.Proofs.Model.SortedList
import Mathlib.Data.List.Induction
/-!
# Bindings one after another

Binding a sequence of pairs leaves one entry for each class of its keys: the key that came first
and the value that came last. `settled` says so of a single key, off the sequence itself, and
an ascending list that every binding of the sequence went into agrees with it
(`Condenses.insertMany`). There are as many entries as pairs when no two keys are of one class.
-/

namespace BoundedMap.SortedList

variable {α β : Type} {less : α → α → Bool} {key probe : α} {value : β} {e : α × β}
  {es read pairs : List (α × β)}

/-! ## Classes of keys -/

section Classes

variable {a b c : α}

theorem same_self (order : StrictWeak less) (a : α) : same less a a = true := by
  simp [same, order.irrefl]

theorem same_comm : same less a b = same less b a := by
  rw [same, same, Bool.and_comm]

/-- Keys of one class are of one class with the same keys. -/
theorem same_congr (order : StrictWeak less) (here : same less a b = true) :
    same less a c = same less b c := by
  have trans : ∀ {a b c}, same less a b = true → same less b c = true →
      same less a c = true := by
    intro a b c ab bc
    simp only [same, Bool.and_eq_true, Bool.not_eq_true'] at ab bc ⊢
    exact ⟨order.negTrans _ _ _ ab.1 bc.1, order.negTrans _ _ _ bc.2 ab.2⟩
  rw [Bool.eq_iff_iff]
  constructor
  · exact trans (same_comm.trans here)
  · exact trans here

end Classes

/-! ## One binding -/

/-- A key cuts an ascending list. -/
theorem exists_cut (order : StrictWeak less) (key : α)
    (ascending : es.Pairwise fun a b => less a.1 b.1 = true) :
    ∃ below above, (∀ e ∈ below, less e.1 key = true) ∧ (∀ e ∈ above, less key e.1 = true) ∧
      (es = below ++ above ∨ ∃ e, same less key e.1 = true ∧ es = below ++ e :: above) := by
  induction es with
  | nil => exact ⟨[], [], nofun, nofun, .inl rfl⟩
  | cons d es ih =>
    obtain ⟨first, ascending⟩ := List.pairwise_cons.1 ascending
    cases turned : turn less key d.1 with
    | none =>
      refine ⟨[], es, nofun, fun e member => ?_, .inr ⟨d, same_iff.2 turned, rfl⟩⟩
      exact order.less_of_not_of_less (turn_eq_none_iff.1 turned).2 (first e member)
    | some s =>
      cases s with
      | left =>
        have above := turn_eq_left_iff.1 turned
        refine ⟨[], d :: es, nofun, ?_, .inl rfl⟩
        intro e member
        rcases List.mem_cons.1 member with rfl | member
        · exact above
        · exact order.trans _ _ _ above (first e member)
      | right =>
        obtain ⟨below, above, lower, upper, cut⟩ := ih ascending
        refine ⟨d :: below, above, ?_, upper, ?_⟩
        · intro e member
          rcases List.mem_cons.1 member with rfl | member
          · exact (turn_eq_right_iff.1 turned).2
          · exact lower e member
        · rcases cut with rfl | ⟨e, here, rfl⟩
          · exact .inl rfl
          · exact .inr ⟨e, here, rfl⟩

/-- What a binding leaves for a key of its own class. The key that was there stays. -/
def rebound (key : α) (value : β) (old : Option (α × β)) : α × β :=
  ((old.map (·.1)).getD key, value)

/-- After a binding all keys of its class are bound to its value, and the others to what they
were bound to before. -/
theorem find?_bind (order : StrictWeak less)
    (ascending : es.Pairwise fun a b => less a.1 b.1 = true) (probe : α) :
    (bind less key value es).find? (fun e => same less probe e.1) =
      if same less probe key = true then
        some (rebound key value (es.find? fun e => same less key e.1))
      else es.find? fun e => same less probe e.1 := by
  obtain ⟨below, above, lower, upper, cut⟩ := exists_cut order key ascending
  -- the probe is of one class with the key, so it cuts the list where the key does
  have matched : ∀ d : α × β, same less probe d.1 = true → same less probe key = true →
      (below ++ d :: above).find? (fun e => same less probe e.1) = some d := by
    intro d here inClass
    refine find?_match (fun e member => ?_) here
    exact order.less_of_less_of_not (lower e member) (turn_eq_none_iff.1 (same_iff.1 inClass)).1
  have skipped : ∀ d : α × β, same less probe d.1 = false →
      (below ++ d :: above).find? (fun e => same less probe e.1) =
        (below ++ above).find? (fun e => same less probe e.1) := by
    intro d other
    rw [List.find?_append, List.find?_append, List.find?_cons_of_neg (by simpa using other)]
  rcases cut with rfl | ⟨e, here, rfl⟩
  · rw [bind_gap lower upper order, find?_gap lower upper]
    by_cases inClass : same less probe key = true
    · rw [if_pos inClass, matched (key, value) inClass inClass]
      rfl
    · rw [if_neg inClass, skipped (key, value) (Bool.eq_false_iff.2 inClass)]
  · have alike : same less probe e.1 = same less probe key := by
      rw [same_comm, ← same_congr order here, same_comm]
    rw [bind_match lower order here, find?_match lower here]
    by_cases inClass : same less probe key = true
    · rw [if_pos inClass, matched (e.1, value) (alike.trans inClass) inClass]
      rfl
    · rw [if_neg inClass, skipped (e.1, value) (alike.trans (Bool.eq_false_iff.2 inClass)),
        skipped e (alike.trans (Bool.eq_false_iff.2 inClass))]

/-- A binding adds an entry when none of its class was there. -/
theorem length_bind (order : StrictWeak less)
    (ascending : es.Pairwise fun a b => less a.1 b.1 = true) :
    (bind less key value es).length =
      if (es.find? fun e => same less key e.1).isSome then es.length else es.length + 1 := by
  obtain ⟨below, above, lower, upper, rfl | ⟨e, here, rfl⟩⟩ := exists_cut order key ascending
  · rw [bind_gap lower upper order, find?_gap lower upper]
    simp [Nat.add_assoc]
  · rw [bind_match lower order here, find?_match lower here]
    simp

theorem pairwise_bind (order : StrictWeak less)
    (ascending : es.Pairwise fun a b => less a.1 b.1 = true) :
    (bind less key value es).Pairwise fun a b => less a.1 b.1 = true := by
  obtain ⟨below, above, lower, upper, rfl | ⟨e, here, rfl⟩⟩ := exists_cut order key ascending
  · rw [bind_gap lower upper order]
    simp only [List.pairwise_append, List.pairwise_cons, List.mem_cons] at ascending ⊢
    refine ⟨ascending.1, ⟨upper, ascending.2.1⟩, fun a inBelow b member => ?_⟩
    rcases member with rfl | inAbove
    · exact lower a inBelow
    · exact ascending.2.2 a inBelow b inAbove
  · rw [bind_match lower order here]
    simp only [List.pairwise_append, List.pairwise_cons, List.mem_cons] at ascending ⊢
    refine ⟨ascending.1, ascending.2.1, fun a inBelow b member => ?_⟩
    rcases member with rfl | inAbove
    · exact ascending.2.2 a inBelow e (.inl rfl)
    · exact ascending.2.2 a inBelow b (.inr inAbove)

/-! ## All bindings -/

/-- The first key of a class in a sequence of pairs, with the last value of that class. -/
def settled (less : α → α → Bool) (read : List (α × β)) (probe : α) : Option (α × β) := do
  let first ← read.find? fun e => same less probe e.1
  let last ← read.reverse.find? fun e => same less probe e.1
  return (first.1, last.2)

/-- A class that has a first pair has a last one. -/
theorem settled_of_find? {d : α × β}
    (first : read.find? (fun e => same less probe e.1) = some d) :
    ∃ v, settled less read probe = some (d.1, v) := by
  have here := List.find?_some (p := fun (e : α × β) => same less probe e.1) first
  have member := List.mem_reverse.2 (List.mem_of_find?_eq_some first)
  cases last : read.reverse.find? fun e => same less probe e.1 with
  | none => exact absurd here (List.find?_eq_none.1 last d member)
  | some d' => exact ⟨d'.2, by rw [settled, first, last]; rfl⟩

theorem settled_of_find?_eq_none
    (none_here : read.find? (fun e => same less probe e.1) = none) :
    settled less read probe = none := by
  rw [settled, none_here]
  rfl

theorem settled_eq_none_iff : settled less read probe = none ↔
    ∀ e ∈ read, same less probe e.1 = false := by
  cases first : read.find? fun e => same less probe e.1 with
  | none =>
    rw [settled_of_find?_eq_none first]
    simpa using first
  | some d =>
    obtain ⟨v, outcome⟩ := settled_of_find? first
    have here := List.find?_some (p := fun (e : α × β) => same less probe e.1) first
    rw [outcome]
    constructor
    · exact nofun
    · intro none_here
      rw [none_here d (List.mem_of_find?_eq_some first)] at here
      cases here

/-- One more pair decides the value of its class, and the key when the class is new. -/
theorem settled_concat (order : StrictWeak less) (read : List (α × β)) (d : α × β) (probe : α) :
    settled less (read ++ [d]) probe =
      if same less probe d.1 = true then some (rebound d.1 d.2 (settled less read d.1))
      else settled less read probe := by
  by_cases inClass : same less probe d.1 = true
  · have alike : (fun e : α × β => same less probe e.1) = fun e => same less d.1 e.1 :=
      funext fun e => same_congr order inClass
    have here : ∀ rest : List (α × β), (d :: rest).find? (fun e => same less d.1 e.1) = some d :=
      fun rest => List.find?_cons_of_pos (same_self order d.1)
    rw [if_pos inClass, settled, alike, List.find?_append, List.reverse_concat, here, here]
    cases first : read.find? fun e => same less d.1 e.1 with
    | none =>
      rw [settled_of_find?_eq_none first]
      rfl
    | some x =>
      obtain ⟨v, outcome⟩ := settled_of_find? first
      rw [outcome]
      rfl
  · have skipped : ∀ rest : List (α × β), (d :: rest).find? (fun e => same less probe e.1) =
        rest.find? fun e => same less probe e.1 :=
      fun rest => List.find?_cons_of_neg inClass
    rw [if_neg inClass, settled, settled, List.find?_append, List.reverse_concat, skipped,
      skipped, List.find?_nil, Option.or_none]

/-- The entries that are left when pairs are bound one after another. -/
def bindAll (less : α → α → Bool) (pairs : List (α × β)) : List (α × β) :=
  pairs.foldl (fun es d => bind less d.1 d.2 es) []

theorem bindAll_concat (read : List (α × β)) (d : α × β) :
    bindAll less (read ++ [d]) = bind less d.1 d.2 (bindAll less read) :=
  List.foldl_concat _ _ _ _

theorem pairwise_bindAll (order : StrictWeak less) (read : List (α × β)) :
    (bindAll less read).Pairwise fun a b => less a.1 b.1 = true := by
  induction read using List.reverseRecOn with
  | nil => exact .nil
  | append_singleton read d ih =>
    rw [bindAll_concat]
    exact pairwise_bind order ih

/-- A key is bound to the first key and the last value of its class. -/
theorem find?_bindAll (order : StrictWeak less) (read : List (α × β)) (probe : α) :
    (bindAll less read).find? (fun e => same less probe e.1) = settled less read probe := by
  induction read using List.reverseRecOn generalizing probe with
  | nil => rfl
  | append_singleton read d ih =>
    rw [bindAll_concat, find?_bind order (pairwise_bindAll order read), settled_concat order, ih,
      ih]

/-- There is an entry for every pair when no two keys are of one class, and otherwise there are
fewer. -/
theorem length_bindAll (order : StrictWeak less) (read : List (α × β)) :
    (bindAll less read).length ≤ read.length ∧
      ((bindAll less read).length = read.length ↔
        read.Pairwise fun d e => same less d.1 e.1 = false) := by
  induction read using List.reverseRecOn with
  | nil => exact ⟨Nat.le_refl 0, iff_of_true rfl .nil⟩
  | append_singleton read d ih =>
    obtain ⟨few, exact⟩ := ih
    have apart : (read ++ [d]).Pairwise (fun d e => same less d.1 e.1 = false) ↔
        read.Pairwise (fun d e => same less d.1 e.1 = false) ∧
          settled less read d.1 = none := by
      rw [List.pairwise_append, settled_eq_none_iff]
      simp [same_comm (a := d.1)]
    rw [bindAll_concat, length_bind order (pairwise_bindAll order read), find?_bindAll order,
      apart, ← exact, List.length_append, List.length_singleton]
    cases settled less read d.1 with
    | none => simpa using few
    | some e =>
      simp only [Option.isSome_some, if_true, reduceCtorEq, and_false, iff_false]
      omega

/-- Pairs in ascending order are their own entries. -/
theorem bindAll_of_pairwise (order : StrictWeak less)
    (ascending : es.Pairwise fun a b => less a.1 b.1 = true) : bindAll less es = es := by
  induction es using List.reverseRecOn with
  | nil => rfl
  | append_singleton es d ih =>
    obtain ⟨ascending, -, below⟩ := List.pairwise_append.1 ascending
    have last : bind less d.1 d.2 (es ++ []) = es ++ [d] :=
      bind_gap (fun e member => below e member d List.mem_cons_self) nofun order
    rw [List.append_nil] at last
    rw [bindAll_concat, ih ascending, last]

/-! ## What is left of a sequence of pairs -/

/-- An ascending list of one entry for each class of the keys in a sequence of pairs: the first
key and the last value of the class. -/
structure Condenses (less : α → α → Bool) (read es : List (α × β)) : Prop where
  ascending : es.Pairwise fun a b => less a.1 b.1 = true
  mem_iff : ∀ e, e ∈ es ↔ settled less read e.1 = some e
  one_each : ∀ d ∈ read, ∃! e, e ∈ es ∧ same less d.1 e.1 = true

theorem condenses_bindAll (order : StrictWeak less) (read : List (α × β)) :
    Condenses less read (bindAll less read) := by
  have ascending := pairwise_bindAll order read
  have stored : ∀ probe e, settled less read probe = some e ↔
      e ∈ bindAll less read ∧ same less probe e.1 = true := by
    intro probe e
    rw [← find?_bindAll order]
    exact find?_eq_some_iff (s := ⟨less, 0, bindAll less read⟩) order ascending
  refine ⟨ascending, fun e => ?_, fun d member => ?_⟩
  · rw [stored]
    simp [same_self order]
  · cases outcome : settled less read d.1 with
    | none =>
      have apart := settled_eq_none_iff.1 outcome d member
      rw [same_self order] at apart
      cases apart
    | some e =>
      refine ⟨e, (stored d.1 e).1 outcome, fun e' here => ?_⟩
      have outcome' := (stored d.1 e').2 here
      exact Option.some.inj (outcome'.symm.trans outcome)

/-- An insertion that is not refused binds its pair. -/
theorem eq_bind_of_insert {s t : SortedList α β} {old : Option β}
    (done : s.insert key value = (.ok old, t)) :
    t = { s with entries := bind s.less key value s.entries } := by
  unfold insert at done
  split at done
  · exact (Prod.mk.inj done).2.symm
  · split at done
    · cases done
    · exact (Prod.mk.inj done).2.symm

/-- Insertions that are not refused bind their pairs one after another. -/
theorem entries_of_insertMany {s t : SortedList α β}
    (done : s.insertMany pairs = (.ok (), t)) :
    t.entries = pairs.foldl (fun es d => bind s.less d.1 d.2 es) s.entries := by
  induction pairs generalizing s with
  | nil =>
    obtain ⟨-, rfl⟩ := Prod.mk.inj done
    rfl
  | cons d pairs ih =>
    rw [insertMany] at done
    cases outcome : s.insert d.1 d.2 with
    | mk result s' =>
      rw [outcome] at done
      cases result with
      | error why => cases done
      | ok old =>
        rw [ih done, eq_bind_of_insert outcome]
        rfl

end BoundedMap.SortedList
