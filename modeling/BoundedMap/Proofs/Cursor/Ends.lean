import BoundedMap.Proofs.Cursor.Walk
/-!
# Both ends of a walk

A caller takes entries at both ends of a walk in any order. What was taken at the front,
what remains, and what was taken at the back in reverse make up the entries at any
moment (`pulls_run`), so nothing is answered twice and nothing is passed over.

`Progress` says what that means for the caller: which entry each call was answered with,
how many remain, and that nothing is answered once all have been.
-/

namespace BoundedMap.Cursor

variable {α β γ : Type} {c : Cursor α β} {room : Nat} {items : List (α × β)}

/-- The items that the calls at one end were answered with, in the order of the calls. -/
def yielded (s : Side) (calls : List Side) (answers : List (Option γ)) : List γ :=
  (calls.zip answers).filterMap fun call => if call.1 = s then call.2 else none

/-- What a caller knows of a walk over `all` after some calls at its ends: `answers` tells
what they were answered with, and the cursor `d` is the one that they lead to. -/
structure Progress (view : α × β → γ) (all : List γ) (calls : List Side)
    (answers : List (Option γ)) (d : Cursor α β) (rest : List γ) : Prop where
  length_eq : answers.length = calls.length
  /-- What was taken at the front, what remains and what was taken at the back. -/
  shares : yielded .left calls answers ++ rest ++ (yielded .right calls answers).reverse = all
  front : ∀ i, i < (yielded .left calls answers).length →
    (yielded .left calls answers)[i]? = all[i]?
  back : ∀ j, j < (yielded .right calls answers).length →
    (yielded .right calls answers)[j]? = all[all.length - 1 - j]?
  remaining : perform view .remaining d = .ok (.number rest.length, d)
  sizeHint : perform view .sizeHint d = .ok (.bounds rest.length rest.length, d)
  forward : perform view (.rest .left) d = .ok (.items rest, d)
  backward : perform view (.rest .right) d = .ok (.items rest.reverse, d)
  /-- The next call is answered with nothing when all items were taken, and only then. -/
  pull : ∀ s, ∃ e d', perform view (.pull s) d = .ok (.item e, d') ∧ (e = none ↔
    (yielded .left calls answers).length + (yielded .right calls answers).length = all.length)
  /-- So is every call from there on. -/
  ended : (yielded .left calls answers).length + (yielded .right calls answers).length =
    all.length → ∀ later : List Side,
      run view (later.map .pull) d = .ok (later.map fun _ => .item none, d)

/-! ## Taking at both ends -/

theorem yielded_cons_none (s t : Side) (calls : List Side) (answers : List (Option γ)) :
    yielded s (t :: calls) (none :: answers) = yielded s calls answers := by
  simp [yielded]

theorem yielded_cons_self (s : Side) (calls : List Side) (e : γ) (answers : List (Option γ)) :
    yielded s (s :: calls) (some e :: answers) = e :: yielded s calls answers := by
  simp [yielded]

theorem yielded_cons_other {s t : Side} (differ : t ≠ s) (calls : List Side) (e : Option γ)
    (answers : List (Option γ)) :
    yielded s (t :: calls) (e :: answers) = yielded s calls answers := by
  simp [yielded, differ]

/-- A walk with nothing left answers nothing and stays where it is. -/
theorem pulls_of_ended (walks : c.Walks room []) (view : α × β → γ) (calls : List Side) :
    run view (calls.map .pull) c = .ok (calls.map fun _ => .item none, c) := by
  induction calls with
  | nil => rfl
  | cons s calls ih =>
    have none_left : perform view (.pull s) c = .ok (.item none, c) := by
      rw [perform, pull_of_remaining_eq_zero s walks.remaining]
      rfl
    exact run_cons none_left ih

/-- At any moment the items taken at the front, those that remain and those taken at the
back in reverse are all there were. -/
theorem pulls_run (walks : c.Walks room items) (view : α × β → γ) (calls : List Side) :
    ∃ answers d rest, run view (calls.map .pull) c = .ok (answers.map .item, d) ∧
      answers.length = calls.length ∧ d.Walks room rest ∧
      yielded .left calls answers ++ rest.map view ++ (yielded .right calls answers).reverse =
        items.map view := by
  induction calls generalizing c items with
  | nil =>
    refine ⟨[], c, items, rfl, rfl, walks, ?_⟩
    exact List.append_nil (items.map view)
  | cons s calls ih =>
    obtain ⟨d, answered, walks'⟩ := perform_run walks view (.pull s)
    obtain ⟨answers, k, rest, ran, counted, walks'', shares⟩ := ih walks'
    refine ⟨(orderAt s items).head?.map view :: answers, k, rest, run_cons answered ran, ?_,
      walks'', ?_⟩
    · rw [List.length_cons, List.length_cons, counted]
    · cases s with
      | left =>
        cases items with
        | nil =>
          rw [orderAt_nil, List.head?_nil, Option.map_none, yielded_cons_none, yielded_cons_none]
          exact shares
        | cons e others =>
          -- the item goes in front of all that the later calls share out
          show yielded .left (.left :: calls) (some (view e) :: answers) ++ _ ++ _ = _
          rw [yielded_cons_self, yielded_cons_other (by decide), List.cons_append,
            List.cons_append, shares]
          rfl
      | right =>
        rcases List.eq_nil_or_concat items with rfl | ⟨others, e, rfl⟩
        · rw [orderAt_nil, List.head?_nil, Option.map_none, yielded_cons_none, yielded_cons_none]
          exact shares
        · have order : orderAt .right (others.concat e) = e :: others.reverse := by
            simp [orderAt]
          have left : (Request.answer view (.pull .right) (others.concat e)).2 = others := by
            show orderAt .right (orderAt .right (others.concat e)).tail = others
            rw [order]
            exact List.reverse_reverse others
          rw [left] at shares
          rw [order, List.head?_cons, Option.map_some, yielded_cons_self,
            yielded_cons_other (by decide), List.reverse_cons, ← List.append_assoc, shares,
            List.concat_eq_append, List.map_append]
          rfl

/-- What was taken at the back is in the reverse order of all items. -/
theorem getElem?_of_reverse_suffix {xs ys : List γ} {j : Nat} (inRange : j < ys.length) :
    ys[j]? = (xs ++ ys.reverse)[(xs ++ ys.reverse).length - 1 - j]? := by
  have total : (xs ++ ys.reverse).length = xs.length + ys.length := by
    rw [List.length_append, List.length_reverse]
  rw [List.getElem?_append_right (by omega), total, List.getElem?_reverse (by omega)]
  congr 1
  omega

theorem progress_run (walks : c.Walks room items) (view : α × β → γ) (calls : List Side) :
    ∃ (answers : List (Option γ)) (d : Cursor α β) (rest : List γ),
      run view (calls.map .pull) c = .ok (answers.map .item, d) ∧
        Progress view (items.map view) calls answers d rest := by
  obtain ⟨answers, d, rest, ran, counted, walks', shares⟩ := pulls_run walks view calls
  have total := congrArg List.length shares
  rw [List.length_append, List.length_append, List.length_reverse] at total
  have kept : (rest.map view).length = rest.length := List.length_map view
  have none_left : (yielded .left calls answers).length + (yielded .right calls answers).length =
      (items.map view).length ↔ rest = [] := by
    rw [← List.length_eq_zero_iff]
    omega
  refine ⟨answers, d, rest.map view, ran, counted, shares, ?_, ?_, ?_, ?_, ?_, ?_, ?_, ?_⟩
  · intro i inRange
    rw [← shares, List.append_assoc, List.getElem?_append_left inRange]
  · intro j inRange
    rw [← shares]
    exact getElem?_of_reverse_suffix inRange
  · rw [perform, walks'.remaining, List.length_map]
    rfl
  · rw [perform, Cursor.sizeHint, walks'.remaining, List.length_map]
    rfl
  · rw [perform, drain_run walks']
    rfl
  · rw [perform, drain_run walks', ← List.map_reverse]
    rfl
  · intro s
    obtain ⟨d', answered, -⟩ := perform_run walks' view (.pull s)
    refine ⟨_, d', answered, ?_⟩
    rw [none_left, Option.map_eq_none_iff, List.head?_eq_none_iff, ← List.length_eq_zero_iff,
      length_orderAt, List.length_eq_zero_iff]
  · intro all later
    rw [none_left] at all
    rw [all] at walks'
    exact pulls_of_ended walks' view later

end BoundedMap.Cursor
