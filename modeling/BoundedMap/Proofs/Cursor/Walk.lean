import BoundedMap.Cursor.Request
import BoundedMap.Proofs.Subtree.Descent
/-!
# Walks over the entries

A stack of pending nodes stands for a list of entries, those that the walk will
answer from there on (`Pending`). The bound in it leaves room for the far tree of
every node on the stack, so that no push ever needs more room than the tree is
deep.

`Walks c room items` says that exactly `items` remain. A pull takes one of them off
the end it is made at (`pull_run`), and no request to a cursor that walks can
fail (`run_walks`).
-/

namespace BoundedMap

namespace Tree

variable {σ α β : Type}

/-- The entries in the order in which a walk from side `s` meets them. -/
def entriesFrom (s : Side) (t : Tree σ α β) : List (α × β) :=
  (t.cellsFrom s).map Cell.entry

@[simp] theorem entriesFrom_nil (s : Side) : (nil : Tree σ α β).entriesFrom s = [] := by
  simp [entriesFrom]

theorem entriesFrom_node (s : Side) (c : Cell σ α β) (h : Nat) (l r : Tree σ α β) :
    (node c h l r).entriesFrom s = ((node c h l r).child s).entriesFrom s ++
      c.entry :: ((node c h l r).child s.other).entriesFrom s := by
  simp [entriesFrom, cellsFrom_node]

theorem entriesFrom_left (t : Tree σ α β) : t.entriesFrom .left = t.entries :=
  rfl

theorem entriesFrom_right (t : Tree σ α β) : t.entriesFrom .right = t.entries.reverse :=
  List.map_reverse

end Tree

namespace Cursor

open Subtree (Spells)

variable {α β γ : Type} {p : Pool α β} {s : Side} {room : Nat} {t : Option Handle}
  {a : Tree Handle α β} {stack : List Handle} {items : List (α × β)}

/-- The entries that a stack of pending nodes stands for. Under each node there is
room, up to `room` nodes in all, for the whole tree on its far side. -/
inductive Pending (p : Pool α β) (s : Side) (room : Nat) : List Handle → List (α × β) → Prop
  | nil : Pending p s room [] []
  | cons {x : Handle} {n : Node α β} {far : Tree Handle α β} {rest : List Handle}
    {items : List (α × β)} :
    p.read x = .ok n → Spells p (n.child s.other) far → rest.length + 1 + far.depth ≤ room →
      Pending p s room rest items →
      Pending p s room (x :: rest) ((n.key, n.value) :: (far.entriesFrom s ++ items))

theorem Pending.length_le (pending : Pending p s room stack items) : stack.length ≤ room := by
  cases pending with
  | nil => exact Nat.zero_le room
  | cons _ _ fits _ =>
    rw [List.length_cons]
    omega

/-- Pushing a spine puts the entries of its tree before those already pending. The
outcome is the same for every allowance that the depth of the tree does not exceed. -/
theorem pushSpine_run (spells : Spells p t a) (pending : Pending p s room stack items)
    (fits : stack.length + a.depth ≤ room) :
    ∃ full, (∀ allowance, a.depth ≤ allowance → pushSpine p s allowance t stack = .ok full) ∧
      Pending p s room full (a.entriesFrom s ++ items) := by
  induction a using Tree.bySides generalizing t stack items with
  | nil =>
    obtain rfl := Subtree.spells_nil_iff.1 spells
    refine ⟨stack, fun allowance _ => by cases allowance <;> rfl, ?_⟩
    rw [Tree.entriesFrom_nil]
    exact pending
  | node c h l r ih =>
    obtain ⟨rfl, n, found, key, value, -, spellsNear, spellsFar⟩ :=
      (Subtree.spells_node_iff s).1 spells
    have nearLower := Tree.depth_child_lt c h l r s
    have farLower := Tree.depth_child_lt c h l r s.other
    -- the head waits on the stack with its far tree behind it, the near tree goes before both
    have pushed : Pending p s room (c.label :: stack) _ :=
      .cons found spellsFar (by omega) pending
    obtain ⟨full, run, pending'⟩ := ih s spellsNear pushed (by rw [List.length_cons]; omega)
    refine ⟨full, ?_, ?_⟩
    · intro allowance enough
      obtain ⟨allowance, rfl, below⟩ := Tree.limit_below enough
      rw [pushSpine, found]
      exact run allowance (below s)
    · rw [Tree.entriesFrom_node, List.append_assoc]
      rw [key, value] at pending'
      exact pending'

/-- A spine has at most as many nodes as its tree is deep, whatever it is pushed onto. -/
theorem pushSpine_append (spells : Spells p t a) (s : Side) (stack : List Handle) :
    ∃ spine, spine.length ≤ a.depth ∧ ∀ allowance, a.depth ≤ allowance →
      pushSpine p s allowance t stack = .ok (spine ++ stack) := by
  induction a using Tree.bySides generalizing t stack with
  | nil =>
    obtain rfl := Subtree.spells_nil_iff.1 spells
    exact ⟨[], Nat.le_refl 0, fun allowance _ => by cases allowance <;> rfl⟩
  | node c h l r ih =>
    obtain ⟨rfl, n, found, -, -, -, spellsNear, -⟩ := (Subtree.spells_node_iff s).1 spells
    have nearLower := Tree.depth_child_lt c h l r s
    obtain ⟨spine, short, run⟩ := ih s spellsNear (c.label :: stack)
    refine ⟨spine ++ [c.label], ?_, ?_⟩
    · rw [List.length_append, List.length_singleton]
      omega
    · intro allowance enough
      obtain ⟨allowance, rfl, below⟩ := Tree.limit_below enough
      rw [pushSpine, found, List.append_assoc]
      exact run allowance (below s)

/-- Pushing within the room of the stacks. -/
theorem push_run (spells : Spells p t a) (pending : Pending p s room stack items)
    (fits : stack.length + a.depth ≤ room) (small : room ≤ maxDepth) :
    ∃ full, push p s t stack = .ok full ∧ Pending p s room full (a.entriesFrom s ++ items) := by
  obtain ⟨full, run, pending'⟩ := pushSpine_run spells pending fits
  exact ⟨full, run _ (by omega), pending'⟩

/-! ## What remains -/

/-- Exactly `items` remain: each stack stands for them in the order of its end,
perhaps with entries behind them that the other end has answered already. -/
structure Walks (c : Cursor α β) (room : Nat) (items : List (α × β)) : Prop where
  small : room ≤ maxDepth
  front : ∃ beyond, Pending c.pool .left room c.front (items ++ beyond)
  back : ∃ beyond, Pending c.pool .right room c.back (items.reverse ++ beyond)
  remaining : c.remaining = items.length

/-- The entries in the order in which an end answers them. -/
def orderAt (s : Side) (items : List (α × β)) : List (α × β) :=
  match s with
  | .left => items
  | .right => items.reverse

@[simp] theorem orderAt_orderAt (s : Side) (items : List (α × β)) :
    orderAt s (orderAt s items) = items := by
  cases s with
  | left => rfl
  | right => exact List.reverse_reverse items

@[simp] theorem length_orderAt (s : Side) (items : List (α × β)) :
    (orderAt s items).length = items.length := by
  cases s with
  | left => rfl
  | right => exact List.length_reverse

@[simp] theorem orderAt_nil (s : Side) : orderAt s ([] : List (α × β)) = [] := by
  cases s <;> rfl

theorem start_walks {len : Nat} (spells : Spells p t a) (deep : a.depth ≤ room)
    (small : room ≤ maxDepth) (counted : len = a.size) :
    ∃ c, start p t len = .ok c ∧ c.Walks room a.entries := by
  obtain ⟨front, pushedFront, pendingFront⟩ :=
    push_run (s := .left) spells .nil (by simpa using deep) small
  obtain ⟨back, pushedBack, pendingBack⟩ :=
    push_run (s := .right) spells .nil (by simpa using deep) small
  refine ⟨⟨p, front, back, len⟩, ?_, small, ⟨[], pendingFront⟩, ⟨[], ?_⟩, ?_⟩
  · rw [start, pushedFront]
    show (push p .right t [] >>= _) = _
    rw [pushedBack]
    rfl
  · rw [← Tree.entriesFrom_right]
    exact pendingBack
  · rw [counted, Tree.length_entries]

/-- The pull at one end, when the stack there stands for `e` before `items`. -/
theorem pull_of_pending {c : Cursor α β} {e : α × β} (more : c.remaining ≠ 0)
    (pending : Pending c.pool s room (c.pending s) (e :: items)) (small : room ≤ maxDepth) :
    ∃ rest, c.pull s = .ok (some e, c.advance s rest) ∧ Pending c.pool s room rest items := by
  generalize stackEq : c.pending s = stack at pending
  cases pending with
  | @cons x n far rest items found spellsFar fits below =>
    obtain ⟨full, pushed, pending'⟩ := push_run spellsFar below (by omega) small
    refine ⟨full, ?_, pending'⟩
    rw [pull, if_neg more, stackEq]
    simp only [found, pushed]

/-- A pull answers the next entry at its end and takes it off what remains. -/
theorem pull_run {c : Cursor α β} (walks : c.Walks room items) (s : Side) :
    ∃ d, c.pull s = .ok ((orderAt s items).head?, d) ∧
      d.Walks room (orderAt s (orderAt s items).tail) := by
  obtain ⟨beyond, pendingFront⟩ := walks.front
  obtain ⟨behind, pendingBack⟩ := walks.back
  cases s with
  | left =>
    cases items with
    | nil => exact ⟨c, pull_of_remaining_eq_zero _ walks.remaining, walks⟩
    | cons e rest =>
      have more : c.remaining ≠ 0 := by simp [walks.remaining]
      obtain ⟨stack, run, pending'⟩ := pull_of_pending more pendingFront walks.small
      -- the other stack still holds `e`, beyond all that remains
      refine ⟨_, run, walks.small, ⟨beyond, pending'⟩, ⟨e :: behind, ?_⟩, ?_⟩
      · rw [List.reverse_cons, List.append_assoc] at pendingBack
        exact pendingBack
      · show c.remaining - 1 = rest.length
        rw [walks.remaining, List.length_cons, Nat.add_sub_cancel]
  | right =>
    rcases List.eq_nil_or_concat items with rfl | ⟨rest, e, rfl⟩
    · exact ⟨c, pull_of_remaining_eq_zero _ walks.remaining, walks⟩
    · have more : c.remaining ≠ 0 := by simp [walks.remaining]
      have order : orderAt .right (rest.concat e) = e :: rest.reverse := by simp [orderAt]
      rw [List.concat_eq_append, List.reverse_append] at pendingBack
      obtain ⟨stack, run, pending'⟩ := pull_of_pending more pendingBack walks.small
      rw [order, List.head?_cons, List.tail_cons, show rest.reverse = orderAt .right rest from rfl,
        orderAt_orderAt]
      refine ⟨_, run, walks.small, ⟨e :: beyond, ?_⟩, ⟨behind, pending'⟩, ?_⟩
      · rw [List.concat_eq_append, List.append_assoc] at pendingFront
        exact pendingFront
      · show c.remaining - 1 = rest.length
        rw [walks.remaining, List.length_concat, Nat.add_sub_cancel]

/-! ## Requests -/

/-- Passing over `n` entries answers the one after them. -/
theorem nth_run {c : Cursor α β} (walks : c.Walks room items) (s : Side) (n : Nat) :
    ∃ d, c.nth s n = .ok ((orderAt s items)[n]?, d) ∧
      d.Walks room (orderAt s ((orderAt s items).drop (n + 1))) := by
  induction n generalizing c items with
  | zero =>
    obtain ⟨d, run, walks'⟩ := pull_run walks s
    refine ⟨d, ?_, ?_⟩
    · rw [nth, run, List.head?_eq_getElem?]
    · rw [List.drop_one]
      exact walks'
  | succ n ih =>
    obtain ⟨d, run, walks'⟩ := pull_run walks s
    cases order : orderAt s items with
    | nil =>
      rw [order] at run walks'
      refine ⟨d, ?_, walks'⟩
      rw [nth, run]
      rfl
    | cons e rest =>
      rw [order] at run walks'
      obtain ⟨d', run', walks''⟩ := ih walks'
      rw [List.tail_cons, orderAt_orderAt] at run' walks''
      refine ⟨d', ?_, walks''⟩
      rw [nth, run]
      exact run'

/-- Taking entries answers the first ones in the order of that end. -/
theorem take_run {c : Cursor α β} (walks : c.Walks room items) (s : Side) (limit : Nat) :
    take s limit c = .ok ((orderAt s items).take limit) := by
  induction limit generalizing c items with
  | zero => rfl
  | succ limit ih =>
    obtain ⟨d, run, walks'⟩ := pull_run walks s
    cases order : orderAt s items with
    | nil =>
      rw [order] at run
      rw [take, run]
      rfl
    | cons e rest =>
      rw [order] at run walks'
      have below := ih walks'
      rw [List.tail_cons, orderAt_orderAt] at below
      rw [take, run, List.take_succ_cons]
      simp only [List.head?_cons, below]

/-- Draining answers all that remains. -/
theorem drain_run {c : Cursor α β} (walks : c.Walks room items) (s : Side) :
    c.drain s = .ok (orderAt s items) := by
  rw [drain, take_run walks, walks.remaining, ← length_orderAt s, List.take_length]

/-- What a request answers when `items` remain, and what remains after it. -/
def Request.answer (view : α × β → γ) :
    Request → List (α × β) → Answer γ × List (α × β)
  | .pull s, items => (.item ((orderAt s items).head?.map view), orderAt s (orderAt s items).tail)
  | .nth s n, items =>
    (.item ((orderAt s items)[n]?.map view), orderAt s ((orderAt s items).drop (n + 1)))
  | .remaining, items => (.number items.length, items)
  | .sizeHint, items => (.bounds items.length items.length, items)
  | .rest s, items => (.items ((orderAt s items).map view), items)
  | .count, items => (.number items.length, items)
  | .last, items => (.item (items.getLast?.map view), items)

/-- A walking cursor answers every request from what remains. -/
theorem perform_run {c : Cursor α β} (walks : c.Walks room items) (view : α × β → γ)
    (request : Request) :
    ∃ d, perform view request c = .ok ((request.answer view items).1, d) ∧
      d.Walks room (request.answer view items).2 := by
  cases request with
  | pull s =>
    obtain ⟨d, run, walks'⟩ := pull_run walks s
    refine ⟨d, ?_, walks'⟩
    rw [perform, run]
    rfl
  | nth s n =>
    obtain ⟨d, run, walks'⟩ := nth_run walks s n
    refine ⟨d, ?_, walks'⟩
    rw [perform, run]
    rfl
  | remaining =>
    refine ⟨c, ?_, walks⟩
    rw [perform, walks.remaining]
    rfl
  | sizeHint =>
    refine ⟨c, ?_, walks⟩
    rw [perform, sizeHint, walks.remaining]
    rfl
  | rest s =>
    refine ⟨c, ?_, walks⟩
    rw [perform, drain_run walks]
    rfl
  | count =>
    refine ⟨c, ?_, walks⟩
    rw [perform, count, drain_run walks]
    rfl
  | last =>
    refine ⟨c, ?_, walks⟩
    rw [perform, last?, drain_run walks]
    rfl

theorem run_cons {c d k : Cursor α β} {view : α × β → γ} {request : Request}
    {requests : List Request} {answer : Answer γ} {answers : List (Answer γ)}
    (first : perform view request c = .ok (answer, d))
    (others : run view requests d = .ok (answers, k)) :
    run view (request :: requests) c = .ok (answer :: answers, k) := by
  rw [run, first]
  show (run view requests d >>= _) = _
  rw [others]
  rfl

/-- What requests answer one after another when `items` remain, and what remains at last. -/
def Request.answers (view : α × β → γ) :
    List Request → List (α × β) → List (Answer γ) × List (α × β)
  | [], items => ([], items)
  | request :: requests, items =>
    ((request.answer view items).1 :: (answers view requests (request.answer view items).2).1,
      (answers view requests (request.answer view items).2).2)

/-- A walking cursor answers all requests from what remains. -/
theorem run_run {c : Cursor α β} (walks : c.Walks room items) (view : α × β → γ)
    (requests : List Request) :
    ∃ d, run view requests c = .ok ((Request.answers view requests items).1, d) ∧
      d.Walks room (Request.answers view requests items).2 := by
  induction requests generalizing c items with
  | nil => exact ⟨c, rfl, walks⟩
  | cons request requests ih =>
    obtain ⟨d, answered, walks'⟩ := perform_run walks view request
    obtain ⟨k, ran, walks''⟩ := ih walks'
    exact ⟨k, run_cons answered ran, walks''⟩

/-- No sequence of requests to a walking cursor fails. -/
theorem run_walks {c : Cursor α β} (walks : c.Walks room items) (view : α × β → γ)
    (requests : List Request) :
    ∃ answers d rest, run view requests c = .ok (answers, d) ∧ d.Walks room rest := by
  obtain ⟨d, ran, walks'⟩ := run_run walks view requests
  exact ⟨_, d, _, ran, walks'⟩

end Cursor

end BoundedMap
