import BoundedMap.Proofs.Subtree.Descent
import BoundedMap.Proofs.Subtree.Relinking
import BoundedMap.Proofs.Tree.Edits
import BoundedMap.Subtree.Update
/-!
# Removal from linked nodes

A removal detaches the node that matches, lets its in-order successor take its
place, and releases its slot last (`remove_run_of_find?`); the successor keeps
the slot that it had. Without a match every node on the way is relinked as it
was (`remove_run_of_absent`). `releaseAll_run` is about clearing: all slots go
onto the free list, each after those below it.
-/

namespace BoundedMap

namespace Tree

variable {σ α β : Type}

theorem labels_removeMin (c : Cell σ α β) (h : Nat) (l r : Tree σ α β) :
    (removeMin c l r).2.label :: (removeMin c l r).1.labels = (node c h l r).labels := by
  rw [labels, labels, cells, ← cells_removeMin c l r, List.map_cons]

theorem labels_merge (l r : Tree σ α β) : (merge l r).labels = l.labels ++ r.labels := by
  rw [labels, cells_merge, List.map_append]
  rfl

end Tree

namespace Subtree

open Pool (AgreeOff Rewrites Lists Releases)

variable {α β : Type} {p q : Pool α β} {t : Option Handle} {less : α → α → Bool} {probe : α}

/-! ## Detaching the leftmost node -/

section Steps

variable {limit : Nat} {x : Handle} {n : Node α β}

theorem removeMin_of_leftmost (found : p.read x = .ok n) (ended : n.left = none) :
    removeMin (limit + 1) x p = .ok (n.right, x) p := by
  rw [removeMin, removeMinWith, bind_of_ok (Pool.node_of_read found), ended]
  rfl

theorem removeMin_of_left {l y least : Handle} {rest : Option Handle} {p₁ q₁ : Pool α β}
    (found : p.read x = .ok n) (deeper : n.left = some l)
    (below : removeMin limit l p = .ok (rest, least) q)
    (linked : Pool.setChild x .left rest q = .ok () p₁) (balanced : balance x p₁ = .ok y q₁) :
    removeMin (limit + 1) x p = .ok (some y, least) q₁ := by
  rw [removeMin, removeMinWith, bind_of_ok (Pool.node_of_read found), deeper]
  show (removeMin limit l >>= _) p = _
  rw [bind_of_ok below]
  show (Pool.setChild x .left rest >>= _) q = _
  rw [bind_of_ok linked, bind_of_ok balanced]
  rfl

end Steps

/-- The detached node is the leftmost one. It keeps its slot and its entry, and
what remains stands without it. -/
theorem removeMin_run {c : Cell Handle α β} {h : Nat} {l r : Tree Handle α β} {x : Handle}
    (stands : Stands p (some x) (.node c h l r)) :
    ∃ q rest m, (∀ limit, (Tree.node c h l r).depth ≤ limit →
        removeMin limit x p = .ok (rest, (Tree.removeMin c l r).2.label) q) ∧
      Stands q rest (Tree.removeMin c l r).1 ∧
      q.read (Tree.removeMin c l r).2.label = .ok m ∧ m.key = (Tree.removeMin c l r).2.key ∧
      m.value = (Tree.removeMin c l r).2.value ∧ Rewrites p q (Tree.node c h l r).labels := by
  induction l generalizing c h r x with
  | nil =>
    obtain ⟨link, n, found, key, value, -, standsLeft, standsRight⟩ := (stands.sides .left).node
    obtain rfl : x = c.label := Option.some.inj link
    have ended : n.left = none := spells_nil_iff.1 standsLeft.spells
    refine ⟨p, n.right, n, ?_, standsRight, found, key, value, .refl p _⟩
    intro limit room
    obtain ⟨limit, rfl, -⟩ := Tree.limit_below room
    exact removeMin_of_leftmost found ended
  | node d g dl dr ihl _ =>
    have branch := stands.sides .left
    obtain ⟨link, n, found, -, -, -, standsNear, -⟩ := branch.node
    obtain rfl : x = c.label := Option.some.inj link
    have deeper : n.left = some d.label := standsNear.spells.eq_linkTo
    have below : Stands p (some d.label) (.node d g dl dr) := deeper ▸ standsNear
    obtain ⟨q, rest, m, run, standsRest, live, key, value, rewrites⟩ := ihl below
    have cut := Tree.labels_removeMin d g dl dr
    have within : (Tree.removeMin d dl dr).1.labels ⊆ (Tree.node d g dl dr).labels := by
      rw [← cut]
      exact List.subset_cons_self _ _
    obtain ⟨-, shrunk, least⟩ := Tree.removeMin_avl below.avl
    obtain ⟨p₁, q₁, y, linked, balanced, standsAfter, rewrites'⟩ :=
      relink_after branch standsRest rewrites.toAgreeOff within branch.head_not_near
        branch.far_not_near (Nat.le_succ_of_le shrunk) least
    -- the detached node lies in none of the slots written on the way back
    have inNear : (Tree.removeMin d dl dr).2.label ∈ (Tree.node d g dl dr).labels := by
      rw [← cut]
      exact List.mem_cons_self
    have notRest : (Tree.removeMin d dl dr).2.label ∉ (Tree.removeMin d dl dr).1.labels := by
      have distinct := below.nodup
      rw [← cut] at distinct
      exact (List.nodup_cons.1 distinct).1
    have off : (Tree.removeMin d dl dr).2.label ∉
        c.label :: ((Tree.removeMin d dl dr).1.labels ++ r.labels) := by
      simp only [List.mem_cons, List.mem_append, not_or]
      exact ⟨fun same => branch.head_not_near (same ▸ inNear), notRest,
        fun inFar => branch.far_not_near _ inFar inNear⟩
    refine ⟨q₁, some y, m, ?_, standsAfter, ?_, key, value, ?_⟩
    · intro limit room
      obtain ⟨limit, rfl, left⟩ := Tree.limit_below room
      exact removeMin_of_left found deeper (run limit (left .left)) linked balanced
    · show q₁.read (Tree.removeMin d dl dr).2.label = .ok m
      rw [rewrites'.read off]
      exact live
    · rw [Tree.labels_node c h]
      refine (rewrites.mono fun x member => ?_).trans (rewrites'.mono fun x member => ?_)
      · exact List.mem_append_left _ member
      · simp only [List.mem_cons, List.mem_append] at member ⊢
        have := @within x
        tauto

/-! ## What takes the place of a node -/

theorem merge_of_left {limit : Nat} {l : Option Handle} : merge limit l none p = .ok l p :=
  rfl

theorem merge_of_right {limit : Nat} {l rest : Option Handle} {r least y : Handle}
    {p₁ q₁ : Pool α β} (detached : removeMin limit r p = .ok (rest, least) q)
    (linked : Pool.update least ({ · with left := l, right := rest }) q = .ok () p₁)
    (balanced : balance least p₁ = .ok y q₁) :
    merge limit l (some r) p = .ok (some y) q₁ := by
  show (removeMin limit r >>= _) p = _
  rw [bind_of_ok detached]
  show (Pool.update least _ >>= _) q = _
  rw [bind_of_ok linked, bind_of_ok balanced]
  rfl

/-- A live node that is given two standing trees for its own is ready, whatever it held before. -/
theorem graft_ready {l rest : Option Handle} {x : Handle} {m : Node α β}
    {left remaining : Tree Handle α β} (standsLeft : Stands q l left)
    (standsRest : Stands q rest remaining) (live : q.read x = .ok m) (notLeft : x ∉ left.labels)
    (notRest : x ∉ remaining.labels) (apart : ∀ h ∈ left.labels, h ∉ remaining.labels)
    (low : left.height ≤ remaining.height + 2) (high : remaining.height ≤ left.height + 2) :
    Ready (q.put x (.occupied { m with left := l, right := rest })) .left x
      { m with left := l, right := rest } left remaining := by
  have agree := (Rewrites.put q x (.occupied { m with left := l, right := rest })).toAgreeOff
  have avoids : ∀ {b : Tree Handle α β}, x ∉ b.labels → ∀ h ∈ b.labels, h ∉ [x] :=
    fun off h member here => off (List.mem_singleton.1 here ▸ member)
  exact
    { live := Pool.read_put_self live { m with left := l, right := rest }
      standsNear := standsLeft.frame agree (avoids notLeft)
      standsFar := standsRest.frame agree (avoids notRest)
      notNear := notLeft
      notFar := notRest
      apart := apart
      low := low
      high := high }

/-- The successor of a removed node, detached and given the two trees of that node, is ready. -/
theorem merge_ready {l : Option Handle} {x : Handle} {left : Tree Handle α β}
    {c : Cell Handle α β} {h : Nat} {rl rr : Tree Handle α β} (standsLeft : Stands p l left)
    (standsRight : Stands p (some x) (.node c h rl rr))
    (apart : ∀ x ∈ (Tree.node c h rl rr).labels, x ∉ left.labels)
    (low : left.height ≤ h + 1) (high : h ≤ left.height + 1) :
    ∃ q rest m, (∀ limit, (Tree.node c h rl rr).depth ≤ limit →
        removeMin limit x p = .ok (rest, (Tree.removeMin c rl rr).2.label) q) ∧
      q.read (Tree.removeMin c rl rr).2.label = .ok m ∧
      m.key = (Tree.removeMin c rl rr).2.key ∧ m.value = (Tree.removeMin c rl rr).2.value ∧
      Ready (q.put (Tree.removeMin c rl rr).2.label
          (.occupied { m with left := l, right := rest })) .left (Tree.removeMin c rl rr).2.label
        { m with left := l, right := rest } left (Tree.removeMin c rl rr).1 ∧
      Rewrites p q (Tree.node c h rl rr).labels := by
  obtain ⟨q, rest, m, run, standsRest, live, key, value, rewrites⟩ := removeMin_run standsRight
  obtain ⟨-, shrunk, most⟩ := Tree.removeMin_avl standsRight.avl
  have standsLeft' := standsLeft.frame rewrites.toAgreeOff fun x inLeft inRight =>
    apart x inRight inLeft
  -- the detached node comes from the right tree, so it is in neither of the two it is given
  have cut := Tree.labels_removeMin c h rl rr
  have distinct := standsRight.nodup
  rw [← cut, List.nodup_cons] at distinct
  have notLeft : (Tree.removeMin c rl rr).2.label ∉ left.labels := by
    apply apart
    rw [← cut]
    exact List.mem_cons_self
  have ready := graft_ready standsLeft' standsRest live notLeft distinct.1
    (fun x inLeft inRest => apart x (cut ▸ List.mem_cons_of_mem _ inRest) inLeft)
    (by omega) (by omega)
  exact ⟨q, rest, m, run, live, key, value, ready, rewrites⟩

/-- The successor of a removed node is put above its two trees. -/
theorem merge_run {l r : Option Handle} {left right : Tree Handle α β}
    (standsLeft : Stands p l left) (standsRight : Stands p r right)
    (apart : ∀ x ∈ right.labels, x ∉ left.labels) (low : left.height ≤ right.height + 1)
    (high : right.height ≤ left.height + 1) :
    ∃ q link, (∀ limit, right.depth ≤ limit → merge limit l r p = .ok link q) ∧
      Stands q link (Tree.merge left right) ∧ Rewrites p q (left.labels ++ right.labels) := by
  cases right with
  | nil =>
    obtain rfl := spells_nil_iff.1 standsRight.spells
    exact ⟨p, l, fun limit _ => merge_of_left, standsLeft, .refl p _⟩
  | node c h rl rr =>
    obtain rfl : r = some c.label := standsRight.spells.eq_linkTo
    obtain ⟨q, rest, m, run, live, key, value, ready, rewrites⟩ :=
      merge_ready standsLeft standsRight apart low high
    have linked := Pool.update_of_read live ({ · with left := l, right := rest })
    obtain ⟨q₁, y, balanced, standsAfter, rewrites'⟩ := balance_stands ready
    simp only [key, value] at standsAfter
    refine ⟨q₁, some y, fun limit room => merge_of_right (run limit room) linked balanced,
      standsAfter, ?_⟩
    have cut := Tree.labels_removeMin c h rl rr
    refine (rewrites.mono (List.subset_append_right _ _)).trans
      (((Rewrites.put q _ _).mono ?_).trans (rewrites'.mono ?_))
    · rw [← cut]
      intro x member
      rw [List.mem_singleton] at member
      exact List.mem_append_right _ (member ▸ List.mem_cons_self)
    · rw [← cut]
      intro x member
      simp only [List.mem_cons, List.mem_append] at member ⊢
      tauto

/-! ## Removal -/

section Steps

variable {limit : Nat} {x : Handle} {n : Node α β}

theorem remove_of_turn {s : Side} {c : Option Handle} {y : Handle} {removed : Option (α × β)}
    {p₁ q₁ : Pool α β} (found : p.read x = .ok n) (turned : turn less probe n.key = some s)
    (below : remove less probe limit (n.child s) p = .ok (c, removed) q)
    (linked : Pool.setChild x s c q = .ok () p₁) (balanced : balance x p₁ = .ok y q₁) :
    remove less probe (limit + 1) (some x) p = .ok (some y, removed) q₁ := by
  rw [remove, removeWith, bind_of_ok (Pool.node_of_read found), turned]
  show (remove less probe limit (n.child s) >>= _) p = _
  rw [bind_of_ok below]
  show (Pool.setChild x s c >>= _) q = _
  rw [bind_of_ok linked, bind_of_ok balanced]
  rfl

theorem remove_of_match {rest : Option Handle} {e : α × β} {q₁ : Pool α β}
    (found : p.read x = .ok n) (here : turn less probe n.key = none)
    (merged : merge limit n.left n.right p = .ok rest q)
    (released : Pool.release x q = .ok e q₁) :
    remove less probe (limit + 1) (some x) p = .ok (rest, some e) q₁ := by
  rw [remove, removeWith, bind_of_ok (Pool.node_of_read found), here]
  show (merge limit n.left n.right >>= _) p = _
  rw [bind_of_ok merged]
  show (Pool.release x >>= _) q = _
  rw [bind_of_ok released]
  rfl

end Steps

/-- Removing a key that is bound answers the stored entry and releases its slot. -/
theorem remove_run_of_find? {a : Tree Handle α β} {d : Cell Handle α β} (stands : Stands p t a)
    (found : a.find? less probe = some d) (counted : 0 < p.live) :
    ∃ q link, (∀ limit, a.depth ≤ limit →
        remove less probe limit t p = .ok (link, some d.entry) q) ∧
      Stands q link (a.remove less probe).1 ∧ AgreeOff p q a.labels ∧
      q.slot d.label = .ok (.free p.free) ∧ q.free = some d.label ∧ q.live + 1 = p.live := by
  induction a using Tree.bySides generalizing t with
  | nil => cases found
  | node c h l r ih =>
    cases turned : turn less probe c.key with
    | none =>
      rw [Tree.find?_of_match _ _ _ turned] at found
      obtain rfl : c = d := Option.some.inj found
      have branch := stands.sides .left
      obtain ⟨rfl, n, read, keyEq, valueEq, -, standsLeft, standsRight⟩ := branch.node
      obtain ⟨-, low, high, -, -⟩ := Tree.avl_node_iff.1 stands.avl
      obtain ⟨q, link, run, standsRest, rewrites⟩ :=
        merge_run standsLeft standsRight branch.far_not_near low high
      -- the node itself is untouched until it is released
      have off : c.label ∉ l.labels ++ r.labels := by
        rw [List.mem_append, not_or]
        exact ⟨branch.head_not_near, branch.head_not_far⟩
      have read' : q.read c.label = .ok n := (rewrites.read off).trans read
      obtain ⟨q₁, released, agree, unused, head, count⟩ :=
        Pool.release_of_read read' (rewrites.live ▸ counted)
      rw [Tree.remove_of_match _ _ _ turned]
      refine ⟨q₁, link, ?_, standsRest.frame agree ?_, ?_, ?_, head, ?_⟩
      · intro limit room
        obtain ⟨limit, rfl, left⟩ := Tree.limit_below room
        have answer : (n.key, n.value) = c.entry := by
          rw [keyEq, valueEq]
          rfl
        rw [← answer]
        exact remove_of_match read (keyEq ▸ turned) (run limit (left .right)) released
      · intro x member here
        rw [Tree.labels_merge] at member
        exact off (List.mem_singleton.1 here ▸ member)
      · rw [Tree.labels_node]
        refine (rewrites.toAgreeOff.mono fun x member => ?_).trans (agree.mono (by simp))
        simp only [List.mem_cons, List.mem_append] at member ⊢
        tauto
      · rw [unused, rewrites.free]
      · rw [count, rewrites.live]
    | some s =>
      have branch := stands.sides s
      obtain ⟨rfl, n, read, keyEq, -, -, standsNear, -⟩ := branch.node
      rw [Tree.find?_of_turn _ _ _ turned] at found
      rw [Tree.remove_of_turn _ _ _ turned]
      have labelsNew := Tree.labels_remove_of_find? less probe found
      have within : (((Tree.node c h l r).child s).remove less probe).1.labels ⊆
          ((Tree.node c h l r).child s).labels :=
        fun x member => labelsNew.subset (List.mem_cons_of_mem _ member)
      obtain ⟨-, shrunk, least⟩ := Tree.remove_avl less probe standsNear.avl
      obtain ⟨q, link, run, standsRest, agree, unused, head, count⟩ := ih s standsNear found
      obtain ⟨p₁, q₁, y, linked, balanced, standsAfter, rewrites⟩ :=
        relink_after branch standsRest agree within branch.head_not_near branch.far_not_near
          (Nat.le_succ_of_le shrunk) least
      -- the released slot is not written on the way back
      have inNear : d.label ∈ ((Tree.node c h l r).child s).labels :=
        labelsNew.subset List.mem_cons_self
      have off : d.label ∉ c.label :: ((((Tree.node c h l r).child s).remove less probe).1.labels
          ++ ((Tree.node c h l r).child s.other).labels) := by
        simp only [List.mem_cons, List.mem_append, not_or]
        exact ⟨fun same => branch.head_not_near (same ▸ inNear),
          (List.nodup_cons.1 (labelsNew.symm.nodup standsNear.nodup)).1,
          fun inFar => branch.far_not_near _ inFar inNear⟩
      refine ⟨q₁, some y, ?_, standsAfter, ?_, ?_, ?_, ?_⟩
      · intro limit room
        obtain ⟨limit, rfl, left⟩ := Tree.limit_below room
        exact remove_of_turn read (keyEq ▸ turned) (run limit (left s)) linked balanced
      · rw [Tree.node_eq_branch s]
        refine (agree.mono fun x member => by simp [member]).trans
          (rewrites.toAgreeOff.mono fun x member => ?_)
        have := @within x
        simp only [List.mem_cons, List.mem_append, Tree.mem_labels_branch] at member ⊢
        tauto
      · rw [rewrites.slot _ off, unused]
      · rw [rewrites.free, head]
      · rw [rewrites.live, count]

/-- Removing a key that is not bound answers nothing and leaves the same tree. -/
theorem remove_run_of_absent {a : Tree Handle α β} (stands : Stands p t a)
    (absent : a.find? less probe = none) :
    ∃ q, (∀ limit, a.depth ≤ limit → remove less probe limit t p = .ok (t, none) q) ∧
      Stands q t a ∧ Rewrites p q a.labels := by
  induction a using Tree.bySides generalizing t with
  | nil =>
    obtain rfl := spells_nil_iff.1 stands.spells
    exact ⟨p, fun limit _ => by cases limit <;> rfl, stands, .refl p _⟩
  | node c h l r ih =>
    cases turned : turn less probe c.key with
    | none =>
      rw [Tree.find?_of_match _ _ _ turned] at absent
      cases absent
    | some s =>
      have branch := stands.sides s
      obtain ⟨rfl, n, read, keyEq, -, -, standsNear, -⟩ := branch.node
      rw [Tree.find?_of_turn _ _ _ turned] at absent
      obtain ⟨q, run, standsRest, rewrites⟩ := ih s standsNear absent
      obtain ⟨p₁, q₁, y, linked, balanced, standsAfter, rewrites'⟩ :=
        relink_after branch standsRest rewrites.toAgreeOff (List.Subset.refl _)
          branch.head_not_near branch.far_not_near (Nat.le_succ _) (Nat.le_succ _)
      rw [Tree.rebalance_self branch.avl, ← Tree.node_eq_branch] at standsAfter
      obtain rfl : y = c.label := Option.some.inj standsAfter.spells.eq_linkTo
      refine ⟨q₁, ?_, standsAfter, ?_⟩
      · intro limit room
        obtain ⟨limit, rfl, left⟩ := Tree.limit_below room
        exact remove_of_turn read (keyEq ▸ turned) (run limit (left s)) linked balanced
      · rw [Tree.node_eq_branch s]
        exact (rewrites.mono fun x member => by simp [member]).trans
          (rewrites'.mono fun x member => by simpa using member)

/-! ## Clearing -/

theorem releaseAll_of_read {limit : Nat} {x : Handle} {n : Node α β} {e : α × β}
    {p₁ p₂ : Pool α β} (found : p.read x = .ok n)
    (left : releaseAll limit n.left p = .ok () p₁)
    (right : releaseAll limit n.right p₁ = .ok () p₂)
    (released : Pool.release x p₂ = .ok e q) :
    releaseAll (limit + 1) (some x) p = .ok () q := by
  rw [releaseAll, bind_of_ok (Pool.node_of_read found), bind_of_ok left, bind_of_ok right]
  show EStateM.map _ (Pool.release x) p₂ = _
  rw [EStateM.map, released]

/-- Releasing a tree is releasing its slots in post-order, which puts them in front of the free
list, the root first. -/
theorem releaseAll_run {a : Tree Handle α β} {free : List Handle} (spells : Spells p t a)
    (nodup : a.labels.Nodup) (lists : Lists p p.free free) (counted : a.size ≤ p.live) :
    ∃ q, (∀ limit, a.depth ≤ limit → releaseAll limit t p = .ok () q) ∧
      Lists q q.free (a.postorder.reverse ++ free) ∧ AgreeOff p q a.labels ∧
      q.live + a.size = p.live ∧ Releases p a.postorder q := by
  induction a generalizing p t free with
  | nil =>
    obtain rfl := spells_nil_iff.1 spells
    exact ⟨p, fun limit _ => by cases limit <;> rfl, lists, .refl p _, rfl, .nil⟩
  | node c h l r ihl ihr =>
    obtain ⟨rfl, n, read, -, -, -, spellsLeft, spellsRight⟩ := (spells_node_iff .left).1 spells
    obtain ⟨nodupLeft, nodupRight, notLeft, notRight, apart⟩ :=
      (Tree.nodup_labels_branch (s := .left)).1 nodup
    rw [Tree.size] at counted
    obtain ⟨p₁, runLeft, lists₁, agree₁, count₁, first⟩ := ihl spellsLeft nodupLeft lists (by omega)
    -- releasing the left tree leaves the right one and the node above both alone
    have spellsRight' : Spells p₁ n.right r :=
      spellsRight.frame agree₁ fun x inRight inLeft => apart x inLeft inRight
    obtain ⟨p₂, runRight, lists₂, agree₂, count₂, second⟩ :=
      ihr spellsRight' nodupRight lists₁ (by omega)
    have read' : p₂.read c.label = .ok n :=
      ((agree₂.read notRight).trans (agree₁.read notLeft)).trans read
    obtain ⟨q, released, agree, unused, head, count⟩ :=
      Pool.release_of_read read' (by omega)
    refine ⟨q, ?_, ?_, ?_, ?_, (first.append second).append (.cons released .nil)⟩
    · intro limit room
      obtain ⟨limit, rfl, left⟩ := Tree.limit_below room
      exact releaseAll_of_read read (runLeft limit (left .left)) (runRight limit (left .right))
        released
    · have listed : (Tree.node c h l r).postorder.reverse ++ free =
          c.label :: (r.postorder.reverse ++ (l.postorder.reverse ++ free)) := by
        simp [Tree.postorder]
      rw [listed, head]
      refine .cons unused (lists₂.frame agree fun x member here => ?_)
      obtain ⟨next, slot⟩ := lists₂.slot_of_mem member
      exact Pool.ne_of_read_of_slot read' slot (List.mem_singleton.1 here).symm
    · rw [Tree.labels_node]
      refine (agree₁.mono ?_).trans ((agree₂.mono ?_).trans (agree.mono ?_)) <;> simp
    · rw [Tree.size]
      omega

end Subtree

end BoundedMap
