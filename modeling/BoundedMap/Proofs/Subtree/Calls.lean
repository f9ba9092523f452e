import BoundedMap.Proofs.Subtree.Outcomes
/-!
# Where rebalancing is called

Rebalancing is made for nodes whose subtrees are balanced and differ by at most two in height
(`Balanceable`), and every call that an update makes is at such a node. To say this of every call,
the recursions are taken around another step than `balance`: any step that does the same at such
nodes, and whatever it likes at others, makes the same update of it. A step that fails at all others
is one of them, so none is ever met.
-/

namespace BoundedMap

/-- Two sequences of steps end alike when the first steps do and, after whatever these answer, the
second ones. -/
theorem bind_congr_at {σ γ δ : Type} {step step' : EStateM Failure σ γ}
    {next next' : γ → EStateM Failure σ δ} {s : σ} (same : step' s = step s)
    (rest : ∀ a t, step s = .ok a t → next' a t = next a t) :
    (step' >>= next') s = (step >>= next) s := by
  cases done : step s with
  | ok a t =>
    rw [bind_of_ok done, bind_of_ok (same.trans done)]
    exact rest a t done
  | error e t => rw [bind_of_error done, bind_of_error (same.trans done)]

namespace Subtree

open Pool (AgreeOff)

variable {α β : Type} {p p₁ q : Pool α β} {t : Option Handle} {a : Tree Handle α β}
  {bal : Handle → PoolM α β Handle} {less : α → α → Bool}

/-! ## Steps that do the same -/

/-- Rebalancing may be called at `x`: the subtrees of the node are balanced and differ by at most
two in height. -/
def Balanceable (p : Pool α β) (x : Handle) : Prop :=
  ∃ n l r, Ready p .left x n l r

/-- Where rebalancing may be called, `bal` does what `balance` does. -/
def StandsIn (bal : Handle → PoolM α β Handle) : Prop :=
  ∀ p x, Balanceable p x → bal x p = balance x p

theorem Ready.balanceable {s : Side} {x : Handle} {n : Node α β} {near far : Tree Handle α β}
    (ready : Ready p s x n near far) : Balanceable p x := by
  cases s with
  | left => exact ⟨n, near, far, ready⟩
  | right => exact ⟨n, far, near, ready.flip⟩

/-- After a node was linked to a new subtree, on the way back of an update, rebalancing may be
called there. -/
theorem balanceable_of_relinked {s : Side} {c : Cell Handle α β} {h : Nat} {link : Option Handle}
    {near far new : Tree Handle α β} {ks : List Handle} {u : Unit}
    (stands : Stands p t (.branch s c h near far)) (standsNew : Stands q link new)
    (agree : AgreeOff p q ks) (within : new.labels ⊆ ks) (off : c.label ∉ ks)
    (offFar : ∀ x ∈ far.labels, x ∉ ks) (most : new.height ≤ near.height + 1)
    (least : near.height ≤ new.height + 1)
    (linked : Pool.setChild c.label s link q = .ok u p₁) : Balanceable p₁ c.label := by
  obtain ⟨p₂, n, linked', ready, -⟩ :=
    relink_ready stands standsNew agree within off offFar most least
  obtain ⟨-, rfl⟩ := EStateM.Result.ok.inj (linked.symm.trans linked')
  exact ready.balanceable

/-- An insertion is the same around every step that stands in for `balance`. -/
theorem insertWith_eq (standsIn : StandsIn bal) (stands : Stands p t a) (pops : p.Pops)
    (less : α → α → Bool) (key : α) (value : β) {limit : Nat} (room : a.depth ≤ limit) :
    insertWith bal less key value limit t p = insert less key value limit t p := by
  induction a using Tree.bySides generalizing t limit with
  | nil =>
    obtain rfl := spells_nil_iff.1 stands.spells
    cases limit <;> rfl
  | node c h l r ih =>
    obtain ⟨limit, rfl, left⟩ := Tree.limit_below room
    cases turned : turn less key c.key with
    | none =>
      obtain ⟨rfl, n, read, keyEq, -⟩ := (stands.sides .left).node
      rw [insert, insertWith, insertWith, bind_of_ok (Pool.node_of_read read),
        bind_of_ok (Pool.node_of_read read), keyEq, turned]
    | some s =>
      have branch := stands.sides s
      obtain ⟨rfl, n, read, keyEq, -, -, standsNear, standsFar⟩ := branch.node
      rw [insert, insertWith, insertWith, bind_of_ok (Pool.node_of_read read),
        bind_of_ok (Pool.node_of_read read), keyEq, turned]
      refine bind_congr_at (ih s standsNear (left s)) fun result q below => ?_
      refine bind_congr_at rfl fun u p₁ linked => ?_
      rcases insert_outcome standsNear pops less key value with
        ⟨q', y, label, run, grown⟩ | ⟨-, -, failed⟩
      · obtain ⟨rfl, rfl⟩ := EStateM.Result.ok.inj (below.symm.trans (run limit (left s)))
        -- neither the node nor its other subtree lies in the slots that were written
        have off : ∀ old, c.label ∉ p.acquired old ++ ((Tree.node c h l r).child s).labels := by
          intro old
          rw [List.mem_append, not_or]
          exact ⟨pops.not_mem_acquired read old, branch.head_not_near⟩
        have offFar : ∀ old, ∀ x ∈ ((Tree.node c h l r).child s.other).labels,
            x ∉ p.acquired old ++ ((Tree.node c h l r).child s).labels := by
          intro old x inFar
          obtain ⟨d, live⟩ := standsFar.spells.read_of_mem inFar
          rw [List.mem_append, not_or]
          exact ⟨pops.not_mem_acquired live old, branch.far_not_near x inFar⟩
        have ready := balanceable_of_relinked branch grown.stands grown.agree grown.within (off _)
          (offFar _) grown.most (Nat.le_succ_of_le grown.least) linked
        exact bind_congr_at (standsIn p₁ c.label ready) fun _ _ _ => rfl
      · cases below.symm.trans (failed limit (left s))

/-- So is detaching the first node. -/
theorem removeMinWith_eq {x : Handle} (standsIn : StandsIn bal) (stands : Stands p (some x) a)
    {limit : Nat} (room : a.depth ≤ limit) :
    removeMinWith bal limit x p = removeMin limit x p := by
  induction a generalizing x limit with
  | nil => cases stands.spells
  | node c h l r ihl _ =>
    obtain ⟨limit, rfl, left⟩ := Tree.limit_below room
    have branch := stands.sides .left
    obtain ⟨link, n, found, -, -, -, standsNear, -⟩ := branch.node
    obtain rfl : x = c.label := Option.some.inj link
    rw [removeMin, removeMinWith, removeMinWith, bind_of_ok (Pool.node_of_read found),
      bind_of_ok (Pool.node_of_read found)]
    cases deeper : n.left with
    | none => rfl
    | some y =>
      have below : Stands p (some y) l := deeper ▸ standsNear
      refine bind_congr_at (ihl below (left .left)) fun result q detached => ?_
      refine bind_congr_at rfl fun u p₁ linked => ?_
      obtain ⟨q', rest, z, b, run, outcome⟩ := removeMin_outcome below
      obtain ⟨rfl, rfl⟩ := EStateM.Result.ok.inj (detached.symm.trans (run limit (left .left)))
      have ready := balanceable_of_relinked branch outcome.stands outcome.rewrites.toAgreeOff
        outcome.within branch.head_not_near branch.far_not_near (Nat.le_succ_of_le outcome.most)
        outcome.least linked
      exact bind_congr_at (standsIn p₁ c.label ready) fun _ _ _ => rfl

/-- So is putting a successor in the place of a node, though the successor comes with the height of
its old place. -/
theorem mergeWith_eq {l r : Option Handle} {left right : Tree Handle α β}
    (standsIn : StandsIn bal) (standsLeft : Stands p l left) (standsRight : Stands p r right)
    (apart : ∀ x ∈ right.labels, x ∉ left.labels) (low : left.height ≤ right.height + 1)
    (high : right.height ≤ left.height + 1) {limit : Nat} (room : right.depth ≤ limit) :
    mergeWith bal limit l r p = merge limit l r p := by
  cases right with
  | nil =>
    obtain rfl := spells_nil_iff.1 standsRight.spells
    rfl
  | node c h rl rr =>
    obtain rfl : r = some c.label := standsRight.spells.eq_linkTo
    show (removeMinWith bal limit c.label >>= _) p = (removeMin limit c.label >>= _) p
    refine bind_congr_at (removeMinWith_eq standsIn standsRight room) fun result q detached => ?_
    refine bind_congr_at rfl fun u p₁ linked => ?_
    obtain ⟨q', rest, m, run, live, -, -, ready, -⟩ :=
      merge_ready standsLeft standsRight apart low high
    obtain ⟨rfl, rfl⟩ := EStateM.Result.ok.inj (detached.symm.trans (run limit room))
    have linked' := Pool.update_of_read live ({ · with left := l, right := rest })
    obtain ⟨-, rfl⟩ := EStateM.Result.ok.inj (linked.symm.trans linked')
    exact bind_congr_at (standsIn _ _ ready.balanceable) fun _ _ _ => rfl

/-- So is a removal. -/
theorem removeWith_eq (standsIn : StandsIn bal) (stands : Stands p t a) (counted : a.size ≤ p.live)
    (less : α → α → Bool) (probe : α) {limit : Nat} (room : a.depth ≤ limit) :
    removeWith bal less probe limit t p = remove less probe limit t p := by
  induction a using Tree.bySides generalizing t limit with
  | nil =>
    obtain rfl := spells_nil_iff.1 stands.spells
    cases limit <;> rfl
  | node c h l r ih =>
    obtain ⟨limit, rfl, left⟩ := Tree.limit_below room
    cases turned : turn less probe c.key with
    | none =>
      have branch := stands.sides .left
      obtain ⟨rfl, n, read, keyEq, -, -, standsLeft, standsRight⟩ := branch.node
      obtain ⟨-, low, high, -, -⟩ := Tree.avl_node_iff.1 stands.avl
      rw [remove, removeWith, removeWith, bind_of_ok (Pool.node_of_read read),
        bind_of_ok (Pool.node_of_read read), keyEq, turned]
      exact bind_congr_at (mergeWith_eq standsIn standsLeft standsRight branch.far_not_near low
        high (left .right)) fun _ _ _ => rfl
    | some s =>
      have branch := stands.sides s
      obtain ⟨rfl, n, read, keyEq, -, -, standsNear, -⟩ := branch.node
      rw [remove, removeWith, removeWith, bind_of_ok (Pool.node_of_read read),
        bind_of_ok (Pool.node_of_read read), keyEq, turned]
      have fewer : ((Tree.node c h l r).child s).size ≤ p.live :=
        Nat.le_trans (Nat.le_of_lt (Tree.size_child_lt c h l r s)) counted
      refine bind_congr_at (ih s standsNear fewer (left s)) fun result q below => ?_
      refine bind_congr_at rfl fun u p₁ linked => ?_
      obtain ⟨q', link, run, cut⟩ := remove_outcome standsNear fewer less probe
      obtain ⟨rfl, rfl⟩ := EStateM.Result.ok.inj (below.symm.trans (run limit (left s)))
      have ready := balanceable_of_relinked branch cut.stands cut.agree cut.within
        branch.head_not_near branch.far_not_near (Nat.le_succ_of_le cut.most) cut.least linked
      exact bind_congr_at (standsIn p₁ c.label ready) fun _ _ _ => rfl

end Subtree

end BoundedMap
