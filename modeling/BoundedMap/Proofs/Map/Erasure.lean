import BoundedMap.Proofs.Chart.Erasure
import BoundedMap.Proofs.Chart.Reachable
/-!
# Slots do not show

The tree of a map without its slots changes as the balanced-tree algorithm on values
says, and with it the answers. Which slots a map has used, in which order and how
many are left plays no part until a key is refused (`erasure_of_reachable`), except that
a map tells whether it is full by its own capacity (`isFull_shows_capacity`).
-/

namespace BoundedMap.Map

variable {α β : Type} {m : Map α β} {less : α → α → Bool}

/-- An insertion into a reachable map is refused when the descent in the tree without
slots finds no match and the tree fills the capacity; otherwise it is the insertion into
that tree. A removal is the removal from that tree. Hence reachable maps with the same
tree up to slots answer all further requests alike, as long as neither refuses one. -/
theorem erasure_of_reachable (reachable : Reachable less m) :
    ∃ t, m.toTree = .ok t ∧
      (∀ key value,
        (t.erase.find? less key = none ∧ t.erase.size = m.capacity →
          insert key value m = .error (.refused (.exhausted m.capacity)) m) ∧
        (¬(t.erase.find? less key = none ∧ t.erase.size = m.capacity) →
          ∃ n u, insert key value m = .ok (t.erase.insert less () key value).2 n ∧
            n.toTree = .ok u ∧ u.erase = (t.erase.insert less () key value).1)) ∧
      (∀ probe, ∃ n u,
        removeEntry probe m = .ok ((t.erase.remove less probe).2.map Cell.entry) n ∧
          n.toTree = .ok u ∧ u.erase = (t.erase.remove less probe).1) ∧
      ∀ m' t', Reachable less m' → m'.toTree = .ok t' → t'.erase = t.erase →
        ∀ requests, ∃ answers answers' n n' u u', run requests m = .ok answers n ∧
          run requests m' = .ok answers' n' ∧ n.toTree = .ok u ∧ n'.toTree = .ok u' ∧
          ((∀ why, .refused why ∉ answers) → (∀ why, .refused why ∉ answers') →
            u'.erase = u.erase ∧
            ∀ i : Nat, (requests[i]? = some .isFull → m'.capacity = m.capacity) →
              answers'[i]? = answers[i]?) := by
  obtain ⟨a, follows, rfl⟩ := reachable.follows
  have capacity : m.capacity = a.capacity := follows.capacity
  refine ⟨a.tree, toTree_run follows, ?_, ?_, ?_⟩
  · intro key value
    rw [capacity, ← Chart.insert_refused_iff follows.valid key value, ← capacity]
    constructor
    · rintro ⟨why, b, refused⟩
      exact insert_of_refused follows refused
    · intro taken
      have ran := insert_run follows key value
      rcases outcome : a.insert key value with ⟨why | old, b⟩
      · exact absurd ⟨why, b, outcome⟩ taken
      · rw [outcome] at ran
        obtain ⟨n, done, follows'⟩ := ran
        rw [Chart.erase_insert outcome]
        exact ⟨n, b.tree, done, toTree_run follows', rfl⟩
  · intro probe
    obtain ⟨n, done, follows'⟩ := removeEntry_run follows probe
    obtain ⟨trees, answers⟩ := Chart.erase_removeEntry follows.valid probe
    rw [trees, answers]
    exact ⟨n, _, done, toTree_run follows', rfl⟩
  · intro m' t' reachable' read same requests
    obtain ⟨b, followsB, less'⟩ := reachable'.follows
    have capacityB : m'.capacity = b.capacity := followsB.capacity
    obtain rfl : t' = b.tree := Except.ok.inj (read.symm.trans (toTree_run followsB))
    have twins : Chart.Twins a b := ⟨less', same⟩
    obtain ⟨n, ran, follows'⟩ := run_run follows requests
    obtain ⟨n', ran', followsB'⟩ := run_run followsB requests
    refine ⟨_, _, n, n', _, _, ran, ran', toTree_run follows', toTree_run followsB', ?_⟩
    intro taken taken'
    obtain ⟨answers, twins'⟩ := twins.run requests taken taken'
    rw [capacity, capacityB]
    exact ⟨twins'.erase, answers⟩

/-- A map that was filled and cleared hands out its slots in another order than a new
one, and has other room. The two go on alike, in different slots. -/
theorem erasure_of_cleared :
    ∃ m m' : Map Nat Nat, Reachable Order.ascending m ∧ Reachable Order.ascending m' ∧
      m'.capacity = 2 ∧ m.capacity = 3 ∧
      ∃ answers n n' u u', run [.insert 2 5, .insert 1 6, .removeEntry 2, .entries] m =
          .ok answers n ∧
        run [.insert 2 5, .insert 1 6, .removeEntry 2, .entries] m' = .ok answers n' ∧
        n.toTree = .ok u ∧ n'.toTree = .ok u' ∧ u'.erase = u.erase ∧ u' ≠ u := by
  have reachable' : Reachable (Order.ascending : Nat → Nat → Bool)
      (ofPool Order.ascending (.fresh 2) : Map Nat Nat) :=
    .withCapacity (withCapacity_eq _ (by decide))
  obtain ⟨k, filled, reached, followsFilled⟩ := perform_ofPool
    (Order.ascending : Nat → Nat → Bool) (show 3 ≤ maxCapacity by decide)
    (.insertMany [(2, 20), (1, 10), (3, 30)])
  obtain ⟨m, cleared, follows⟩ := perform_run followsFilled .clear
  have reachable := reached.perform cleared
  have follows' := follows_ofPool (β := Nat) (Order.ascending : Nat → Nat → Bool)
    (show 2 ≤ maxCapacity by decide)
  obtain ⟨t, read, -, -, alike⟩ := erasure_of_reachable reachable
  obtain rfl : t = _ := Except.ok.inj (read.symm.trans (toTree_run follows))
  obtain ⟨answers, answers', n, n', u, u', ran, ran', tree, tree', outcome⟩ :=
    alike _ _ reachable' (toTree_run follows') rfl
      [.insert 2 5, .insert 1 6, .removeEntry 2, .entries]
  -- the charts of both maps tell what was answered and where the cells lie
  obtain ⟨l, ranChart, followsN⟩ :=
    run_run follows [.insert 2 5, .insert 1 6, .removeEntry 2, .entries]
  obtain ⟨l', ranChart', followsN'⟩ :=
    run_run follows' [.insert 2 5, .insert 1 6, .removeEntry 2, .entries]
  rw [ran] at ranChart
  rw [ran'] at ranChart'
  obtain ⟨rfl, rfl⟩ := EStateM.Result.ok.inj ranChart
  obtain ⟨rfl, rfl⟩ := EStateM.Result.ok.inj ranChart'
  obtain rfl := Except.ok.inj (tree.symm.trans (toTree_run followsN))
  obtain rfl := Except.ok.inj (tree'.symm.trans (toTree_run followsN'))
  have taken : ∀ why : Refusal, .refused why ∉ ([.value none, .value none, .entry (some (2, 5)),
      .entries [(1, 6)]] : List (Answer Nat Nat)) := by
    intro why
    simp
  obtain ⟨same, -⟩ := outcome taken taken
  exact ⟨m, _, reachable, reachable', follows'.capacity, follows.capacity, _, n, n', _, _, ran,
    ran', tree, tree', same, by decide⟩

/-- Two maps with one and the same entry and with equal trees, slots included: the one
with a single slot is full, the one with two is not. -/
theorem isFull_shows_capacity :
    ∃ m m' : Map Nat Nat, Reachable Order.ascending m ∧ Reachable Order.ascending m' ∧
      perform (.insert 1 10) (ofPool Order.ascending (.fresh 1)) = .ok (.value none) m ∧
      perform (.insert 1 10) (ofPool Order.ascending (.fresh 2)) = .ok (.value none) m' ∧
      (∃ t, m.toTree = .ok t ∧ m'.toTree = .ok t) ∧
      ∃ n n', run [.isFull] m = .ok [.flag true] n ∧ run [.isFull] m' = .ok [.flag false] n' := by
  obtain ⟨m, done, reachable, follows⟩ := perform_ofPool (β := Nat)
    (Order.ascending : Nat → Nat → Bool) (show 1 ≤ maxCapacity by decide) (.insert 1 10)
  obtain ⟨m', done', reachable', follows'⟩ := perform_ofPool (β := Nat)
    (Order.ascending : Nat → Nat → Bool) (show 2 ≤ maxCapacity by decide) (.insert 1 10)
  obtain ⟨n, ran, -⟩ := run_run follows [.isFull]
  obtain ⟨n', ran', -⟩ := run_run follows' [.isFull]
  have trees : m'.toTree = m.toTree := by
    rw [toTree_run follows, toTree_run follows']
    rfl
  exact ⟨m, m', reachable, reachable', done, done',
    ⟨_, toTree_run follows, trees.trans (toTree_run follows)⟩, n, n', ran, ran'⟩

end BoundedMap.Map
