import BoundedMap.Map.Check
import BoundedMap.Proofs.Pool.Check
import BoundedMap.Proofs.Subtree.Relinking
/-!
# What the walk of a self-check finds out

`survey` follows links that may lead anywhere. When it ends well it has met a tree: its slots
are distinct and were not marked before, heights and balance are right, and every key lies
between its bounds (`surveyed`). Over links that do spell out such a tree it can fail for the
sake of a key only, and then some key does miss its bound (`survey_fails`).

As in the check of a pool each slot is marked once, so the walk never comes to its limit
(`survey_ends`).
-/

namespace BoundedMap.Map

open Pool (Unmarked count_mark unmarked_mark unmarked_mark_iff)
open Subtree (Stands)

variable {α β : Type} {less : α → α → Bool} {p : Pool α β} {x : Handle} {n : Node α β}
  {link : Option Handle} {t : Tree Handle α β} {key : α} {lower upper : Option α}
  {marks : Array Bool} {limit : Nat} {found : Survey} {v : Violation α} {keys : List α}

/-! ## Keys and their bounds -/

/-- What is wrong with a key between two bounds, if anything. -/
def misplaced (less : α → α → Bool) (key : α) (lower upper : Option α) : Option (Violation α) :=
  match lower.filter fun b => !less b key with
  | some b => some (.notAbove key b)
  | none => (upper.filter fun b => !less key b).map (.notBelow key)

theorem misplaced_eq_none_iff : misplaced less key lower upper = none ↔
    (∀ b ∈ lower, less b key = true) ∧ ∀ b ∈ upper, less key b = true := by
  rw [misplaced]
  split
  · rename_i b missed
    obtain ⟨bound, miss⟩ := Option.filter_eq_some_iff.1 missed
    simp_all
  · rename_i met
    simp_all [Option.filter_eq_none_iff]

/-- A violation that names two of these keys and tells that one is not on its side of the
other. -/
inductive Misordered (less : α → α → Bool) (keys : List α) : Violation α → Prop
  | notAbove {key b : α} :
    key ∈ keys → b ∈ keys → less b key = false → Misordered less keys (.notAbove key b)
  | notBelow {key b : α} :
    key ∈ keys → b ∈ keys → less key b = false → Misordered less keys (.notBelow key b)

theorem misordered_of_misplaced (missed : misplaced less key lower upper = some v)
    (here : key ∈ keys) (low : ∀ b ∈ lower, b ∈ keys) (high : ∀ b ∈ upper, b ∈ keys) :
    Misordered less keys v := by
  rw [misplaced] at missed
  split at missed
  · rename_i b miss
    obtain ⟨bound, above⟩ := Option.filter_eq_some_iff.1 miss
    cases missed
    exact .notAbove here (low b bound) (by simpa using above)
  · obtain ⟨b, miss, rfl⟩ := Option.map_eq_some_iff.1 missed
    obtain ⟨bound, below⟩ := Option.filter_eq_some_iff.1 miss
    exact .notBelow here (high b bound) (by simpa using below)

/-- The report of a walk that came to its limit, in the tree or along the free list. -/
def Violation.Endless : Violation α → Prop
  | .fault what => what = .endlessPath
  | .pool what => what = .fault .endlessPath
  | _ => False

theorem Misordered.not_endless (named : Misordered less keys v) : ¬ v.Endless := by
  cases named <;> exact id

/-! ## One step of the walk -/

/-- What the check makes of a node once both its subtrees were surveyed. -/
def close (n : Node α β) (l r : Survey) : Except (Violation α) Survey :=
  if 1 + max l.height r.height ≠ n.height then
    .error (.wrongHeight n.height (1 + max l.height r.height) n.key)
  else if max l.height r.height - min l.height r.height > 1 then
    .error (.unbalanced n.key l.height r.height)
  else .ok ⟨1 + max l.height r.height, 1 + l.count + r.count, r.marks⟩

theorem close_eq_ok_iff {l r : Survey} : close n l r = .ok found ↔
    n.height = 1 + max l.height r.height ∧ l.height ≤ r.height + 1 ∧ r.height ≤ l.height + 1 ∧
      found = ⟨1 + max l.height r.height, 1 + l.count + r.count, r.marks⟩ := by
  rw [close]
  split
  · rename_i wrong
    exact ⟨nofun, fun right => absurd right.1.symm wrong⟩
  · rename_i right
    split
    · rename_i leaning
      exact ⟨nofun, fun ⟨_, low, high, _⟩ => by omega⟩
    · rename_i level
      rw [Except.ok.injEq]
      constructor
      · rintro rfl
        exact ⟨by omega, by omega, by omega, rfl⟩
      · rintro ⟨-, -, -, rfl⟩
        rfl

theorem close_ends {l r : Survey} (failed : close n l r = .error v) : ¬ v.Endless := by
  rw [close] at failed
  split at failed
  · cases failed
    exact id
  · split at failed <;> cases failed
    exact id

theorem survey_none : survey less p limit none lower upper marks = .ok ⟨0, 0, marks⟩ := by
  cases limit <;> rfl

/-- The step onto a live node that was not met before. -/
theorem survey_eq (unmarked : Unmarked marks x) (live : p.read x = .ok n) :
    survey less p (limit + 1) (some x) lower upper marks =
      match misplaced less n.key lower upper with
      | some v => .error v
      | none =>
        (survey less p limit n.left lower (some n.key) (marks.setIfInBounds x.index true)).bind
          fun l => (survey less p limit n.right (some n.key) upper l.marks).bind (close n l) := by
  rw [survey, unmarked]
  simp only [live]
  cases lower with
  | none =>
    cases upper with
    | none => rfl
    | some b => cases below : less n.key b <;> simp only [misplaced, Option.filter, below] <;> rfl
  | some a =>
    cases above : less a n.key with
    | false =>
      simp only [misplaced, Option.filter, above]
      rfl
    | true =>
      cases upper with
      | none =>
        simp only [misplaced, Option.filter, above]
        rfl
      | some b =>
        cases below : less n.key b <;> simp only [misplaced, Option.filter, above, below] <;> rfl

/-- Every other step ends the walk, and not for want of a limit. -/
theorem survey_stuck (less : α → α → Bool) (limit : Nat) (lower upper : Option α)
    (stuck : ¬ (Unmarked marks x ∧ ∃ n, p.read x = .ok n)) :
    ∃ v, survey less p (limit + 1) (some x) lower upper marks = .error v ∧ ¬ v.Endless := by
  rw [survey]
  cases mark : marks[x.index]? with
  | none => exact ⟨_, rfl, nofun⟩
  | some met =>
    cases met with
    | true => exact ⟨_, rfl, id⟩
    | false =>
      cases read : p.read x with
      | ok n => exact absurd ⟨mark, n, read⟩ stuck
      | error what =>
        refine ⟨_, rfl, ?_⟩
        rcases Pool.fault_of_read read with rfl | rfl <;> exact nofun

/-- The ways in which the step onto a live node can end. -/
inductive Steps (less : α → α → Bool) (p : Pool α β) (limit : Nat) (x : Handle) (n : Node α β)
    (lower upper : Option α) (marks : Array Bool) : Except (Violation α) Survey → Prop
  | misplaced {v : Violation α} :
    misplaced less n.key lower upper = some v → Steps less p limit x n lower upper marks (.error v)
  | left {v : Violation α} :
    misplaced less n.key lower upper = none →
      survey less p limit n.left lower (some n.key) (marks.setIfInBounds x.index true) = .error v →
      Steps less p limit x n lower upper marks (.error v)
  | right {l : Survey} {v : Violation α} :
    misplaced less n.key lower upper = none →
      survey less p limit n.left lower (some n.key) (marks.setIfInBounds x.index true) = .ok l →
      survey less p limit n.right (some n.key) upper l.marks = .error v →
      Steps less p limit x n lower upper marks (.error v)
  | closed {l r : Survey} {result : Except (Violation α) Survey} :
    misplaced less n.key lower upper = none →
      survey less p limit n.left lower (some n.key) (marks.setIfInBounds x.index true) = .ok l →
      survey less p limit n.right (some n.key) upper l.marks = .ok r →
      close n l r = result → Steps less p limit x n lower upper marks result

theorem survey_some (unmarked : Unmarked marks x) (live : p.read x = .ok n) :
    Steps less p limit x n lower upper marks
      (survey less p (limit + 1) (some x) lower upper marks) := by
  rw [survey_eq unmarked live]
  split
  · rename_i v missed
    exact .misplaced missed
  · rename_i placed
    cases left : survey less p limit n.left lower (some n.key)
        (marks.setIfInBounds x.index true) with
    | error v => exact .left placed left
    | ok l =>
      cases right : survey less p limit n.right (some n.key) upper l.marks with
      | error v =>
        rw [Except.bind, right]
        exact .right placed left right
      | ok r =>
        rw [Except.bind, right]
        exact .closed placed left right rfl

/-- A step that ends well was made onto a live node that was not met before, with its key in
place, and both subtrees were surveyed. -/
theorem survey_some_eq_ok
    (done : survey less p (limit + 1) (some x) lower upper marks = .ok found) :
    ∃ n l r, Unmarked marks x ∧ p.read x = .ok n ∧ misplaced less n.key lower upper = none ∧
      survey less p limit n.left lower (some n.key) (marks.setIfInBounds x.index true) = .ok l ∧
      survey less p limit n.right (some n.key) upper l.marks = .ok r ∧
      close n l r = .ok found := by
  by_cases fresh : Unmarked marks x ∧ ∃ n, p.read x = .ok n
  · obtain ⟨unmarked, n, live⟩ := fresh
    have step : Steps less p limit x n lower upper marks _ := survey_some unmarked live
    rw [done] at step
    cases step with
    | closed placed left right closed =>
      exact ⟨n, _, _, unmarked, live, placed, left, right, closed⟩
  · obtain ⟨v, failed, -⟩ := survey_stuck less limit lower upper fresh
    cases done.symm.trans failed

/-! ## A walk that ends well -/

/-- A tree that a walk has met, and what it has noted. -/
structure Surveyed (less : α → α → Bool) (p : Pool α β) (link : Option Handle)
    (lower upper : Option α) (marks : Array Bool) (found : Survey) (t : Tree Handle α β) :
    Prop where
  stands : Stands p link t
  unmarked : ∀ h ∈ t.labels, Unmarked marks h
  bounded : t.Bounded less lower upper
  height : found.height = t.height
  count : found.count = t.size
  /-- The slots of the tree are marked now, and no others. -/
  marks : ∀ h, Unmarked found.marks h ↔ Unmarked marks h ∧ h ∉ t.labels

theorem Surveyed.nil (done : survey less p limit none lower upper marks = .ok found) :
    Surveyed less p none lower upper marks found .nil := by
  rw [survey_none] at done
  cases done
  exact ⟨.nil, nofun, trivial, rfl, rfl, by simp [Tree.labels, Tree.cells]⟩

/-- Two trees met one after the other and the node above them. -/
theorem Surveyed.node {l r : Survey} {a b : Tree Handle α β} (unmarked : Unmarked marks x)
    (live : p.read x = .ok n) (placed : misplaced less n.key lower upper = none)
    (left : Surveyed less p n.left lower (some n.key) (marks.setIfInBounds x.index true) l a)
    (right : Surveyed less p n.right (some n.key) upper l.marks r b)
    (closed : close n l r = .ok found) :
    Surveyed less p (some x) lower upper marks found
      (.node ⟨x, n.key, n.value⟩ n.height a b) := by
  obtain ⟨same, low, high, rfl⟩ := close_eq_ok_iff.1 closed
  rw [left.height, right.height] at same low high
  obtain ⟨above, below⟩ := misplaced_eq_none_iff.1 placed
  have onRight : ∀ h ∈ b.labels, h ≠ x ∧ Unmarked marks h ∧ h ∉ a.labels := by
    intro h member
    obtain ⟨later, apart⟩ := (left.marks h).1 (right.unmarked h member)
    obtain ⟨differ, before⟩ := unmarked_mark_iff.1 later
    exact ⟨differ, before, apart⟩
  refine ⟨⟨.node live left.stands.spells right.stands.spells, ?_, ?_⟩, ?_,
    ⟨above, below, left.bounded, right.bounded⟩, ?_, ?_, ?_⟩
  · exact Tree.nodup_labels_branch (s := .left).2 ⟨left.stands.nodup, right.stands.nodup,
      fun member => (unmarked_mark_iff.1 (left.unmarked x member)).1 rfl,
      fun member => (onRight x member).1 rfl,
      fun h inLeft inRight => (onRight h inRight).2.2 inLeft⟩
  · exact Tree.avl_node_iff.2 ⟨same, low, high, left.stands.avl, right.stands.avl⟩
  · intro h member
    rw [Tree.labels_node, List.mem_append, List.mem_cons] at member
    rcases member with inLeft | rfl | inRight
    · exact (unmarked_mark_iff.1 (left.unmarked h inLeft)).2
    · exact unmarked
    · exact (onRight h inRight).2.1
  · rw [left.height, right.height]
    exact same.symm
  · show 1 + l.count + r.count = a.size + 1 + b.size
    rw [left.count, right.count]
    omega
  · intro h
    rw [right.marks, left.marks, unmarked_mark_iff, Tree.labels_node, List.mem_append,
      List.mem_cons]
    tauto

/-- A walk that ends well has met a tree as it should be. -/
theorem surveyed (done : survey less p limit link lower upper marks = .ok found) :
    ∃ t, Surveyed less p link lower upper marks found t := by
  induction limit generalizing link lower upper marks found with
  | zero =>
    cases link with
    | none => exact ⟨_, .nil done⟩
    | some x => cases done
  | succ limit ih =>
    cases link with
    | none => exact ⟨_, .nil done⟩
    | some x =>
      obtain ⟨n, l, r, unmarked, live, placed, left, right, closed⟩ := survey_some_eq_ok done
      obtain ⟨a, inLeft⟩ := ih left
      obtain ⟨b, inRight⟩ := ih right
      exact ⟨_, .node unmarked live placed inLeft inRight closed⟩

/-! ## A walk over a tree -/

/-- Over a tree whose shape is right the walk fails only when some key is on the wrong side
of a bound. -/
theorem survey_fails (stands : Stands p link t) (unmarked : ∀ h ∈ t.labels, Unmarked marks h)
    (room : t.depth ≤ limit) (low : ∀ b ∈ lower, b ∈ keys) (high : ∀ b ∈ upper, b ∈ keys)
    (within : ∀ c ∈ t.cells, c.key ∈ keys)
    (failed : survey less p limit link lower upper marks = .error v) :
    Misordered less keys v ∧ ¬ t.Bounded less lower upper := by
  obtain ⟨spells, nodup, avl⟩ := stands
  induction spells generalizing limit lower upper marks with
  | nil =>
    rw [survey_none] at failed
    cases failed
  | @node x n a b live spellsLeft spellsRight ihl ihr =>
    obtain ⟨limit, rfl⟩ : ∃ k, limit = k + 1 := ⟨limit - 1, by rw [Tree.depth] at room; omega⟩
    obtain ⟨nodupLeft, nodupRight, notLeft, notRight, apart⟩ :=
      (Tree.nodup_labels_branch (s := .left)).1 nodup
    obtain ⟨same, lowBy, highBy, avlLeft, avlRight⟩ := Tree.avl_node_iff.1 avl
    rw [Tree.depth] at room
    rw [Tree.labels_node] at unmarked
    rw [Tree.cells] at within
    have here : n.key ∈ keys := within ⟨x, n.key, n.value⟩ (by simp)
    have met : Unmarked marks x := unmarked x (by simp)
    have unmarkedLeft := unmarked_mark (fun h member => unmarked h (by simp [member])) notLeft
    have step : Steps less p limit x n lower upper marks _ := survey_some met live
    have self : ∀ b ∈ some n.key, b ∈ keys := by
      rintro b ⟨⟩
      exact here
    rw [failed] at step
    cases step with
    | misplaced missed =>
      refine ⟨misordered_of_misplaced missed here low high, fun bounded => ?_⟩
      rw [misplaced_eq_none_iff.2 ⟨bounded.1, bounded.2.1⟩] at missed
      cases missed
    | left _ failed =>
      obtain ⟨named, off⟩ := ihl unmarkedLeft (by omega) low self
        (fun c member => within c (by simp [member])) failed nodupLeft avlLeft
      exact ⟨named, fun bounded => off bounded.2.2.1⟩
    | @right l _ _ left failed =>
      -- What is marked by now is the node and its left subtree.
      obtain ⟨a', met'⟩ := surveyed left
      obtain rfl := met'.stands.spells.unique spellsLeft
      have later := unmarked_mark (fun h member => unmarked h (by simp [member])) notRight
      have unmarkedRight : ∀ h ∈ b.labels, Unmarked l.marks h := fun h member =>
        (met'.marks h).2 ⟨later h member, fun inLeft => apart h inLeft member⟩
      obtain ⟨named, off⟩ := ihr unmarkedRight (by omega) self high
        (fun c member => within c (by simp [member])) failed nodupRight avlRight
      exact ⟨named, fun bounded => off bounded.2.2.2⟩
    | closed _ left right failed =>
      obtain ⟨a', metLeft⟩ := surveyed left
      obtain ⟨b', metRight⟩ := surveyed right
      obtain rfl := metLeft.stands.spells.unique spellsLeft
      obtain rfl := metRight.stands.spells.unique spellsRight
      rw [← metLeft.height, ← metRight.height] at same lowBy highBy
      cases failed.symm.trans (close_eq_ok_iff.2 ⟨same, lowBy, highBy, rfl⟩)

/-! ## The limit of the walk -/

/-- No mark is taken back. -/
theorem count_survey (done : survey less p limit link lower upper marks = .ok found) :
    found.marks.count false ≤ marks.count false := by
  induction limit generalizing link lower upper marks found with
  | zero =>
    cases link with
    | none =>
      rw [survey_none] at done
      cases done
      exact Nat.le_refl _
    | some x => cases done
  | succ limit ih =>
    cases link with
    | none =>
      rw [survey_none] at done
      cases done
      exact Nat.le_refl _
    | some x =>
      obtain ⟨n, l, r, unmarked, -, -, left, right, closed⟩ := survey_some_eq_ok done
      obtain ⟨-, -, -, rfl⟩ := close_eq_ok_iff.1 closed
      have here := count_mark unmarked
      have onLeft := ih left
      have onRight := ih right
      show r.marks.count false ≤ marks.count false
      omega

/-- The walk ends before a limit that exceeds the number of slots left to be met. -/
theorem survey_ends (room : marks.count false < limit)
    (failed : survey less p limit link lower upper marks = .error v) : ¬ v.Endless := by
  induction limit generalizing link lower upper marks with
  | zero => exact absurd room (Nat.not_lt_zero _)
  | succ limit ih =>
    cases link with
    | none =>
      rw [survey_none] at failed
      cases failed
    | some x =>
      by_cases fresh : Unmarked marks x ∧ ∃ n, p.read x = .ok n
      · obtain ⟨unmarked, n, live⟩ := fresh
        have fewer := count_mark unmarked
        have step : Steps less p limit x n lower upper marks _ := survey_some unmarked live
        rw [failed] at step
        cases step with
        | misplaced missed =>
          have named : Misordered less (n.key :: (lower.toList ++ upper.toList)) v :=
            misordered_of_misplaced missed (by simp) (by simp +contextual) (by simp +contextual)
          exact named.not_endless
        | left _ failed => exact ih (by omega) failed
        | right _ left failed =>
          have onLeft := count_survey left
          exact ih (by omega) failed
        | closed _ _ _ failed => exact close_ends failed
      · obtain ⟨v', failed', ends⟩ := survey_stuck less limit lower upper fresh
        cases failed.symm.trans failed'
        exact ends

end BoundedMap.Map
