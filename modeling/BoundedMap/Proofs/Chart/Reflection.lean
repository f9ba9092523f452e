import BoundedMap.Proofs.Chart.Listing
import BoundedMap.Proofs.Model.Reflection
import BoundedMap.Proofs.Tree.Reflection
/-!
# Reflected charts

Two charts whose lists are each other's reverse stay so under every sequence of requests, and
answer it alike but for the two ends (`run_of_list_reflect`). That says nothing of their trees.
The trees are each other's reflection as long as nothing is taken out (`run_reflect`): both are
then built by the same insertions, each in the same slot. A removal ends this, since the cell that
takes the place of the one removed is the next in the order, which is the previous one in the
reverse order.
-/

namespace BoundedMap

variable {α β : Type}

/-- Whether a request that was answered so has taken nothing out. -/
def Request.retains : Request α β → Answer α β → Bool
  | clear, _ => false
  | remove _, .value (some _) => false
  | removeEntry _, .entry (some _) => false
  | _, _ => true

namespace Chart

variable {a b : Chart α β}

/-- The chart with left and right exchanged, under the reverse of its order. -/
def reflect (a : Chart α β) : Chart α β :=
  ⟨fun x y => a.less y x, a.capacity, a.tree.reflect, a.free⟩

/-! ## Insertions keep a chart and its reflection together -/

section Insertions

variable (order : StrictWeak a.less)

include order

theorem insert_reflect (key : α) (value : β) :
    a.reflect.insert key value = ((a.insert key value).1, (a.insert key value).2.reflect) := by
  have found' := Tree.find?_reflect order key a.tree
  have inserted := fun label => congrArg Prod.fst (Tree.insert_reflect order key label value a.tree)
  cases found : a.tree.find? a.less key with
  | some c =>
    rw [insert_of_find? found, insert_of_find? (found'.trans found)]
    exact congrArg (fun t => (_, Chart.mk _ _ t _)) (inserted c.label)
  | none =>
    cases free : a.free with
    | nil =>
      rw [insert_of_full found free, insert_of_full (a := a.reflect) (found'.trans found) free]
      rfl
    | cons h rest =>
      rw [insert_of_free found free, insert_of_free (a := a.reflect) (found'.trans found) free]
      exact congrArg (fun t => (_, Chart.mk _ _ t _)) (inserted h)

theorem insertMany_reflect (pairs : List (α × β)) :
    a.reflect.insertMany pairs = ((a.insertMany pairs).1, (a.insertMany pairs).2.reflect) := by
  induction pairs generalizing a with
  | nil => rfl
  | cons pair rest ih =>
    obtain ⟨key, value⟩ := pair
    have order' : StrictWeak (a.insert key value).2.less := by
      rwa [(alike_insert key value).less]
    rw [insertMany, insertMany, insert_reflect order]
    cases outcome : a.insert key value with
    | mk result b =>
      rw [outcome] at order'
      cases result with
      | ok old => exact ih order'
      | error why => rfl

theorem replace_reflect (probe : α) (value : β) :
    (a.reflect.replace probe value).2 = (a.replace probe value).2.reflect := by
  have found' := Tree.find?_reflect order probe a.tree
  cases found : a.tree.find? a.less probe with
  | none =>
    rw [replace_of_absent found, replace_of_absent (found'.trans found)]
  | some c =>
    have inserted := congrArg Prod.fst (Tree.insert_reflect order probe c.label value a.tree)
    rw [replace_of_find? found, replace_of_find? (found'.trans found)]
    exact congrArg (fun t => Chart.mk _ _ t _) inserted

theorem removeEntry_reflect {probe : α} (missed : (a.removeEntry probe).1 = none) :
    (a.reflect.removeEntry probe).2 = (a.removeEntry probe).2.reflect := by
  have found' := Tree.find?_reflect order probe a.tree
  cases found : a.tree.find? a.less probe with
  | none => rw [removeEntry_of_absent found, removeEntry_of_absent (found'.trans found)]
  | some c =>
    rw [removeEntry_of_find? found] at missed
    cases missed

/-- A request that takes nothing out leaves a chart and its reflection as such. -/
theorem perform_reflect {request : Request α β}
    (retained : request.retains (a.perform request).1 = true) :
    (a.reflect.perform request).2 = (a.perform request).2.reflect := by
  cases request with
  | insert key value =>
    rw [perform, perform, settle_snd, settle_snd, insert_reflect order]
  | insertMany pairs =>
    rw [perform, perform, settle_snd, settle_snd, insertMany_reflect order]
  | remove key =>
    refine removeEntry_reflect order ?_
    cases outcome : (a.removeEntry key).1 with
    | none => rfl
    | some e =>
      rw [perform, outcome] at retained
      cases retained
  | removeEntry key =>
    refine removeEntry_reflect order ?_
    cases outcome : (a.removeEntry key).1 with
    | none => rfl
    | some e =>
      rw [perform, outcome] at retained
      cases retained
  | replace key value => exact replace_reflect order key value
  | clear => cases retained
  | _ => rfl

/-- Requests of which none takes anything out leave a chart and its reflection as such. -/
theorem run_reflect {requests : List (Request α β)}
    (retained : ∀ step ∈ requests.zip (a.run requests).1, step.1.retains step.2 = true) :
    (a.reflect.run requests).2 = (a.run requests).2.reflect := by
  induction requests generalizing a with
  | nil => rfl
  | cons request rest ih =>
    rw [run, List.zip_cons_cons, List.forall_mem_cons] at retained
    have order' : StrictWeak (a.perform request).2.less := by
      rwa [(alike_perform request).less]
    rw [run, run, perform_reflect order retained.1]
    exact ih order' retained.2

end Insertions

/-! ## Answers to requests with the ends exchanged -/

/-- Which end of the order a request reads makes no difference to what it leaves. -/
theorem perform_reflect_snd (b : Chart α β) (request : Request α β) :
    (b.perform request.reflect).2 = (b.perform request).2 := by
  cases request <;> rfl

/-- Exchanging the ends in all requests changes nothing but the answers to those that ask for
an end. -/
theorem run_map_reflect (b : Chart α β) (requests : List (Request α β)) :
    (b.run (requests.map Request.reflect)).2 = (b.run requests).2 ∧
      ∀ (i : Nat) (request : Request α β), requests[i]? = some request →
        request ≠ .first → request ≠ .last →
          (b.run (requests.map Request.reflect)).1[i]? = (b.run requests).1[i]? := by
  induction requests generalizing b with
  | nil =>
    refine ⟨rfl, fun i request here => ?_⟩
    cases here
  | cons earlier rest ih =>
    obtain ⟨state, answers⟩ := ih (b.perform earlier).2
    rw [List.map_cons, run, run, perform_reflect_snd]
    refine ⟨state, fun i request here notFirst notLast => ?_⟩
    cases i with
    | zero =>
      obtain rfl : earlier = request := Option.some.inj here
      rw [Request.reflect_of_ne notFirst notLast]
      rfl
    | succ i => exact answers i request here notFirst notLast

/-- Charts with reverse lists answer requests with the ends exchanged by the same answers with
the ends exchanged, and their lists stay reverse. -/
theorem run_of_list_reflect (valid : a.Valid) (sorted : a.Sorted) (valid' : b.Valid)
    (sorted' : b.Sorted) (lists : b.list = a.list.reflect) (requests : List (Request α β)) :
    (b.run (requests.map Request.reflect)).1 = (a.run requests).1.map Answer.reflect ∧
      (b.run (requests.map Request.reflect)).2.list = (a.run requests).2.list.reflect := by
  induction requests generalizing a b with
  | nil => exact ⟨rfl, lists⟩
  | cons request rest ih =>
    have listed := list_perform valid sorted request
    have listed' := list_perform valid' sorted' request.reflect
    rw [lists, SortedList.perform_reflect (s := a.list) sorted.order
      (list_valid valid sorted).ascending, listed] at listed'
    obtain ⟨answer, remaining⟩ := Prod.mk.inj listed'
    obtain ⟨answers, final⟩ := ih (valid_perform valid request) (sorted_perform sorted request)
      (valid_perform valid' request.reflect) (sorted_perform sorted' request.reflect)
      remaining.symm
    refine ⟨?_, final⟩
    rw [List.map_cons, run, run, List.map_cons, ← answer, answers]

end Chart

end BoundedMap
