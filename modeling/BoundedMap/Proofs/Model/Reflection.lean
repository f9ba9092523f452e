import BoundedMap.Proofs.Model.Updates
/-!
# Sorted lists, read from the other end

The entries of a list in reverse ascend under the reverse of its order. Each request to the
reversed list is answered like the request to the list itself, with the two ends exchanged
(`perform_reflect`).
-/

namespace BoundedMap

variable {α β γ : Type}

/-- The request with the ends of the order exchanged. -/
def Request.reflect : Request α β → Request α β
  | first => last
  | last => first
  | request => request

/-- The answer with the ends of the order exchanged. -/
def Answer.reflect : Answer α β → Answer α β
  | entries es => entries es.reverse
  | keys ks => keys ks.reverse
  | values vs => values vs.reverse
  | answer => answer

theorem Request.reflect_of_ne {request : Request α β} (notFirst : request ≠ first)
    (notLast : request ≠ last) : request.reflect = request := by
  cases request with
  | first => exact absurd rfl notFirst
  | last => exact absurd rfl notLast
  | _ => rfl

namespace SortedList

/-- The list read from its end, under the reverse of its order. -/
def reflect (s : SortedList α β) : SortedList α β :=
  ⟨fun a b => s.less b a, s.capacity, s.entries.reverse⟩

theorem same_flip (less : α → α → Bool) (a b : α) :
    same (fun a b => less b a) a b = same less a b :=
  Bool.and_comm _ _

variable {less : α → α → Bool} {s : SortedList α β} {es : List (α × β)}

section Reverse

variable (order : StrictWeak less) (ascending : es.Pairwise fun a b => less a.1 b.1 = true)
  (key : α)

include order ascending

theorem find?_reverse : es.reverse.find? (fun e => same (fun a b => less b a) key e.1) =
    es.find? fun e => same less key e.1 := by
  obtain ⟨below, above, lower, upper, cut⟩ := exists_cut order key ascending
  -- what lies above the key is below it in the reverse order
  have lower' : ∀ e ∈ above.reverse, less key e.1 = true :=
    fun e member => upper e (List.mem_reverse.1 member)
  have upper' : ∀ e ∈ below.reverse, less e.1 key = true :=
    fun e member => lower e (List.mem_reverse.1 member)
  rcases cut with rfl | ⟨e, here, rfl⟩
  · rw [find?_gap lower upper, List.reverse_append, find?_gap lower' upper']
  · rw [find?_match lower here, List.reverse_append, List.reverse_cons, List.append_assoc,
      List.singleton_append, find?_match lower' ((same_flip less key e.1).trans here)]

theorem bind_reverse (value : β) :
    bind (fun a b => less b a) key value es.reverse = (bind less key value es).reverse := by
  obtain ⟨below, above, lower, upper, cut⟩ := exists_cut order key ascending
  have lower' : ∀ e ∈ above.reverse, less key e.1 = true :=
    fun e member => upper e (List.mem_reverse.1 member)
  have upper' : ∀ e ∈ below.reverse, less e.1 key = true :=
    fun e member => lower e (List.mem_reverse.1 member)
  rcases cut with rfl | ⟨e, here, rfl⟩
  · rw [bind_gap lower upper order, List.reverse_append, bind_gap lower' upper' order.flip]
    simp
  · rw [bind_match lower order here, List.reverse_append, List.reverse_cons, List.append_assoc,
      List.singleton_append, bind_match lower' order.flip ((same_flip less key e.1).trans here)]
    simp

end Reverse

/-! ## Requests -/

section Requests

variable (order : StrictWeak s.less) (ascending : s.Ascending)

theorem isFull_reflect : s.reflect.isFull = s.isFull := by
  rw [isFull, isFull, reflect, List.length_reverse]

theorem erase_reflect (s : SortedList α β) (probe : α) :
    s.reflect.erase probe = (s.erase probe).reflect := by
  simp only [erase, reflect, same_flip, List.filter_reverse]

theorem settle_reflect (answer : γ → Answer α β) (fixed : ∀ x, (answer x).reflect = answer x)
    (outcome : Except Refusal γ × SortedList α β) :
    settle answer (outcome.1, outcome.2.reflect) =
      ((settle answer outcome).1.reflect, (settle answer outcome).2.reflect) := by
  obtain ⟨why | x, t⟩ := outcome
  · rfl
  · exact Prod.ext (fixed x).symm rfl

include order ascending

theorem find?_reflect (probe : α) : s.reflect.find? probe = s.find? probe :=
  find?_reverse order ascending probe

theorem insert_reflect (key : α) (value : β) :
    s.reflect.insert key value = ((s.insert key value).1, (s.insert key value).2.reflect) := by
  rw [insert, insert, find?_reflect order ascending, isFull_reflect]
  have bound := bind_reverse order ascending key value
  cases s.find? key with
  | some e => simp only [reflect, bound]
  | none =>
    cases s.isFull with
    | true => rfl
    | false => simp only [reflect, bound, Bool.false_eq_true, if_false]

theorem insertMany_reflect (pairs : List (α × β)) :
    s.reflect.insertMany pairs = ((s.insertMany pairs).1, (s.insertMany pairs).2.reflect) := by
  induction pairs generalizing s with
  | nil => rfl
  | cons pair rest ih =>
    obtain ⟨key, value⟩ := pair
    rw [insertMany, insertMany, insert_reflect order ascending]
    rcases outcome : s.insert key value with ⟨why | old, t⟩
    · rfl
    · obtain rfl := eq_bind_of_insert outcome
      exact ih order (pairwise_bind order ascending)

theorem replace_reflect (probe : α) (value : β) :
    s.reflect.replace probe value = (s.replace probe value).reflect := by
  rw [replace, replace, find?_reflect order ascending]
  split
  · simp only [reflect, bind_reverse order ascending]
  · rfl

/-- A request to a reversed list is the request with the ends exchanged to the list itself. -/
theorem perform_reflect (request : Request α β) :
    s.reflect.perform request.reflect =
      ((s.perform request).1.reflect, (s.perform request).2.reflect) := by
  cases request with
  | insert key value =>
    show settle .value (s.reflect.insert key value) = _
    rw [insert_reflect order ascending, settle_reflect .value fun _ => rfl]
    rfl
  | insertMany pairs =>
    show settle (fun _ => .done) (s.reflect.insertMany pairs) = _
    rw [insertMany_reflect order ascending, settle_reflect (fun _ => .done) fun _ => rfl]
    rfl
  | remove key =>
    show (Answer.value ((s.reflect.find? key).map (·.2)), s.reflect.erase key) = _
    rw [find?_reflect order ascending, erase_reflect]
    rfl
  | removeEntry key =>
    show (Answer.entry (s.reflect.find? key), s.reflect.erase key) = _
    rw [find?_reflect order ascending, erase_reflect]
    rfl
  | replace key value =>
    show (Answer.value ((s.reflect.find? key).map (·.2)), s.reflect.replace key value) = _
    rw [find?_reflect order ascending, replace_reflect order ascending]
    rfl
  | clear => rfl
  | get key =>
    show (Answer.value ((s.reflect.find? key).map (·.2)), s.reflect) = _
    rw [find?_reflect order ascending]
    rfl
  | getEntry key =>
    show (Answer.entry (s.reflect.find? key), s.reflect) = _
    rw [find?_reflect order ascending]
    rfl
  | contains key =>
    show (Answer.flag (s.reflect.find? key).isSome, s.reflect) = _
    rw [find?_reflect order ascending]
    rfl
  | first =>
    show (Answer.entry s.entries.reverse.getLast?, s.reflect) = _
    rw [List.getLast?_reverse]
    rfl
  | last =>
    show (Answer.entry s.entries.reverse.head?, s.reflect) = _
    rw [List.head?_reverse]
    rfl
  | keys =>
    show (Answer.keys (s.entries.reverse.map (·.1)), s.reflect) = _
    rw [List.map_reverse]
    rfl
  | values =>
    show (Answer.values (s.entries.reverse.map (·.2)), s.reflect) = _
    rw [List.map_reverse]
    rfl
  | len =>
    show (Answer.count s.entries.reverse.length, s.reflect) = _
    rw [List.length_reverse]
    rfl
  | isEmpty =>
    show (Answer.flag s.entries.reverse.isEmpty, s.reflect) = _
    rw [List.isEmpty_reverse]
    rfl
  | isFull =>
    show (Answer.flag s.reflect.isFull, s.reflect) = _
    rw [isFull_reflect]
    rfl
  | _ => rfl

end Requests

end SortedList

end BoundedMap
