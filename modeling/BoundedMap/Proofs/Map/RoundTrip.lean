import BoundedMap.Proofs.Json.Object
import BoundedMap.Proofs.Map.Loading
import BoundedMap.Proofs.Map.SelfCheck
/-!
# Maps read back from their text

The text of a map holds its entries and nothing else, neither its capacity nor its shape. The
map that is read from it is therefore another one, with a slot for each entry and none to
spare, but equal to the first: entries in ascending order are bound one after another without
meeting a class of keys twice (`rebuilt_run`). A library that hands over what it has written tells
different entries apart (`Lawful.object_inj`), and so maps with the same text are equal.
-/

namespace BoundedMap

/-- Entries can be told from the text of their object. -/
theorem Json.Codec.Lawful.object_inj {α β δ ε : Type} {c : Codec δ ε α β} {key : α → String}
    {value : β → String} (lawful : c.Lawful key value) {es fs : List (α × β)}
    (same : object key value es = object key value fs) : es = fs := by
  obtain ⟨hint, read⟩ := lawful.handedOver es
  obtain ⟨hint', read'⟩ := lawful.handedOver fs
  rw [same, read'] at read
  exact (congrArg Access.entries (Except.ok.inj read)).symm

namespace Map

variable {α β δ ε : Type} {m : Map α β} {a : Chart α β} {less : α → α → Bool}

/-- What a map is to the one that is built from its entries. -/
structure Rebuilt [BEq α] [BEq β] (less : α → α → Bool) (m n : Map α β) : Prop where
  agrees : m.agrees n = .ok true
  entries : ∃ es, m.entries = .ok es ∧ n.entries = .ok es
  capacity : n.capacity = m.len
  full : n.isFull = true
  wellFormed : n.WellFormed
  /-- The check of the links, the keys, the heights, the counts and the free list passes. -/
  check : n.check = .ok ()
  reachable : Reachable less n

/-- A map, the text that a library writes for it, and the map that is read from the text. -/
structure RoundTrip [BEq α] [BEq β] (c : Json.Codec δ ε α β) (key : α → String)
    (value : β → String) (less : α → α → Bool) (m : Map α β) (text : String) (n : Map α β) : Prop
    extends Rebuilt less m n where
  written : m.toJson c = .ok (.ok text)
  /-- The text is the object of the entries, in their order. -/
  spelled : ∀ es, m.entries = .ok es → text = Json.object key value es
  read : ofJson c less text = .ok n
  /-- Maps have the same text when they are equal, and only then. -/
  sameText : ∀ {other : α → α → Bool} {m' : Map α β}, Reachable other m' →
    (m.toJson c = m'.toJson c ↔ m.agrees m' = .ok true)

/-- The entries of a map, bound one after another, make an equal map without a free slot. -/
theorem rebuilt_run [BEq α] [LawfulBEq α] [BEq β] [LawfulBEq β] (follows : m.Follows a)
    (sorted : a.Sorted) :
    ∃ n, (∀ hint, ofEntries a.less hint a.tree.entries = .ok n) ∧ Rebuilt a.less m n := by
  have few := follows.valid.length_entries_le
  obtain ⟨t, inserted⟩ := Chart.insertMany_empty a.less a.tree.entries
  obtain ⟨free, ran⟩ := inserted _ (Nat.le_refl _)
  obtain ⟨n, built, follows'⟩ := ofEntries_run a.less few ran
  have reachable : Reachable a.less n := .ofEntries (built none)
  -- no class is met twice, so each pair has become an entry
  have same : t.entries = a.tree.entries := by
    rw [Chart.entries_of_insertMany sorted.order few ran]
    exact SortedList.bindAll_of_pairwise sorted.order
      (Tree.ascending_iff_entries.1 sorted.ascending)
  have len : n.len = m.len := by
    rw [follows'.len_entries, follows.len_entries, same]
  have capacity : n.capacity = m.len := by
    rw [follows.len_entries]
    exact follows'.capacity
  refine ⟨n, built, ?_, ⟨_, entries_run follows, same ▸ entries_run follows'⟩, capacity, ?_,
    follows'.wellFormed, check_run follows' (follows'.sorted reachable sorted.order), reachable⟩
  · rw [agrees_run follows follows', same, beq_self_eq_true]
  · rw [isFull, len, capacity, beq_self_eq_true]

section Text

variable {c : Json.Codec δ ε α β} {key : α → String} {value : β → String}

/-- The text can be computed from the entries. -/
theorem RoundTrip.reword [BEq α] [BEq β] {n : Map α β} {text text' : String} {es : List (α × β)}
    (trip : RoundTrip c key value less m text n) (entries : m.entries = .ok es)
    (same : Json.object key value es = text') : RoundTrip c key value less m text' n := by
  obtain rfl := trip.spelled es entries
  rwa [same] at trip

theorem toJson_run (lawful : c.Lawful key value) (follows : m.Follows a) :
    m.toJson c = .ok (.ok (Json.object key value a.tree.entries)) := by
  rw [toJson, entries_run follows]
  exact congrArg Except.ok (lawful.written a.tree.entries)

/-- What a library hands over for the text of an object becomes a map as the entries do. -/
theorem ofJson_run (lawful : c.Lawful key value) {es : List (α × β)} {n : Map α β}
    (built : ∀ hint, ofEntries less hint es = .ok n) :
    ofJson c less (Json.object key value es) = .ok n := by
  obtain ⟨hint, read⟩ := lawful.handedOver es
  simp only [ofJson, read, built]

/-- Whatever the keys and values are, a map goes through every library that does what is documented
of it. -/
theorem roundTrip_run [BEq α] [LawfulBEq α] [BEq β] [LawfulBEq β] (lawful : c.Lawful key value)
    (order : StrictWeak less) (reachable : Reachable less m) :
    ∃ text n, RoundTrip c key value less m text n := by
  obtain ⟨a, follows, sorted⟩ := reachable.follows_sorted order
  obtain rfl : a.less = less := follows.less.symm.trans reachable.less_eq
  obtain ⟨n, built, rebuilt⟩ := rebuilt_run follows sorted
  have written := toJson_run lawful follows
  refine ⟨_, n, rebuilt, written, ?_, ofJson_run lawful built, fun {other m'} reachable' => ?_⟩
  · intro es entries
    rw [entries_run follows] at entries
    rw [Except.ok.inj entries]
  · obtain ⟨b, follows', -⟩ := reachable'.follows
    rw [written, toJson_run lawful follows', agrees_run follows follows', Except.ok.injEq,
      Except.ok.injEq, Except.ok.injEq, beq_iff_eq]
    constructor
    · exact lawful.object_inj
    · intro same
      rw [same]

end Text

/-- A reachable map is written to a text from which an equal map is read, with as many slots as
there are entries, and equal maps are those with the same text. This holds of integers mapped
to integers, of sets of integers and of strings mapped to strings, under any strict weak order,
and whatever the integers, the characters of the strings or the number of entries. Of the library
that writes and reads it is only assumed that it writes the entries compactly as an object in the
given order, with integers in decimal, keys between quotes, nothing as null and strings with
escapes, and that it hands over the members of such a text as they stand there. -/
theorem ofJson_toJson {δ ε : Type} :
    (∀ c : Json.Codec δ ε Int64 Int64, c.Lawful Json.quotedInteger Json.integer →
      ∀ (less : Int64 → Int64 → Bool) (m : Map Int64 Int64), StrictWeak less →
        Reachable less m → ∃ text n, RoundTrip c Json.quotedInteger Json.integer less m text n) ∧
    (∀ c : Json.Codec δ ε Int64 Unit, c.Lawful Json.quotedInteger Json.null →
      ∀ (less : Int64 → Int64 → Bool) (m : Map Int64 Unit), StrictWeak less →
        Reachable less m → ∃ text n, RoundTrip c Json.quotedInteger Json.null less m text n) ∧
    (∀ c : Json.Codec δ ε String String, c.Lawful Json.quoted Json.quoted →
      ∀ (less : String → String → Bool) (m : Map String String), StrictWeak less →
        Reachable less m → ∃ text n, RoundTrip c Json.quoted Json.quoted less m text n) :=
  ⟨fun _ lawful _ _ order reachable => roundTrip_run lawful order reachable,
    fun _ lawful _ _ order reachable => roundTrip_run lawful order reachable,
    fun _ lawful _ _ order reachable => roundTrip_run lawful order reachable⟩

/-- The least and the greatest integer, a set of two integers, and strings in the order of their
lengths: nothing, a character beyond 16 bits, a control character with a quote. The library is the
one that comes with the maps. -/
theorem roundTrip_of_extremes :
    StrictWeak (Order.through Int64.toInt) ∧ StrictWeak (Order.through String.length) ∧
    (Json.codec (α := Int64) (β := Int64)).Lawful Json.quotedInteger Json.integer ∧
    (Json.codec (α := Int64) (β := Unit)).Lawful Json.quotedInteger Json.null ∧
    (Json.codec (α := String) (β := String)).Lawful Json.quoted Json.quoted ∧
    (∃ m n : Map Int64 Int64,
      perform (.insertMany [(Int64.maxValue, 0), (-1, -1), (Int64.minValue, 10)])
        (ofPool (Order.through Int64.toInt) (.fresh 5)) = .ok .done m ∧
      RoundTrip Json.codec Json.quotedInteger Json.integer (Order.through Int64.toInt) m
        "\x7b\"-9223372036854775808\":10,\"-1\":-1,\"9223372036854775807\":0\x7d" n) ∧
    (∃ m n : Map Int64 Unit,
      perform (.insertMany [(12, ()), (-7, ())])
        (ofPool (Order.through Int64.toInt) (.fresh 3)) = .ok .done m ∧
      RoundTrip Json.codec Json.quotedInteger Json.null (Order.through Int64.toInt) m
        "\x7b\"-7\":null,\"12\":null\x7d" n ∧ n.capacity = 2) ∧
    ∃ m n : Map String String,
      perform (.insertMany [("\u001f\"", "a\tb"), ("", "\\"), ("𝄞", "é")])
        (ofPool (Order.through String.length) (.fresh 3)) = .ok .done m ∧
      RoundTrip Json.codec Json.quoted Json.quoted (Order.through String.length) m
        "\x7b\"\":\"\\\\\",\"𝄞\":\"é\",\"\\u001f\\\"\":\"a\\tb\"\x7d" n := by
  have bySize : StrictWeak (Order.through Int64.toInt) := Order.strictWeak_through _
  have byLength : StrictWeak (Order.through String.length) := Order.strictWeak_through _
  have integers := Json.lawful_codec Json.faithfulKey_quotedInteger Json.faithfulValue_integer
  have sets := Json.lawful_codec Json.faithfulKey_quotedInteger Json.faithfulValue_null
  have strings := Json.lawful_codec Json.faithfulKey_quoted Json.faithfulValue_quoted
  refine ⟨bySize, byLength, integers, sets, strings, ?_, ?_, ?_⟩
  · obtain ⟨m, done, reachable, follows⟩ := perform_ofPool (Order.through Int64.toInt)
      (show 5 ≤ maxCapacity by decide)
      (.insertMany [(Int64.maxValue, (0 : Int64)), (-1, -1), (Int64.minValue, 10)])
    obtain ⟨text, n, trip⟩ := ofJson_toJson.1 _ integers _ m bySize reachable
    exact ⟨m, n, done, trip.reword (entries_run follows) (by decide +kernel)⟩
  · obtain ⟨m, done, reachable, follows⟩ := perform_ofPool (Order.through Int64.toInt)
      (show 3 ≤ maxCapacity by decide) (.insertMany [(12, ()), (-7, ())])
    obtain ⟨text, n, trip⟩ := ofJson_toJson.2.1 _ sets _ m bySize reachable
    have two : n.capacity = 2 := trip.capacity.trans follows.len
    exact ⟨m, n, done, trip.reword (entries_run follows) (by decide +kernel), two⟩
  · obtain ⟨m, done, reachable, follows⟩ := perform_ofPool (Order.through String.length)
      (show 3 ≤ maxCapacity by decide)
      (.insertMany [("\u001f\"", "a\tb"), ("", "\\"), ("𝄞", "é")])
    obtain ⟨text, n, trip⟩ := ofJson_toJson.2.2 _ strings _ m byLength reachable
    exact ⟨m, n, done, trip.reword (entries_run follows) (by decide +kernel)⟩

end Map

end BoundedMap
