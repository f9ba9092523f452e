import BoundedMap.Proofs.Json.Integer
import BoundedMap.Proofs.Json.Text
import BoundedMap.Json.Codec
/-!
# Objects read back

The library that comes with the maps does what is documented of such libraries (`lawful_codec`): it
writes the text of an object and reads the entries that the text was written for, in their order.
What that takes of keys and of values is collected in `FaithfulKey` and `FaithfulValue`: a key ends
with its quote, whatever follows, while a value may need the comma or the brace behind it to end.
Members are read one after another, and each takes at least its comma off the text, which bounds
their number.
-/

namespace BoundedMap.Json

/-- What stands behind a value inside an object. -/
def EndsMember (rest : List Char) : Prop :=
  ∃ cs, rest = ',' :: cs ∨ rest = '\x7d' :: cs

theorem EndsMember.endsInteger {rest : List Char} (ends : EndsMember rest) :
    EndsInteger rest := by
  obtain ⟨cs, rfl | rfl⟩ := ends
  · exact endsInteger_cons (by decide) (by decide)
  · exact endsInteger_cons (by decide) (by decide)

/-- Keys are all written with the given texts, and read back. -/
structure FaithfulKey {α : Type} [WriteKey α] [ReadKey α] (key : α → String) : Prop where
  written : ∀ a, WriteKey.writeKey a = .ok (key a).toList
  starts : ∀ a, ∃ body, (key a).toList = '"' :: body
  readBack : ∀ a rest, ReadKey.readKey ((key a).toList ++ rest) = .ok (a, rest)

/-- Values are all written with the given texts, and read back from where they stand. -/
structure FaithfulValue {β : Type} [WriteValue β] [ReadValue β] (value : β → String) : Prop where
  written : ∀ b, WriteValue.writeValue b = (value b).toList
  starts : ∀ b, ∃ c body, (value b).toList = c :: body ∧ isBlank c = false
  readBack : ∀ b rest, EndsMember rest →
    ReadValue.readValue ((value b).toList ++ rest) = .ok (b, rest)

/-! ## Keys and values -/

theorem toList_integer (n : Int64) : (integer n).toList = Decimal.ofInt n.toInt :=
  Decimal.toList_toString n.toInt

theorem toList_quotedInteger (n : Int64) :
    (quotedInteger n).toList = '"' :: (Decimal.ofInt n.toInt ++ ['"']) := by
  rw [quotedInteger, String.toList_append, String.toList_append, toList_integer]
  rfl

theorem toList_quoted (s : String) : (quoted s).toList = writeText s :=
  String.toList_ofList

theorem toList_null (u : Unit) : (null u).toList = ['n', 'u', 'l', 'l'] := by
  simp [null]

theorem exists_writeText (s : String) : ∃ body, writeText s = '"' :: body :=
  ⟨_, List.cons_append ..⟩

theorem isBlank_of_startsNumber {c : Char} (starts : startsNumber c = true) :
    isBlank c = false := by
  rw [Bool.eq_false_iff]
  intro blank
  simp only [isBlank, Bool.or_eq_true, decide_eq_true_eq] at blank
  rcases blank with ((rfl | rfl) | rfl) | rfl <;> cases starts

theorem faithfulKey_quotedInteger : FaithfulKey quotedInteger where
  written n := by
    rw [toList_quotedInteger]
    rfl
  starts n := ⟨_, toList_quotedInteger n⟩
  readBack n rest := by
    have ends : EndsInteger ('"' :: rest) := endsInteger_cons (by decide) (by decide)
    have read := readInteger_ofInt n ends
    obtain ⟨c, cs, shape, starts⟩ := exists_ofInt n.toInt
    rw [toList_quotedInteger]
    rw [shape] at read ⊢
    simp only [ReadKey.readKey, List.cons_append, List.append_assoc, List.nil_append] at read ⊢
    rw [if_pos starts, read]
    rfl

theorem faithfulKey_quoted : FaithfulKey quoted where
  written s := congrArg Except.ok (toList_quoted s).symm
  starts s := by
    rw [toList_quoted]
    exact exists_writeText s
  readBack s rest := by
    rw [toList_quoted]
    show orMalformed (readText? (writeText s ++ rest)) = .ok (s, rest)
    rw [readText?_writeText]
    rfl

theorem faithfulValue_integer : FaithfulValue integer where
  written n := (toList_integer n).symm
  starts n := by
    obtain ⟨c, cs, shape, starts⟩ := exists_ofInt n.toInt
    rw [toList_integer]
    exact ⟨c, cs, shape, isBlank_of_startsNumber starts⟩
  readBack n rest ends := by
    obtain ⟨c, cs, shape, starts⟩ := exists_ofInt n.toInt
    have read := readInteger_ofInt n ends.endsInteger
    rw [shape] at read
    rw [toList_integer, shape]
    exact (if_pos starts).trans read

theorem faithfulValue_null : FaithfulValue null where
  written u := (toList_null u).symm
  starts u := ⟨'n', ['u', 'l', 'l'], toList_null u, rfl⟩
  readBack u rest _ := by
    rw [toList_null]
    rfl

theorem faithfulValue_quoted : FaithfulValue quoted where
  written s := (toList_quoted s).symm
  starts s := by
    obtain ⟨body, shape⟩ := exists_writeText s
    rw [toList_quoted]
    exact ⟨'"', body, shape, rfl⟩
  readBack s rest _ := by
    obtain ⟨body, shape⟩ := exists_writeText s
    have read := readText?_writeText s rest
    rw [toList_quoted]
    rw [shape] at read ⊢
    show orMalformed (readText? ('"' :: body ++ rest)) = .ok (s, rest)
    rw [read]
    rfl

/-! ## The text of an object -/

section Text

variable {α β : Type} {key : α → String} {value : β → String}

/-- A member starts with the quote of its key. -/
theorem exists_member [WriteKey α] [ReadKey α] (keys : FaithfulKey key)
    (value : β → String) (e : α × β) : ∃ body, (member key value e).toList = '"' :: body := by
  obtain ⟨body, shape⟩ := keys.starts e.1
  rw [member, String.toList_append, String.toList_append, shape]
  exact ⟨_, List.cons_append ..⟩

/-- The members behind a first one, each behind a comma. -/
def further (key : α → String) (value : β → String) (es : List (α × β)) : List Char :=
  es.flatMap fun e => ',' :: (member key value e).toList

theorem further_cons (e : α × β) (es : List (α × β)) :
    further key value (e :: es) = ',' :: ((member key value e).toList ++ further key value es) :=
  List.flatMap_cons

theorem length_le_further (es : List (α × β)) : es.length ≤ (further key value es).length := by
  induction es with
  | nil => exact Nat.le_refl 0
  | cons e es ih =>
    rw [further_cons, List.length_cons, List.length_cons, List.length_append]
    omega

theorem endsMember_further (es : List (α × β)) (rest : List Char) :
    EndsMember (further key value es ++ '\x7d' :: rest) := by
  cases es with
  | nil => exact ⟨rest, .inr rfl⟩
  | cons e es => exact ⟨_, .inl rfl⟩

/-- Between members there are commas, one in front of each further member. -/
theorem intercalate_members (e : α × β) (es : List (α × β)) :
    [','].intercalate (((e :: es).map (member key value)).map String.toList) =
      (member key value e).toList ++ further key value es := by
  induction es generalizing e with
  | nil => simp [further]
  | cons f es ih =>
    have rest := ih f
    simp only [List.map_cons] at rest ⊢
    rw [List.intercalate_cons_cons, rest, further_cons, List.append_assoc, List.singleton_append]

theorem toList_object_nil : (object key value []).toList = ['\x7b', '\x7d'] := by
  simp [object]

theorem toList_object_cons (e : α × β) (es : List (α × β)) :
    (object key value (e :: es)).toList =
      '\x7b' :: ((member key value e).toList ++ further key value es ++ ['\x7d']) := by
  rw [object, String.toList_append, String.toList_append, String.toList_intercalate]
  show '\x7b' :: ([','].intercalate _ ++ ['\x7d']) = _
  rw [intercalate_members]

end Text

section Library

variable {α β : Type} {key : α → String} {value : β → String} [WriteKey α] [ReadKey α]
  [WriteValue β] [ReadValue β]

/-! ## Writing -/

theorem writeMember_eq (keys : FaithfulKey key) (values : FaithfulValue value) (e : α × β) :
    writeMember e = .ok (member key value e).toList := by
  rw [writeMember, keys.written, values.written, member, String.toList_append,
    String.toList_append, List.append_assoc]
  rfl

theorem writeMore_eq (keys : FaithfulKey key) (values : FaithfulValue value)
    (es : List (α × β)) : writeMore es = .ok (further key value es) := by
  induction es with
  | nil => rfl
  | cons e es ih =>
    rw [writeMore, writeMember_eq keys values, ih, further_cons]
    rfl

/-- What is written for entries is the text of an object. -/
theorem writeObject_eq (keys : FaithfulKey key) (values : FaithfulValue value)
    (es : List (α × β)) : writeObject es = .ok (object key value es).toList := by
  cases es with
  | nil =>
    rw [toList_object_nil]
    rfl
  | cons e es =>
    rw [writeObject, writeMembers, writeMember_eq keys values, writeMore_eq keys values,
      toList_object_cons]
    rfl

/-! ## Reading -/

theorem skipBlanks_cons {c : Char} (solid : isBlank c = false) (cs : List Char) :
    skipBlanks (c :: cs) = c :: cs :=
  List.dropWhile_cons_of_neg (by simp [solid])

/-- One member reads back up to the comma or the brace behind it. -/
theorem readMember_eq (keys : FaithfulKey key) (values : FaithfulValue value) (e : α × β)
    {rest : List Char} (ends : EndsMember rest) :
    readMember ((member key value e).toList ++ rest) = .ok (e, rest) := by
  obtain ⟨a, b⟩ := e
  obtain ⟨c, body, shape, solid⟩ := values.starts b
  have whole : (member key value (a, b)).toList ++ rest =
      (key a).toList ++ ':' :: ((value b).toList ++ rest) := by
    simp [member]
  have front := keys.readBack a (':' :: ((value b).toList ++ rest))
  have colon : skipBlanks (':' :: ((value b).toList ++ rest)) =
      ':' :: ((value b).toList ++ rest) := skipBlanks_cons rfl _
  have back : ReadValue.readValue (skipBlanks ((value b).toList ++ rest)) = .ok (b, rest) := by
    have read := values.readBack b rest ends
    rw [shape] at read ⊢
    rwa [List.cons_append, skipBlanks_cons solid]
  simp only [readMember, whole, front, bind, Except.bind, colon, back]
  rfl

/-- The members behind a first one read back up to the closing brace. -/
theorem readMore_eq (keys : FaithfulKey key) (values : FaithfulValue value) (es : List (α × β))
    (rest : List Char) {limit : Nat} (enough : es.length < limit) :
    readMore limit (further key value es ++ '\x7d' :: rest) = .ok (es, rest) := by
  induction es generalizing limit with
  | nil =>
    cases limit with
    | zero => cases enough
    | succ limit => rfl
  | cons e es ih =>
    cases limit with
    | zero => cases enough
    | succ limit =>
      rw [List.length_cons] at enough
      have others : readMore limit (further key value es ++ '\x7d' :: rest) = .ok (es, rest) :=
        ih (by omega)
      have ends : EndsMember (further key value es ++ '\x7d' :: rest) := endsMember_further es rest
      have first := readMember_eq keys values e ends
      obtain ⟨body, shape⟩ := exists_member keys value e
      have comma : skipBlanks (further key value (e :: es) ++ '\x7d' :: rest) =
          ',' :: ((member key value e).toList ++ (further key value es ++ '\x7d' :: rest)) := by
        rw [further_cons, List.cons_append, List.append_assoc]
        exact skipBlanks_cons rfl _
      have quote : skipBlanks
          ((member key value e).toList ++ (further key value es ++ '\x7d' :: rest)) =
          (member key value e).toList ++ (further key value es ++ '\x7d' :: rest) := by
        rw [shape]
        exact skipBlanks_cons rfl _
      simp only [readMore, comma, quote, first, others, bind, Except.bind]
      rfl

omit [WriteKey α] [WriteValue β] in
/-- A quote after the opening brace starts a first member. -/
theorem readMembers_quote (cs : List Char) :
    (readMembers ('"' :: cs) : Except ReadError (List (α × β) × List Char)) = do
      let (first, cs) ← readMember ('"' :: cs)
      let (more, cs) ← readMore (cs.length + 1) cs
      return (first :: more, cs) := rfl

/-- An object reads back, and what follows it is left. -/
theorem readObject_eq (keys : FaithfulKey key) (values : FaithfulValue value)
    (es : List (α × β)) (rest : List Char) :
    readObject ((object key value es).toList ++ rest) = .ok (es, rest) := by
  cases es with
  | nil =>
    rw [toList_object_nil]
    rfl
  | cons e es =>
    have ends : EndsMember (further key value es ++ '\x7d' :: rest) := endsMember_further es rest
    have first := readMember_eq keys values e ends
    obtain ⟨body, shape⟩ := exists_member keys value e
    -- the length of what is left of the text is the limit of the reader
    have enough : es.length < (further key value es ++ '\x7d' :: rest).length + 1 := by
      have shorter : es.length ≤ (further key value es).length := length_le_further es
      rw [List.length_append]
      omega
    have others := readMore_eq keys values es rest enough
    have brace : skipBlanks ((object key value (e :: es)).toList ++ rest) =
        '\x7b' :: ((member key value e).toList ++ (further key value es ++ '\x7d' :: rest)) := by
      rw [toList_object_cons, List.cons_append, List.append_assoc, List.append_assoc]
      exact skipBlanks_cons rfl _
    rw [shape, List.cons_append] at first brace
    simp only [readObject, brace, readMembers_quote, first, others, bind, Except.bind]
    rfl

/-! ## Writing and reading -/

/-- The library that comes with the maps does what is documented of such libraries. -/
theorem lawful_codec (keys : FaithfulKey key) (values : FaithfulValue value) :
    (codec : Codec WriteError ReadError α β).Lawful key value where
  written es := by
    show String.ofList <$> writeObject es = _
    rw [writeObject_eq keys values]
    exact congrArg Except.ok String.ofList_toList
  handedOver es := by
    have read := readObject_eq keys values es []
    rw [List.append_nil] at read
    refine ⟨none, ?_⟩
    show (readObject (object key value es).toList >>= _) = _
    rw [read]
    rfl

end Library

end BoundedMap.Json
