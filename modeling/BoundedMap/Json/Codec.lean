import BoundedMap.Json.Reader
import BoundedMap.Json.Writer
/-!
# Libraries for JSON

Maps are written and read by way of a library for JSON, of which they use two functions: one that
writes entries as an object, and one that hands over the entries of an object as it reads them. A
`Codec` is any such library. What is documented of one is collected in `Codec.Lawful`, for keys and
values whose texts are given; `codec` is the library that comes with the maps.
-/

namespace BoundedMap.Json

variable {α β δ ε : Type}

/-! ## The documented format -/

/-- The text of an integer: its decimal. -/
def integer (n : Int64) : String :=
  toString n

/-- The text of an integer that is a key: its decimal between quotes. -/
def quotedInteger (n : Int64) : String :=
  "\"" ++ integer n ++ "\""

/-- The text of a string: between quotes, with escapes where they are needed. -/
def quoted (s : String) : String :=
  .ofList (writeText s)

/-- The text of a value that says nothing. -/
def null (_ : Unit) : String :=
  "null"

/-- The text of a member. -/
def member (key : α → String) (value : β → String) (e : α × β) : String :=
  key e.1 ++ ":" ++ value e.2

/-- The text of an object: its members in the given order, without blanks. -/
def object (key : α → String) (value : β → String) (entries : List (α × β)) : String :=
  "\x7b" ++ ",".intercalate (entries.map (member key value)) ++ "\x7d"

/-! ## Libraries -/

/-- What a text has for whoever asks it for entries: perhaps a hint at their number, the entries one
after another, and at last what is to be said of the rest of the text. -/
structure Access (ε α β : Type) where
  hint : Option Nat
  entries : List (α × β)
  close : Except ε Unit

/-- A library that writes entries and reads them, with errors of its own for either. -/
structure Codec (δ ε α β : Type) where
  write : List (α × β) → Except δ String
  read : String → Except ε (Access ε α β)

/-- What a library is documented to do with keys and values of the given texts. -/
structure Codec.Lawful (c : Codec δ ε α β) (key : α → String) (value : β → String) : Prop where
  /-- Entries are written as an object, compactly and in the order in which they come. -/
  written : ∀ entries, c.write entries = .ok (object key value entries)
  /-- The members of such an object are handed over as they stand there, and the text ends with
  it. -/
  handedOver : ∀ entries, ∃ hint,
    c.read (object key value entries) = .ok ⟨hint, entries, .ok ()⟩

/-- The library that comes with the maps. It gives no hints. -/
def codec [WriteKey α] [WriteValue β] [ReadKey α] [ReadValue β] :
    Codec WriteError ReadError α β where
  write entries := String.ofList <$> writeObject entries
  read text := do
    let (entries, rest) ← readObject text.toList
    return { hint := none, entries, close := readEnd rest }

end BoundedMap.Json
