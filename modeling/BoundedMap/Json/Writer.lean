import BoundedMap.Json.Text
import BoundedMap.Text.Decimal
/-!
# Writing JSON text

An object is written without blanks, its members in the order in which they
are given. Keys have to be strings or integers, which are put between quotes.
-/

namespace BoundedMap.Json

/-- Why entries cannot be written. -/
inductive WriteError
  /-- The type of the keys has no text of its own. -/
  | keyNotText
  deriving DecidableEq, Repr

/-- The wording of the refusal. -/
def WriteError.message : WriteError → String
  | keyNotText => "key must be a string"

/-- Types whose values may be keys of members, if they can be written. -/
class WriteKey (α : Type) where
  writeKey : α → Except WriteError (List Char)

/-- Types whose values may be values of members. -/
class WriteValue (β : Type) where
  writeValue : β → List Char

/-- An integer key is its decimal between quotes. -/
instance : WriteKey Int64 where
  writeKey n := .ok ('"' :: Decimal.ofInt n.toInt ++ ['"'])

instance : WriteKey String where
  writeKey s := .ok (writeText s)

/-- No list is a key. -/
instance {α : Type} : WriteKey (List α) where
  writeKey _ := .error .keyNotText

instance : WriteValue Int64 where
  writeValue n := Decimal.ofInt n.toInt

instance : WriteValue Unit where
  writeValue _ := ['n', 'u', 'l', 'l']

instance : WriteValue String where
  writeValue s := writeText s

section Members

variable {α β : Type} [WriteKey α] [WriteValue β]

/-- One member. -/
def writeMember (e : α × β) : Except WriteError (List Char) :=
  return (← WriteKey.writeKey e.1) ++ ':' :: WriteValue.writeValue e.2

/-- The members that follow a first one, each behind a comma. -/
def writeMore : List (α × β) → Except WriteError (List Char)
  | [] => .ok []
  | e :: rest => return ',' :: (← writeMember e) ++ (← writeMore rest)

/-- The members between the braces. -/
def writeMembers : List (α × β) → Except WriteError (List Char)
  | [] => .ok []
  | e :: rest => return (← writeMember e) ++ (← writeMore rest)

/-- An object. -/
def writeObject (entries : List (α × β)) : Except WriteError (List Char) :=
  return '\x7b' :: (← writeMembers entries) ++ ['\x7d']

end Members

end BoundedMap.Json
