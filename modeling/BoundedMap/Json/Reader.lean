import BoundedMap.Json.Number
import BoundedMap.Json.Text
import BoundedMap.Text.Layout
import BoundedMap.Binary64.Shortest
/-!
# Reading an object from JSON text

A text is read from its start to its end in one pass, and the first problem
decides: nothing behind it is looked at. The only value that is accepted at the
top is an object, whose members are answered in the order in which they stand,
repeated keys included. What its keys and values may be is up to the types that
are asked for, through the classes `ReadKey` and `ReadValue`.
-/

namespace BoundedMap.Json

/-- What stands in a text where something else was asked for. -/
inductive Found
  | null
  | boolean (b : Bool)
  | number (n : Number)
  | text (s : String)
  | sequence
  | object
  deriving DecidableEq, Repr

/-- A number in a message: a floating-point number always has a point or an
exponent. -/
def Number.describe : Number → String
  | .unsigned n => "integer `" ++ String.ofList (Decimal.digits n) ++ "`"
  | .negative n => "integer `" ++ String.ofList (Decimal.ofInt (-n)) ++ "`"
  | .float minus x =>
    "floating point `" ++
      String.ofList ((if minus then ['-'] else []) ++ x.write Binary64.Format.plain) ++ "`"

/-- What was found, in a message. -/
def Found.describe : Found → String
  | null => "null"
  | boolean true => "boolean `true`"
  | boolean false => "boolean `false`"
  | number n => n.describe
  | text s => "string " ++ Text.quote s
  | sequence => "sequence"
  | object => "map"

/-- Why a text is not accepted. -/
inductive ReadError
  /-- The text is not JSON up to here, or goes on after its end. -/
  | malformed
  /-- The value at the top is no object. -/
  | noObject (found : Found)
  /-- A key or a value is not of the type asked for. -/
  | mistyped
  deriving DecidableEq, Repr

namespace ReadError

/-- The wording where it does not depend on the type that was asked for. -/
def message? : ReadError → Option String
  | noObject found => some s!"invalid type: {found.describe}, expected a map"
  | _ => none

end ReadError

/-! ## Leaves -/

/-- The four characters that may stand between the parts of a text. -/
def isBlank (c : Char) : Bool :=
  c = ' ' || c = '\n' || c = '\t' || c = '\r'

/-- A text without the blanks at its start. -/
def skipBlanks (cs : List Char) : List Char :=
  cs.dropWhile isBlank

/-- What follows a word that has to stand at the start of a text. -/
def dropWord? : (word : List Char) → List Char → Option (List Char)
  | [], cs => some cs
  | w :: word, c :: cs => if w = c then dropWord? word cs else none
  | _ :: _, [] => none

/-- What an absent answer means for a text. -/
def orMalformed {α : Type} : Option α → Except ReadError α
  | some a => .ok a
  | none => .error .malformed

/-- What stands at the start of a text. Words, numbers and strings are read to
their end, brackets are not entered. -/
def found : List Char → Except ReadError Found
  | 'n' :: cs => (fun _ => .null) <$> orMalformed (dropWord? ['u', 'l', 'l'] cs)
  | 't' :: cs => (fun _ => .boolean true) <$> orMalformed (dropWord? ['r', 'u', 'e'] cs)
  | 'f' :: cs =>
    (fun _ => .boolean false) <$> orMalformed (dropWord? ['a', 'l', 's', 'e'] cs)
  | '[' :: _ => .ok .sequence
  | '\x7b' :: _ => .ok .object
  | '"' :: cs => (fun r => .text r.1) <$> orMalformed (readText? ('"' :: cs))
  | cs => (fun r => .number r.1) <$> orMalformed (Number.read? cs)

/-- Refuse a value of another type than the one asked for. -/
def refuse {α : Type} (cs : List Char) : Except ReadError α := do
  let _ ← found cs
  throw .mistyped

/-! ## Keys and values -/

/-- Types that can be read as the key of a member. The text starts with the
opening quote. -/
class ReadKey (α : Type) where
  readKey : List Char → Except ReadError (α × List Char)

/-- Types that can be read as the value of a member. The text starts with no
blank. -/
class ReadValue (β : Type) where
  readValue : List Char → Except ReadError (β × List Char)

/-- Whether a number can start with this character. -/
def startsNumber (c : Char) : Bool :=
  c = '-' || Decimal.isDigit c

/-- The integer at the start of a text that starts with a number. -/
def readInteger (cs : List Char) : Except ReadError (Int64 × List Char) := do
  let (n, rest) ← orMalformed (Number.read? cs)
  match n.int64? with
  | some i => return (i, rest)
  | none => throw .mistyped

/-- An integer key is a number between quotes, without blanks or escapes. Its
type is judged before the closing quote is looked for. -/
instance : ReadKey Int64 where
  readKey
    | '"' :: c :: cs =>
      if startsNumber c then do
        match ← readInteger (c :: cs) with
        | (i, '"' :: rest) => return (i, rest)
        | _ => throw .malformed
      else .error .malformed
    | _ => .error .malformed

instance : ReadKey String where
  readKey cs := orMalformed (readText? cs)

/-- No key is a list. -/
instance {α : Type} : ReadKey (List α) where
  readKey cs := do
    let _ ← orMalformed (readText? cs)
    throw .mistyped

instance : ReadValue Int64 where
  readValue
    | c :: cs => if startsNumber c then readInteger (c :: cs) else refuse (c :: cs)
    | [] => .error .malformed

instance : ReadValue Unit where
  readValue
    | 'n' :: cs => (fun rest => ((), rest)) <$> orMalformed (dropWord? ['u', 'l', 'l'] cs)
    | cs => refuse cs

instance : ReadValue String where
  readValue
    | '"' :: cs => orMalformed (readText? ('"' :: cs))
    | cs => refuse cs

/-! ## Members -/

section Members

variable {α β : Type} [ReadKey α] [ReadValue β]

/-- Read one member, from the opening quote of its key on. -/
def readMember (cs : List Char) : Except ReadError ((α × β) × List Char) := do
  let (key, cs) ← ReadKey.readKey cs
  match skipBlanks cs with
  | ':' :: cs =>
    let (value, cs) ← ReadValue.readValue (skipBlanks cs)
    return ((key, value), cs)
  | _ => throw .malformed

/-- Read the members that follow a first one. Every member is longer than
nothing, so the length of the text bounds their number. -/
def readMore : (limit : Nat) → List Char → Except ReadError (List (α × β) × List Char)
  | 0, _ => .error .malformed
  | limit + 1, cs =>
    match skipBlanks cs with
    | '\x7d' :: cs => .ok ([], cs)
    | ',' :: cs => do
      let (first, cs) ← readMember (skipBlanks cs)
      let (more, cs) ← readMore limit cs
      return (first :: more, cs)
    | _ => .error .malformed

/-- Read the members of an object whose opening brace has been passed. -/
def readMembers (cs : List Char) : Except ReadError (List (α × β) × List Char) := do
  match skipBlanks cs with
  | '\x7d' :: cs => return ([], cs)
  | cs =>
    let (first, cs) ← readMember cs
    let (more, cs) ← readMore (cs.length + 1) cs
    return (first :: more, cs)

/-- Read an object, and what follows it. -/
def readObject (cs : List Char) : Except ReadError (List (α × β) × List Char) := do
  match skipBlanks cs with
  | '\x7b' :: cs => readMembers cs
  | cs => throw (.noObject (← found cs))

/-- Nothing but blanks may follow the value at the top. -/
def readEnd (cs : List Char) : Except ReadError Unit :=
  if (skipBlanks cs).isEmpty then .ok () else .error .malformed

end Members

end BoundedMap.Json
