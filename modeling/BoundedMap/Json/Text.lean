import BoundedMap.Json.Number
import BoundedMap.Text.Quoted
/-!
# Strings in JSON text

Written, a string has a backslash before quotes and backslashes, a short escape
for five control characters, four hexadecimal digits for the other ones, and
everything else as it is. Read, it may use any escape of the format; a control
character must not stand for itself, and halves of surrogate pairs must match;
anything else reads as `none`.
-/

namespace BoundedMap.Json

/-! ## Writing -/

/-- A character as it is written between the quotes. -/
def escape (c : Char) : List Char :=
  match c with
  | '"' => ['\\', '"']
  | '\\' => ['\\', '\\']
  | '\x08' => ['\\', 'b']
  | '\t' => ['\\', 't']
  | '\n' => ['\\', 'n']
  | '\x0c' => ['\\', 'f']
  | '\r' => ['\\', 'r']
  | c =>
    if c.toNat < 0x20 then
      ['\\', 'u', '0', '0', Text.hexDigit (c.toNat / 16), Text.hexDigit (c.toNat % 16)]
    else [c]

/-- A string with its quotes. -/
def writeText (s : String) : List Char :=
  '"' :: s.toList.flatMap escape ++ ['"']

/-! ## Reading -/

/-- The value of a hexadecimal digit, in either case. -/
def hexValue? (c : Char) : Option Nat :=
  let n := c.toNat
  if 48 ≤ n ∧ n ≤ 57 then some (n - 48)
  else if 97 ≤ n ∧ n ≤ 102 then some (n - 87)
  else if 65 ≤ n ∧ n ≤ 70 then some (n - 55)
  else none

/-- The value of four hexadecimal digits. -/
def hexUnit? (a b c d : Char) : Option Nat := do
  return ((← hexValue? a) * 16 + (← hexValue? b)) * 256
    + (← hexValue? c) * 16 + (← hexValue? d)

/-- The character that one letter after a backslash stands for. -/
def unescape? : Char → Option Char
  | '"' => some '"'
  | '\\' => some '\\'
  | '/' => some '/'
  | 'b' => some '\x08'
  | 'f' => some '\x0c'
  | 'n' => some '\n'
  | 'r' => some '\r'
  | 't' => some '\t'
  | _ => none

/-- Whether a 16-bit unit is the first half of a pair. -/
def isLeading (n : Nat) : Bool :=
  0xd800 ≤ n && n < 0xdc00

/-- Whether a 16-bit unit is the second half of a pair. -/
def isTrailing (n : Nat) : Bool :=
  0xdc00 ≤ n && n < 0xe000

/-- The character that two halves form together. -/
def joinHalves (leading trailing : Nat) : Char :=
  Char.ofNat (0x10000 + (leading - 0xd800) * 0x400 + (trailing - 0xdc00))

/-- Read the rest of a string whose opening quote has been passed. -/
def readTail? : List Char → Option (List Char × List Char)
  | [] => none
  | '"' :: rest => some ([], rest)
  | '\\' :: 'u' :: a :: b :: c :: d :: rest =>
    match hexUnit? a b c d with
    | none => none
    | some n =>
      if isTrailing n then none
      else if isLeading n then
        match rest with
        | '\\' :: 'u' :: a :: b :: c :: d :: rest =>
          match hexUnit? a b c d with
          | none => none
          | some k =>
            if isTrailing k then do
              let (cs, rest) ← readTail? rest
              return (joinHalves n k :: cs, rest)
            else none
        | _ => none
      else do
        let (cs, rest) ← readTail? rest
        return (Char.ofNat n :: cs, rest)
  | '\\' :: c :: rest =>
    match unescape? c with
    | none => none
    | some c => do
      let (cs, rest) ← readTail? rest
      return (c :: cs, rest)
  | c :: rest =>
    if c = '\\' ∨ c.toNat < 0x20 then none
    else do
      let (cs, rest) ← readTail? rest
      return (c :: cs, rest)

/-- Read a string, from its opening quote on. -/
def readText? : List Char → Option (String × List Char)
  | '"' :: cs => do
    let (cs, rest) ← readTail? cs
    return (String.ofList cs, rest)
  | _ => none

end BoundedMap.Json
