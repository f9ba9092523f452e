import BoundedMap.Text.Extender
import BoundedMap.Text.Printable
/-!
# Quoted text

A string as it appears inside a report: between double quotes, with the quote,
the backslash and every character escaped that would not show there as itself.
Such a character is not printable, or it would join the one before it. The
escapes of one character are used where they exist; otherwise the code point is
given in hexadecimal between braces. An apostrophe stands for itself.
-/

namespace BoundedMap.Text

/-- One hexadecimal digit, in lower case. -/
def hexDigit (d : Nat) : Char :=
  if d < 10 then Char.ofNat (48 + d) else Char.ofNat (87 + d)

/-- A number in hexadecimal, without leading zeros. -/
def hexDigits (n : Nat) : List Char :=
  if n < 16 then [hexDigit n] else hexDigits (n / 16) ++ [hexDigit (n % 16)]
termination_by n
decreasing_by omega

/-- A character as it stands between the quotes. -/
def quoteChar (c : Char) : List Char :=
  match c with
  | '"' => ['\\', '"']
  | '\\' => ['\\', '\\']
  | '\n' => ['\\', 'n']
  | '\r' => ['\\', 'r']
  | '\t' => ['\\', 't']
  | '\x00' => ['\\', '0']
  | c =>
    if isPrintable c && !isExtender c then [c]
    else ['\\', 'u', '\x7b'] ++ hexDigits c.toNat ++ ['\x7d']

/-- A string between double quotes. -/
def quote (s : String) : String :=
  String.ofList ('"' :: s.toList.flatMap quoteChar ++ ['"'])

end BoundedMap.Text
