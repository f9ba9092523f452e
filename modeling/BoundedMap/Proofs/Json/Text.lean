import BoundedMap.Json.Text
/-!
# Strings read back

What is written for a string reads as that string, whatever follows it. A character is written
in one of three ways, as itself, by a letter or by its hexadecimal digits, and each way is undone
by one step of the reader (`readTail?_escape`).
-/

namespace BoundedMap.Json

/-- The value of a hexadecimal digit is read back. -/
theorem hexValue?_hexDigit {d : Nat} (small : d < 16) :
    hexValue? (Text.hexDigit d) = some d := by
  have all : ∀ d < 16, hexValue? (Text.hexDigit d) = some d := by decide
  exact all d small

/-- Two digits after two zeros stand for a number below 256. -/
theorem hexUnit?_hexDigits {n : Nat} (small : n < 256) :
    hexUnit? '0' '0' (Text.hexDigit (n / 16)) (Text.hexDigit (n % 16)) = some n := by
  have zero : hexValue? '0' = some 0 := by decide
  have high : hexValue? (Text.hexDigit (n / 16)) = some (n / 16) :=
    hexValue?_hexDigit (by omega)
  have low : hexValue? (Text.hexDigit (n % 16)) = some (n % 16) :=
    hexValue?_hexDigit (Nat.mod_lt n (by decide))
  simp only [hexUnit?, zero, high, low]
  show some ((0 * 16 + 0) * 256 + n / 16 * 16 + n % 16) = some n
  congr 1
  omega

/-- What is read of a string that has one more character in front. -/
def prepend (c : Char) (tail : Option (List Char × List Char)) : Option (List Char × List Char) :=
  tail.map fun r => (c :: r.1, r.2)

theorem prepend_eq_bind (c : Char) (tail : Option (List Char × List Char)) :
    (do let (cs, rest) ← tail; return (c :: cs, rest)) = prepend c tail := by
  cases tail <;> rfl

/-! ## The three ways to write a character -/

theorem readTail?_letter {letter c : Char} (means : unescape? letter = some c)
    (rest : List Char) : readTail? ('\\' :: letter :: rest) = prepend c (readTail? rest) := by
  rw [readTail?.eq_4, means]
  · exact prepend_eq_bind c (readTail? rest)
  · -- the letter that announces digits stands for no character
    rintro _ _ _ _ _ rfl -
    cases means

theorem readTail?_itself {c : Char} (quote : c ≠ '"') (backslash : c ≠ '\\')
    (control : ¬ c.toNat < 0x20) (rest : List Char) :
    readTail? (c :: rest) = prepend c (readTail? rest) := by
  rw [readTail?.eq_5 c rest quote (fun _ _ _ _ _ same _ => backslash same)
    fun _ _ same _ => backslash same]
  rw [if_neg (not_or.2 ⟨backslash, control⟩)]
  exact prepend_eq_bind c (readTail? rest)

theorem readTail?_digits {c : Char} (control : c.toNat < 0x20) (rest : List Char) :
    readTail? ('\\' :: 'u' :: '0' :: '0' :: Text.hexDigit (c.toNat / 16) ::
      Text.hexDigit (c.toNat % 16) :: rest) = prepend c (readTail? rest) := by
  -- a control character is no half of a pair
  have trailing : isTrailing c.toNat = false := by simp [isTrailing]; omega
  have leading : isLeading c.toNat = false := by simp [isLeading]; omega
  rw [readTail?, hexUnit?_hexDigits (by omega)]
  simp only [trailing, leading, Bool.false_eq_true, if_false, Char.ofNat_toNat]
  exact prepend_eq_bind c (readTail? rest)

/-- What is written for a character is read as that character. -/
theorem readTail?_escape (c : Char) (rest : List Char) :
    readTail? (escape c ++ rest) = prepend c (readTail? rest) := by
  unfold escape
  split
  · exact readTail?_letter rfl rest
  · exact readTail?_letter rfl rest
  · exact readTail?_letter rfl rest
  · exact readTail?_letter rfl rest
  · exact readTail?_letter rfl rest
  · exact readTail?_letter rfl rest
  · exact readTail?_letter rfl rest
  · rename_i quote backslash _ _ _ _ _
    split
    · rename_i control
      exact readTail?_digits control rest
    · rename_i control
      exact readTail?_itself quote backslash control rest

/-! ## Strings -/

/-- Behind its opening quote a written string is read to its closing quote. -/
theorem readTail?_flatMap_escape (cs rest : List Char) :
    readTail? (cs.flatMap escape ++ '"' :: rest) = some (cs, rest) := by
  induction cs with
  | nil => exact readTail?.eq_2 rest
  | cons c cs ih =>
    rw [List.flatMap_cons, List.append_assoc, readTail?_escape, ih]
    rfl

/-- A written string reads as itself, and what follows it is left. -/
theorem readText?_writeText (s : String) (rest : List Char) :
    readText? (writeText s ++ rest) = some (s, rest) := by
  have closed : writeText s ++ rest = '"' :: (s.toList.flatMap escape ++ '"' :: rest) := by
    simp [writeText]
  rw [closed, readText?, readTail?_flatMap_escape]
  show some (String.ofList s.toList, rest) = some (s, rest)
  rw [String.ofList_toList]

end BoundedMap.Json
