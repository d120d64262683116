/-!
# Digits and codes of characters

What the readers of escapes and numbers ask of a character: the value that `octalDigit?` or `hexDigit?`
gives to a digit, and the character that `charOf?` gives to a code.
-/

namespace Awk.Text

/-- The value of an octal digit. -/
def octalDigit? (c : Char) : Option Nat :=
  if '0' ≤ c ∧ c ≤ '7' then some (c.toNat - '0'.toNat) else none

/-- The value of a hexadecimal digit. -/
def hexDigit? (c : Char) : Option Nat :=
  if c.isDigit then some (c.toNat - '0'.toNat)
  else if 'a' ≤ c ∧ c ≤ 'f' then some (c.toNat - 'a'.toNat + 10)
  else if 'A' ≤ c ∧ c ≤ 'F' then some (c.toNat - 'A'.toNat + 10)
  else none

/-- The natural number written by hexadecimal digits. -/
def hexValue (ds : List Char) : Nat := ds.foldl (fun n d => n * 16 + (hexDigit? d).getD 0) 0

/-- The character of a code; none for a code that no character has. -/
def charOf? (code : Nat) : Option Char :=
  if code.isValidChar then some (Char.ofNat code) else none

end Awk.Text
