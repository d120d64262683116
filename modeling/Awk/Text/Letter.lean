import Awk.Text.Unicode.Derived
import Awk.Text.Unicode.Recent

/-!
# Letters of names

A name starts with a letter or an underscore and goes on with letters, digits and underscores, where
letters and digits are those of all scripts.
-/

namespace Awk.Text

def letters : CodeSet :=
  ((Unicode.property? "Alphabetic").getD CodeSet.empty).union Unicode.recentLetters

def numerals : CodeSet :=
  (Unicode.categories ["Nd", "Nl", "No"]).union Unicode.recentNumerals

def isLetter (c : Char) : Bool :=
  if c.toNat < 128 then c.isAlpha else letters.contains c

def isLetterOrNumeral (c : Char) : Bool :=
  if c.toNat < 128 then c.isAlphanum else letters.contains c || numerals.contains c

def startsName (c : Char) : Bool := isLetter c || c == '_'

def continuesName (c : Char) : Bool := isLetterOrNumeral c || c == '_'

end Awk.Text
