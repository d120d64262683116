import Awk.Text.Unicode.Derived
import Awk.Text.Unicode.Recent

/-!
# Quoted text

Messages and listings show a text between double quotes.  Quotes and backslashes get a backslash,
line ends, tabs and the null character have short names, and every other character that cannot be seen
or that would join the one before it is given by its code point.
-/

namespace Awk.Text

/-- Characters that leave no mark of their own: controls, formats, separators, unassigned ones, and those
that are left out where they have no effect. -/
def unprintable : CodeSet :=
  ((Unicode.categories ["Cc", "Cf", "Co", "Cn", "Zl", "Zp", "Zs"]).diff Unicode.recent).union
    ((Unicode.property? "Default_Ignorable_Code_Point").getD CodeSet.empty)

/-- Marks that join the character before them. -/
def combining : CodeSet :=
  (((Unicode.property? "Grapheme_Extend").getD CodeSet.empty).union Unicode.recentMarks).diff
    (Unicode.categories ["Lm"])

def codePointText (c : Char) : String :=
  "\\u\x7b" ++ String.ofList (Nat.toDigits 16 c.toNat) ++ "\x7d"

def showsItself (c : Char) : Bool :=
  if c.toNat < 128 then ' ' ≤ c && c ≤ '~' else !combining.contains c && !unprintable.contains c

def quoteChar : Char → String
  | '"' => "\\\""
  | '\\' => "\\\\"
  | '\n' => "\\n"
  | '\r' => "\\r"
  | '\t' => "\\t"
  | '\x00' => "\\0"
  | c => if showsItself c then c.toString else codePointText c

def quoted (s : String) : String :=
  "\"" ++ s.foldl (fun out c => out ++ quoteChar c) "" ++ "\""

end Awk.Text
