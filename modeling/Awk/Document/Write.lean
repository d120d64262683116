import Awk.Document

/-!
# Documents as text

Every item and every entry stands on a line of its own, two blanks deeper than what holds it.  In texts
only quotes, backslashes and control characters are replaced.
-/

namespace Awk.Document

def hexDigit (n : Nat) : Char := Nat.digitChar n

def escapeChar (c : Char) : List Char :=
  if c = '"' then ['\\', '"']
  else if c = '\\' then ['\\', '\\']
  else if c = '\x08' then ['\\', 'b']
  else if c = '\x0c' then ['\\', 'f']
  else if c = '\n' then ['\\', 'n']
  else if c = '\r' then ['\\', 'r']
  else if c = '\t' then ['\\', 't']
  else if c.toNat < 32 then ['\\', 'u', '0', '0', hexDigit (c.toNat / 16), hexDigit (c.toNat % 16)]
  else [c]

def writeText (s : String) : List Char := '"' :: (s.toList.flatMap escapeChar ++ ['"'])

def Numeral.write (n : Numeral) : List Char :=
  (if n.negative then ['-'] else []) ++ n.whole ++
    n.fraction.elim [] ('.' :: ·) ++
    n.exponent.elim [] fun (negative, digits) => 'e' :: (if negative then '-' else '+') :: digits

def newLine (depth : Nat) : List Char := '\n' :: List.replicate (2 * depth) ' '

mutual

def write (depth : Nat) : Document → List Char
  | null => ['n', 'u', 'l', 'l']
  | bool b => if b then ['t', 'r', 'u', 'e'] else ['f', 'a', 'l', 's', 'e']
  | num n => n.write
  | str s => writeText (s.getD "")
  | arr [] => ['[', ']']
  | arr (d :: rest) =>
    '[' :: (newLine (depth + 1) ++ write (depth + 1) d ++ writeItems (depth + 1) rest ++
      newLine depth ++ [']'])
  | obj [] => ['\x7b', '\x7d']
  | obj ((k, d) :: rest) =>
    '\x7b' :: (newLine (depth + 1) ++ writeText (k.getD "") ++ [':', ' '] ++ write (depth + 1) d ++
      writeEntries (depth + 1) rest ++ newLine depth ++ ['\x7d'])

def writeItems (depth : Nat) : List Document → List Char
  | [] => []
  | d :: rest => ',' :: (newLine depth ++ write depth d ++ writeItems depth rest)

def writeEntries (depth : Nat) : List (Option String × Document) → List Char
  | [] => []
  | (k, d) :: rest =>
    ',' :: (newLine depth ++ writeText (k.getD "") ++ [':', ' '] ++ write depth d ++
      writeEntries depth rest)

end

def render (d : Document) : String := String.ofList (d.write 0)

end Awk.Document
