import Awk.Number.Notation
import Awk.Number.Read

/-!
# Values

A scalar is a text, a number, a text that came from input, or nothing yet.  A text from input counts
as a number wherever it looks like one; nothing counts as the empty text and as zero.
-/

namespace Awk

inductive Value where
  | null
  | str (text : String)
  | num (value : Float)
  | input (text : String)

namespace Value

def ofBool (b : Bool) : Value := .num (if b then 1 else 0)

def ofNat (n : Nat) : Value := .num (Float.ofNat n)

def toNumber : Value → Float
  | null => 0
  | num x => x
  | str s | input s => Number.numericPrefix s.toList

def isTrue : Value → Bool
  | null => false
  | num x => x != 0
  | str s => !s.isEmpty
  | input s => if Number.looksNumeric s.toList then Number.numericPrefix s.toList != 0 else !s.isEmpty

def isText : Value → Bool
  | str _ => true
  | input s => !Number.looksNumeric s.toList
  | null | num _ => false

/-- The text of a number: whole numbers exactly, others as `fractional` says. -/
def numberTextWith (fractional : Float → String) (x : Float) : String :=
  match Number.whole? x with
  | some n => Number.intText n
  | none => fractional x

def textWith (number : Float → String) : Value → String
  | null => ""
  | str s | input s => s
  | num x => number x

def shortText : Value → String := textWith (numberTextWith Number.sixDigits)

end Value

end Awk
