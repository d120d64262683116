import Awk.Number.Decimal

/-!
# Three notations of a magnitude

A magnitude is written with a fixed number of places, with an exponent, or in whichever of the two is
shorter for a given number of digits.  The alternate form keeps a point and trailing zeros that would
otherwise be dropped.
-/

namespace Awk.Number

/-- How a magnitude is written: digits after the point, and whether the point is always kept. -/
structure Notation where
  places : Nat
  keepPoint : Bool
  upper : Bool
deriving DecidableEq, Repr

namespace Notation

def fixedText (n : Notation) (b : Binary) : String :=
  fixed b n.places ++ (if n.keepPoint && n.places == 0 then "." else "")

/-- The exponent mark, sign and at least two digits of an exponent. -/
def exponentText (upper : Bool) (power : Int) : String :=
  (if upper then "E" else "e") ++ (if power < 0 then "-" else "+") ++ zeroFill 2 (natText power.natAbs)

def mantissaText (n : Notation) (d : Digits) : String :=
  placePoint d.digits (d.count - 1) ++ (if n.keepPoint && n.places == 0 then "." else "")

def exponentialText (n : Notation) (b : Binary) : String :=
  let d := scientific b n.places
  n.mantissaText d ++ exponentText n.upper d.power

/-- A text without the zeros at its end and without a point left there; only if it has a point. -/
def stripZeros (s : String) : String :=
  if s.contains '.' then
    let kept := s.toList.reverse.dropWhile (· == '0')
    String.ofList (kept.dropWhile (· == '.')).reverse
  else s

/-- With as many digits as `places` says, an exponent only where the first digit is far from the
point. -/
def generalText (n : Notation) (b : Binary) : String :=
  let digits := max n.places 1
  let d := scientific b (digits - 1)
  let strip := fun s => if n.keepPoint then s else stripZeros s
  if d.power < -4 ∨ (digits : Int) ≤ d.power then
    strip ({ n with places := digits - 1 }.mantissaText d) ++ exponentText n.upper d.power
  else
    strip ({ n with places := ((digits : Int) - 1 - d.power).toNat }.fixedText b)

end Notation

/-- A number with six digits, which is how numbers become text unless the program asks for something
else. -/
def sixDigits (x : Float) : String :=
  match Binary.ofFloat? x with
  | none => if x.isNaN then "nan" else if x < 0 then "-inf" else "inf"
  | some b => (if b.negative then "-" else "") ++ Notation.generalText ⟨6, false, false⟩ b

end Awk.Number
