import Awk.Number.Binary

/-!
# Decimal digits of a double

Every finite double is a fraction of two natural numbers, so its decimal digits are a matter of exact
natural arithmetic.  Three choices of digits are needed:

* `fixed`: a given number of places after the point,
* `scientific`: a given number of places after the first digit, with an exponent,
* `shortest`: the fewest digits that still read back as the same double.

The first two round the exact value, a half going to the even neighbour.  The third looks at the
interval of reals that round to the double; among numbers of equally few digits it takes the one
nearest to the value.
-/

namespace Awk.Number

/-- The quotient of two natural numbers rounded to the nearest one, a half going to the even
neighbour. -/
def divNearestEven (num den : Nat) : Nat :=
  let q := num / den
  let twice := 2 * (num % den)
  if twice < den then q
  else if den < twice then q + 1
  else if q % 2 = 0 then q else q + 1

def natText (n : Nat) : String := String.ofList (Nat.toDigits 10 n)

/-- An integer in decimal digits, a minus sign in front of a negative one. -/
def intText (n : Int) : String :=
  if n < 0 then "-" ++ natText n.natAbs else natText n.natAbs

/-- A text made longer with zeros in front. -/
def zeroFill (width : Nat) (digits : String) : String :=
  String.ofList (List.replicate (width - digits.length) '0') ++ digits

def placePoint (n places : Nat) : String :=
  if places = 0 then natText n
  else natText (n / tenPow places) ++ "." ++ zeroFill places (natText (n % tenPow places))

/-- The magnitude of a double with the given number of places after the point. -/
def fixed (b : Binary) (places : Nat) : String :=
  let (num, den) := b.fraction
  placePoint (divNearestEven (num * tenPow places) den) places

def scaleTen (num den : Nat) (power : Int) : Nat × Nat :=
  if 0 ≤ power then (num * tenPow power.toNat, den) else (num, den * tenPow (-power).toNat)

/-- The power of ten of the first digit of a positive fraction.  The estimate from the binary lengths
is off by at most one. -/
def firstPower (num den : Nat) : Int :=
  let guess := (((num.log2 : Int) - (den.log2 : Int)) * 30103).fdiv 100000
  let (n₁, d₁) := scaleTen num den (-(guess + 1))
  if d₁ ≤ n₁ then guess + 1
  else
    let (n₀, d₀) := scaleTen num den (-guess)
    if n₀ < d₀ then guess - 1 else guess

/-- Decimal digits with the power of ten of the first of them: `digits` has `count` digits. -/
structure Digits where
  digits : Nat
  count : Nat
  power : Int
deriving DecidableEq, Repr

/-- The digits of a magnitude rounded to one digit and the given places after it. -/
def scientific (b : Binary) (places : Nat) : Digits :=
  if b.mantissa = 0 then ⟨0, places + 1, 0⟩
  else
    let (num, den) := b.fraction
    let power := firstPower num den
    let (n, d) := scaleTen num den (places - power)
    let q := divNearestEven n d
    if q = tenPow (places + 1) then ⟨q / 10, places + 1, power + 1⟩ else ⟨q, places + 1, power⟩

/-! ## The fewest digits -/

/-- The interval of reals that round to a positive double, with four times its mantissa as unit: the
lower and upper end and whether the ends belong to it. -/
structure Rounding where
  low : Nat
  value : Nat
  high : Nat
  closed : Bool

/-- The interval of a positive double, in units of a quarter of its last place.  Below a power of two
the neighbours are half as far apart. -/
def Rounding.of (b : Binary) : Rounding :=
  let edge := b.mantissa == twoPow Binary.fractionBits && decide (Binary.leastExponent < b.exponent)
  { low := 4 * b.mantissa - (if edge then 1 else 2)
    value := 4 * b.mantissa
    high := 4 * b.mantissa + 2
    closed := b.mantissa % 2 == 0 }

/-- Whether the fraction `n / d` lies in the interval, both scaled by the same unit. -/
def Rounding.holds (r : Rounding) (n d : Nat) : Bool :=
  if r.closed then r.low * d ≤ n && n ≤ r.high * d else r.low * d < n && n < r.high * d

/-- Of the two decimal neighbours of the value with `count` digits, the one that reads back, the
nearer one if both do, the upper one if both are equally near. -/
def neighbour? (b : Binary) (power : Int) (count : Nat) : Option Nat :=
  let r := Rounding.of b
  let quarter : Binary := { b with mantissa := r.value, exponent := b.exponent - 2 }
  let (num, den) := quarter.fraction
  let shift : Int := (count : Int) - 1 - power
  let (n, d) := scaleTen num den shift
  let below := n / d
  let above := below + 1
  -- `k` stands for `k · 10 ^ (-shift)`; in units of a quarter place it is `unit k / den'`
  let inside : Nat → Bool := fun k =>
    let (kn, kd) := scaleTen k 1 (-shift)
    if 0 ≤ quarter.exponent then r.holds kn (kd * twoPow quarter.exponent.toNat)
    else r.holds (kn * twoPow (-quarter.exponent).toNat) kd
  let down := decide (0 < below) && inside below
  let up := inside above
  if down && up then
    if 2 * (n % d) < d then some below else some above
  else if down then some below
  else if up then some above
  else none

/-- The digits of the first count that has a decimal number reading back, from `count` on. -/
def shortestFrom (b : Binary) (power : Int) : Nat → Nat → Digits
  | 0, count => ⟨0, count, power⟩
  | fuel + 1, count =>
    match neighbour? b power count with
    | some k =>
      if k = tenPow count then ⟨k / 10, count, power + 1⟩ else ⟨k, count, power⟩
    | none => shortestFrom b power fuel (count + 1)

/-- The fewest digits that read back as the double; seventeen always suffice. -/
def shortest (b : Binary) : Digits :=
  if b.mantissa = 0 then ⟨0, 1, 0⟩
  else
    let (num, den) := b.fraction
    shortestFrom b (firstPower num den) 17 1

/-- The digits written without an exponent: zeros fill the gap to the point. -/
def Digits.positional (d : Digits) : String :=
  let text := zeroFill d.count (natText d.digits)
  if d.power < 0 then
    "0." ++ String.ofList (List.replicate ((-d.power).toNat - 1) '0') ++ text
  else
    let lead := d.power.toNat + 1
    if d.count ≤ lead then text ++ String.ofList (List.replicate (lead - d.count) '0')
    else (text.take lead).toString ++ "." ++ (text.drop lead).toString

/-- A double in its fewest digits and without an exponent. -/
def plainText (x : Float) : String :=
  match Binary.ofFloat? x with
  | none => if x.isNaN then "NaN" else if x < 0 then "-inf" else "inf"
  | some b => (if b.negative then "-" else "") ++ (shortest b).positional

end Awk.Number
