import Awk.Number.Power

/-!
# Doubles as sign, mantissa and exponent

A finite double is `± mantissa · 2 ^ exponent` with natural mantissa and integer exponent.  This file
takes a double apart into those three parts and does everything exactly that the language needs and
that is not one of the four rounded operations: cutting off the fraction, rounding to the nearest
whole number, the remainder of a division, and the clamped conversions to fixed-width integers.
-/

namespace Awk.Number

/-- The parts of a finite double: its value is `± mantissa · 2 ^ exponent`. -/
structure Binary where
  negative : Bool
  mantissa : Nat
  exponent : Int
deriving DecidableEq, Repr

namespace Binary

def fractionBits : Nat := 52

/-- The exponent that belongs to every double below the smallest normal one. -/
def leastExponent : Int := -1074

/-- The parts of a finite double, `none` for infinities and NaN. -/
def ofFloat? (x : Float) : Option Binary :=
  let bits := x.toBits.toNat
  let fraction := bits % twoPow fractionBits
  let field := bits / twoPow fractionBits % 2048
  let negative := decide (twoPow 63 ≤ bits)
  if field = 2047 then none
  else if field = 0 then some ⟨negative, fraction, leastExponent⟩
  else some ⟨negative, fraction + twoPow fractionBits, (field : Int) - 1075⟩

/-- The same value with a mantissa that fills the 53 bits of a double where the exponent allows it.
A value that a double can hold keeps its meaning. -/
def normalize (b : Binary) : Binary :=
  if b.mantissa = 0 then { b with exponent := leastExponent }
  else
    let length := b.mantissa.log2 + 1
    if length ≤ 53 then
      let shift := min (53 - length) (b.exponent - leastExponent).toNat
      { b with mantissa := b.mantissa <<< shift, exponent := b.exponent - shift }
    else
      let shift := length - 53
      { b with mantissa := b.mantissa >>> shift, exponent := b.exponent + shift }

/-- The double with the given parts, for values that a double can hold. -/
def toFloat (b : Binary) : Float :=
  let n := b.normalize
  let sign := if n.negative then twoPow 63 else 0
  let field := if n.mantissa < twoPow fractionBits then 0 else (n.exponent + 1075).toNat
  Float.ofBits (UInt64.ofNat (sign + field * twoPow fractionBits + n.mantissa % twoPow fractionBits))

def floorMagnitude (b : Binary) : Nat :=
  if 0 ≤ b.exponent then b.mantissa <<< b.exponent.toNat
  else b.mantissa >>> (-b.exponent).toNat

/-- The magnitude as a fraction of two natural numbers. -/
def fraction (b : Binary) : Nat × Nat :=
  if 0 ≤ b.exponent then (b.mantissa <<< b.exponent.toNat, 1)
  else (b.mantissa, 1 <<< (-b.exponent).toNat)

def isWhole (b : Binary) : Bool :=
  0 ≤ b.exponent || b.mantissa % (1 <<< (-b.exponent).toNat) == 0

def signed (negative : Bool) (n : Nat) : Int :=
  if negative then -(n : Int) else n

end Binary

/-- The fraction cut off, `none` for infinities and NaN. -/
def truncate? (x : Float) : Option Int :=
  (Binary.ofFloat? x).map fun b => Binary.signed b.negative b.floorMagnitude

/-- The least integer of 64 bits with a sign. -/
def int64Min : Int := -twoPow 63

/-- The greatest integer of 64 bits with a sign. -/
def int64Max : Int := twoPow 63 - 1

/-- The value of a double that is a whole number of 64 bits with a sign. -/
def whole? (x : Float) : Option Int :=
  match Binary.ofFloat? x with
  | none => none
  | some b =>
    if b.isWhole then
      let n := Binary.signed b.negative b.floorMagnitude
      if int64Min ≤ n ∧ n ≤ int64Max then some n else none
    else none

/-- The whole part of a double forced into `lo … hi`: what lies outside gives the nearer bound, and NaN
gives zero. -/
def clamp (lo hi : Int) (x : Float) : Int :=
  match truncate? x with
  | some n => max lo (min hi n)
  | none => if x.isNaN then 0 else if x < 0 then lo else hi

/-- The whole part as an integer of 64 bits with a sign. -/
def toInt64 (x : Float) : Int := clamp int64Min int64Max x

/-- The whole part as a natural number of 64 bits. -/
def toNat64 (x : Float) : Nat := (clamp 0 (twoPow 64 - 1) x).toNat

/-- The whole part as an integer of 32 bits with a sign. -/
def toInt32 (x : Float) : Int := clamp (-twoPow 31) (twoPow 31 - 1) x

/-- The whole part as a natural number of 32 bits. -/
def toNat32 (x : Float) : Nat := (clamp 0 (twoPow 32 - 1) x).toNat

/-- The double with its fraction cut off.  Zero keeps the sign, infinities and NaN stay. -/
def truncated (x : Float) : Float :=
  match Binary.ofFloat? x with
  | none => x
  | some b => if b.isWhole then x else Binary.toFloat ⟨b.negative, b.floorMagnitude, 0⟩

/-- The nearest whole number, a half going away from zero.  Zero keeps the sign, infinities and NaN stay. -/
def rounded (x : Float) : Float :=
  match Binary.ofFloat? x with
  | none => x
  | some b =>
    if b.isWhole then x
    else
      let doubled := { b with exponent := b.exponent + 1 : Binary }
      Binary.toFloat ⟨b.negative, (doubled.floorMagnitude + 1) / 2, 0⟩

/-- The double of an integer, correctly rounded. -/
def ofInt (n : Int) : Float :=
  if n < 0 then -Float.ofNat n.natAbs else Float.ofNat n.natAbs

/-- NaN, the result of operations that have none. -/
def nan : Float := 0.0 / 0.0

def infinity : Float := 1.0 / 0.0

/-- What is left of `x` after taking away a whole number of times `y`: it has the sign of `x` and is
smaller than `y`, and it is exact. -/
def remainder (x y : Float) : Float :=
  match Binary.ofFloat? x, Binary.ofFloat? y with
  | some a, some b =>
    if b.mantissa = 0 then nan
    else
      let low := min a.exponent b.exponent
      let left := a.mantissa <<< (a.exponent - low).toNat
      let right := b.mantissa <<< (b.exponent - low).toNat
      Binary.toFloat ⟨a.negative, left % right, low⟩
  | some _, none => if y.isNaN then nan else x
  | none, _ => nan

/-- Comparison of two doubles.  NaN has no place in the order and counts as equal to everything. -/
def order (x y : Float) : Ordering :=
  if x < y then .lt else if y < x then .gt else .eq

end Awk.Number
