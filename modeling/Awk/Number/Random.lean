import Awk.Number.Power

/-!
# Pseudorandom numbers

A generator is a word of 64 bits.  Every draw adds a constant to it and mixes the bits of the sum; the
upper 53 bits of the result make a number from zero to one.  Which numbers these are is no part of the
language: it promises that they are in that range and that a seed repeats them.
-/

namespace Awk.Number

/-- A generator of pseudorandom numbers. -/
structure Random where
  state : UInt64
deriving DecidableEq, Repr

namespace Random

def ofSeed (seed : UInt64) : Random := ⟨seed⟩

def mix (z : UInt64) : UInt64 :=
  let z := (z ^^^ (z >>> 30)) * 0xbf58476d1ce4e5b9
  let z := (z ^^^ (z >>> 27)) * 0x94d049bb133111eb
  z ^^^ (z >>> 31)

/-- The next number, at least zero and below one, and the generator after it. -/
def next (r : Random) : Float × Random :=
  let state := r.state + 0x9e3779b97f4a7c15
  let bits := (mix state >>> 11).toNat
  (Float.ofNat bits / Float.ofNat (twoPow 53), ⟨state⟩)

end Random

end Awk.Number
