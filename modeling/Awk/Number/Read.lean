import Awk.Number.Binary

/-!
# Numbers at the start of a text

A text counts as a number by the longest start, after blanks, of the form
`sign? (digits (. digits*)? | . digits) ((e|E) sign? digits)?`.
-/

namespace Awk.Number

/-- A decimal numeral taken apart: its sign, the digits on both sides of the point and its exponent. -/
structure Numeral where
  negative : Bool
  whole : List Char
  fraction : List Char
  exponent : Int
deriving DecidableEq, Repr

def digitsValue (ds : List Char) : Nat :=
  ds.foldl (fun n d => n * 10 + (d.toNat - '0'.toNat)) 0

def appendDigits (n : Nat) (ds : List Char) : Nat := n * tenPow ds.length + digitsValue ds

/-- How many digits are taken together where there are many. -/
def blockLength : Nat := 128

/-- The number written by digits behind a number, put together from blocks of digits.  That is the quicker
the longer the text is.  `bound` is the number of blocks. -/
def appendBlocks : (bound : Nat) → Nat → List Char → Nat
  | 0, n, ds => appendDigits n ds
  | bound + 1, n, ds =>
    match ds.drop blockLength with
    | [] => appendDigits n ds
    | rest => appendBlocks bound (appendDigits n (ds.take blockLength)) rest

/-- The number written by the digits of an exponent.  Once it has reached 65536 the digits that follow
are passed over: the power is then out of reach for all but numerals of immense length. -/
def exponentValue (ds : List Char) : Nat :=
  ds.foldl (fun n d => if n < 65536 then n * 10 + (d.toNat - '0'.toNat) else n) 0

/-- The nearest double to `m · 10 ^ e`.  Powers far outside the range of doubles are decided without
computing them, by the number of decimal digits of `m`, which is 0.30103 times that of its binary ones. -/
def ofDecimal (m : Nat) (e : Int) : Float :=
  if m = 0 then 0
  else
    let size : Int := (m.log2 : Int) * 30103 / 100000 + e
    if 400 < size then infinity
    else if size < -400 then 0
    else if 0 ≤ e then Float.ofScientific m false e.toNat
    else Float.ofScientific m true (-e).toNat

namespace Numeral

def takeSign : List Char → Bool × List Char
  | '+' :: r => (false, r)
  | '-' :: r => (true, r)
  | r => (false, r)

def takeDigits (s : List Char) : List Char × List Char :=
  s.span Char.isDigit

/-- An exponent at the start of a text, and the rest; zero if no digits follow the mark. -/
def takeExponent (s : List Char) : Int × List Char :=
  match s with
  | c :: r =>
    if c = 'e' ∨ c = 'E' then
      let (negative, r) := takeSign r
      match takeDigits r with
      | ([], _) => (0, s)
      | (ds, rest) => (Binary.signed negative (exponentValue ds), rest)
    else (0, s)
  | [] => (0, s)

/-- The digits after a point, and the rest.  A point without digits on either side is not taken. -/
def takeFraction (hasWhole : Bool) (s : List Char) : Option (List Char) × List Char :=
  match s with
  | '.' :: r =>
    match takeDigits r with
    | ([], rest) => if hasWhole then (some [], rest) else (none, s)
    | (ds, rest) => (some ds, rest)
  | _ => (none, s)

/-- The longest numeral a text starts with, and the rest. -/
def scan (s : List Char) : Option (Numeral × List Char) :=
  let (negative, s₁) := takeSign s
  let (whole, s₂) := takeDigits s₁
  let (fraction?, s₃) := takeFraction (!whole.isEmpty) s₂
  if whole.isEmpty && fraction?.isNone then none
  else
    let (exponent, s₄) := takeExponent s₃
    some (⟨negative, whole, fraction?.getD [], exponent⟩, s₄)

def value (n : Numeral) : Float :=
  let digits := n.whole ++ n.fraction
  let x := ofDecimal (appendBlocks digits.length 0 digits) (n.exponent - n.fraction.length)
  if n.negative then -x else x

end Numeral

def isBlank (c : Char) : Bool :=
  c == ' ' || c == '\t' || c == '\n' || c == '\r' || c == '\x0b' || c == '\x0c'

/-- The number a text begins with after blanks; zero if it begins with none. -/
def numericPrefix (s : List Char) : Float :=
  match Numeral.scan (s.dropWhile isBlank) with
  | some (n, _) => n.value
  | none => 0

def looksNumeric (s : List Char) : Bool :=
  match Numeral.scan (s.dropWhile isBlank) with
  | some (_, rest) => rest.all isBlank
  | none => false

end Awk.Number
