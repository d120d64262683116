import Awk.Number.Decimal
import Awk.Number.Read

/-!
# Documents

Data in the JSON notation: a tree of values.  Numerals are kept as they are written, so that a number is
only judged where one is wanted.
-/

namespace Awk

namespace Document

/-- A number as it is written: the digits on both sides of the point, and an exponent with its sign. -/
structure Numeral where
  negative : Bool
  whole : List Char
  fraction : Option (List Char) := none
  exponent : Option (Bool × List Char) := none
deriving DecidableEq, Repr

end Document

/-- A document.  A text is none if half of a surrogate pair stands in it: it may be passed over, but it
has no value. -/
inductive Document where
  | null
  | bool (b : Bool)
  | num (n : Document.Numeral)
  | str (s : Option String)
  | arr (items : List Document)
  | obj (entries : List (Option String × Document))

namespace Document

namespace Numeral

/-! ## Writing numbers -/

def ofInt (n : Int) : Numeral := { negative := decide (n < 0), whole := Nat.toDigits 10 n.natAbs }

/-- The least power of ten of a first digit for which no exponent is written. -/
def leastPlain : Int := -5

/-- The greatest power of ten of a first digit for which no exponent is written. -/
def greatestPlain : Int := 15

/-- Digits on both sides of a point that stands behind some of them; one digit at least on both. -/
def pointAfter (digits : List Char) (lead : Nat) : List Char × List Char :=
  let whole := digits.take lead ++ List.replicate (lead - digits.length) '0'
  let fraction := digits.drop lead
  (whole, if fraction.isEmpty then ['0'] else fraction)

/-- The numeral for some digits: without an exponent if the first digit is near the point. -/
def ofDigits (negative : Bool) (d : Number.Digits) : Numeral :=
  let digits := Nat.toDigits 10 d.digits
  if d.power < leastPlain ∨ greatestPlain < d.power then
    { negative
      whole := digits.take 1
      fraction := if digits.length = 1 then none else some (digits.drop 1)
      exponent := some (decide (d.power < 0), Nat.toDigits 10 d.power.natAbs) }
  else if d.power < 0 then
    { negative
      whole := ['0']
      fraction := some (List.replicate ((-d.power).toNat - 1) '0' ++ digits) }
  else
    let (whole, fraction) := pointAfter digits (d.power.toNat + 1)
    { negative, whole, fraction := some fraction }

/-- The numeral of a finite number: the fewest digits that read back. -/
def ofFloat? (x : Float) : Option Numeral :=
  (Number.Binary.ofFloat? x).map fun b => ofDigits b.negative (Number.shortest b)

/-! ## Reading numbers -/

/-- The integer of a numeral that has neither a fraction nor an exponent; there is no negative zero. -/
def toInt? (n : Numeral) : Option Int :=
  let value := Number.digitsValue n.whole
  if n.fraction.isSome ∨ n.exponent.isSome then none
  else if n.negative then if value = 0 then none else some (-value)
  else some value

/-- Digits gathered to a number as long as it has room in a word; the rest is dropped.  Tells how many
digits were taken. -/
def gather (value : Nat) : List Char → Nat × Nat
  | [] => (value, 0)
  | c :: rest =>
    let next := value * 10 + (c.toNat - '0'.toNat)
    if next < Number.twoPow 64 then
      let (value, taken) := gather next rest
      (value, taken + 1)
    else (value, 0)

def greatestPower : Nat := 308

/-- A number divided by a power of ten, in several steps if the power is too great for one. -/
def shrink (x : Float) (power : Nat) : Float :=
  if power ≤ greatestPower then x / Number.ofDecimal 1 power
  else if x == 0 then x
  else shrink (x / Number.ofDecimal 1 greatestPower) (power - greatestPower)
termination_by power
decreasing_by simp only [greatestPower] at *; omega

/-- A number times a power of ten; none if that is no number any more. -/
def scale? (x : Float) (power : Int) : Option Float :=
  if power < 0 then some (shrink x power.natAbs)
  else if greatestPower < power then if x == 0 then some x else none
  else
    let y := x * Number.ofDecimal 1 power
    if y.isInf then none else some y

def exponentBound : Nat := Number.twoPow 31

/-- The number of a numeral: its digits as far as they have room, scaled by one power of ten; none if it
is too great. -/
def toFloat? (n : Numeral) : Option Float := do
  let (value, wholeTaken) := gather 0 n.whole
  let (value, fractionTaken) := gather value (n.fraction.getD [])
  let places : Int := (n.whole.length : Int) - wholeTaken - fractionTaken
  let magnitude ← match n.exponent with
    | none => scale? (Float.ofNat value) places
    | some (negative, digits) =>
      let e := Number.digitsValue digits
      if e < exponentBound then
        scale? (Float.ofNat value) (places + if negative then -(e : Int) else e)
      else if value = 0 ∨ negative then some 0
      else none
  return if n.negative then -magnitude else magnitude

end Numeral

/-! ## Simple values -/

def ofText (s : String) : Document := .str (some s)

def ofNat (n : Nat) : Document := .num (.ofInt n)

def ofInt (n : Int) : Document := .num (.ofInt n)

def ofFloat (x : Float) : Document := (Numeral.ofFloat? x).elim .null .num

def ofFields (fields : List (String × Document)) : Document :=
  .obj (fields.map fun (k, v) => (some k, v))

def ofList {α : Type} (f : α → Document) (xs : List α) : Document := .arr (xs.map f)

def text? : Document → Option String
  | str s => s
  | _ => none

def bool? : Document → Option Bool
  | bool b => some b
  | _ => none

/-- The integer of a document, if it lies between bounds. -/
def int? (lo hi : Int) : Document → Option Int
  | num n => n.toInt?.bind fun i => if lo ≤ i ∧ i ≤ hi then some i else none
  | _ => none

def nat? (bits : Nat) (d : Document) : Option Nat := (d.int? 0 (Number.twoPow bits - 1)).map Int.toNat

def float? : Document → Option Float
  | num n => n.toFloat?
  | _ => none

def items? : Document → Option (List Document)
  | arr items => some items
  | _ => none

def list? {α : Type} (f : Document → Option α) (d : Document) : Option (List α) :=
  d.items?.bind (·.mapM f)

/-! ## Structures and alternatives -/

/-- The value of a field; the outer none tells that the field is there twice. -/
def lookup? (entries : List (Option String × Document)) (name : String) : Option (Option Document) :=
  match entries.filter (·.1 == some name) with
  | [] => some none
  | [(_, v)] => some (some v)
  | _ => none

/-- The values of the fields of a structure: an object, in which other fields may stand too, or a list of
all values in order. -/
def fieldsOrNone? (names : List String) : Document → Option (List (Option Document))
  | obj entries =>
    if entries.any (·.1.isNone) then none else names.mapM (lookup? entries)
  | arr items => if items.length = names.length then some (items.map some) else none
  | _ => none

def fields? (names : List String) (d : Document) : Option (List Document) :=
  (d.fieldsOrNone? names).bind (·.mapM id)

/-- An alternative: its name alone, or an object with its name and what belongs to it. -/
def variant? : Document → Option (String × Option Document)
  | str (some name) => some (name, none)
  | obj [(some name, payload)] => some (name, some payload)
  | _ => none

/-- The name of an alternative that nothing belongs to. -/
def bareVariant? (d : Document) : Option String :=
  match d.variant? with
  | some (name, none) | some (name, some .null) => some name
  | _ => none

/-- The document of an alternative with something that belongs to it. -/
def ofVariant (name : String) (payload : Document) : Document := .obj [(some name, payload)]

def oneOf? {α : Type} (name : α → String) (all : List α) (d : Document) : Option α :=
  d.bareVariant?.bind fun s => all.find? (name · == s)

end Document

end Awk
