import Awk.Format.Directive
import Awk.Text.Quoted
import Awk.Value

/-!
# Writing values by a format

`sprintf` writes a list of values as a format says.  The letters of its directives are `d` and `i` for
integers, `u`, `o`, `x` and `X` for natural numbers, `e`, `f` and `g` in both cases for other numbers, `c`
for characters and `s` for texts.  A directive with another letter stands for itself.  `Value.text` is the text of a value under the
format that the program has chosen for numbers.
-/

namespace Awk.Format

/-- Why a format cannot be used. -/
inductive FormatError where
  | notEnoughArgs (format : String) (given : Nat)
deriving DecidableEq, Repr

def FormatError.message : FormatError → String
  | .notEnoughArgs format given =>
    "not enough arguments (" ++ Number.natText given ++ ") for format string " ++ Text.quoted format

/-- A directive whose amounts are known. -/
structure Layout where
  flags : Flags
  width : Nat
  precision : Option Nat
deriving DecidableEq, Repr

namespace Layout

def fill (n : Nat) (c : Char) : String := String.ofList (List.replicate n c)

def sign (l : Layout) (negative : Bool) : String :=
  if negative then "-" else if l.flags.plus then "+" else if l.flags.space then " " else ""

/-- Fills a text up to the width.  Zeros go between the sign or base mark and the digits. -/
def pad (l : Layout) (mark body : String) (zeroOk : Bool) : String :=
  let missing := l.width - (mark.length + body.length)
  if l.flags.left then mark ++ body ++ fill missing ' '
  else if l.flags.zero && zeroOk then mark ++ fill missing '0' ++ body
  else fill missing ' ' ++ mark ++ body

def nonFinite (l : Layout) (x : Float) (upper : Bool) : String :=
  let body := if x.isNaN then "nan" else "inf"
  l.pad (l.sign (x < 0)) (if upper then body.toUpper else body) false

/-- Digits filled up to the precision; a zero with precision zero has no digits. -/
def atLeast (l : Layout) (isZero : Bool) (digits : String) : String :=
  match l.precision with
  | none => digits
  | some p => if p = 0 ∧ isZero then "" else Number.zeroFill p digits

def integer (l : Layout) (x : Float) : String :=
  if !x.isFinite then l.nonFinite x false
  else
    let n := Number.toInt64 x
    l.pad (l.sign (n < 0)) (l.atLeast (n = 0) (Number.natText n.natAbs)) l.precision.isNone

/-- The natural number of 64 bits that a number stands for; a negative one wraps around. -/
def naturalOf (x : Float) : Nat :=
  if x < 0 then (Number.toInt64 x % Number.twoPow 64).toNat else Number.toNat64 x

def baseOf (verb : Char) : Nat :=
  if verb = 'o' then 8 else if verb = 'x' ∨ verb = 'X' then 16 else 10

def baseDigits (verb : Char) (n : Nat) : String :=
  let digits := String.ofList (Nat.toDigits (baseOf verb) n)
  if verb = 'X' then digits.toUpper else digits

/-- A natural number in base ten, eight or sixteen. -/
def natural (l : Layout) (verb : Char) (x : Float) : String :=
  if !x.isFinite then l.nonFinite x (verb == 'X')
  else
    let n := naturalOf x
    let digits := l.atLeast (n = 0) (baseDigits verb n)
    let digits :=
      if verb = 'o' && l.flags.alternate && digits.toList.head? != some '0' then "0" ++ digits else digits
    let mark :=
      if l.flags.alternate && n != 0 then
        if verb = 'x' then "0x" else if verb = 'X' then "0X" else ""
      else ""
    l.pad mark digits l.precision.isNone

def float (l : Layout) (verb : Char) (x : Float) : String :=
  let upper := verb.isUpper
  match Number.Binary.ofFloat? x with
  | none => l.nonFinite x upper
  | some b =>
    let style : Number.Notation := ⟨l.precision.getD 6, l.flags.alternate, upper⟩
    let body :=
      if verb = 'e' ∨ verb = 'E' then style.exponentialText b
      else if verb = 'f' ∨ verb = 'F' then style.fixedText b
      else style.generalText b
    l.pad (l.sign b.negative) body true

/-- The character with a code point, nothing if there is none. -/
def charOfCode (x : Float) : String :=
  let n := Number.toNat32 x
  if n.isValidChar then (Char.ofNat n).toString else ""

def character (l : Layout) (text : Value → String) (v : Value) : String :=
  let first := fun s : String => (s.take 1).toString
  let body := match v with
    | .num x => charOfCode x
    | .input s => if Number.looksNumeric s.toList then charOfCode v.toNumber else first s
    | v => first (text v)
  l.pad "" body false

def string (l : Layout) (text : Value → String) (v : Value) : String :=
  let s := text v
  l.pad "" (match l.precision with
    | some p => (s.take p).toString
    | none => s) false

def value (l : Layout) (text : Value → String) (verb : Char) (v : Value) : String :=
  if verb = 'd' ∨ verb = 'i' then l.integer v.toNumber
  else if verb = 'o' ∨ verb = 'x' ∨ verb = 'X' ∨ verb = 'u' then l.natural verb v.toNumber
  else if verb = 'c' then l.character text v
  else if verb = 's' then l.string text v
  else l.float verb v.toNumber

end Layout

/-- A width and the arguments left.  A negative width from the arguments asks to fill on the right. -/
def takeWidth (flags : Flags) : Amount → List Value → Option (Flags × Nat × List Value)
  | .given n, args => some (flags, n, args)
  | .taken, [] => none
  | .taken, v :: args =>
    let n := Number.toInt64 v.toNumber
    some (if n < 0 then { flags with left := true } else flags, n.natAbs, args)

/-- A precision and the arguments left.  A negative one from the arguments counts as absent. -/
def takePrecisionArg : Option Amount → List Value → Option (Option Nat × List Value)
  | none, args => some (none, args)
  | some (.given n), args => some (some n, args)
  | some .taken, [] => none
  | some .taken, v :: args =>
    let n := Number.toInt64 v.toNumber
    some (if n < 0 then none else some n.toNat, args)

/-- A piece written, and the arguments left; `none` if there are too few. -/
def Piece.render (text : Value → String) : Piece → List Value → Option (String × List Value)
  | .literal c, args => some (c.toString, args)
  | .directive d, args =>
    match takeWidth d.flags d.width args with
    | none => none
    | some (flags, width, args) =>
      match takePrecisionArg d.precision args with
      | none => none
      | some (precision, args) =>
        match d.verb with
        | some verb =>
          if isVerb verb then
            match args with
            | [] => none
            | v :: args => some (Layout.value ⟨flags, width, precision⟩ text verb v, args)
          else some (String.ofList d.source, args)
        | none => some (String.ofList d.source, args)

/-- All pieces written; `none` if there are too few arguments. -/
def renderPieces (text : Value → String) : List Piece → List Value → Option String
  | [], _ => some ""
  | p :: rest, args =>
    match p.render text args with
    | none => none
    | some (s, args) => (renderPieces text rest args).map (s ++ ·)

def sprintfWith (text : Value → String) (format : String) (args : List Value) :
    Except FormatError String :=
  match renderPieces text (Piece.parse format.toList) args with
  | some s => .ok s
  | none => .error (.notEnoughArgs format args.length)

/-- The text of a number under a format for numbers that are not whole. -/
def numberText (format : String) (x : Float) : String :=
  Value.numberTextWith (fun x =>
    if x.isNaN then "nan"
    else if x.isInf then (if x < 0 then "-inf" else "inf")
    else if format = "%.6g" then Number.sixDigits x
    else match sprintfWith Value.shortText format [.num x] with
      | .ok s => s
      | .error _ => Number.plainText x) x

end Awk.Format

namespace Awk

/-- The text of a value under a format for numbers that are not whole. -/
def Value.text (format : String) : Value → String := Value.textWith (Format.numberText format)

/-- Values written by a format, `convfmt` being the format for numbers written as text. -/
def Format.sprintf (format : String) (args : List Value) (convfmt : String) :
    Except Format.FormatError String :=
  Format.sprintfWith (Value.text convfmt) format args

end Awk
