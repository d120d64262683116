import Awk.Document
import Awk.Text.Escape

/-!
# Reading documents

The notation is taken strictly: no comments, no trailing commas, no control characters in texts, no zeros
in front of a number.  The bound of the readers counts nested calls; twice the length of the text is
enough, since every second call takes a character.
-/

namespace Awk.Document

def isBlank (c : Char) : Bool := c == ' ' || c == '\n' || c == '\t' || c == '\r'

def skipBlanks (s : List Char) : List Char := s.dropWhile isBlank

/-! ## Texts -/

/-- Four digits of base sixteen. -/
def hexUnit? (a b c d : Char) : Option Nat := do
  let a ← Text.hexDigit? a
  let b ← Text.hexDigit? b
  let c ← Text.hexDigit? c
  let d ← Text.hexDigit? d
  return ((a * 16 + b) * 16 + c) * 16 + d

/-- A part of a text: a character, or one half of a surrogate pair. -/
inductive TextPart where
  | char (c : Char)
  | half (unit : Nat)
deriving DecidableEq, Repr

def TextPart.ofUnit (n : Nat) : TextPart :=
  if 0xD800 ≤ n ∧ n < 0xE000 then .half n else .char (Char.ofNat n)

/-- The character for the letter behind a backslash. -/
def escaped? : Char → Option Char
  | '"' => some '"'
  | '\\' => some '\\'
  | '/' => some '/'
  | 'b' => some '\x08'
  | 'f' => some '\x0c'
  | 'n' => some '\n'
  | 'r' => some '\r'
  | 't' => some '\t'
  | _ => none

/-- The parts of a text up to its closing quote, and what follows that. -/
def readParts : List Char → Option (List TextPart × List Char)
  | [] => none
  | '"' :: rest => some ([], rest)
  | '\\' :: 'u' :: a :: b :: c :: d :: rest => do
    let unit ← hexUnit? a b c d
    let (parts, rest) ← readParts rest
    return (.ofUnit unit :: parts, rest)
  | '\\' :: e :: rest => do
    let c ← escaped? e
    let (parts, rest) ← readParts rest
    return (.char c :: parts, rest)
  | c :: rest =>
    if c.toNat < 32 ∨ c = '\\' then none
    else do
      let (parts, rest) ← readParts rest
      return (.char c :: parts, rest)

/-- The characters of a text; none if a half of a pair stands alone. -/
def joinParts : List TextPart → Option (List Char)
  | [] => some []
  | .char c :: rest => (joinParts rest).map (c :: ·)
  | .half hi :: .half lo :: rest =>
    if hi < 0xDC00 ∧ 0xDC00 ≤ lo then
      (joinParts rest).map (Char.ofNat (0x10000 + (hi - 0xD800) * 0x400 + (lo - 0xDC00)) :: ·)
    else none
  | .half _ :: _ => none

def readText (s : List Char) : Option (Option String × List Char) :=
  (readParts s).map fun (parts, rest) => ((joinParts parts).map String.ofList, rest)

/-! ## Numbers -/

def readDigits (s : List Char) : Option (List Char × List Char) :=
  match s.span Char.isDigit with
  | ([], _) => none
  | found => some found

/-- The digits before a point: a zero, or digits that do not start with one. -/
def readWhole (s : List Char) : Option (List Char × List Char) :=
  (readDigits s).bind fun (digits, rest) =>
    if digits.head? = some '0' ∧ digits.length ≠ 1 then none else some (digits, rest)

def readFraction : List Char → Option (Option (List Char) × List Char)
  | '.' :: rest => (readDigits rest).map fun (digits, rest) => (some digits, rest)
  | rest => some (none, rest)

def readSign : List Char → Bool × List Char
  | '+' :: rest => (false, rest)
  | '-' :: rest => (true, rest)
  | rest => (false, rest)

def readExponent : List Char → Option (Option (Bool × List Char) × List Char)
  | [] => some (none, [])
  | c :: rest =>
    if c = 'e' ∨ c = 'E' then
      let (negative, rest) := readSign rest
      (readDigits rest).map fun (digits, rest) => (some (negative, digits), rest)
    else some (none, c :: rest)

def readNumeral (s : List Char) : Option (Numeral × List Char) := do
  let (negative, s) := match s with
    | '-' :: rest => (true, rest)
    | s => (false, s)
  let (whole, s) ← readWhole s
  let (fraction, s) ← readFraction s
  let (exponent, s) ← readExponent s
  return ({ negative, whole, fraction, exponent }, s)

/-! ## Values -/

mutual

def readValue : (bound : Nat) → List Char → Option (Document × List Char)
  | 0, _ => none
  | bound + 1, s =>
    match skipBlanks s with
    | 'n' :: 'u' :: 'l' :: 'l' :: rest => some (.null, rest)
    | 't' :: 'r' :: 'u' :: 'e' :: rest => some (.bool true, rest)
    | 'f' :: 'a' :: 'l' :: 's' :: 'e' :: rest => some (.bool false, rest)
    | '"' :: rest => (readText rest).map fun (s, rest) => (.str s, rest)
    | '[' :: rest =>
      match skipBlanks rest with
      | ']' :: rest => some (.arr [], rest)
      | rest => (readItems bound rest).map fun (items, rest) => (.arr items, rest)
    | '\x7b' :: rest =>
      match skipBlanks rest with
      | '\x7d' :: rest => some (.obj [], rest)
      | rest => (readEntries bound rest).map fun (entries, rest) => (.obj entries, rest)
    | s => (readNumeral s).map fun (n, rest) => (.num n, rest)

def readItems : (bound : Nat) → List Char → Option (List Document × List Char)
  | 0, _ => none
  | bound + 1, s => do
    let (d, rest) ← readValue bound s
    match skipBlanks rest with
    | ']' :: rest => return ([d], rest)
    | ',' :: rest =>
      let (items, rest) ← readItems bound rest
      return (d :: items, rest)
    | _ => none

def readEntries : (bound : Nat) → List Char → Option (List (Option String × Document) × List Char)
  | 0, _ => none
  | bound + 1, s =>
    match skipBlanks s with
    | '"' :: rest => do
      let (key, rest) ← readText rest
      match skipBlanks rest with
      | ':' :: rest =>
        let (d, rest) ← readValue bound rest
        match skipBlanks rest with
        | '\x7d' :: rest => return ([(key, d)], rest)
        | ',' :: rest =>
          let (entries, rest) ← readEntries bound rest
          return ((key, d) :: entries, rest)
        | _ => none
      | _ => none
    | _ => none

end

/-- The document of a text; none if it is no document or something follows it. -/
def parse? (text : String) : Option Document :=
  match readValue (2 * text.length + 2) text.toList with
  | some (d, rest) => if (skipBlanks rest).isEmpty then some d else none
  | none => none

end Awk.Document
