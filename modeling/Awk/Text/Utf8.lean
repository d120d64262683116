/-!
# Text from bytes

Input arrives as bytes and is read as UTF-8.  Bytes that are not UTF-8 become the replacement
character, one for each longest start of a character that is broken off.  Since input arrives in
pieces, a character may be cut by the end of a piece; `decodePiece` keeps such a start back for the
next piece.
-/

namespace Awk.Text.Utf8

def replacement : Char := '\uFFFD'

/-- What the bytes from some place on begin with.  The numbers count the bytes after the first. -/
inductive Head where
  | char (c : Char) (more : Nat)
  | invalid (more : Nat)
  /-- A character that goes on after the last byte. -/
  | cut
deriving DecidableEq, Repr

def isTail (b : UInt8) : Bool := 0x80 ≤ b && b ≤ 0xBF

/-- The bytes that may follow the first byte of a character of three or four bytes. -/
def secondBounds (b : UInt8) : UInt8 × UInt8 :=
  if b = 0xE0 then (0xA0, 0xBF)
  else if b = 0xED then (0x80, 0x9F)
  else if b = 0xF0 then (0x90, 0xBF)
  else if b = 0xF4 then (0x80, 0x8F)
  else (0x80, 0xBF)

/-- The number of bytes after the first that a character starting with this byte has. -/
def moreBytes (b : UInt8) : Option Nat :=
  if b < 0x80 then some 0
  else if 0xC2 ≤ b && b ≤ 0xDF then some 1
  else if 0xE0 ≤ b && b ≤ 0xEF then some 2
  else if 0xF0 ≤ b && b ≤ 0xF4 then some 3
  else none

/-- The six low bits of a continuing byte appended to the bits before it. -/
def appendBits (code : Nat) (b : UInt8) : Nat := code * 64 + b.toNat % 64

/-- What bytes begin with, given the first of them and the rest. -/
def head (b : UInt8) (rest : List UInt8) : Head :=
  match moreBytes b with
  | none => .invalid 0
  | some 0 => .char (Char.ofNat b.toNat) 0
  | some 1 =>
    match rest with
    | [] => .cut
    | b₁ :: _ => if isTail b₁ then .char (Char.ofNat (appendBits (b.toNat % 32) b₁)) 1 else .invalid 0
  | some 2 =>
    let (lo, hi) := secondBounds b
    match rest with
    | [] => .cut
    | b₁ :: rest =>
      if lo ≤ b₁ && b₁ ≤ hi then
        match rest with
        | [] => .cut
        | b₂ :: _ =>
          if isTail b₂ then .char (Char.ofNat (appendBits (appendBits (b.toNat % 16) b₁) b₂)) 2
          else .invalid 1
      else .invalid 0
  | some _ =>
    let (lo, hi) := secondBounds b
    match rest with
    | [] => .cut
    | b₁ :: rest =>
      if lo ≤ b₁ && b₁ ≤ hi then
        match rest with
        | [] => .cut
        | b₂ :: rest =>
          if isTail b₂ then
            match rest with
            | [] => .cut
            | b₃ :: _ =>
              if isTail b₃ then
                .char (Char.ofNat (appendBits (appendBits (appendBits (b.toNat % 8) b₁) b₂) b₃)) 3
              else .invalid 2
          else .invalid 1
      else .invalid 0

def decode : List UInt8 → List Char
  | [] => []
  | b :: rest =>
    match head b rest with
    | .char c k => c :: decode (rest.drop k)
    | .invalid k => replacement :: decode (rest.drop k)
    | .cut => [replacement]
termination_by bytes => bytes.length
decreasing_by all_goals (simp only [List.length_drop, List.length_cons]; omega)

/-- How a sequence of bytes ends when it is read up to the first byte that is not UTF-8. -/
inductive Ending where
  | complete
  /-- A character goes on after the last byte; these are its bytes so far. -/
  | cut (bytes : List UInt8)
  | invalid
deriving DecidableEq, Repr

/-- The text up to the first fault, put behind the reversed `before`, and what kind of fault it is. -/
def decodeValid (before : List Char) : List UInt8 → List Char × Ending
  | [] => (before.reverse, .complete)
  | b :: rest =>
    match head b rest with
    | .char c k => decodeValid (c :: before) (rest.drop k)
    | .invalid _ => (before.reverse, .invalid)
    | .cut => (before.reverse, .cut (b :: rest))
termination_by bytes => bytes.length
decreasing_by all_goals (simp only [List.length_drop, List.length_cons]; omega)

/-- The text of a piece of input, and the bytes that are kept for the next piece.  Only a piece that is
UTF-8 up to a cut character keeps bytes back. -/
def decodePiece (bytes : List UInt8) : List Char × List UInt8 :=
  match decodeValid [] bytes with
  | (text, .complete) => (text, [])
  | (text, .cut kept) => (text, kept)
  | (_, .invalid) => (decode bytes, [])

def toText (bytes : ByteArray) : String := String.ofList (decode bytes.toList)

end Awk.Text.Utf8
