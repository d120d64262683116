import Awk.Text.CodeSet

/-!
# Characters as sequences of bytes

The characters of a range are written in UTF-8 as one to four bytes.  A range can be cut into pieces such
that the bytes of a piece vary independently of each other: each piece is a sequence of ranges of bytes.
A piece ends where the number of bytes changes, around the surrogates, which are no characters, and where
a byte would start its cycle again.
-/

namespace Awk.Regex

open Awk.Text (CodeSet)

abbrev ByteSequence := List (Nat × Nat)

namespace ByteSequence

def encode (code : Nat) : List Nat :=
  if code < 0x80 then [code]
  else if code < 0x800 then [0xC0 + code / 64, 0x80 + code % 64]
  else if code < 0x10000 then [0xE0 + code / 4096, 0x80 + code / 64 % 64, 0x80 + code % 64]
  else [0xF0 + code / 262144, 0x80 + code / 4096 % 64, 0x80 + code / 64 % 64, 0x80 + code % 64]

/-- The greatest code points of one, two and three bytes. -/
def widthEnds : List Nat := [0x7F, 0x7FF, 0xFFFF]

/-- The numbers of code points that the last byte, the last two and the last three go through. -/
def cycles : List Nat := [64, 4096, 262144]

/-- The last code point of the first piece of a range that crosses one of the ends. -/
def cutAtEnd (lo hi : Nat) : Option Nat := widthEnds.find? fun e => lo ≤ e && e < hi

/-- The last code point of the first piece of a range in which a byte would start its cycle again. -/
def cutAtCycle (lo hi : Nat) : List Nat → Option Nat
  | [] => none
  | n :: rest =>
    if lo / n = hi / n then cutAtCycle lo hi rest
    else if lo % n ≠ 0 then some (lo / n * n + (n - 1))
    else if hi % n ≠ n - 1 then some (hi / n * n - 1)
    else cutAtCycle lo hi rest

/-- The last code point of the first piece of a range; none if the range is one piece. -/
def cut (lo hi : Nat) : Option Nat :=
  (cutAtEnd lo hi).or (if hi ≤ 0x7F then none else cutAtCycle lo hi cycles)

/-- Cuts a range without surrogates into pieces.  Every cut lets the parts be crossed by fewer ends and
cycles, so that a few dozen cuts do; `fuel` bounds them. -/
def split : (fuel : Nat) → (lo hi : Nat) → List ByteSequence
  | 0, _, _ => []
  | fuel + 1, lo, hi =>
    match cut lo hi with
    | some last => split fuel lo last ++ split fuel (last + 1) hi
    | none => [(encode lo).zip (encode hi)]

def cutLimit : Nat := 32

def ofRange (lo hi : Nat) : List ByteSequence :=
  let below := if lo ≤ 0xD7FF ∧ lo ≤ hi then split cutLimit lo (min hi 0xD7FF) else []
  let above := if 0xE000 ≤ hi ∧ lo ≤ hi then split cutLimit (max lo 0xE000) hi else []
  below ++ above

def ofSet (s : CodeSet) : List ByteSequence := s.ranges.toList.flatMap fun r => ofRange r.1 r.2

end ByteSequence

end Awk.Regex
