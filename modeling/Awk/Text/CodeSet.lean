/-!
# Sets of characters

A set of characters is an array of ranges of code points that is sorted and has gaps between the
ranges.  Sets come from tables written as text, and are combined as the classes of a pattern are: union,
intersection, difference, symmetric difference and complement.
-/

namespace Awk.Text

/-- A set of characters, as ranges of code points in increasing order with gaps between them. -/
structure CodeSet where
  ranges : Array (Nat × Nat)
deriving DecidableEq, Repr

namespace CodeSet

def lastCode : Nat := 0x10FFFF

def empty : CodeSet := ⟨#[]⟩

def full : CodeSet := ⟨#[(0, lastCode)]⟩

/-- Whether one of the ranges from `lo` up to but excluding `hi` holds the code point. -/
def containsBetween (ranges : Array (Nat × Nat)) (code lo hi : Nat) : Bool :=
  if lo < hi then
    let mid := (lo + hi) / 2
    match ranges[mid]? with
    | none => false
    | some (a, b) =>
      if code < a then containsBetween ranges code lo mid
      else if b < code then containsBetween ranges code (mid + 1) hi
      else true
  else false
termination_by hi - lo

def containsCode (s : CodeSet) (code : Nat) : Bool :=
  containsBetween s.ranges code 0 s.ranges.size

def contains (s : CodeSet) (c : Char) : Bool := s.containsCode c.toNat

/-- Joins ranges that touch or overlap.  The ranges come in increasing order of their starts. -/
def joinRanges : List (Nat × Nat) → Array (Nat × Nat) → Array (Nat × Nat)
  | [], done => done
  | (a, b) :: rest, done =>
    match done.back? with
    | some (a', b') =>
      if a ≤ b' + 1 then joinRanges rest (done.pop.push (a', max b b')) else joinRanges rest (done.push (a, b))
    | none => joinRanges rest (done.push (a, b))

def ofRanges (ranges : List (Nat × Nat)) : CodeSet :=
  ⟨joinRanges ((ranges.filter fun r => r.1 ≤ r.2).mergeSort fun x y => x.1 ≤ y.1) #[]⟩

def single (c : Char) : CodeSet := ⟨#[(c.toNat, c.toNat)]⟩

/-- The last code point before the surrogates, which are no characters. -/
def beforeSurrogates : Nat := 0xD7FF

def afterSurrogates : Nat := 0xE000

def surrogates : CodeSet := ⟨#[(beforeSurrogates + 1, afterSurrogates - 1)]⟩

def nextCode (code : Nat) : Nat := if code = beforeSurrogates then afterSurrogates else code + 1

def prevCode (code : Nat) : Nat := if code = afterSurrogates then beforeSurrogates else code - 1

def gaps : List (Nat × Nat) → Nat → List (Nat × Nat)
  | [], next => if next ≤ lastCode then [(next, lastCode)] else []
  | (a, b) :: rest, next =>
    if next < a then (next, prevCode a) :: gaps rest (nextCode b) else gaps rest (nextCode b)

def complement (s : CodeSet) : CodeSet := ⟨(gaps s.ranges.toList 0).toArray⟩

def unionOf (sets : List CodeSet) : CodeSet := ofRanges (sets.flatMap (·.ranges.toList))

def union (s t : CodeSet) : CodeSet := unionOf [s, t]

def commonRanges : List (Nat × Nat) → List (Nat × Nat) → List (Nat × Nat)
  | (a, b) :: s, (c, d) :: t =>
    let rest := if b < d then commonRanges s ((c, d) :: t) else commonRanges ((a, b) :: s) t
    if max a c ≤ min b d then (max a c, min b d) :: rest else rest
  | _, _ => []
termination_by s t => s.length + t.length

def inter (s t : CodeSet) : CodeSet := ⟨(commonRanges s.ranges.toList t.ranges.toList).toArray⟩

def diff (s t : CodeSet) : CodeSet := s.inter t.complement

def symmDiff (s t : CodeSet) : CodeSet := (s.union t).diff (s.inter t)

def isEmpty (s : CodeSet) : Bool := s.ranges.isEmpty

/-! ## Tables -/

/-- The numbers of a table, each with the signs before it.  A number is written in base 26, with a small letter as its
last digit and capitals as those before. -/
def readNumbers (signs : List Char) (value : Nat) : List Char → List (List Char × Nat)
  | [] => []
  | c :: rest =>
    if c.isUpper then readNumbers signs (value * 26 + (c.toNat - 'A'.toNat)) rest
    else if c.isLower then (signs, value * 26 + (c.toNat - 'a'.toNat)) :: readNumbers [] 0 rest
    else readNumbers (signs ++ [c]) value rest

/-- The decimal number among the signs before a number, and one if there is none. -/
def times (signs : List Char) : Nat :=
  max 1 ((signs.filter (·.isDigit)).foldl (fun n c => n * 10 + (c.toNat - '0'.toNat)) 0)

/-- Reads ranges from `last` on: each is written as the distance of its start from the end of the one before and
that of its end from its start.  A decimal number before the two tells how often they are repeated. -/
def readRanges (last : Nat) : List (List Char × Nat) → List (Nat × Nat)
  | (signs, gap) :: (_, length) :: rest =>
    ((List.range (times signs)).map fun k =>
      let start := last + gap + k * (gap + length)
      (start, start + length)) ++ readRanges (last + times signs * (gap + length)) rest
  | _ => []

def ofChars (text : List Char) : CodeSet := ⟨(readRanges 0 (readNumbers [] 0 text)).toArray⟩

def ofText (text : String) : CodeSet := ofChars text.toList

/-- A table of sets.  After the name of a set stand its other names, each with an equals sign before it, the sets that
it is put together from, and ranges of code points. -/
abbrev Table := List (String × List (List Char))

/-- Reads the rows of a table, which stand between commas.  Words stand between blanks and line ends. -/
def Table.ofText (text : String) : Table :=
  (text.toList.splitOn ',').filterMap fun row =>
    match ((row.splitOn '\n').flatMap (·.splitOn ' ')).filter (!·.isEmpty) with
    | name :: words => some (String.ofList name, words)
    | [] => none

/-- The set of a row: the sets after a plus sign together, without those after a hyphen, and the other way round for
the code points of the ranges. -/
def ofWords (named : String → CodeSet) (words : List (List Char)) : CodeSet :=
  let marked (mark : Char) : CodeSet :=
    .unionOf ((words.filter (·.head? == some mark)).map fun w => named (String.ofList w.tail))
  let ranges := words.filter fun w => w.head?.any Char.isAlphanum
  ((marked '+').diff (marked '-')).symmDiff (ofChars ranges.flatten)

/-- The set that a table has under a name.  A row may name the rows below it, and other sets. -/
def ofTable? (other : String → Option CodeSet) : Table → String → Option CodeSet
  | [], name => other name
  | (key, words) :: rows, name =>
    if key = name then some (ofWords (fun n => (ofTable? other rows n).getD .empty) words)
    else ofTable? other rows name

end CodeSet

end Awk.Text
