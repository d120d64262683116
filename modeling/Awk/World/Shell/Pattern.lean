import Awk.World

/-!
# Patterns for names

A pattern is a text in which `*`, `?` and sets in brackets have a meaning unless they are quoted.  It is
compared byte by byte.
-/

namespace Awk.Shell

/-- A text in which each character is marked as quoted or not. -/
abbrev Marked := List (Char × Bool)

def Marked.text (s : Marked) : String := String.ofList (s.map Prod.fst)

def bytesOf (s : String) : List Nat := s.toUTF8.toList.map UInt8.toNat

/-- What a byte has to be like. -/
inductive Element where
  | byte (b : Nat)
  | one
  | oneOf (ranges : List (Nat × Nat)) (negated : Bool)
  | many
deriving DecidableEq, Repr

abbrev Pattern := List Element

namespace Pattern

def class? : String → Option (List (Nat × Nat))
  | "alpha" => some [(65, 90), (97, 122)]
  | "digit" => some [(48, 57)]
  | "alnum" => some [(48, 57), (65, 90), (97, 122)]
  | "upper" => some [(65, 90)]
  | "lower" => some [(97, 122)]
  | "space" => some [(9, 13), (32, 32)]
  | "blank" => some [(9, 9), (32, 32)]
  | "punct" => some [(33, 47), (58, 64), (91, 96), (123, 126)]
  | "print" => some [(32, 126)]
  | "graph" => some [(33, 126)]
  | "cntrl" => some [(0, 31), (127, 127)]
  | "xdigit" => some [(48, 57), (65, 70), (97, 102)]
  | _ => none

/-- The class that a text behind a bracket starts with, and the text behind it. -/
def namedClass? (s : List (Nat × Bool)) : Option (List (Nat × Nat) × List (Nat × Bool)) :=
  match s with
  | (58, false) :: rest =>
    let name := rest.takeWhile fun b => b.1 != 58
    match rest.drop name.length with
    | (58, false) :: (93, false) :: rest =>
      (class? (String.ofList (name.map fun b => Char.ofNat b.1))).map fun ranges => (ranges, rest)
    | _ => none
  | _ => none

/-- The ranges of a set up to its closing bracket, and what follows; none if it is not closed.  A closing
bracket at the very start belongs to the set. -/
def ranges? : (bound : Nat) → (start : Bool) → (before : List (Nat × Nat)) → List (Nat × Bool) →
    Option (List (Nat × Nat) × List (Nat × Bool))
  | 0, _, _, _ | _, _, _, [] => none
  | bound + 1, start, before, (b, quoted) :: rest =>
    if b = 93 ∧ ¬quoted ∧ ¬start then some (before, rest)
    else
      match if b = 91 ∧ ¬quoted then namedClass? rest else none with
      | some (found, rest) => ranges? bound false (before ++ found) rest
      | none =>
        match rest with
        | (45, false) :: (c, q) :: more =>
          if c = 93 ∧ ¬q then ranges? bound false ((b, b) :: before) rest
          else ranges? bound false ((b, c) :: before) more
        | _ => ranges? bound false ((b, b) :: before) rest

/-- The pattern of bytes that are marked as quoted or not.  `bound` is their number. -/
def ofBytes : (bound : Nat) → List (Nat × Bool) → Pattern
  | 0, _ | _, [] => []
  | bound + 1, (b, quoted) :: rest =>
    if quoted then .byte b :: ofBytes bound rest
    else if b = 42 then .many :: ofBytes bound rest
    else if b = 63 then .one :: ofBytes bound rest
    else if b = 91 then
      let (negated, body) : Bool × List (Nat × Bool) := match rest with
        | (33, false) :: body => (true, body)
        | body => (false, body)
      match ranges? (body.length + 1) true [] body with
      | some (ranges, rest) => .oneOf ranges negated :: ofBytes bound rest
      | none => .byte b :: ofBytes bound rest
    else .byte b :: ofBytes bound rest

def ofText (s : Marked) : Pattern :=
  let bytes := s.flatMap fun (c, quoted) => (bytesOf c.toString).map fun b => (b, quoted)
  ofBytes bytes.length bytes

def fits : Pattern → List Nat → Bool
  | [], s => s.isEmpty
  | .many :: p, [] => fits p []
  | .many :: p, b :: s => fits p (b :: s) || fits (.many :: p) s
  | _ :: _, [] => false
  | .byte a :: p, b :: s => a == b && fits p s
  | .one :: p, _ :: s => fits p s
  | .oneOf ranges negated :: p, b :: s =>
    (ranges.any fun r => decide (r.1 ≤ b) && decide (b ≤ r.2)) != negated && fits p s
termination_by p s => p.length + s.length

/-- The text without what a pattern fits at its start, taking as little or as much as possible. -/
def dropStart (p : Pattern) (longest : Bool) (s : String) : String :=
  let cs := s.toList
  let cuts := (List.range (cs.length + 1)).filter fun n => p.fits (bytesOf (String.ofList (cs.take n)))
  match if longest then cuts.getLast? else cuts.head? with
  | some n => String.ofList (cs.drop n)
  | none => s

/-- The text without what a pattern fits at its end, taking as little or as much as possible. -/
def dropEnd (p : Pattern) (longest : Bool) (s : String) : String :=
  let cs := s.toList
  let cuts := (List.range (cs.length + 1)).filter fun n => p.fits (bytesOf (String.ofList (cs.drop n)))
  match if longest then cuts.head? else cuts.getLast? with
  | some n => String.ofList (cs.take n)
  | none => s

/-! ## Names of files -/

def hasMeaning (s : Marked) : Bool :=
  s.any fun (c, quoted) => !quoted && (c == '*' || c == '?' || c == '[')

def exists? (w : World) (name : String) : Bool :=
  match w.locate name with
  | .ok (.absent _ _) | .error _ => false
  | .ok _ => true

def isDirectory (w : World) (name : String) : Bool :=
  match w.locate name with
  | .ok .directory => true
  | _ => false

/-- The names in a directory that a pattern fits.  A point at the start of a name has to be written. -/
def namesIn (w : World) (dir : String) (s : Marked) : List String :=
  (w.names (World.pathOf dir)).filter fun name =>
    (ofText s).fits (bytesOf name) && (!name.startsWith "." || s.head?.any fun c => c.1 == '.')

def follow (w : World) : (front : String) → List Marked → List String
  | _, [] => []
  | front, [last] =>
    if hasMeaning last then (namesIn w front last).map (front ++ ·)
    else if exists? w (front ++ last.text) then [front ++ last.text] else []
  | front, dir :: rest =>
    let fronts := if hasMeaning dir then (namesIn w front dir).map (front ++ ·) else [front ++ dir.text]
    fronts.flatMap fun f => if isDirectory w (f ++ "/") then follow w (f ++ "/") rest else []

/-- The parts of a text between slashes. -/
def components (s : Marked) : List Marked :=
  s.foldr (fun c parts =>
    if c.1 = '/' then [] :: parts
    else match parts with
      | first :: rest => (c :: first) :: rest
      | [] => [[c]]) [[]]

def directory (s : Marked) : String :=
  World.pathOf ("/".intercalate (((components s).takeWhile fun part => !hasMeaning part).map Marked.text))

/-- The files whose names a text fits, in order; the text itself if there are none. -/
def paths (w : World) (s : Marked) : List String :=
  if hasMeaning s then
    match follow w "" (components s) with
    | [] => [s.text]
    | found => found.mergeSort
  else [s.text]

end Pattern

end Awk.Shell
