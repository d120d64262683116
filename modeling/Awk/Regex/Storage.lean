import Awk.Regex.ByteSequence
import Awk.Regex.Expr
import Std.Data.HashMap

/-!
# The storage of a pattern

Patterns whose tables would take more than ten mebibytes are refused.  What counts are two tables of
states over the bytes of UTF-8: one that reads a text from its start, in which groups are marked, and one
that reads it from its end.  A state takes 32 bytes, and a state with several ways out more: 4 bytes for
each way that uses up nothing, 8 for each way that uses up a byte.  Nothing here is needed for matching;
it only says which patterns are too large.
-/

namespace Awk.Regex

open Awk.Text (CodeSet)

/-- The direction in which a table reads a text. -/
inductive Direction where
  | forward
  | backward
deriving DecidableEq, Repr

/-- A table under construction: the number of states and the bytes for their ways out. -/
structure Tables where
  states : Nat := 0
  ways : Nat := 0
deriving DecidableEq, Repr

namespace Tables

def stateSize : Nat := 32

def waySize : Nat := 4

def byteWaySize : Nat := 8

def size (t : Tables) : Nat := stateSize * t.states + t.ways

def limit : Nat := 10485760

def isFull (t : Tables) : Bool := limit < t.size

def add (t : Tables) (n : Nat) : Tables := { t with states := t.states + n }

def addBytes (t : Tables) (n : Nat) : Tables := ⟨t.states + 1, t.ways + byteWaySize * n⟩

def addWays (t : Tables) (n : Nat) : Tables := { t with ways := t.ways + waySize * n }

/-- Leads on from the last state of a part, which takes a way if that is a branching one. -/
def link (t : Tables) (branching : Bool) : Tables := if branching then t.addWays 1 else t

/-! ## Sets

States that are alike are shared.  Those known are kept in a fixed number of places, found by a check
sum; a state is forgotten when another one takes its place. -/

def checkSum (xs : List Nat) : UInt64 :=
  xs.foldl (fun h x => (h ^^^ x.toUInt64) * 1099511628211) 14695981039346656037

/-- The known states: for each place the numbers that tell what the state is like, and its number. -/
abbrev Known := Std.HashMap Nat (List Nat × Nat)

/-- The state that is like this, if it is known, and otherwise a new one. -/
def share (places : Nat) (key : List Nat) (new : Tables → Tables) (t : Tables) (known : Known) :
    Nat × Tables × Known :=
  let place := (checkSum key).toNat % places
  match known[place]? with
  | some (k, state) =>
    if k = key then (state, t, known) else (t.states, new t, known.insert place (key, t.states))
  | none => (t.states, new t, known.insert place (key, t.states))

/-- A state whose ways out are not all known yet: the ways that are, as a list of numbers and their
count, and the bytes of one whose target is still open. -/
structure Draft where
  ways : List Nat := []
  count : Nat := 0
  last : Option (Nat × Nat) := none

def Draft.close (d : Draft) (target : Nat) : Draft :=
  match d.last with
  | some (a, b) => ⟨d.ways ++ [a, b, target], d.count + 1, none⟩
  | none => d

def forwardPlaces : Nat := 10000

/-- Adds the states of drafts, of which each leads on to the next, and the last one to `target`. -/
def addDrafts (target : Nat) : List Draft → Tables → Known → Nat × Tables × Known
  | [], t, known => (target, t, known)
  | d :: rest, t, known =>
    let (next, t, known) := addDrafts target rest t known
    let d := d.close next
    share forwardPlaces d.ways (·.addBytes d.count) t known

/-- Adds a sequence of bytes to the drafts of those before, with which it may have a start in common. -/
def addSequence (target : Nat) : List Draft → ByteSequence → Tables → Known → List Draft × Tables × Known
  | d :: rest, r :: more, t, known =>
    if d.last = some r then
      let (rest, t, known) := addSequence target rest more t known
      (d :: rest, t, known)
    else
      let (next, t, known) := addDrafts target rest t known
      ({ d.close next with last := some r } :: more.map fun b => { last := some b }, t, known)
  | drafts, _, t, known => (drafts, t, known)

def addForward (sequences : List ByteSequence) (t : Tables) : Tables :=
  let target := t.states
  let (drafts, t, known) := sequences.foldl (fun (drafts, t, known) s => addSequence target drafts s t known)
    ([{}], t.add 1, ({} : Known))
  (addDrafts target drafts t known).2.1

def backwardPlaces : Nat := 1000

/-- Adds the states for a sequence of bytes that is read backwards and ends in a state. -/
def addReversed : ByteSequence → Nat → Tables → Known → Tables × Known
  | [], _, t, known => (t, known)
  | (a, b) :: rest, state, t, known =>
    let (state, t, known) := share backwardPlaces [state, a, b] (·.add 1) t known
    addReversed rest state t known

def addBackward (sequences : List ByteSequence) (t : Tables) : Tables :=
  let last := t.states + 1
  (sequences.foldl (fun (t, known) s =>
    let (t, known) := addReversed s last t known
    (t.addWays 1, known)) (t.add 2, ({} : Known))).1

def addSet (d : Direction) (s : CodeSet) (t : Tables) : Tables :=
  if s.ranges.all fun r => decide (r.2 < 0x80) then (t.add 1).addBytes s.ranges.size
  else match d with
    | .forward => t.addForward (ByteSequence.ofSet s)
    | .backward => t.addBackward (ByteSequence.ofSet s)

/-! ## Texts -/

def stretches (words : List (List Nat)) : List (List (List Nat)) := words.splitOn []

def after (byte : Nat) (words : List (List Nat)) : List (List Nat) :=
  words.filterMap fun
    | b :: rest => if b = byte then some rest else none
    | [] => none

def firstBytes (words : List (List Nat)) : List Nat := (words.filterMap List.head?).eraseDups

/-- Adds the states for the rests of words.  Every word that ends here separates those before it from
those after it; ends before any other word count once.  `fuel` bounds the lengths of the words. -/
def addTree : (fuel : Nat) → List (List Nat) → Tables → Tables
  | 0, _, t => t
  | fuel + 1, words, t =>
    let ends := (words.takeWhile List.isEmpty).length
    let words := words.drop (ends - 1)
    let parts := stretches words
    let t := parts.foldl (fun t part =>
      let bytes := firstBytes part
      let t := bytes.foldl (fun t b =>
        let rests := after b part
        if rests.all List.isEmpty then t else addTree fuel rests t) t
      match bytes.length with
      | 0 => t
      | 1 => (t.add 1).addWays 1
      | n => (t.addBytes n).addWays 1) t
    (t.add 1).addWays (parts.length - 1)

def addWords (d : Direction) (words : List (List Nat)) (t : Tables) : Tables :=
  let words := if d = .forward then words else words.map List.reverse
  addTree (words.foldl (fun n w => max n w.length) 0 + 1) words (t.add 1)

/-- Adds what `f` adds several times, until the table is full.  The flag tells whether the last state is a
branching one. -/
def times (f : Tables → Tables × Bool) : Nat → Tables × Bool → Tables × Bool
  | 0, r => r
  | n + 1, (t, branching) => if t.isFull then (t, branching) else times f n (f (t.link branching))

/-- Adds what `f` adds several times, each time with a way past it, until the table is full. -/
def optionalTimes (f : Tables → Tables × Bool) : Nat → Tables × Bool → Tables × Bool
  | 0, r => r
  | n + 1, (t, branching) =>
    if t.isFull then (t, branching)
    else optionalTimes f n (f (((t.link branching).add 1).addWays 2))

end Tables

namespace Expr

def textBytes (text : List Char) : List Nat := text.flatMap fun c => ByteSequence.encode c.toNat

/-- The texts of a choice between texts. -/
def words? : Expr → Option (List (List Nat))
  | literal text => some [textBytes text]
  | alt (literal text) b => b.words?.map (textBytes text :: ·)
  | _ => none

/-- Adds the states for an expression.  `branch` is the number of branches before it, if it is the rest of
a choice.  The flag tells whether the last state is a branching one. -/
def store (d : Direction) : Expr → (branch : Nat) → Tables → Tables × Bool
  | alt a b, branch, t =>
    match if branch = 0 then (alt a b).words? else none with
    | some words => (t.addWords d words, false)
    | none =>
      let (t, branching) := a.store d 0 t
      let t := (t.link branching).addWays 1
      b.store d (branch + 1) (if branch = 1 then t.add 2 else t)
  | e, branch, t =>
    if t.isFull then (t, false)
    else
      let (t, branching) := match e with
        | empty | look _ | alt _ _ => (t.add 1, false)
        | literal text => (t.add (textBytes text).length, false)
        | set s => (t.addSet d s, false)
        | group _ b =>
          match d with
          | .forward =>
            let (t, branching) := b.store d 0 (t.add 1)
            ((t.add 1).link branching, false)
          | .backward => b.store d 0 t
        | seq a b =>
          match d with
          | .forward =>
            let (t, branching) := a.store d 0 t
            b.store d 0 (t.link branching)
          | .backward =>
            let (t, branching) := b.store d 0 t
            a.store d 0 (t.link branching)
        | rep b 0 (some 1) _ =>
          let (t, branching) := b.store d 0 (t.add 1)
          (((t.add 1).addWays 2).link branching, false)
        | rep b 0 none _ =>
          if b.usesText then
            let (t, branching) := b.store d 0 (t.add 1)
            ((t.link branching).addWays 1, true)
          else
            let (t, branching) := b.store d 0 t
            (((t.add 3).addWays 4).link branching, false)
        | rep b (least + 1) none _ =>
          let (t, branching) := Tables.times (b.store d 0) (least + 1) (t, false)
          (((t.add 1).addWays 1).link branching, true)
        | rep b least (some most) _ =>
          let start := if least = 0 then (t.add 1, false) else Tables.times (b.store d 0) least (t, false)
          if most = least then start
          else
            let (t, branching) := Tables.optionalTimes (b.store d 0) (most - least) (start.1.add 1, start.2)
            (t.link branching, false)
      match branch with
      | 0 => (t, branching)
      | 1 => (((t.link branching).addWays 1).add 2, false)
      | _ => ((t.link branching).addWays 1, false)

/-- Whether every match begins at the start of the text, or ends at its end. -/
def anchored (d : Direction) : Expr → Bool
  | look l => l == (if d = .forward then .start else .finish)
  | seq a b =>
    match d with
    | .forward => a.anchored d || (a.onlyEmpty && b.anchored d)
    | .backward => b.anchored d || (b.onlyEmpty && a.anchored d)
  | alt a b => a.anchored d && b.anchored d
  | rep e least _ _ => least != 0 && e.anchored d
  | group _ e => e.anchored d
  | _ => false

/-- The table of a pattern.  One that is not anchored has states in front that pass over any bytes, and a
table that reads forwards marks the whole match as a group. -/
def table (d : Direction) (e : Expr) : Tables :=
  let t : Tables := {}
  let t := if e.anchored d then t.add 1 else ((t.add 2).addBytes 1).addWays 2
  let (t, branching) := (match d with
    | .forward => group 0 e
    | .backward => e).store d 0 t
  (t.add 1).link branching

/-- A size that no table of the expression exceeds, found without looking at the characters of its
sets. -/
def roughSize : Expr → Nat
  | empty | look _ => 64
  | literal text => 64 + 400 * text.length
  | set s => 128 + 4000 * s.ranges.size
  | seq a b => a.roughSize + b.roughSize + 8
  | alt a b => a.roughSize + b.roughSize + 128
  | rep e least most _ => (max least (most.getD 0) + 1) * (e.roughSize + 128)
  | group _ e => e.roughSize + 128

def fits (e : Expr) : Bool :=
  e.roughSize + 1024 ≤ Tables.limit ||
    (!(e.table .forward).isFull && !(e.table .backward).isFull)

end Expr

end Awk.Regex
