import Awk.Text.Unicode.Derived

/-!
# Regular expressions

A regular expression matches a text or one character of a set, looks at the characters around a place
without using any up, or combines smaller expressions.  Of two alternatives the first is preferred; a greedy
repetition prefers to go on and a lazy one prefers to stop.  The preferences decide which of the
possible matches at a place counts.
-/

namespace Awk.Regex

open Awk.Text (CodeSet)

/-- The letters, marks, digits and connectors that make up words. -/
def wordSet : CodeSet :=
  ((Text.Unicode.property? "Alphabetic").getD .empty).union
    ((Text.Unicode.categories ["Mn", "Mc", "Me", "Nd", "Pc"]).union
      ((Text.Unicode.property? "Join_Control").getD .empty))

def digitSet : CodeSet := Text.Unicode.categories ["Nd"]

def spaceSet : CodeSet := (Text.Unicode.property? "White_Space").getD .empty

def asciiWordSet : CodeSet := .ofRanges [(0x30, 0x39), (0x41, 0x5A), (0x5F, 0x5F), (0x61, 0x7A)]

/-- Conditions on a place in a text. -/
inductive Look where
  | start
  | finish
  | lineStart
  | lineFinish
  /-- The start of a line, where lines end in a carriage return, a line feed or both. -/
  | crlfStart
  | crlfFinish
  | wordEdge (unicode : Bool)
  /-- Word characters on both sides or on neither. -/
  | notWordEdge (unicode : Bool)
  | wordStart (unicode : Bool)
  | wordFinish (unicode : Bool)
  | wordStartHalf (unicode : Bool)
  | wordFinishHalf (unicode : Bool)
deriving DecidableEq, Repr

def isWord (unicode : Bool) : Option Char → Bool
  | none => false
  | some c => if c.toNat < 128 || !unicode then asciiWordSet.contains c else wordSet.contains c

/-- Whether a condition holds between two characters; none stands for an end of the text. -/
def Look.holds (before after : Option Char) : Look → Bool
  | start => before.isNone
  | finish => after.isNone
  | lineStart => before.isNone || before == some '\n'
  | lineFinish => after.isNone || after == some '\n'
  | crlfStart => before.isNone || before == some '\n' || (before == some '\r' && after != some '\n')
  | crlfFinish => after.isNone || after == some '\r' || (after == some '\n' && before != some '\r')
  | wordEdge u => isWord u before != isWord u after
  | notWordEdge u => isWord u before == isWord u after
  | wordStart u => !isWord u before && isWord u after
  | wordFinish u => isWord u before && !isWord u after
  | wordStartHalf u => !isWord u before
  | wordFinishHalf u => !isWord u after

/-- Regular expressions.  The functions below that build them keep them in a simple form: texts that
follow each other are one text, no sequence stands directly in a sequence, no choice directly in a
choice, and a set has not exactly one character. -/
inductive Expr where
  | empty
  | literal (text : List Char)
  | set (s : CodeSet)
  | look (l : Look)
  | seq (first second : Expr)
  /-- Either expression, the first one preferred. -/
  | alt (first second : Expr)
  /-- An expression from `least` to `most` times, without an upper bound if that is absent. -/
  | rep (body : Expr) (least : Nat) (most : Option Nat) (greedy : Bool)
  | group (number : Nat) (body : Expr)
deriving DecidableEq, Repr

namespace Expr

/-! ## Lengths -/

/-- Whether the expression always uses up a character; none if it cannot match at all. -/
def usesText? : Expr → Option Bool
  | empty | look _ => some false
  | literal text => some !text.isEmpty
  | set s => if s.isEmpty then none else some true
  | seq a b => a.usesText?.bind fun x => b.usesText?.map (x || ·)
  | alt a b => a.usesText?.bind fun x => b.usesText?.map (x && ·)
  | rep e least _ _ => e.usesText?.map (least != 0 && ·)
  | group _ e => e.usesText?

def usesText (e : Expr) : Bool := e.usesText? == some true

/-- Whether the expression matches nothing but the empty text. -/
def onlyEmpty : Expr → Bool
  | empty | look _ => true
  | literal text => text.isEmpty
  | set _ => false
  | seq a b => a.onlyEmpty && b.onlyEmpty
  | alt a b => a.onlyEmpty && b.onlyEmpty
  | rep e _ most _ => most == some 0 || e.onlyEmpty
  | group _ e => e.onlyEmpty

/-! ## Building -/

def ofSet (s : CodeSet) : Expr :=
  match s.ranges with
  | #[(a, b)] => if a = b then literal [Char.ofNat a] else set s
  | _ => set s

def parts : Expr → List Expr
  | empty => []
  | seq a b => a :: b.parts
  | e => [e]

def ofParts : List Expr → Expr
  | [] => empty
  | [e] => e
  | e :: es => seq e (ofParts es)

/-- Puts a part in front of others; a text is joined with the text that follows it. -/
def joinFront : Expr → List Expr → List Expr
  | literal a, literal b :: rest => literal (a ++ b) :: rest
  | e, rest => e :: rest

def concat (es : List Expr) : Expr := ofParts ((es.flatMap parts).foldr joinFront [])

def branches : Expr → List Expr
  | alt a b => a :: b.branches
  | e => [e]

def ofBranches : List Expr → Expr
  | [] => empty
  | [e] => e
  | e :: es => alt e (ofBranches es)

def char? : Expr → Option Char
  | literal [c] => some c
  | _ => none

def set? : Expr → Option CodeSet
  | set s => some s
  | _ => none

/-- A choice between characters, or between sets, as a set. -/
def joinSets? (es : List Expr) : Option Expr :=
  let all := fun sets : List CodeSet => ofSet (.ofRanges (sets.flatMap fun s => s.ranges.toList))
  ((es.mapM char?).map fun cs => all (cs.map .single)).or ((es.mapM set?).map all)

/-- The parts that two sequences have in common at their start. -/
def commonParts : List Expr → List Expr → List Expr
  | a :: as, b :: bs => if a = b then a :: commonParts as bs else []
  | _, _ => []

/-- The parts that all expressions have in common at their start; none unless all are sequences. -/
def commonStart : List Expr → List Expr
  | [] => []
  | e :: es =>
    if (e :: es).all fun x => 2 ≤ x.parts.length then es.foldl (fun start x => commonParts start x.parts) e.parts
    else []

/-- One of several expressions that have no common start. -/
def choice (es : List Expr) : Expr :=
  match es.flatMap branches with
  | [e] => e
  | es => (joinSets? es).getD (ofBranches es)

/-- One of several expressions, earlier ones preferred.  What all have in common at their start is put in
front of the choice. -/
def alternatives (es : List Expr) : Expr :=
  match es.flatMap branches with
  | [e] => e
  | es =>
    let start := commonStart es
    if (joinSets? es).isSome || start.isEmpty then choice es
    else concat (start ++ [choice (es.map fun e => concat (e.parts.drop start.length))])

/-- A repetition.  Repeating what matches only the empty text more than once changes nothing. -/
def repeated (body : Expr) (least : Nat) (most : Option Nat) (greedy : Bool) : Expr :=
  let (least, most) :=
    if body.onlyEmpty then (min least 1, some (min (most.getD 1) 1)) else (least, most)
  if most = some 0 then empty
  else if least = 1 ∧ most = some 1 then body
  else rep body least most greedy

end Expr

end Awk.Regex
