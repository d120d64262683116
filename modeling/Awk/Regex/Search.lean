import Awk.Regex.Automaton

/-!
# Searching a text

The automaton runs over the text once, keeping the list of all threads that are alive at a place in
the order of preference; a thread knows where its match starts.  A node is entered at most once at a
place, by the most preferred thread that reaches it.  A thread that accepts discards the threads
after it, so that the answer is the match that starts first and, among those, the most preferred one.
-/

namespace Awk.Regex

/-- A match: the characters from `start` up to but excluding `stop`. -/
structure Span where
  start : Nat
  stop : Nat
deriving DecidableEq, Repr

def Span.length (s : Span) : Nat := s.stop - s.start

def Span.isEmpty (s : Span) : Bool := s.start == s.stop

/-- A thread: the node it stands at and the place its match starts. -/
structure Thread where
  node : Nat
  start : Nat

/-- The threads alive at a place.  A node has been entered at this place if its entry in `entered` is
`mark`. -/
structure Threads where
  alive : Array Thread
  entered : Array Nat

namespace Automaton

variable (a : Automaton)

/-- Enters nodes, and those they lead to without using up text, in the order of preference. -/
def enter (before after : Option Char) (mark start : Nat) : Nat → List Nat → Threads → Threads
  | 0, _, threads => threads
  | _ + 1, [], threads => threads
  | fuel + 1, node :: work, threads =>
    if threads.entered.getD node 0 == mark then enter before after mark start fuel work threads
    else
      let threads := { threads with entered := threads.entered.setIfInBounds node mark }
      match a.nodes[node]? with
      | some (.split first second) =>
        enter before after mark start fuel (first :: second :: work) threads
      | some (.look l next) =>
        enter before after mark start fuel (if l.holds before after then next :: work else work) threads
      | some (.set _ _) | some .accept =>
        enter before after mark start fuel work
          { threads with alive := threads.alive.push ⟨node, start⟩ }
      | none => enter before after mark start fuel work threads

/-- Enough fuel to enter every node: each enters once and leads to at most two others. -/
def enterFuel : Nat := 3 * a.nodes.size + 2

/-- Lets the threads use up a character, in the order of preference.  The result has the threads at
the next place, and the match if a thread accepts; threads after that one are discarded. -/
def advance (c : Char) (after : Option Char) (place : Nat) :
    List Thread → Threads → Option Span → Threads × Option Span
  | [], next, found => (next, found)
  | t :: rest, next, found =>
    match a.nodes[t.node]? with
    | some (.set s target) =>
      if s.contains c then
        advance c after place rest (a.enter (some c) after (place + 2) t.start a.enterFuel [target] next) found
      else advance c after place rest next found
    | some .accept => (next, some ⟨t.start, place⟩)
    | _ => advance c after place rest next found

def acceptAtEnd (place : Nat) : List Thread → Option Span → Option Span
  | [], found => found
  | t :: rest, found =>
    match a.nodes[t.node]? with
    | some .accept => some ⟨t.start, place⟩
    | _ => acceptAtEnd place rest found

/-- Runs over the text from a place on.  As long as there is no match a new thread starts at every
place, with the least preference. -/
def run : List Char → Nat → Option Char → Threads → Option Span → Option Span
  | [], place, before, threads, found =>
    let threads :=
      if found.isNone then a.enter before none (place + 1) place a.enterFuel [a.start] threads else threads
    a.acceptAtEnd place threads.alive.toList found
  | c :: rest, place, before, threads, found =>
    if found.isSome && threads.alive.isEmpty then found
    else
      let threads :=
        if found.isNone then a.enter before (some c) (place + 1) place a.enterFuel [a.start] threads
        else threads
      let (next, found) :=
        a.advance c rest.head? place threads.alive.toList { threads with alive := #[] } found
      run rest (place + 1) (some c) next found

/-- The first match at or after a place: `rest` is the text from there on and `before` the character in
front of it. -/
def findFrom (place : Nat) (before : Option Char) (rest : List Char) : Option Span :=
  a.run rest place before ⟨#[], Array.replicate a.nodes.size 0⟩ none

def find (text : List Char) : Option Span := a.findFrom 0 none text

def skip : Nat → Option Char → List Char → Option Char × List Char
  | 0, before, rest => (before, rest)
  | _ + 1, before, [] => (before, [])
  | n + 1, _, c :: rest => skip n (some c) rest

/-- The first match that is not an empty one at the end of the match before. -/
def findNext (place : Nat) (before : Option Char) (rest : List Char) (last : Option Nat) : Option Span :=
  match a.findFrom place before rest with
  | none => none
  | some s =>
    if s.isEmpty && last == some s.stop then
      match rest with
      | [] => none
      | c :: rest => a.findFrom (place + 1) (some c) rest
    else some s

def findAllFrom : Nat → Nat → Option Char → List Char → Option Nat → List Span
  | 0, _, _, _, _ => []
  | fuel + 1, place, before, rest, last =>
    match a.findNext place before rest last with
    | none => []
    | some s =>
      let (before, rest) := skip (s.stop - place) before rest
      s :: findAllFrom fuel s.stop before rest (some s.stop)

/-- All matches in a text.  Their ends increase, so that there is at most one more than characters. -/
def findAll (text : List Char) : List Span := a.findAllFrom (text.length + 2) 0 none text none

/-- The first match from a place on that uses up text.  The bound has an item for every match that is
tried. -/
def findUsingFrom : (bound : List Char) → Nat → Option Char → List Char → Option Nat → Option Span
  | [], _, _, _, _ => none
  | _ :: bound, place, before, rest, last =>
    match a.findNext place before rest last with
    | none => none
    | some s =>
      if s.isEmpty then
        let (before, rest) := skip (s.stop - place) before rest
        findUsingFrom bound s.stop before rest (some s.stop)
      else some s

/-- The first of all matches in a text that uses up text.  The ends of those before it increase, so that
there are at most two more than characters. -/
def findUsing (text : List Char) : Option Span :=
  a.findUsingFrom (' ' :: ' ' :: text) 0 none text none

def isMatch (text : List Char) : Bool := (a.find text).isSome

end Automaton

end Awk.Regex
