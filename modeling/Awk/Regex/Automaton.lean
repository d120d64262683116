import Awk.Regex.Expr

/-!
# Automata of regular expressions

A regular expression becomes a table of nodes.  A node uses up one character of a set, checks a
condition, accepts, or splits into two ways of which the first is preferred.  Expressions are compiled
from their end to their start: `Expr.build e next nodes` adds the nodes of `e` that lead on to `next`,
and gives the node to start from.
-/

namespace Awk.Regex

open Awk.Text (CodeSet)

inductive Node where
  | set (s : CodeSet) (next : Nat)
  /-- Goes on if the condition holds. -/
  | look (l : Look) (next : Nat)
  /-- Goes on in two ways, the first one preferred. -/
  | split (first second : Nat)
  | accept

/-- An automaton: its nodes and the one to start from. -/
structure Automaton where
  nodes : Array Node
  start : Nat

/-- A split whose first way is the body of a repetition, or the second if the repetition is lazy. -/
def Node.choice (greedy : Bool) (body next : Nat) : Node :=
  if greedy then .split body next else .split next body

def addNode (node : Node) (nodes : Array Node) : Nat × Array Node := (nodes.size, nodes.push node)

def buildTimes (build : Nat → Array Node → Nat × Array Node) : Nat → Nat → Array Node → Nat × Array Node
  | 0, next, nodes => (next, nodes)
  | n + 1, next, nodes =>
    let (start, nodes) := build next nodes
    buildTimes build n start nodes

/-- Nests `n` optional copies, each of which may stop and go on to `next`. -/
def buildUpTo (build : Nat → Array Node → Nat × Array Node) (greedy : Bool) (next : Nat) :
    Nat → Nat → Array Node → Nat × Array Node
  | 0, inner, nodes => (inner, nodes)
  | n + 1, inner, nodes =>
    let (body, nodes) := build inner nodes
    let (start, nodes) := addNode (.choice greedy body next) nodes
    buildUpTo build greedy next n start nodes

/-- Builds one or more copies: the split after the body leads back to its start. -/
def buildLoop (build : Nat → Array Node → Nat × Array Node) (greedy : Bool) (next : Nat)
    (nodes : Array Node) : Nat × Nat × Array Node :=
  let (turn, nodes) := addNode .accept nodes
  let (body, nodes) := build turn nodes
  (body, turn, nodes.setIfInBounds turn (.choice greedy body next))

/-- Adds the nodes of a text that lead on to `next`. -/
def buildText : List Char → Nat → Array Node → Nat × Array Node
  | [], next, nodes => (next, nodes)
  | c :: rest, next, nodes =>
    let (start, nodes) := buildText rest next nodes
    addNode (.set (.single c) start) nodes

/-- Adds the nodes of an expression that lead on to `next`. -/
def Expr.build : Expr → Nat → Array Node → Nat × Array Node
  | .empty, next, nodes => (next, nodes)
  | .literal text, next, nodes => buildText text next nodes
  | .group _ e, next, nodes => e.build next nodes
  | .set s, next, nodes => addNode (.set s next) nodes
  | .look l, next, nodes => addNode (.look l next) nodes
  | .seq a b, next, nodes =>
    let (middle, nodes) := b.build next nodes
    a.build middle nodes
  | .alt a b, next, nodes =>
    let (second, nodes) := b.build next nodes
    let (first, nodes) := a.build next nodes
    addNode (.split first second) nodes
  | .rep e least (some most) greedy, next, nodes =>
    let (rest, nodes) := buildUpTo e.build greedy next (most - least) next nodes
    buildTimes e.build least rest nodes
  | .rep e 0 none greedy, next, nodes =>
    let (body, turn, nodes) := buildLoop e.build greedy next nodes
    -- a body that may match the empty text is entered through a split of its own, so that an empty
    -- turn does not hide the way past the loop
    if e.usesText then (turn, nodes) else addNode (.choice greedy body next) nodes
  | .rep e (least + 1) none greedy, next, nodes =>
    let (body, _, nodes) := buildLoop e.build greedy next nodes
    buildTimes e.build least body nodes

def Expr.automaton (e : Expr) : Automaton :=
  let (start, nodes) := e.build 0 #[.accept]
  ⟨nodes, start⟩

end Awk.Regex
