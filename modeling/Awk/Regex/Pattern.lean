import Awk.Regex.Parser
import Awk.Regex.Search
import Std.Data.TreeMap

/-!
# Patterns ready for use

A pattern is compiled with the flag that lets a point match the end of a line, since records may have
several lines.  Patterns that a program builds while it runs are kept, so that each is compiled once;
when a hundred are kept, all are dropped before the next one is added.
-/

namespace Awk.Regex

structure Pattern where
  source : String
  automaton : Automaton

namespace Pattern

/-- Compiles a pattern.  The text of the pattern is put into a group with the flag set, as it is, so
that it may close that group and open another. -/
def compile (source : String) : Except RegexError Pattern := do
  let e ← Expr.parse ("(?s:" ++ source ++ ")")
  pure ⟨source, e.automaton⟩

def isMatch (p : Pattern) (text : String) : Bool := p.automaton.isMatch text.toList

def find (p : Pattern) (text : List Char) : Option Span := p.automaton.find text

def findAll (p : Pattern) (text : List Char) : List Span := p.automaton.findAll text

def findUsing (p : Pattern) (text : List Char) : Option Span := p.automaton.findUsing text

end Pattern

/-- The patterns kept for use. -/
structure PatternCache where
  entries : Std.TreeMap String Pattern := {}

namespace PatternCache

def capacity : Nat := 100

/-- A pattern, compiled now unless it is kept, and the patterns kept after that. -/
def get (cache : PatternCache) (source : String) : Except RegexError Pattern × PatternCache :=
  match cache.entries[source]? with
  | some p => (.ok p, cache)
  | none =>
    match Pattern.compile source with
    | .error e => (.error e, cache)
    | .ok p =>
      let kept := if capacity ≤ cache.entries.size then {} else cache.entries
      (.ok p, ⟨kept.insert source p⟩)

def size (cache : PatternCache) : Nat := cache.entries.size

end PatternCache

end Awk.Regex
