import Std.Data.TreeMap
import Std.Data.TreeSet

/-!
# Call graphs

Which functions call which.  `CallGraph.sorted` puts callees before their callers, as far as functions
that call each other allow it: the graph is walked depth first, in the order of names, and a function
comes after everything that the walk finds below it.
-/

namespace Awk

/-- For every caller the functions it calls. -/
structure CallGraph where
  calls : Std.TreeMap String (Std.TreeSet String) := {}

namespace CallGraph

def callees (g : CallGraph) (caller : String) : List String :=
  match g.calls[caller]? with
  | some names => names.toList
  | none => []

def add (g : CallGraph) (caller : String) (names : List String) : CallGraph :=
  ⟨g.calls.insert caller ((g.calls.getD caller {}).insertMany names)⟩

/-- Visits a function: everything below it first, then itself.  `path` leads to it, `done` is the order
so far; functions on either are left out. -/
def visit (g : CallGraph) : (depth : Nat) → (path : List String) → (done : List String) → String →
    List String
  | 0, _, done, _ => done
  | depth + 1, path, done, name =>
    if done.contains name || path.contains name then done
    else (g.callees name).foldl (fun done => visit g depth (name :: path) done) done ++ [name]

/-- All functions, callees before their callers where that is possible.  A path that visits no function
twice is at most one longer than there are callers. -/
def sorted (g : CallGraph) : List String :=
  g.calls.keys.foldl (fun done => visit g (g.calls.size + 1) [] done) []

end CallGraph

end Awk
