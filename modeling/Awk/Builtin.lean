/-!
# Builtin functions

The functions of the language itself, with their names and the numbers of arguments they take.
-/

namespace Awk

inductive Builtin where
  | atan2 | close | cos | exp | fflush | gsub | index | int | length | log | «match» | rand | sin
  | split | sprintf | sqrt | srand | sub | substr | system | tolower | toupper
deriving DecidableEq, Repr

namespace Builtin

/-- All builtin functions, in the order of their names. -/
def all : List Builtin :=
  [atan2, close, cos, exp, fflush, gsub, index, int, length, log, «match», rand, sin, split,
    sprintf, sqrt, srand, sub, substr, system, tolower, toupper]

def name : Builtin → String
  | atan2 => "atan2"
  | close => "close"
  | cos => "cos"
  | exp => "exp"
  | fflush => "fflush"
  | gsub => "gsub"
  | index => "index"
  | int => "int"
  | length => "length"
  | log => "log"
  | «match» => "match"
  | rand => "rand"
  | sin => "sin"
  | split => "split"
  | sprintf => "sprintf"
  | sqrt => "sqrt"
  | srand => "srand"
  | sub => "sub"
  | substr => "substr"
  | system => "system"
  | tolower => "tolower"
  | toupper => "toupper"

def ofName? (s : String) : Option Builtin := all.find? (·.name == s)

/-- The fewest arguments a function takes. -/
def minArgs : Builtin → Nat
  | fflush | length | rand | srand => 0
  | atan2 | gsub | index | «match» | split | sub | substr => 2
  | _ => 1

/-- The most arguments a function takes; `sprintf` takes any number. -/
def maxArgs : Builtin → Option Nat
  | rand => some 0
  | atan2 | index | «match» => some 2
  | gsub | split | sub | substr => some 3
  | sprintf => none
  | _ => some 1

def takes (f : Builtin) (count : Nat) : Bool :=
  f.minArgs ≤ count && f.maxArgs.all (count ≤ ·)

/-- The argument that is a pattern, so that a regex literal there stands for its text. -/
def patternArg : Builtin → Option Nat
  | split => some 2
  | sub | gsub => some 0
  | «match» => some 1
  | _ => none

end Builtin

end Awk
