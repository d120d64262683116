import Awk.Script
import Awk.Special

/-!
# Compiled programs

A program is compiled to instructions for a machine with a stack.  Offsets of jumps count from the
instruction behind the jump.  Constants stand in pools, and variables are given by their numbers.
-/

namespace Awk

inductive ScalarRef where
  | global (index : Nat)
  | «local» (index : Nat)
  | special (v : Special)
deriving DecidableEq, Repr

/-- An array variable; a local one is bound when the function is called. -/
inductive ArrayRef where
  | global (index : Nat)
  | «local» (index : Nat)
deriving DecidableEq, Repr

/-- Where a value is kept.  The number of a field and the key of an element are taken from the top of
the stack. -/
inductive Cell where
  | scalar (r : ScalarRef)
  | field
  | element (a : ArrayRef)
deriving DecidableEq, Repr

/-- When a conditional jump is made. -/
inductive Test where
  /-- The value on the stack is true, or it is false. -/
  | truth (expected : Bool)
  | compare (c : Comparison)
deriving DecidableEq, Repr

inductive GetlineSource where
  | main
  | file
  | command
deriving DecidableEq, Repr

inductive Op where
  | num (index : Nat)
  | str (index : Nat)
  /-- Pushes the top value again. -/
  | dupe
  | drop
  | swap
  /-- Moves the third value from the top to the top. -/
  | rote
  | load (c : Cell)
  | fieldInt (number : Nat)
  | member (a : ArrayRef)
  /-- Takes a value, which lies below the key, and keeps it in a cell. -/
  | store (c : Cell)
  | delete (a : ArrayRef)
  | deleteAll (a : ArrayRef)
  /-- Adds a small number to what a cell holds. -/
  | incr (amount : Int) (c : Cell)
  /-- Takes a value and combines it with what a cell holds. -/
  | aug (op : Arith) (c : Cell)
  /-- Pushes whether a regex of the pool matches the record. -/
  | regex (index : Nat)
  | indexMulti (count : Nat)
  | concatMulti (count : Nat)
  | arith (op : Arith)
  | compare (c : Comparison)
  | concat
  /-- Whether a text matches the pattern above it, or does not. -/
  | «match» (negated : Bool)
  | not
  | minus
  | plus
  | boolean
  | jump (offset : Int)
  | branch (t : Test) (offset : Int)
  | next
  | nextFile
  | exit
  | exitStatus
  | «return»
  | returnNull
  /-- Runs the instructions behind it once for every key of an array. -/
  | forIn (var : ScalarRef) (array : ArrayRef) (length : Nat)
  | breakForIn
  | callBuiltin (f : Builtin) (argCount : Nat)
  | callLengthArray (a : ArrayRef)
  /-- Takes a separator, if there is one, and a text; pushes the number of parts. -/
  | callSplit (a : ArrayRef) (sep : Bool)
  /-- Takes text, replacement and pattern; pushes the new text and the number of replacements. -/
  | callSub (global : Bool)
  /-- Calls a function; its array arguments are in the instructions behind it. -/
  | callUser (func : Nat) (arrayCount : Nat)
  | arrayArg (a : ArrayRef)
  | callNative (func : Nat) (argCount : Nat)
  /-- Pushes values that are not assigned yet. -/
  | nulls (count : Nat)
  /-- Takes the destination, if there is one, and the arguments, and writes them. -/
  | output (formatted : Bool) (argCount : Nat) (dest : Option RedirectKind)
  /-- Reads a record into a cell, or as the current record; pushes how it went. -/
  | getline (source : GetlineSource) (target : Option Cell)
deriving DecidableEq, Repr

abbrev Code := Array Op

/-- Which records a compiled rule applies to. -/
inductive Guard where
  | all
  | expr (code : Code)
  | range (start stop : Code)
deriving DecidableEq, Repr

/-- A compiled rule; without a body it prints the record. -/
structure CompiledRule where
  guard : Guard
  body : Option Code
deriving DecidableEq, Repr

structure CompiledFunction where
  name : String
  params : List String
  arrays : List Bool
  scalarCount : Nat
  arrayCount : Nat
  body : Code
deriving DecidableEq, Repr

structure Program where
  begin : Array Code := #[]
  rules : Array CompiledRule := #[]
  final : Array Code := #[]
  functions : Array CompiledFunction := #[]
  nums : Array Float := #[]
  strs : Array String := #[]
  regexes : Array String := #[]
  scalarNames : Array String := #[]
  arrayNames : Array String := #[]
  nativeNames : Array String := #[]
  sourceHash : String := ""
deriving Inhabited

def Program.readsInput (p : Program) : Bool := !p.rules.isEmpty || !p.final.isEmpty

end Awk
