import Awk.Number.Random
import Awk.Program
import Awk.Record.Fields
import Awk.World

/-!
# The machine

The state of a program that is running: its stack, its variables, the current record, its streams and
the world around it.  Whatever fails leaves the state as it was at that moment.
-/

namespace Awk

open Format (FormatError)
open Regex (Pattern PatternCache RegexError)

/-! ## Settings -/

/-- What the host decides about a run. -/
structure Config where
  maxCallDepth : Nat := 1000
  fieldSep : Option String := none
  /-- Variables that are assigned before the program starts. -/
  vars : Std.TreeMap String String := {}
  environ : Std.TreeMap String String := {}
  /-- Refuses commands and the writing of files. -/
  noExec : Bool := false
  /-- After how many instructions the program looks whether it is cancelled. -/
  cancelCheckInterval : Nat := 1000

/-! ## Errors -/

/-- A program that no compiler makes. -/
inductive Defect where
  | arrayParam (index : Nat)
  | noArray (slot : Nat)
  | unknownFunction (index : Nat)
  | ownInstruction (f : Builtin)
deriving DecidableEq, Repr

def Defect.text : Defect → String
  | arrayParam i => "array parameter " ++ Number.natText i ++ " outside its function"
  | noArray slot => "no array in slot " ++ Number.natText slot
  | unknownFunction i => "unknown function " ++ Number.natText i
  | ownInstruction f => f.name ++ " must be compiled to its own opcode"

/-- What a program was doing when the system refused. -/
inductive Activity where
  | opening (name : String)
  | reading
  | redirecting (name : String)
  | starting (command : String)
  | writing (name : String)
deriving DecidableEq, Repr

def Activity.text : Activity → String
  | opening name => "can't open file " ++ Text.quoted name
  | reading => "reading input"
  | redirecting name => "can't redirect to " ++ Text.quoted name
  | starting command => "can't start " ++ Text.quoted command
  | writing name => "writing to " ++ Text.quoted name

/-- Why a program fails. -/
inductive RunError where
  | divisionByZero
  | divisionByZeroMod
  | callDepthExceeded (name : String) (max : Nat)
  | fieldIndex (number : Float)
  | regex
  | format (e : FormatError)
  | io (activity : Activity) (e : OsError)
  | cancelled
  | nativeFunction (name message : String)
  | noExec (command : String)
  | defect (d : Defect)

def RunError.message : RunError → String
  | divisionByZero => "division by zero"
  | divisionByZeroMod => "division by zero in mod"
  | callDepthExceeded name max =>
    "calling " ++ Text.quoted name ++ " exceeded maximum call depth of " ++ Number.natText max
  | fieldIndex x => "field index " ++ Number.plainText x ++ " out of range"
  | regex => "invalid regex"
  | format e => e.message
  | io activity e => activity.text ++ ": " ++ e.message
  | cancelled => "cancelled"
  | nativeFunction name message => "native function " ++ Text.quoted name ++ ": " ++ message
  | noExec command => "command execution is disabled: " ++ Text.quoted command
  | defect d => "runtime error: " ++ d.text

/-- Why a run stops before its end. -/
inductive Fault where
  | error (e : RunError)
  /-- A number of a constant, a variable or a character that does not exist. -/
  | outOfRange
  /-- A bound was used up: that on the number of steps, or that on the room for a text. -/
  | outOfFuel

/-- How a stretch of code ends.  All but `normal` go up to what they are meant for. -/
inductive Completion where
  | normal
  | next
  | nextFile
  /-- Ends the program, but for its END part. -/
  | exit
  | «return» (value : Value)
  /-- Ends the loop over an array. -/
  | breakForIn

/-! ## The state -/

/-- The special variables, but for the number of fields, which belongs to the record. -/
structure Specials where
  fs : String := " "
  ofs : String := " "
  ors : String := "\n"
  rs : String := "\n"
  subsep : String := "\x1c"
  convfmt : String := "%.6g"
  ofmt : String := "%.6g"
  filename : String := ""
  rt : String := ""
  nr : Float := 0
  fnr : Float := 0
  rstart : Float := 0
  rlength : Float := -1
  argc : Float := 0

abbrev ArrayValue := Std.TreeMap String Value

/-- A native function as the host provides it; it may remember the calls before. -/
structure Native where
  respond : (earlier : List (List Value)) → (args : List Value) → Except String Value
  /-- The arguments of the calls before, the last one first. -/
  earlier : List (List Value) := []

/-- An open stream that is written. -/
inductive OutputStream where
  | file (f : FileWriter)
  | stderr
  /-- A command that gets what is written when the stream is closed. -/
  | pipe (command : String) (written : ByteArray)

/-- An open stream that is read; for a command also how it ended. -/
structure InputStream where
  input : Input
  ending : Option Float := none

structure Streams where
  /-- The standard input, if the host has set one that is not used yet. -/
  stdin : Option (List (List UInt8)) := none
  main : Option Input := none
  nextArg : Nat := 1
  /-- Whether an operand, or the standard input in their place, was opened. -/
  openedOperand : Bool := false
  outputs : Std.TreeMap String OutputStream := {}
  inputs : Std.TreeMap String InputStream := {}

/-- Where output goes that is not redirected. -/
structure Output where
  /-- What was captured; none if output is delivered to the host at once. -/
  captured : Option ByteArray := none
  delivered : ByteArray := ByteArray.empty

def Output.write (o : Output) (bytes : ByteArray) : Output :=
  match o.captured with
  | some before => { o with captured := some (before ++ bytes) }
  | none => { o with delivered := o.delivered ++ bytes }

/-- In which order loops over arrays go through the keys, which come sorted.  No order is promised, so every
loop may have one of its own. -/
structure KeyOrder where
  arrange : (loop : Nat) → List String → List String := fun _ keys => keys
  perm : ∀ loop keys, (arrange loop keys).Perm keys := by exact fun _ keys => List.Perm.refl keys

/-- The state of a program that is running. -/
structure Machine where
  program : Program
  config : Config
  regexes : Array Pattern := #[]
  /-- Operands; the scalars of a function are a part of it. -/
  stack : Array Value := #[]
  /-- Where the scalars of the function at work start. -/
  base : Nat := 0
  /-- For every function at work, the last one first, the slots of its arrays. -/
  frames : List (Array Nat) := []
  globals : Array Value := #[]
  /-- The global arrays, then those of parameters without an argument. -/
  arrays : Array ArrayValue := #[]
  specials : Specials := {}
  record : Record := {}
  recordSep : RecordSep := .char '\n'
  cache : PatternCache := {}
  streams : Streams := {}
  output : Output := {}
  natives : Array (Option Native) := #[]
  random : Number.Random := .ofSeed 0
  seed : Float := 0
  inRange : Array Bool := #[]
  exitStatus : Int := 0
  cancelled : Bool := false
  ticks : Nat := 0
  keyOrder : KeyOrder := {}
  /-- How many loops over arrays were started. -/
  loops : Nat := 0
  args : List String := []
  world : World := {}

abbrev Run := EStateM Fault Machine

namespace Run

def fail {α : Type} (e : RunError) : Run α := throw (.error e)

def attempt {α : Type} (x : Run α) : Run (Except Fault α) := fun m =>
  match x m with
  | .ok a m => .ok (.ok a) m
  | .error f m => .ok (.error f) m

/-- Goes on with a result, or stops as it did. -/
def resume {α : Type} : Except Fault α → Run α
  | .ok a => pure a
  | .error f => throw f

/-! ## The stack -/

def push (v : Value) : Run Unit := modify fun m => { m with stack := m.stack.push v }

/-- Takes the top value; an empty stack gives one that is not assigned. -/
def pop : Run Value := modifyGet fun m => (m.stack.back?.getD .null, { m with stack := m.stack.pop })

/-- Takes the top values, the lowest one first, or as many as there are. -/
def popMany (count : Nat) : Run (List Value) := modifyGet fun m =>
  let place := m.stack.size - count
  ((m.stack.extract place m.stack.size).toList, { m with stack := m.stack.shrink place })

/-- Counts an instruction, and stops now and then if the program is cancelled. -/
def tick : Run Unit := do
  let m ← get
  if m.ticks + 1 < m.config.cancelCheckInterval then set { m with ticks := m.ticks + 1 }
  else
    set { m with ticks := 0 }
    if m.cancelled then fail .cancelled

def textOf (v : Value) : Run String := do return v.text (← get).specials.convfmt

/-- Looks something up among the patterns that are kept. -/
def lookUp {α : Type} (find : PatternCache → Except RegexError α × PatternCache) : Run α := do
  let m ← get
  match find m.cache with
  | (.error _, cache) =>
    modify fun m => { m with cache }
    fail .regex
  | (.ok a, cache) =>
    modify fun m => { m with cache }
    return a

/-- A pattern, compiled now unless it is kept. -/
def pattern (source : String) : Run Pattern := lookUp (·.get source)

end Run

end Awk
