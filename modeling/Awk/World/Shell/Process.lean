import Awk.Number.Decimal
import Awk.World.Shell.Command
import Awk.World

/-!
# A shell at work

A shell has streams with numbers, variables and functions.  What it writes is collected, and what it can
read is at hand.  A part of a command line that runs in a shell of its own works on the same world and
leaves the rest as it was.
-/

namespace Awk.Shell

inductive Ending where
  | exited (status : Nat)
  | killed
deriving DecidableEq, Repr

/-- The number a program gets for the end of a command. -/
def Ending.code : Ending → Float
  | exited status => Float.ofNat status
  | killed => -1

inductive Stream where
  | input (number : Nat)
  | output (number : Nat)
  | error
  | sink (s : Sink)
deriving DecidableEq, Repr

/-- Why the commands at hand are left. -/
inductive Leaving where
  | ended (e : Ending)
  | loops (count : Nat)
  /-- A loop goes on with its next turn, after those inside it were left. -/
  | turn (count : Nat)
  | function
deriving DecidableEq, Repr

structure Process where
  world : World
  inputs : Array ByteArray
  outputs : Array ByteArray := #[ByteArray.empty]
  streams : List (Nat × Stream) := [(0, .input 0), (1, .output 0), (2, .error)]
  vars : Std.TreeMap String String := {}
  functions : List (String × Command) := []
  parameters : List String := []
  /-- The texts behind the lines of the command line. -/
  documents : Array Word := #[]
  line : Nat := 1
  status : Nat := 0
  /-- The status of the last command whose output was put in. -/
  inner : Option Nat := none
  loops : Nat := 0
  leaving : Option Leaving := none

def processNumber : Nat := 4711

abbrev Job := StateM Process

namespace Job

def setStatus (n : Nat) : Job Unit := modify fun p => { p with status := n }

def goesOn : Job Bool := return (← get).leaving.isNone

def leave (l : Leaving) : Job Unit := modify fun p => { p with leaving := some l }

def finish (status : Nat) : Job Unit := do
  setStatus status
  leave (.ended (.exited status))

/-! ## Streams -/

def stream? (n : Nat) : Job (Option Stream) := return (← get).streams.lookup n

def connect (n : Nat) (s : Option Stream) : Job Unit := modify fun p =>
  let others := p.streams.filter fun t => t.1 != n
  { p with streams := (s.map fun s => (n, s)).toList ++ others }

/-- Writes bytes to a stream; tells whether there was room for them. -/
def writeTo (s : Stream) (bytes : ByteArray) : Job Bool :=
  if bytes.isEmpty then return true
  else match s with
    | .output n => do
      modify fun p => { p with outputs := p.outputs.modify n (· ++ bytes) }
      return true
    | .error => do
      modify fun p => { p with world := p.world.writeError bytes }
      return true
    | .sink (.file path) => do
      modify fun p => { p with world := p.world.appendTo path bytes }
      return true
    | .sink .null => return true
    | .sink .full | .input _ => return false

def write (n : Nat) (bytes : ByteArray) : Job Bool := do
  match ← stream? n with
  | some s => writeTo s bytes
  | none => return bytes.isEmpty

/-- Writes a line to the standard error. -/
def complain (message : String) : Job Unit := do
  let _ ← write 2 (message ++ "\n").toUTF8

/-- Writes a message of the shell itself to the standard error. -/
def report (message : String) : Job Unit := do
  complain ("sh: " ++ Number.natText (← get).line ++ ": " ++ message)

def readAll (s : Stream) : Job ByteArray := modifyGet fun p =>
  match s with
  | .input n => (p.inputs.getD n ByteArray.empty, { p with inputs := p.inputs.setIfInBounds n ByteArray.empty })
  | _ => (ByteArray.empty, p)

def streamName? (name : String) : Option Nat :=
  match name with
  | "/dev/stdin" => some 0
  | "/dev/stdout" => some 1
  | "/dev/stderr" => some 2
  | _ => if name.startsWith "/dev/fd/" then (String.ofList (name.toList.drop 8)).toNat? else none

def addInput (bytes : ByteArray) : Job Stream := modifyGet fun p =>
  (.input p.inputs.size, { p with inputs := p.inputs.push bytes })

def openInput (name : String) : Job (Except OsError Stream) := do
  match streamName? name with
  | some n => return (← stream? n).elim (.error .notFound) .ok
  | none =>
    let p ← get
    let (source, world) := Source.openFile p.world name
    set { p with world }
    match source with
    | .error e => return .error e
    | .ok (.file path _) => return .ok (← addInput (world.contents path))
    | .ok .directory => return .error .isDirectory
    | .ok _ => return .ok (← addInput ByteArray.empty)

def openOutput (name : String) (append : Bool) : Job (Except OsError Stream) := do
  match streamName? name with
  | some n => return (← stream? n).elim (.error .notFound) .ok
  | none =>
    let p ← get
    let (file, world) := FileWriter.openFile p.world name append
    set { p with world }
    return file.map fun f => .sink f.sink

/-! ## Shells of their own -/

/-- Does something in a shell of its own, of which the world, the streams' bytes and the status are left. -/
def subshell (job : Job Unit) : Job Unit := do
  let p ← get
  set { p with loops := 0 }
  job
  modify fun q =>
    { q with
      streams := p.streams
      vars := p.vars
      functions := p.functions
      parameters := p.parameters
      loops := p.loops
      leaving := if q.leaving = some (.ended .killed) then q.leaving else p.leaving }

def captured (job : Job Unit) : Job ByteArray := do
  let n := (← get).outputs.size
  modify fun p => { p with outputs := p.outputs.push ByteArray.empty }
  subshell do
    connect 1 (some (.output n))
    job
  modifyGet fun p => (p.outputs.getD n ByteArray.empty, { p with outputs := p.outputs.take n })

end Job

end Awk.Shell
