import Awk.Machine.Variables
import Awk.World.Shell

/-!
# Input and output of the machine

The main input consists of the operands one after the other, or of the standard input if there is no
file among them.  Streams are opened when they are first used and keep their names until they are
closed.
-/

namespace Awk.Run

def modifyStreams (f : Streams → Streams) : Run Unit :=
  modify fun m => { m with streams := f m.streams }

/-! ## The main input -/

/-- The standard input: what the host has set, or that of the process. -/
def takeStdin : Run Source := modifyGet fun m =>
  match m.streams.stdin with
  | some pieces => (.pieces pieces, { m with streams := { m.streams with stdin := none } })
  | none => (.stdin, m)

def startMain (source : Source) : Run Unit := modify fun m =>
  { m with
    specials := { m.specials with fnr := 0 }
    streams := { m.streams with main := some { source } } }

def openSource (name : String) : Run (Except OsError Source) := modifyGet fun m =>
  let (result, world) := Source.openFile m.world name
  (result, { m with world })

def openOperand (name : String) : Run Unit := do
  modifyStreams fun s => { s with openedOperand := true }
  if name = "-" then
    let source ← takeStdin
    modifySpecials fun s => { s with filename := name }
    startMain source
  else
    match ← openSource name with
    | .error e => fail (.io (.opening name) e)
    | .ok source =>
      modifySpecials fun s => { s with filename := name }
      startMain source

/-- Opens the next input, and assigns variables on the way; tells whether there was one.  The bound is
on the number of operands. -/
def openNext : (bound : Nat) → Run Bool
  | 0 => return false
  | bound + 1 => do
    let m ← get
    if Float.ofNat m.streams.nextArg < m.specials.argc then
      modifyStreams fun s => { s with nextArg := s.nextArg + 1 }
      let arg ← argument m.streams.nextArg
      if arg.isEmpty then openNext bound
      else
        match CommandLine.splitAssignment arg with
        | some (name, value) =>
          assignNamed name value
          openNext bound
        | none =>
          openOperand arg
          return true
    else if m.streams.openedOperand then return false
    else
      modifyStreams fun s => { s with openedOperand := true }
      let source ← takeStdin
      startMain source
      return true

def operandBound : Nat := Number.twoPow 64

def nextRecord : (bound : Nat) → Run (Option String)
  | 0 => return none
  | bound + 1 => do
    let m ← get
    match m.streams.main with
    | none => if ← openNext operandBound then nextRecord bound else return none
    | some input =>
      let (result, world, input) := input.read m.world m.recordSep
      modify fun m => { m with world, streams := { m.streams with main := some input } }
      match result with
      | .error e => fail (.io .reading e)
      | .ok (some (record, rt)) =>
        modifySpecials fun s => { s with rt, nr := s.nr + 1, fnr := s.fnr + 1 }
        return some record
      | .ok none =>
        modifyStreams fun s => { s with main := none }
        if ← openNext operandBound then nextRecord bound else return none

def nextMainRecord : Run (Option String) := nextRecord operandBound

def skipFile : Run Unit := modifyStreams fun s => { s with main := none }

/-! ## Other inputs -/

def openInput (source : GetlineSource) (name : String) : Run (Option InputStream) := do
  if source = .command then
    let m ← get
    if m.config.noExec then fail (.noExec name)
    else if (Shell.startError? name).isNone then
      let (out, ending, world) := Shell.run m.world name none
      modify fun m => { m with world }
      return some { input := { source := .pieces [out.toList] }, ending := some ending.code }
    else return none
  else if name = "-" ∨ name = "/dev/stdin" then
    return some { input := { source := ← takeStdin } }
  else
    match ← openSource name with
    | .error _ => return none
    | .ok source => return some { input := { source } }

/-- Reads a record from a stream: one with the record, zero at the end, less if that fails. -/
def readStream (source : GetlineSource) (name : String) (stream : InputStream) :
    Run (Float × Option String) := do
  let m ← get
  let (result, world, input) := stream.input.read m.world m.recordSep
  modify fun m => { m with
    world
    streams := { m.streams with inputs := m.streams.inputs.insert name { stream with input } } }
  match result with
  | .error _ => return (-1, none)
  | .ok none => return (0, none)
  | .ok (some (record, rt)) =>
    modifySpecials fun s => { s with rt, nr := if source = .command then s.nr + 1 else s.nr }
    return (1, some record)

def readRecord (source : GetlineSource) (name : String) : Run (Float × Option String) := do
  if source = .main then
    match ← nextMainRecord with
    | some record => return (1, some record)
    | none => return (0, none)
  else
    match (← get).streams.inputs[name]? with
    | some stream => readStream source name stream
    | none =>
      match ← openInput source name with
      | none => return (-1, none)
      | some stream => readStream source name stream

/-! ## Output -/

def writeOut (bytes : ByteArray) : Run Unit := modify fun m => { m with output := m.output.write bytes }

def openOutput (kind : RedirectKind) (name : String) : Run OutputStream := do
  if name = "/dev/stderr" then return .stderr
  else
    let m ← get
    if m.config.noExec then fail (.noExec name)
    else if kind = .pipe then
      match Shell.startError? name with
      | none => return .pipe name ByteArray.empty
      | some e => fail (.io (.starting name) e)
    else
      let (result, world) := FileWriter.openFile m.world name (kind = .append)
      modify fun m => { m with world }
      match result with
      | .error e => fail (.io (.redirecting name) e)
      | .ok f => return .file f

/-- How many bytes a pipe and the buffer before it hold. -/
def pipeCapacity : Nat := 65536 + FileWriter.capacity

/-- Writes bytes to an open stream.  A pipe that nobody reads breaks when it is full. -/
def writeStream (name : String) (stream : OutputStream) (bytes : ByteArray) : Run Unit := do
  let m ← get
  match stream with
  | .stderr => modify fun m => { m with world := m.world.writeError bytes }
  | .pipe command written =>
    let before := written.size
    let all := written ++ bytes
    let isFull := decide (before ≤ pipeCapacity) && decide (pipeCapacity < all.size)
    modify fun m => { m with streams := { m.streams with
      outputs := m.streams.outputs.insert name (.pipe command all) } }
    if isFull && Shell.ignoresInput m.world command then fail (.io (.writing name) .brokenPipe)
  | .file f =>
    let (written, f, world) := f.write m.world bytes
    modify fun m => { m with
      world
      streams := { m.streams with outputs := m.streams.outputs.insert name (.file f) } }
    if !written then fail (.io (.writing name) .noSpace)

/-- The names that stand for the output of the program itself. -/
def isOwnOutput (name : String) : Bool := name == "/dev/stdout" || name == "-"

/-- Writes a text to the output of the program, or to where it is sent. -/
def writeText (dest : Option (RedirectKind × String)) (text : String) : Run Unit := do
  match dest with
  | none => writeOut text.toUTF8
  | some (kind, name) =>
    if isOwnOutput name then writeOut text.toUTF8
    else
      match (← get).streams.outputs[name]? with
      | some stream => writeStream name stream text.toUTF8
      | none =>
        let stream ← openOutput kind name
        modifyStreams fun s => { s with outputs := s.outputs.insert name stream }
        writeStream name stream text.toUTF8

/-! ## The end of streams -/

/-- Ends an open stream: zero for a file, less if there is no room for it, the status of a command. -/
def endOutput (stream : OutputStream) : Run Float := do
  let m ← get
  match stream with
  | .stderr => return 0
  | .file f =>
    let (written, _, world) := f.flush m.world
    modify fun m => { m with world }
    return if written then 0 else -1
  | .pipe command written =>
    let (out, ending, world) := Shell.run m.world command (some written)
    modify fun m => { m with world }
    writeOut out
    return ending.code

/-- Closes the stream of a name; less than zero if there is none. -/
def closeStream (name : String) : Run Float := do
  let s := (← get).streams
  match s.outputs[name]? with
  | some stream =>
    modifyStreams fun s => { s with outputs := s.outputs.erase name }
    endOutput stream
  | none =>
    match s.inputs[name]? with
    | some stream =>
      modifyStreams fun s => { s with inputs := s.inputs.erase name }
      return stream.ending.getD 0
    | none => return -1

/-- Passes on what is waiting in a stream: zero, or less if there is no room for it. -/
def flushOutput (name : String) (stream : OutputStream) : Run Float := do
  match stream with
  | .file f =>
    let m ← get
    let (written, f, world) := f.flush m.world
    modify fun m => { m with
      world
      streams := { m.streams with outputs := m.streams.outputs.insert name (.file f) } }
    return if written then 0 else -1
  | _ => return 0

def flushAll : Run Unit := do
  (← get).streams.outputs.toList.forM fun (name, stream) => do
    let _ ← flushOutput name stream

/-- Passes on what is waiting in the stream of a name, or in all; less than zero if there is none. -/
def flushStream (name : Option String) : Run Float := do
  match name with
  | none =>
    flushAll
    return 0
  | some name =>
    if isOwnOutput name then return 0
    else
      match (← get).streams.outputs[name]? with
      | some stream => flushOutput name stream
      | none => return -1

/-- Closes all streams, those that are written in the order of their names. -/
def closeAll : Run Unit := do
  (← get).streams.outputs.toList.forM fun (name, stream) => do
    modifyStreams fun s => { s with outputs := s.outputs.erase name }
    let _ ← endOutput stream
  modifyStreams fun s => { s with inputs := {} }

/-- Runs a command; its output becomes output of the program.  Less than zero if it cannot start. -/
def runCommand (command : String) : Run Float := do
  if (← get).config.noExec then fail (.noExec command)
  else
    flushAll
    if (Shell.startError? command).isNone then
      let m ← get
      let (out, ending, world) := Shell.run m.world command none
      modify fun m => { m with world }
      writeOut out
      return ending.code
    else return -1

end Awk.Run
