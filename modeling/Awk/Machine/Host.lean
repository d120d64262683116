import Awk.Machine.Exec

/-!
# What the host does with a machine

A machine is made from a program and settings, runs any number of times, and can be reset to the state
of a new one.
-/

namespace Awk

open Regex (Pattern)

namespace Run

/-! ## Parts of a program

`run` runs a stretch of code from its start. -/

/-- Runs a part of the program on an empty stack. -/
def runBlock (run : Code → Run Completion) (code : Code) : Run Completion := do
  modify fun m => { m with stack := #[], base := 0 }
  let c ← run code
  modify fun m => { m with stack := #[] }
  return c

/-- Whether a rule applies, or how the test was cut short. -/
inductive Verdict where
  | applies (yes : Bool)
  | stopped (c : Completion)

def test (run : Code → Run Completion) (code : Code) : Run Verdict := do
  modify fun m => { m with stack := #[], base := 0 }
  match ← run code with
  | .normal => return .applies (← pop).isTrue
  | other => return .stopped other

def getInRange (i : Nat) : Run Bool := do
  match (← get).inRange[i]? with
  | some b => return b
  | none => throw .outOfRange

def setInRange (i : Nat) (b : Bool) : Run Unit := do
  if i < (← get).inRange.size then
    modify fun m => { m with inRange := m.inRange.setIfInBounds i b }
  else throw .outOfRange

/-- Looks whether the last record of a range is reached.  That record belongs to the range. -/
def testStop (run : Code → Run Completion) (i : Nat) (stop : Code) : Run Verdict := do
  match ← test run stop with
  | .applies true =>
    setInRange i false
    return .applies true
  | .applies false => return .applies true
  | other => return other

def testRange (run : Code → Run Completion) (i : Nat) (start stop : Code) : Run Verdict := do
  if ← getInRange i then testStop run i stop
  else
    match ← test run start with
    | .applies true =>
      setInRange i true
      testStop run i stop
    | other => return other

def testGuard (run : Code → Run Completion) (i : Nat) : Guard → Run Verdict
  | .all => return .applies true
  | .expr code => test run code
  | .range start stop => testRange run i start stop

def applyRule (run : Code → Run Completion) (i : Nat) (r : CompiledRule) : Run Completion := do
  match ← testGuard run i r.guard with
  | .applies false => return .normal
  | .stopped c => return c
  | .applies true =>
    match r.body with
    | some code => runBlock run code
    | none =>
      let m ← get
      writeText none (m.record.line ++ m.specials.ors)
      return .normal

/-- Applies rules to the record, one after the other, until one ends the work on it. -/
def applyRules (run : Code → Run Completion) : List (CompiledRule × Nat) → Run Completion
  | [] => return .normal
  | (r, i) :: rest => do
    match ← applyRule run i r with
    | .next => return .next
    | .nextFile => return .nextFile
    | .exit => return .exit
    | _ => applyRules run rest

/-- Applies the rules to all records, whose number has a bound. -/
def recordLoop (run : Code → Run Completion) (rules : List (CompiledRule × Nat)) :
    (bound : Nat) → Run Unit
  | 0 => throw .outOfFuel
  | bound + 1 => do
    match ← nextMainRecord with
    | none => return ()
    | some line =>
      modify fun m => { m with record := m.record.setLine line }
      match ← applyRules run rules with
      | .exit => return ()
      | .nextFile =>
        skipFile
        recordLoop run rules bound
      | _ => recordLoop run rules bound

/-- Runs blocks until one ends the program; tells whether one did. -/
def runBlocks (run : Code → Run Completion) : List Code → Run Bool
  | [] => return false
  | code :: rest => do
    match ← runBlock run code with
    | .exit => return true
    | _ => runBlocks run rest

/-- Applies the rules to all records, unless the program has ended or reads no input. -/
def runRules (run : Code → Run Completion) (bound : Nat) (p : Program) (exited : Bool) : Run Unit :=
  if !exited && p.readsInput then recordLoop run p.rules.toList.zipIdx bound else return ()

def runParts (run : Code → Run Completion) (bound : Nat) : Run Unit := do
  let p := (← get).program
  let exited ← runBlocks run p.begin.toList
  runRules run bound p exited
  let _ ← runBlocks run p.final.toList

/-- Runs the program and closes its streams, also when it fails; gives the exit status. -/
def runProgram (run : Code → Run Completion) (bound : Nat) : Run Int := do
  let result ← attempt (runParts run bound)
  closeAll
  resume result
  return (← get).exitStatus

/-! ## Before a run -/

/-- Puts the operands into their variables. -/
def initArgs : Run Unit := do
  modify fun m => { m with specials := { m.specials with argc := Float.ofNat (m.args.length + 1) } }
  let m ← get
  match namedArray m "ARGV" with
  | none => pure ()
  | some slot =>
    let operands := numberedArray m.args
    initArray slot (operands.insert "0" (.str "rawk"))

def initEnviron : Run Unit := do
  let m ← get
  match namedArray m "ENVIRON" with
  | none => pure ()
  | some slot => initArray slot (m.config.environ.map fun _ v => .input v)

/-- The state before a run.  Program, settings, operands, native functions, output, kept patterns, the
standard input and the order of keys stay. -/
def cleared (m : Machine) : Machine :=
  { program := m.program
    config := m.config
    regexes := m.regexes
    globals := Array.replicate m.program.scalarNames.size .null
    arrays := Array.replicate m.program.arrayNames.size {}
    inRange := Array.replicate m.program.rules.size false
    cache := m.cache
    streams := { stdin := m.streams.stdin }
    output := m.output
    natives := m.natives
    keyOrder := m.keyOrder
    args := m.args
    world := m.world }

/-- Assigns the first field separator, if the host has set one. -/
def initFieldSep (config : Config) : Run Unit :=
  match config.fieldSep with
  | some fs => setSpecial .fs (.str (CommandLine.unescape fs))
  | none => return ()

/-- Returns to the state before the first run. -/
def reset : Run Unit := do
  modify cleared
  initArgs
  initEnviron
  let config := (← get).config
  initFieldSep config
  config.vars.toList.forM fun (name, value) => assignNamed name value

end Run

namespace Machine

/-- More steps than any run takes. -/
def fuel : Nat := Number.twoPow 62

def apply {α : Type} (m : Machine) (x : Run α) : Except Fault α × Machine :=
  match x m with
  | .ok a m => (.ok a, m)
  | .error f m => (.error f, m)

def compileRegexes (p : Program) : Except RunError (Array Pattern) :=
  p.regexes.mapM fun source => (Pattern.compile source).mapError fun _ => .regex

def create (program : Program) (config : Config) (world : World) (keyOrder : KeyOrder := {}) :
    Except Fault Machine :=
  match compileRegexes program with
  | .error e => .error (.error e)
  | .ok regexes =>
    let natives := Array.replicate program.nativeNames.size none
    match apply { program, config, regexes, natives, keyOrder, world } Run.reset with
    | (.ok (), m) => .ok m
    | (.error f, _) => .error f

/-- Returns to the state before the first run. -/
def reset (m : Machine) : Except Fault Unit × Machine := m.apply Run.reset

def run (m : Machine) : Except Fault Int × Machine :=
  m.apply (Run.runProgram (fun code => Run.exec fuel code 0) fuel)

def setArgs (m : Machine) (args : List String) : Machine :=
  (({ m with args } : Machine).apply Run.initArgs).2

def setStdin (m : Machine) (pieces : List (List UInt8)) : Machine :=
  { m with streams := { m.streams with stdin := some pieces } }

/-- Provides a native function, which the program has to declare. -/
def registerNative (m : Machine) (name : String)
    (respond : List (List Value) → List Value → Except String Value) : Except RunError Machine :=
  match m.program.nativeNames.findIdx? (· == name) with
  | none => .error (.nativeFunction name "not declared when the program was compiled")
  | some i => .ok { m with natives := m.natives.setIfInBounds i (some { respond }) }

def captureOutput (m : Machine) : Machine :=
  { m with output := { m.output with captured := some ByteArray.empty } }

def deliverOutput (m : Machine) : Machine := { m with output := { m.output with captured := none } }

/-- What was captured since the last time, if output is captured. -/
def takeCaptured (m : Machine) : String × Machine :=
  match m.output.captured with
  | some bytes => (Text.Utf8.toText bytes, m.captureOutput)
  | none => ("", m)

def takeDelivered (m : Machine) : String × Machine :=
  (Text.Utf8.toText m.output.delivered,
    { m with output := { m.output with delivered := ByteArray.empty } })

def setCancelled (m : Machine) (b : Bool) : Machine := { m with cancelled := b }

def global? (m : Machine) (name : String) : Option Value :=
  (m.program.scalarNames.findIdx? (· == name)).bind fun i => m.globals[i]?

end Machine

end Awk
