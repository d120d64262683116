import Awk.CommandLine.Options
import Awk.Compile.Script
import Awk.Machine.Host
import Awk.Machine.Settings
import Awk.Program.Document

/-!
# A run from the command line

What the program does with its arguments, as a function of the world it finds.  Messages go to the
standard error, and after an error the status is two.
-/

namespace Awk.CommandLine

/-- The arguments of a run and what it finds. -/
structure Call where
  args : List String
  world : World
  environ : Std.TreeMap String String := {}
  /-- Where a settings file is looked for, in this order. -/
  settingsNames : List String := ["rawk.toml"]

/-- What a run leaves behind; the world holds the standard error. -/
structure Report where
  status : Int
  stdout : ByteArray := ByteArray.empty
  world : World

/-- Why a run does not come to its program's end. -/
inductive Failure where
  | unreadable (name : String) (e : OsError)
  | invalidToml (name : String)
  | invalidJson (name : String)
  | invalidAssign (text : String)
  | noProgram
  | source (e : SourceError)
  | run (f : Fault)

def Failure.message : Failure → String
  | unreadable name e => "cannot read '" ++ name ++ "': " ++ e.message
  | invalidToml name => "invalid toml in '" ++ name ++ "'"
  | invalidJson name => "invalid json in '" ++ name ++ "'"
  | invalidAssign text => "invalid -v argument " ++ Text.quoted text ++ ", expected var=value"
  | noProgram => "no program given"
  | source e => "compile error: " ++ e.message
  | run (.error e) => e.message
  | run _ => "interpreter thread panicked"

def versionText : String := "rawk 0.5.0\n"

def helpText : String :=
  "An AWK interpreter

Usage: rawk [-F fs] [-v var=val]... [-f progfile]... [prog] [file...]

Arguments:
  [OPERANDS]...  Program text (unless -f or --load-json is given), then input files and var=value " ++
  "assignments. Use \x60--\x60 before a program that starts with \x60-\x60

Options:
  -F <fs>                 Input field separator
  -v <var=val>            Assign a variable before BEGIN runs
  -f <progfile>           Read the program from a file instead of the first operand
      --load-json <path>  Run a program written earlier by --emit-json
      --disasm            Print the compiled bytecode to stderr before running
      --dump-types        Print the resolved variable kinds and exit
      --emit-json         Print the compiled program as JSON and exit
      --config <path>     Use this config file instead of searching for rawk.toml
  -h, --help              Print help
  -V, --version           Print version
"

/-- What a run is made of: it changes the world, and may fail. -/
abbrev Task := EStateM Failure World

def readFile (name : String) : Task String := fun w =>
  match w.readText name with
  | (.ok text, w) => .ok text w
  | (.error e, w) => .error (.unreadable name e) w

def readStdin : Task String := fun w =>
  match w.readStdin with
  | (.ok text, w) => .ok text w
  | (.error e, w) => .error (.unreadable "-" e) w

def findFile : List String → Task (Option String)
  | [] => return none
  | name :: rest => fun w =>
    match w.locate name with
    | .ok (.file _) => .ok (some name) w
    | _ => findFile rest (w.miss name)

def readSettings (c : Config) (name : String) : Task Config := do
  match c.ofFile? (← readFile name) with
  | some c => return c
  | none => throw (.invalidToml name)

def fileSettings (call : Call) (o : Options) : Task Config := do
  let c : Config := { environ := call.environ }
  match o.config with
  | some name => readSettings c name
  | none =>
    match ← findFile call.settingsNames with
    | some name => readSettings c name
    | none => return c

def withAssign (c : Config) (text : String) : Task Config :=
  match splitAssignment text with
  | some (name, value) => return { c with vars := c.vars.insert name value }
  | none => throw (.invalidAssign text)

/-- The settings with what the options ask for.  The letter t alone stands for a tab. -/
def withOptions (c : Config) (o : Options) : Task Config :=
  let sep := o.fieldSep.map fun fs => if fs = "t" then "\t" else fs
  o.assigns.foldlM withAssign { c with fieldSep := sep.or c.fieldSep }

/-- The text of a program in several files, each with a line end behind it. -/
def readSources : List String → Task String
  | [] => return ""
  | name :: rest => do
    let text ← if name = "-" then readStdin else readFile name
    return text ++ "\n" ++ (← readSources rest)

def programText (o : Options) : Task (String × List String) := do
  if o.programFiles.isEmpty then
    match o.operands with
    | [] => throw .noProgram
    | text :: rest => return (text, rest)
  else return (← readSources o.programFiles, o.operands)

def loadProgram (name : String) : Task Program := do
  match Program.load? (← readFile name) with
  | some p => return p
  | none => throw (.invalidJson name)

/-- Something about a program text, or why there is none. -/
def ofSource {α : Type} : Except SourceError α → Task α
  | .ok a => return a
  | .error e => throw (.source e)

inductive Plan where
  | write (text : String)
  | run (p : Program) (config : Config) (operands : List String)

def planFor (o : Options) (p : Program) (config : Config) (operands : List String) : Plan :=
  if o.emitJson then .write (p.emit ++ "\n") else .run p config operands

def plan (call : Call) (o : Options) : Task Plan := do
  let config ← withOptions (← fileSettings call o) o
  match o.compiled with
  | some name => return planFor o (← loadProgram name) config o.operands
  | none =>
    let (text, operands) ← programText o
    if o.dumpTypes then
      return .write (← ofSource (Resolution.ofSource text [])).dump
    else return planFor o (← ofSource (Program.ofSource text [])) config operands

def complain (w : World) (f : Failure) : World :=
  w.writeError ("rawk: " ++ f.message ++ "\n").toUTF8

def runProgram (p : Program) (config : Config) (operands : List String) (w : World) : Report :=
  match Machine.create p config w with
  | .error f => { status := 2, world := complain w (.run f) }
  | .ok m =>
    match (m.setArgs operands).run with
    | (.ok status, m) => { status, stdout := m.output.delivered, world := m.world }
    | (.error f, m) =>
      { status := 2, stdout := m.output.delivered, world := complain m.world (.run f) }

def Call.runOptions (call : Call) (o : Options) : Report :=
  match plan call o call.world with
  | .error f w => { status := 2, world := complain w f }
  | .ok (.write text) w => { status := 0, stdout := text.toUTF8, world := w }
  | .ok (.run p config operands) w =>
    let w := if o.disasm then w.writeError p.listing.toUTF8 else w
    runProgram p config operands w

def Call.run (call : Call) : Report :=
  match Options.ofArgs call.args with
  | .help => { status := 0, stdout := helpText.toUTF8, world := call.world }
  | .version => { status := 0, stdout := versionText.toUTF8, world := call.world }
  | .mistake m =>
    { status := 2, world := call.world.writeError ("error: " ++ m.message ++ "\n").toUTF8 }
  | .options o => call.runOptions o

/-- The status as the system keeps it: eight bits. -/
def Report.exitCode (r : Report) : Nat := (r.status % 256).toNat

end Awk.CommandLine
