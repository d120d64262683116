import Awk.World.Shell.Expansion
import Awk.World.Shell.Programs
import Awk.World.Shell.Reader

/-!
# The shell

A program can run command lines.  They are run here, on the world around the program: lists, pipelines,
choices, loops and functions, with the programs of `Program.find?`.  A command that is not known ends with
status 127, as one that is not found does.
-/

namespace Awk.Shell

namespace Job

/-! ## Redirections -/

def openError (verb name : String) (e : OsError) : String :=
  let reason := match e with
    | .notFound | .notDirectory => if verb = "open" then "No such file" else "Directory nonexistent"
    | _ => Program.errorText e
  "cannot " ++ verb ++ " " ++ name ++ ": " ++ reason

def connectOpened (n : Nat) (verb name : String) : Except OsError Stream → Job Bool
  | .ok s => do
    connect n (some s)
    return true
  | .error e => do
    report (openError verb name e)
    return false

variable (run : Command → Job Unit)

/-- Connects streams; tells whether all of that worked. -/
def redirect : List Redirection → Job Bool
  | [] => return true
  | r :: rest => do
    let done ← match r with
      | .input n w => do
        let name ← wordText run w
        connectOpened n "open" name (← openInput name)
      | .output n w append => do
        let name ← wordText run w
        connectOpened n "create" name (← openOutput name append)
      | .document n number => do
        let text ← wordText run ((← get).documents.getD number [])
        connect n (some (← addInput text.toUTF8))
        pure true
      | .copy n w => do
        let other ← wordText run w
        if other = "-" then
          connect n none
          pure true
        else
          match other.toNat? with
          | none =>
            report "Syntax error: Bad fd number"
            finish 2
            pure false
          | some m =>
            match ← stream? m with
            | some s =>
              connect n (some s)
              pure true
            | none =>
              report (other ++ ": Bad file descriptor")
              pure false
    if done then redirect rest else return false

/-- Does something with streams connected, which are as before after it. -/
def withRedirections (rs : List Redirection) (special : Bool) (job : Job Unit) : Job Unit := do
  let streams := (← get).streams
  if ← redirect run rs then job
  else if special then finish 2
  else setStatus 2
  modify fun p => { p with streams }

/-! ## Simple commands -/

def assignAll (assignments : List (String × Word)) : Job Unit :=
  assignments.forM fun (name, w) => do assign name (← wordText run w)

def callFunction (body : Command) (args : List String) : Job Unit := do
  let p ← get
  set { p with parameters := args, loops := 0 }
  run body
  modify fun q =>
    { q with
      parameters := p.parameters
      loops := p.loops
      leaving := if q.leaving = some .function then none else q.leaving }

def call (name : String) (args : List String) : Job Unit := do
  match (← get).functions.lookup name, Program.find? name with
  | some body, _ => callFunction run body args
  | none, some program => setStatus (← program args)
  | none, none =>
    report (name ++ ": not found")
    setStatus 127

/-- Runs a simple command.  Without a name its status is that of the last command put in. -/
def execSimple (assignments : List (String × Word)) (words : List Word)
    (rs : List Redirection) : Job Unit := do
  modify fun p => { p with inner := none }
  let texts ← allFields run words
  if ← goesOn then
    match texts with
    | [] =>
      withRedirections run rs false do
        assignAll run assignments
        if ← goesOn then
          let p ← get
          setStatus (p.inner.getD 0)
    | name :: args =>
      let special := Program.special.contains name
      withRedirections run rs special do
        let vars := (← get).vars
        assignAll run assignments
        if ← goesOn then
          call run name args
          if !special && !assignments.isEmpty then modify fun p => { p with vars }

/-! ## Commands made of others -/

/-- Runs commands, each on what the one before it writes, and each in a shell of its own. -/
def execStages : List Command → Job Unit
  | [] => return
  | [c] => subshell (run c)
  | c :: rest => do
    let bytes ← captured (run c)
    let streams := (← get).streams
    connect 0 (some (← addInput bytes))
    execStages rest
    modify fun p => { p with streams }

def afterTurn : Job Bool := modifyGet fun p =>
  match p.leaving with
  | none => (true, p)
  | some (.turn 1) => (true, { p with leaving := none })
  | some (.turn n) => (false, { p with leaving := some (.turn (n - 1)) })
  | some (.loops 1) => (false, { p with leaving := none })
  | some (.loops n) => (false, { p with leaving := some (.loops (n - 1)) })
  | some _ => (false, p)

def inLoop (job : Job Unit) : Job Unit := do
  modify fun p => { p with loops := p.loops + 1 }
  job
  modify fun p => { p with loops := p.loops - 1 }

def execEach (name : String) (body : Command) : List String → Job Unit
  | [] => return
  | s :: rest => do
    assign name s
    run body
    if ← afterTurn then execEach name body rest

def selectArm (text : String) : List (List Word × Command) → Job (Option Command)
  | [] => return none
  | (ws, c) :: rest => do
    let found ← ws.anyM fun w => do
      return (Pattern.ofText (Piece.marked (← pieces run w))).fits (bytesOf text)
    if found then return some c else selectArm text rest

mutual

/-- Runs a command.  `fuel` bounds the steps one inside the other. -/
def exec : (fuel : Nat) → Command → Job Unit
  | 0, _ => return
  | fuel + 1, c => do
    if !(← goesOn) then return
    match c with
    | .nothing => setStatus 0
    | .simple assignments words rs => execSimple (exec fuel) assignments words rs
    | .redirected c rs => withRedirections (exec fuel) rs false (exec fuel c)
    | .pipeline cs => execStages (exec fuel) cs
    | .negated c =>
      exec fuel c
      if ← goesOn then setStatus (if (← get).status = 0 then 1 else 0)
    | .both a b =>
      exec fuel a
      if (← goesOn) && (← get).status == 0 then exec fuel b
    | .either a b =>
      exec fuel a
      if (← goesOn) && (← get).status != 0 then exec fuel b
    | .sequence a b =>
      exec fuel a
      exec fuel b
    | .background c =>
      subshell do
        connect 0 (some (.sink .null))
        exec fuel c
      setStatus 0
    | .subshell c => subshell (exec fuel c)
    | .choice condition yes no =>
      exec fuel condition
      if ← goesOn then exec fuel (if (← get).status = 0 then yes else no)
    | .loop whileFails condition body => inLoop (execLoop fuel whileFails condition body 0)
    | .each name words body =>
      let texts ← match words with
        | some ws => allFields (exec fuel) ws
        | none => pure (← get).parameters
      if ← goesOn then
        setStatus 0
        inLoop (execEach (exec fuel) name body texts)
    | .select w arms =>
      let text ← wordText (exec fuel) w
      let found ← selectArm (exec fuel) text arms
      if ← goesOn then
        match found with
        | some c => exec fuel c
        | none => setStatus 0
    | .define name body =>
      modify fun p => { p with functions := (name, body) :: p.functions, status := 0 }

/-- Runs a loop, of which the last turn ended with a status. -/
def execLoop : (fuel : Nat) → (whileFails : Bool) → (condition body : Command) → (last : Nat) → Job Unit
  | 0, _, _, _, _ => return
  | fuel + 1, whileFails, condition, body, last => do
    exec fuel condition
    if !(← afterTurn) then return
    if ((← get).status == 0) == whileFails then setStatus last
    else
      exec fuel body
      let last := (← get).status
      if ← afterTurn then execLoop fuel whileFails condition body last

end

/-! ## Command lines -/

/-- More steps than any command line takes. -/
def stepBound : Nat := 1000000000

def countLines (r q : Reader) : Job Unit :=
  let read := r.rest.take (r.rest.length - q.rest.length)
  modify fun p => { p with line := p.line + read.count '\n' }

/-- Runs the lines of a reader one after the other.  `bound` is their number. -/
def execLines : (bound : Nat) → Reader → Job Unit
  | 0, _ => return
  | bound + 1, r => do
    match (Read.line (20 * r.rest.length + 100)).run r with
    | .error m q =>
      countLines r q
      report ("Syntax error: " ++ m.message)
      finish 2
    | .ok none _ => return
    | .ok (some c) q =>
      modify fun p => { p with documents := q.documents }
      exec stepBound c
      countLines r q
      if ← goesOn then execLines bound q

end Job

/-- The greatest size of a command line, in bytes. -/
def maxLength : Nat := 131071

/-- Why a command line cannot be handed to a shell, if it cannot. -/
def startError? (command : String) : Option OsError :=
  if command.toList.contains '\x00' then some .nullInCommand
  else if maxLength < command.utf8ByteSize then some .commandTooLong
  else none

def process (w : World) (command : String) (input : ByteArray) : Process :=
  ((Job.execLines (command.length + 1) { rest := command.toList }).run { world := w, inputs := #[input] }).2

def ignoresInput (w : World) (command : String) : Bool :=
  !((process w command ⟨#[10]⟩).inputs.getD 0 ByteArray.empty).isEmpty

/-- What a command line writes, how it ends, and the world after it.  Its input is `piped`, or else the
standard input of the process. -/
def run (w : World) (command : String) (piped : Option ByteArray) : ByteArray × Ending × World :=
  let p := process { w with deeds := [] } command (piped.getD ⟨w.stdin.flatten.toArray⟩)
  let left := p.inputs.getD 0 ByteArray.empty
  -- what the command did comes after the command itself and what was done before
  let world := { p.world with deeds := p.world.deeds ++ .command command :: w.deeds }
  let world := if piped.isNone then { world with stdin := if left.isEmpty then [] else [left.toList] } else world
  let ending := match p.leaving with
    | some (.ended e) => e
    | _ => .exited p.status
  (p.outputs.getD 0 ByteArray.empty, ending, world)

end Awk.Shell
