import Awk.World.Shell.Arithmetic
import Awk.World.Shell.Pattern
import Awk.World.Shell.Process

/-!
# Words put in place

Before a command runs, the parts of its words are replaced by what they stand for.  What is not quoted is
then divided at blanks, and patterns are replaced by the names of files.  How a command is run is a
parameter here, since words can hold commands.
-/

namespace Awk.Shell

inductive Piece where
  | char (c : Char) (quoted : Bool)
  /-- A character that was put in without quotes, at which a word can be divided. -/
  | loose (c : Char)
  /-- A sign that there is a text, even if it is empty. -/
  | present
  | boundary
deriving DecidableEq, Repr

namespace Piece

def ofText (s : String) (quoted : Bool) : List Piece :=
  if quoted then .present :: s.toList.map (.char · true) else s.toList.map .loose

def char? : Piece → Option (Char × Bool)
  | char c quoted => some (c, quoted)
  | loose c => some (c, false)
  | boundary => some (' ', true)
  | present => none

/-- A piece of a text that stands for a value, and can be divided like one. -/
def loosened : Piece → Piece
  | char c false => loose c
  | p => p

def marked (ps : List Piece) : Marked := ps.filterMap char?

/-- A text that is being put together: its characters, the last one first, whether there is one, and
whether blanks were just passed. -/
structure Draft where
  chars : Marked := []
  present : Bool := false
  afterBlank : Bool := false

/-- The texts before, the last one first, with one that has ended. -/
def Draft.close (d : Draft) (before : List Marked) : List Marked :=
  if d.present then d.chars.reverse :: before else before

/-- Divides pieces into texts at separators.  Separators that are blanks count once; others end a text
each. -/
def divide (separators : List Char) : Draft → (before : List Marked) → List Piece → List Marked
  | d, before, [] => (d.close before).reverse
  | d, before, p :: rest =>
    match p with
    | char c quoted => divide separators ⟨(c, quoted) :: d.chars, true, false⟩ before rest
    | present => divide separators { d with present := true, afterBlank := false } before rest
    | boundary => divide separators {} (d.close before) rest
    | loose c =>
      if !separators.contains c then divide separators ⟨(c, false) :: d.chars, true, false⟩ before rest
      else if c = ' ' ∨ c = '\t' ∨ c = '\n' then
        divide separators { afterBlank := d.present || d.afterBlank } (d.close before) rest
      else if d.present ∨ ¬d.afterBlank then divide separators {} (d.chars.reverse :: before) rest
      else divide separators {} before rest

end Piece

namespace Job

def value? (name : String) : Job (Option String) := do
  let p ← get
  return match name with
    | "?" => some (Number.natText p.status)
    | "$" => some (Number.natText processNumber)
    | "#" => some (Number.natText p.parameters.length)
    | "0" => some "sh"
    | "-" => some ""
    | "!" => none
    | "@" | "*" => if p.parameters.isEmpty then none else some (" ".intercalate p.parameters)
    | _ =>
      match name.toNat? with
      | some n => p.parameters[n - 1]?
      | none => p.vars[name]?

def assign (name value : String) : Job Unit :=
  modify fun p => { p with vars := p.vars.insert name value }

def separators : Job (List Char) := return ((← get).vars.getD "IFS" " \t\n").toList

def abort (message : String) : Job Unit := do
  report message
  finish 2

/-- The pieces of all parameters.  In quotes, `@` keeps them apart and `*` joins them. -/
def parameterPieces (name : String) (quoted : Bool) : Job (List Piece) := do
  let ps := (← get).parameters
  if quoted && name == "*" then
    let sep := String.ofList ((← separators).take 1)
    return Piece.ofText (sep.intercalate ps) true
  else return ((ps.map fun s => Piece.ofText s quoted).intersperse [.boundary]).flatten

def calculate (s : String) : Job String := do
  let fail (reason : String) : Job String := do
    abort ("arithmetic expression: " ++ reason ++ ": \"" ++ s ++ "\"")
    return ""
  match Arithmetic.read s >>= Arithmetic.eval (← get).vars with
  | .ok (n, vars) =>
    modify fun p => { p with vars }
    return Arithmetic.text n
  | .error .divisionByZero => fail "division by zero"
  | .error (.expected what) => fail ("expecting " ++ what)
  | .error (.notANumber text) => do
    abort ("Illegal number: " ++ text)
    return ""

variable (run : Command → Job Unit)

/-- What a command writes, without the line ends at its end. -/
def outputText (c : Command) : Job String := do
  let status := (← get).status
  let bytes ← captured (run c)
  modify fun p => { p with inner := some p.status, status }
  let s := Text.Utf8.toText bytes
  return String.ofList ((s.toList.filter (· != '\x00')).reverse.dropWhile (· == '\n')).reverse

mutual

def piecesOf : Part → Job (List Piece)
  | .text s quoted => return (if quoted then [.present] else []) ++ s.toList.map (.char · quoted)
  | .output c quoted => return Piece.ofText (← outputText run c) quoted
  | .number expr quoted => do
    let s := (Piece.marked (← pieces expr)).text
    return Piece.ofText (← calculate s) quoted
  | .value name change word quoted => do
    let value ← value? name
    let isSet (empty : Bool) : Bool := value.any fun s => !(empty && s.isEmpty)
    let text := value.getD ""
    let whole : Job (List Piece) :=
      if name = "@" ∨ name = "*" then parameterPieces name quoted else return Piece.ofText text quoted
    let other : Job (List Piece) := do
      let ps ← pieces word
      return if quoted then .present :: ps else ps.map Piece.loosened
    match change with
    | .asIs => whole
    | .unknown =>
      abort "Bad substitution"
      return []
    | .length => return Piece.ofText (Number.natText text.utf8ByteSize) quoted
    | .orElse empty => if isSet empty then whole else other
    | .ifSet empty => if isSet empty then other else return Piece.ofText "" quoted
    | .orAssign empty =>
      if isSet empty then whole
      else
        let s := (Piece.marked (← pieces word)).text
        assign name s
        return Piece.ofText s quoted
    | .orFail empty =>
      if isSet empty then whole
      else
        let s := (Piece.marked (← pieces word)).text
        let reason := if s.isEmpty then "parameter not set" ++ (if empty then " or null" else "") else s
        abort (name ++ ": " ++ reason)
        return []
    | .withoutStart longest =>
      let p := Pattern.ofText (Piece.marked (← pieces word))
      return Piece.ofText (p.dropStart longest text) quoted
    | .withoutEnd longest =>
      let p := Pattern.ofText (Piece.marked (← pieces word))
      return Piece.ofText (p.dropEnd longest text) quoted

def pieces : List Part → Job (List Piece)
  | [] => return []
  | part :: rest => do
    let first ← piecesOf part
    return first ++ (← pieces rest)

end

def wordText (w : Word) : Job String := do
  return (Piece.marked (← pieces run w)).text

def fields (w : Word) : Job (List String) := do
  let found := Piece.divide (← separators) {} [] (← pieces run w)
  let world := (found.filter Pattern.hasMeaning).foldl (fun w s => w.list (Pattern.directory s)) (← get).world
  modify fun p => { p with world }
  return found.flatMap (Pattern.paths world)

def allFields (ws : List Word) : Job (List String) := return (← ws.mapM (fields run)).flatten

end Job

end Awk.Shell
