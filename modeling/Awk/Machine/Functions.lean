import Awk.Machine.Streams
import Awk.Text.Part

/-!
# Operations and functions of the machine
-/

namespace Awk.Run

/-- The result of an operation on two numbers. -/
def arith (op : Arith) (left right : Float) : Run Float :=
  match op with
  | .add => return left + right
  | .sub => return left - right
  | .mul => return left * right
  | .div => if right == 0 then fail .divisionByZero else return left / right
  | .mod => if right == 0 then fail .divisionByZeroMod else return Number.remainder left right
  | .pow => return left ^ right

def textArg (args : List Value) (i : Nat) : Run String := textOf (args.getD i .null)

def numberArg (args : List Value) (i : Nat) : Float := (args.getD i .null).toNumber

/-- A text with the values put into its directives. -/
def formatted (args : List Value) : Run (Option String) := do
  match args with
  | [] => return none
  | format :: rest =>
    let convfmt := (← get).specials.convfmt
    match Format.sprintf (format.text convfmt) rest convfmt with
    | .ok s => return some s
    | .error e => fail (.format e)

/-- Where a pattern first matches in a text: the position and the length of the match, which also become
special variables. -/
def matchIn (text source : String) : Run Value := do
  let p ← pattern source
  let (start, length) : Float × Float := match p.find text.toList with
    | some span => (Float.ofNat (span.start + 1), Float.ofNat span.length)
    | none => (0, -1)
  modifySpecials fun s => { s with rstart := start, rlength := length }
  return .num start

/-- Starts the pseudorandom numbers from a seed; gives the seed before. -/
def reseed (seed : Option Value) : Run Value := modifyGet fun m =>
  let seed := match seed with
    | some v => v.toNumber
    | none => Float.ofNat m.world.clock
  (.num m.seed, { m with seed, random := .ofSeed seed.toBits })

def draw : Run Value := modifyGet fun m =>
  let (x, random) := m.random.next
  (.num x, { m with random })

def callBuiltin (f : Builtin) (args : List Value) : Run Value := do
  match f with
  | .atan2 => return .num (Float.atan2 (numberArg args 0) (numberArg args 1))
  | .cos => return .num (numberArg args 0).cos
  | .sin => return .num (numberArg args 0).sin
  | .exp => return .num (numberArg args 0).exp
  | .log => return .num (numberArg args 0).log
  | .sqrt => return .num (numberArg args 0).sqrt
  | .int => return .num (Number.truncated (numberArg args 0))
  | .length =>
    if args.isEmpty then return .ofNat (← get).record.line.length
    else return .ofNat (← textArg args 0).length
  | .index =>
    let text ← textArg args 0
    return .ofNat (Text.indexOf text.toList (← textArg args 1).toList)
  | .match =>
    let text ← textArg args 0
    matchIn text (← textArg args 1)
  | .substr =>
    let text ← textArg args 0
    -- the characters are laid out in memory, which has no room for so many
    if text.length + 1 < 0x20000000000000 then
      match Text.substr text.toList (numberArg args 1) (args[2]?.map Value.toNumber) with
      | some part => return .str (String.ofList part)
      | none => throw .outOfRange
    else throw .outOfFuel
  | .tolower => return .str (Text.Unicode.toLower (← textArg args 0))
  | .toupper => return .str (Text.Unicode.toUpper (← textArg args 0))
  | .sprintf => return .str ((← formatted args).getD "")
  | .rand => draw
  | .srand => reseed args.head?
  | .system => return .num (← runCommand (← textArg args 0))
  | .close => return .num (← closeStream (← textArg args 0))
  | .fflush =>
    match args with
    | [] => return .num (← flushStream none)
    | v :: _ => return .num (← flushStream (some (← textOf v)))
  | .split | .sub | .gsub => fail (.defect (.ownInstruction f))

def numberedArray (parts : List String) : ArrayValue :=
  (parts.zipIdx 1).foldl (fun a (s, i) => a.insert (Number.natText i) (.input s)) {}

def separator (sep : Option Value) : Run FieldSep :=
  match sep with
  | none => do return (← get).record.sep
  | some v => do
    let source ← textOf v
    lookUp (FieldSep.ofText · source)

def splitInto (a : ArrayRef) (text : Value) (sep : Option Value) : Run Nat := do
  let text ← textOf text
  let sep ← separator sep
  let parts := (sep.splitText text false).toList
  let (slot, _) ← arrayOf a
  setArray slot (numberedArray parts)
  return parts.length

/-- The text after a substitution, and how often something was replaced.  Without a match the value comes
back as it was. -/
def substitute (source replacement value : Value) (all : Bool) : Run (Value × Nat) := do
  let p ← pattern (← textOf source)
  let text := (← textOf value).toList
  let replacement ← textOf replacement
  let spans := if all then p.findAll text else (p.find text).toList
  if spans.isEmpty then return (value, 0)
  else
    return (.str (String.ofList (Text.replaceSpans replacement.toList spans 0 text)), spans.length)

def callNative (i : Nat) (args : List Value) : Run Value := do
  let m ← get
  let name := m.program.nativeNames.getD i ""
  match m.natives[i]?.join with
  | none => fail (.nativeFunction name "no implementation registered")
  | some native =>
    let called := { native with earlier := args :: native.earlier }
    modify fun m => { m with natives := m.natives.setIfInBounds i (some called) }
    match native.respond native.earlier args with
    | .ok v => return v
    | .error message => fail (.nativeFunction name message)

end Awk.Run
