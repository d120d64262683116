import Awk.Machine.Functions

/-!
# Running code

`exec` runs a stretch of code from an address on.  Most instructions only change the machine; `step` is
what they do.  Jumps, loops over arrays and calls decide how the code goes on.  The bound on the number
of steps is only there to make every run end; the host gives one that no run reaches.
-/

namespace Awk.Run

/-! ## Single instructions -/

/-- Replaces the two top values by a result. -/
def binary (f : Value → Value → Run Value) : Run Unit := do
  let right ← pop
  let left ← pop
  push (← f left right)

def unary (f : Value → Value) : Run Unit := do
  let v ← pop
  push (f v)

/-- Moves the third value from the top to the top, if there are three. -/
def rotate : Run Unit := do
  if 3 ≤ (← get).stack.size then
    let c ← pop
    let b ← pop
    let a ← pop
    push b
    push c
    push a

/-- The text that `print` writes for some values: numbers by their own format. -/
def printed (s : Specials) (args : List Value) : String :=
  s.ofs.intercalate (args.map fun
    | .num x => Format.numberText s.ofmt x
    | v => v.text s.convfmt)

/-- Takes the destination of a text, if it does not go to the output of the program. -/
def destination (kind : Option RedirectKind) : Run (Option (RedirectKind × String)) :=
  match kind with
  | none => return none
  | some kind => do
    let v ← pop
    return some (kind, ← textOf v)

def output (formattedText : Bool) (argCount : Nat) (kind : Option RedirectKind) : Run Unit := do
  let dest ← destination kind
  if formattedText then
    let args ← popMany argCount
    match ← formatted args with
    | some text => writeText dest text
    | none => pure ()
  else if argCount = 0 then
    let m ← get
    writeText dest (m.record.line ++ m.specials.ors)
  else
    let args ← popMany argCount
    let s := (← get).specials
    writeText dest (printed s args ++ s.ors)

def recordTarget (cell : Option Cell) : Run (Option Target) :=
  match cell with
  | none => return none
  | some c => do return some (← target c)

/-- Takes the name of a stream; the main input has none. -/
def sourceName (source : GetlineSource) : Run String :=
  if source = .main then return "" else do textOf (← pop)

/-- Puts a record that was read into a cell, or makes it the current one. -/
def keepRecord (place : Option Target) (record : Option String) : Run Unit :=
  match record, place with
  | none, _ => return ()
  | some line, none => modify fun m => { m with record := m.record.setLine line }
  | some line, some t => store t (.input line)

/-- Reads a record into a cell, or as the current record. -/
def getline (source : GetlineSource) (cell : Option Cell) : Run Unit := do
  let place ← recordTarget cell
  let name ← sourceName source
  let (status, record) ← readRecord source name
  keepRecord place record
  push (.num status)

def popIf (taken : Bool) : Run (Option Value) :=
  if taken then do return some (← pop) else return none

def step : Op → Run Unit
  | .num i => do
    match (← get).program.nums[i]? with
    | some x => push (.num x)
    | none => throw .outOfRange
  | .str i => do
    match (← get).program.strs[i]? with
    | some s => push (.str s)
    | none => throw .outOfRange
  | .dupe => do push ((← get).stack.back?.getD .null)
  | .drop => do
    let _ ← pop
  | .swap => do
    let b ← pop
    let a ← pop
    push b
    push a
  | .rote => rotate
  | .load c => do
    let t ← target c
    push (← load t)
  | .fieldInt n => do
    let n ← fieldNumber (Float.ofNat n)
    push (← getField n)
  | .member a => do
    let key ← textOf (← pop)
    let (_, array) ← arrayOf a
    push (.ofBool (array.contains key))
  | .store c => do
    let t ← target c
    let v ← pop
    store t v
  | .delete a => do
    let key ← textOf (← pop)
    let (slot, array) ← arrayOf a
    setArray slot (array.erase key)
  | .deleteAll a => do
    let (slot, _) ← arrayOf a
    setArray slot {}
  | .incr amount c => do
    let t ← target c
    let old ← load t
    store t (.num (old.toNumber + Number.ofInt amount))
  | .aug op c => do
    let t ← target c
    let right ← pop
    let old ← load t
    store t (.num (← arith op old.toNumber right.toNumber))
  | .regex i => do
    let m ← get
    match m.regexes[i]? with
    | some p => push (.ofBool (p.isMatch m.record.line))
    | none => throw .outOfRange
  | .indexMulti count => do
    let args ← popMany count
    let s := (← get).specials
    push (.str (s.subsep.intercalate (args.map (·.text s.convfmt))))
  | .concatMulti count => do
    let args ← popMany count
    let s := (← get).specials
    push (.str (String.join (args.map (·.text s.convfmt))))
  | .arith op => binary fun a b => return .num (← arith op a.toNumber b.toNumber)
  | .compare c => binary fun a b => do
    return .ofBool (c.holds (a.compare (← get).specials.convfmt b))
  | .concat => binary fun a b => do return .str ((← textOf a) ++ (← textOf b))
  | .match negated => binary fun text source => do
    let p ← pattern (← textOf source)
    return .ofBool (p.isMatch (← textOf text) != negated)
  | .not => unary fun v => .ofBool !v.isTrue
  | .minus => unary fun v => .num (-v.toNumber)
  | .plus => unary fun v => .num v.toNumber
  | .boolean => unary fun v => .ofBool v.isTrue
  | .callBuiltin f count => do
    let args ← popMany count
    push (← callBuiltin f args)
  | .callLengthArray a => do
    let (_, array) ← arrayOf a
    push (.ofNat array.size)
  | .callSplit a hasSep => do
    let sep ← popIf hasSep
    let text ← pop
    push (.ofNat (← splitInto a text sep))
  | .callSub all => do
    let value ← pop
    let replacement ← pop
    let source ← pop
    let (value, count) ← substitute source replacement value all
    push value
    push (.ofNat count)
  | .callNative i count => do
    let args ← popMany count
    push (← callNative i args)
  | .nulls count => modify fun m => { m with stack := m.stack ++ Array.replicate count .null }
  | .output formattedText count kind => output formattedText count kind
  | .getline source cell => getline source cell
  -- what decides how the code goes on changes nothing here
  | .jump _ | .branch _ _ | .next | .nextFile | .exit | .exitStatus | .return | .returnNull
  | .forIn _ _ _ | .breakForIn | .callUser _ _ | .arrayArg _ => pure ()

/-! ## Jumps -/

def taken (t : Test) : Run Bool := do
  match t with
  | .truth expected =>
    let v ← pop
    return v.isTrue == expected
  | .compare c =>
    let right ← pop
    let left ← pop
    return c.holds (left.compare (← get).specials.convfmt right)

/-- The address that a jump leads to, counted from the instruction behind it. -/
def jumpFrom (pc : Nat) (offset : Int) : Nat := (pc + offset).toNat

/-! ## Loops over arrays -/

/-- The keys of an array in the order in which the loop that starts goes through them. -/
def loopKeys (array : ArrayValue) : Run (List String) := modifyGet fun m =>
  (m.keyOrder.arrange m.loops array.keys, { m with loops := m.loops + 1 })

def overKeys (var : ScalarRef) (a : ArrayRef) (body : Run Completion) : List String → Run Completion
  | [] => return .normal
  | key :: rest => do
    let (_, array) ← arrayOf a
    if array.contains key then
      setScalar var (.str key)
      match ← body with
      | .normal => overKeys var a body rest
      | .breakForIn => return .normal
      | other => return other
    else overKeys var a body rest

/-! ## Calls -/

/-- The slots of a function's arrays: those of the arguments first, then new ones. -/
def bindArrays (count : Nat) (args : List ArrayRef) : Run (Array Nat) := do
  let bound ← (args.take count).mapM slotOf
  let missing := count - bound.length
  let m ← get
  let fresh := (List.range missing).map (m.arrays.size + ·)
  modify fun m => { m with arrays := m.arrays ++ Array.replicate missing {} }
  return (bound ++ fresh).toArray

/-- Runs the body of a function with its variables in place, and takes them away again however the body
ends. -/
def withFrame (scalarCount : Nat) (bound : Array Nat) (arrayCount : Nat) (body : Run Completion) :
    Run Completion := do
  let outerBase := (← get).base
  let base := (← get).stack.size - scalarCount
  modify fun m => { m with base, frames := bound :: m.frames }
  let result ← attempt body
  modify fun m => { m with
    base := outerBase
    frames := m.frames.tail
    arrays := m.arrays.shrink arrayCount
    stack := m.stack.shrink base }
  resume result

/-- Calls a function of the program, whose scalar arguments are on the stack; `run` runs its body.  Its
value is pushed in their place. -/
def callUser (run : Code → Run Completion) (i : Nat) (args : List ArrayRef) : Run Completion := do
  match (← get).program.functions[i]? with
  | none => fail (.defect (.unknownFunction i))
  | some f =>
    let maxDepth := (← get).config.maxCallDepth
    if maxDepth ≤ (← get).frames.length then fail (.callDepthExceeded f.name maxDepth)
    else
      let arrayCount := (← get).arrays.size
      let bound ← bindArrays f.arrayCount args
      match ← withFrame f.scalarCount bound arrayCount (run f.body) with
      | .return value =>
        push value
        return .normal
      | .normal | .breakForIn =>
        push .null
        return .normal
      | other => return other

/-- The array arguments of a call, which stand behind it. -/
def arrayArgs (code : Code) (start stop : Nat) : List ArrayRef :=
  (code.extract start stop).toList.filterMap fun
    | .arrayArg a => some a
    | _ => none

/-! ## Code -/

def exec : (fuel : Nat) → Code → (pc : Nat) → Run Completion
  | 0, _, _ => throw .outOfFuel
  | fuel + 1, code, pc =>
    match code[pc]? with
    | none => return .normal
    | some op => do
      tick
      match op with
      | .jump offset => exec fuel code (jumpFrom (pc + 1) offset)
      | .branch t offset =>
        if ← taken t then exec fuel code (jumpFrom (pc + 1) offset) else exec fuel code (pc + 1)
      | .next => return .next
      | .nextFile => return .nextFile
      | .exit => return .exit
      | .exitStatus =>
        let v ← pop
        modify fun m => { m with exitStatus := Number.toInt32 v.toNumber }
        return .exit
      | .return => return .return (← pop)
      | .returnNull => return .return .null
      | .breakForIn => return .breakForIn
      | .forIn var a length =>
        let stop := min (pc + 1 + length) code.size
        let body := code.extract (pc + 1) stop
        let (_, array) ← arrayOf a
        let keys ← loopKeys array
        match ← overKeys var a (exec fuel body 0) keys with
        | .normal => exec fuel code stop
        | other => return other
      | .callUser i count =>
        let stop := min (pc + 1 + count) code.size
        match ← callUser (fun body => exec fuel body 0) i (arrayArgs code (pc + 1) stop) with
        | .normal => exec fuel code stop
        | other => return other
      | op =>
        step op
        exec fuel code (pc + 1)

end Awk.Run
