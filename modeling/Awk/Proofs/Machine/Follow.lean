import Awk.Machine.Exec
import Awk.Proofs.Code.Verified
import Awk.Proofs.Machine.Context

/-!
# Running code, step by step

What an instruction does with the rest of the code is the same however the rest is run.  `follow` says it
once, and `execWith` runs code with any action before every instruction: `exec` counts instructions there.
-/

namespace Awk

namespace Machine

/-- The machine with new arrays behind those that it has. -/
def withArrays (m : Machine) (count : Nat) : Machine :=
  { m with arrays := m.arrays ++ Array.replicate count {} }

/-- The machine at the start of a function's body. -/
def enter (m : Machine) (scalarCount : Nat) (slots : Array Nat) : Machine :=
  { m with base := m.stack.size - scalarCount, frames := slots :: m.frames }

/-- The machine behind a function's body, which `outer` is the machine before. -/
def leave (m outer : Machine) (scalarCount arrayCount : Nat) : Machine :=
  { m with
    base := outer.base
    frames := m.frames.tail
    arrays := m.arrays.shrink arrayCount
    stack := m.stack.shrink (outer.stack.size - scalarCount) }

/-- What a call finds: the function, unless one more would be too many, and the slots of the arrays passed. -/
def callee (m : Machine) (i : Nat) (args : List ArrayRef) : Except Fault (CompiledFunction × List Nat) :=
  match m.program.functions[i]? with
  | none => .error (.error (.defect (.unknownFunction i)))
  | some f =>
    if m.config.maxCallDepth ≤ m.frames.length then
      .error (.error (.callDepthExceeded f.name m.config.maxCallDepth))
    else ((args.take f.arrayCount).mapM (Run.slotIn m.frames)).map (f, ·)

variable {m : Machine} {i : Nat} {f : CompiledFunction} {args : List ArrayRef} {bound : List Nat}

lemma callee_eq_ok : m.callee i args = .ok (f, bound) ↔ m.program.functions[i]? = some f ∧
    m.frames.length < m.config.maxCallDepth ∧ (args.take f.arrayCount).mapM (Run.slotIn m.frames) = .ok bound := by
  rw [callee]
  cases m.program.functions[i]? with
  | none => simp
  | some f' =>
    dsimp only
    split_ifs with hdepth
    · simp [hdepth]
    · rw [Option.some.injEq, ← Nat.not_le]
      cases h : (args.take f'.arrayCount).mapM (Run.slotIn m.frames) with
      | error fault => simp only [Except.map]; grind
      | ok bound' => simp only [Except.map]; grind

lemma callee_tooDeep (hf : m.program.functions[i]? = some f) (hdepth : m.config.maxCallDepth ≤ m.frames.length) :
    m.callee i args = .error (.error (.callDepthExceeded f.name m.config.maxCallDepth)) := by
  rw [callee, hf]
  exact if_pos hdepth

/-- The slots of a function's arrays: those that are passed first, then new ones. -/
def slots (m : Machine) (f : CompiledFunction) (bound : List Nat) : Array Nat :=
  (bound ++ (List.range (f.arrayCount - bound.length)).map (m.arrays.size + ·)).toArray

/-- The machine at the start of the body of a function that is called. -/
def calling (m : Machine) (f : CompiledFunction) (bound : List Nat) : Machine :=
  (m.withArrays (f.arrayCount - bound.length)).enter f.scalarCount (m.slots f bound)

end Machine

/-- An instruction that decides itself how the code goes on. -/
def Op.isControl : Op → Bool
  | .jump _ | .branch _ _ | .next | .nextFile | .exit | .exitStatus | .return | .returnNull => true
  | .forIn _ _ _ | .breakForIn | .callUser _ _ => true
  | _ => false

lemma Op.targets_of_not_isControl {pc : Nat} {op : Op} (h : op.isControl = false) :
    op.targets pc = [(pc + 1 : Int)] := by
  cases op <;> first | rfl | cases h

namespace Run

lemma withFrame_apply (scalarCount : Nat) (slots : Array Nat) (arrayCount : Nat) (body : Run Completion)
    (m : Machine) : withFrame scalarCount slots arrayCount body m =
      (body (m.enter scalarCount slots)).mapState (·.leave m scalarCount arrayCount) := by
  change EStateM.bind (attempt body) _ (m.enter scalarCount slots) = _
  rw [EStateM.bind, attempt]
  cases body (m.enter scalarCount slots) <;> rfl

/-- What a call makes of how the body of the function ended: its value is pushed. -/
def conclude : Completion → Run Completion
  | .return value => do
    push value
    return .normal
  | .normal | .breakForIn => do
    push .null
    return .normal
  | other => return other

lemma mapM_slotOf (args : List ArrayRef) (m : Machine) :
    args.mapM slotOf m = resume (args.mapM (slotIn m.frames)) m := by
  induction args with
  | nil => rfl
  | cons a args ih =>
    rw [List.mapM_cons, List.mapM_cons, bind_apply, slotOf_eq, get_bind_apply]
    cases slotIn m.frames a with
    | error fault => rfl
    | ok slot =>
      change (args.mapM slotOf >>= _ : Run (List Nat)) m = _
      rw [bind_apply, ih]
      cases args.mapM (slotIn m.frames) <;> rfl

/-- A call fails before it starts, or the body of the function is run in its place. -/
lemma callUser_apply (run : Code → Run Completion) (i : Nat) (args : List ArrayRef) (m : Machine) :
    callUser run i args m = match m.callee i args with
      | .error fault => .error fault m
      | .ok (f, bound) => match run f.body (m.calling f bound) with
        | .ok c n => conclude c (n.leave m f.scalarCount m.arrays.size)
        | .error fault n => .error fault (n.leave m f.scalarCount m.arrays.size) := by
  rw [callUser, get_bind_apply, Machine.callee]
  cases m.program.functions[i]? with
  | none => rfl
  | some f =>
    change (if m.config.maxCallDepth ≤ m.frames.length then _ else _ : Run Completion) m = _
    dsimp only
    split_ifs with hdepth
    · rfl
    · change (bindArrays f.arrayCount args >>= _ : Run Completion) m = _
      rw [bind_apply, bindArrays, bind_apply, mapM_slotOf]
      cases (args.take f.arrayCount).mapM (slotIn m.frames) with
      | error fault => rfl
      | ok bound =>
        change (withFrame f.scalarCount (m.slots f bound) m.arrays.size (run f.body) >>= conclude)
          (m.withArrays (f.arrayCount - bound.length)) = _
        rw [bind_apply, withFrame_apply, ← Machine.calling]
        dsimp only [Except.map]
        cases run f.body (m.calling f bound) <;> rfl

/-! ## One instruction -/

/-- An instruction, and then the rest of the code: `next` runs it from an address on, `inner` runs the body
of a loop over an array, and `called` the body of a function. -/
def follow (next : Nat → Run Completion) (inner : Code → Run Completion)
    (called : Nat → Code → Run Completion) (code : Code) (pc : Nat) : Op → Run Completion
  | .jump offset => next (jumpFrom (pc + 1) offset)
  | .branch t offset => do
    if ← taken t then next (jumpFrom (pc + 1) offset) else next (pc + 1)
  | .next => return .next
  | .nextFile => return .nextFile
  | .exit => return .exit
  | .exitStatus => do
    let v ← pop
    modify fun m => { m with exitStatus := Number.toInt32 v.toNumber }
    return .exit
  | .return => do return .return (← pop)
  | .returnNull => return .return .null
  | .breakForIn => return .breakForIn
  | .forIn var a length => do
    let stop := min (pc + 1 + length) code.size
    let (_, array) ← arrayOf a
    let keys ← loopKeys array
    match ← overKeys var a (inner (code.extract (pc + 1) stop)) keys with
    | .normal => next stop
    | other => return other
  | .callUser i count => do
    let stop := min (pc + 1 + count) code.size
    match ← callUser (called i) i (arrayArgs code (pc + 1) stop) with
    | .normal => next stop
    | other => return other
  | op => do
    step op
    next (pc + 1)

/-- All other instructions change the machine, and the code goes on behind them. -/
lemma follow_step {next : Nat → Run Completion} {inner : Code → Run Completion}
    {called : Nat → Code → Run Completion} {code : Code} {pc : Nat} {op : Op} (h : op.isControl = false) :
    follow next inner called code pc op = step op >>= fun _ => next (pc + 1) := by
  cases op <;> first | rfl | cases h

/-! ## Running code -/

/-- Whether a program stops when an instruction is counted, and the machine after that. -/
def counted (m : Machine) : Bool × Machine :=
  let goesOn := decide (m.ticks + 1 < m.config.cancelCheckInterval)
  (!goesOn && m.cancelled, { m with ticks := if goesOn then m.ticks + 1 else 0 })

lemma tick_eq_counted : tick = modifyGet counted >>= fun stopped => if stopped then fail .cancelled else pure () := by
  funext m
  change (if m.ticks + 1 < m.config.cancelCheckInterval then _ else _ : Run Unit) m =
    (if (counted m).1 then fail .cancelled else pure () : Run Unit) (counted m).2
  rw [counted]
  split
  · rw [decide_eq_true ‹_›]
    rfl
  · rw [decide_eq_false ‹_›]
    rfl

lemma tick_apply (m : Machine) :
    tick m = if (counted m).1 then .error (.error .cancelled) (counted m).2 else .ok () (counted m).2 := by
  rw [tick_eq_counted]
  change (if (counted m).1 then fail .cancelled else pure () : Run Unit) (counted m).2 = _
  split <;> rfl

/-- Runs code from an address on, with an action before every instruction.  The action is told where the
operands of the code at work start, `floor`, which for a function is behind its scalars. -/
def execWith (before : (floor : Nat) → Op → Run Unit) : (fuel floor : Nat) → Code → (pc : Nat) →
    Run Completion
  | 0, _, _, _ => throw .outOfFuel
  | fuel + 1, floor, code, pc =>
    match code[pc]? with
    | none => return .normal
    | some op => do
      before floor op
      follow (execWith before fuel floor code) (fun body => execWith before fuel floor body 0)
        (fun i body => do
          let m ← get
          execWith before fuel (m.base + m.program.scalarCount i) body 0) code pc op

lemma exec_succ (fuel : Nat) (code : Code) (pc : Nat) :
    exec (fuel + 1) code pc = match code[pc]? with
      | none => pure .normal
      | some op => tick >>= fun _ =>
        follow (exec fuel code) (fun body => exec fuel body 0) (fun _ body => exec fuel body 0) code pc op := by
  rw [exec]
  cases code[pc]? with
  | none => rfl
  | some op => cases op <;> rfl

/-- Runs of code that do the same before every instruction. -/
lemma eq_execWith {run : Nat → Code → Nat → Run Completion} {before : Run Unit}
    (hzero : ∀ code pc, run 0 code pc = throw .outOfFuel)
    (hsucc : ∀ fuel code pc, run (fuel + 1) code pc = match code[pc]? with
      | none => pure .normal
      | some op => before >>= fun _ =>
        follow (run fuel code) (fun body => run fuel body 0) (fun _ body => run fuel body 0) code pc op)
    (fuel floor : Nat) (code : Code) (pc : Nat) :
    run fuel code pc = execWith (fun _ _ => before) fuel floor code pc := by
  induction fuel generalizing floor code pc with
  | zero => exact hzero code pc
  | succ fuel ih =>
    have hnext : run fuel code = execWith (fun _ _ => before) fuel floor code := funext (ih floor code)
    have hinner : (fun body => run fuel body 0) =
        fun body => execWith (fun _ _ => before) fuel floor body 0 := funext fun body => ih floor body 0
    have hcalled : (fun (_ : Nat) body => run fuel body 0) = fun i body => (do
        let m ← get
        execWith (fun _ _ => before) fuel (m.base + m.program.scalarCount i) body 0) := by
      funext i body m
      exact congrFun (ih (m.base + m.program.scalarCount i) body 0) m
    rw [hsucc, execWith, hcalled, hinner, hnext]

lemma exec_eq_execWith (fuel floor : Nat) (code : Code) (pc : Nat) :
    exec fuel code pc = execWith (fun _ _ => tick) fuel floor code pc :=
  eq_execWith (fun _ _ => rfl) exec_succ fuel floor code pc

end Run

end Awk
