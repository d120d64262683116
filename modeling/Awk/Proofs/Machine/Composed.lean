import Awk.Proofs.Machine.Parts
import Awk.Proofs.Machine.Steps

/-!
# What runs are composed of

Instructions look neither at the count of instructions nor at the patterns that are kept, and change no more than their
operations do, besides the stack.  Calls and code change more, but nothing that is written, and nothing at all of what
belongs to the program and its host.
-/

namespace Awk

open Regex (Pattern PatternCache)

variable {x : Run α} {p : Program}

namespace Run

variable {α β : Type}

/-! ## Instructions -/

/-- What an instruction does apart from calls: it looks neither at the ranges that are open nor at the count of
instructions nor at the patterns that are kept, and leaves alone what operations leave alone. -/
def Manner.stepwise (services : Prop) : Manner where
  Shift := (Array Bool → Array Bool) × (Bool → Bool) × (Nat → Nat) × (PatternCache → PatternCache)
  shift i := Machine.aside (fun c =>
    { c with inRange := i.1 c.inRange, cancelled := i.2.1 c.cancelled, ticks := i.2.2.1 c.ticks }) i.2.2.2
  part m := (m.core, m.reach)
  fault _ := True
  primitives := True
  services := services

namespace Composed

variable {s : Prop}

lemma stepwise (hx : Composed (.routine s) x) : Composed (.stepwise s) x :=
  hx.mono (fun j => ⟨(fun c =>
      { c with inRange := j.1 c.inRange, cancelled := j.2.1 c.cancelled, ticks := j.2.2.1 c.ticks }, j.2.2.2), rfl⟩)
    id (fun _ _ => trivial) id id

lemma resume (r : Except Fault α) : Composed (.stepwise s) (resume r) := by
  cases r with
  | ok a => exact .pure a
  | error f => exact .throw trivial

lemma push (v : Value) : Composed (.stepwise s) (push v) := .modify (fun _ _ => rfl) fun _ => rfl

lemma conclude (c : Completion) : Composed (.stepwise s) (conclude c) := by
  cases c with
  | normal | breakForIn | «return» v => exact (push _).bind fun _ => .pure _
  | next | nextFile | exit => exact .pure _

lemma pop : Composed (.stepwise s) pop := .modifyGet (fun _ _ => rfl) fun _ => rfl

lemma popMany (count : Nat) : Composed (.stepwise s) (popMany count) := .modifyGet (fun _ _ => rfl) fun _ => rfl

lemma getScalar (r : ScalarRef) : Composed (.stepwise s) (getScalar r) := by
  cases r with
  | global i | «local» i =>
    refine .get_bind (fun _ _ => rfl) fun m => ?_
    split
    · exact .pure _
    · exact .throw trivial
  | special v => exact (getSpecial v).stepwise

lemma setScalar (r : ScalarRef) (value : Value) : Composed (.stepwise s) (setScalar r value) := by
  cases r with
  | global i =>
    refine .get_bind (fun _ _ => rfl) fun m => ?_
    split
    · exact .modify (fun _ _ => rfl) fun _ => Prod.ext (Machine.core_globals i value) rfl
    · exact .throw trivial
  | «local» i =>
    refine .get_bind (fun _ _ => rfl) fun m => .get_bind (fun _ _ => rfl) fun m => ?_
    split
    · exact .modify (fun _ _ => rfl) fun _ => rfl
    · exact .throw trivial
  | special v => exact (setSpecial v value).stepwise

lemma slotOf (a : ArrayRef) : Composed (.stepwise s) (slotOf a) := by
  rw [slotOf_eq]
  exact .get_bind (fun _ _ => rfl) fun m => .resume _

lemma arrayOf (a : ArrayRef) : Composed (.stepwise s) (arrayOf a) := by
  refine (slotOf a).bind fun slot => .get_bind (fun _ _ => rfl) fun m => ?_
  split
  · exact .pure _
  · exact .fail trivial

lemma initArray (slot : Nat) (value : ArrayValue) : Composed (.stepwise s) (initArray slot value) := by
  refine .get_bind (fun _ _ => rfl) fun m => ?_
  split
  · exact (setArray _ _).stepwise
  · exact .throw trivial

lemma target (c : Cell) : Composed (.stepwise s) (target c) := by
  cases c with
  | scalar r => exact .pure _
  | field => exact pop.bind fun v => (fieldNumber _).stepwise.bind fun _ => .pure _
  | element a => exact pop.bind fun v => (textOf v).stepwise.bind fun _ => .pure _

lemma rotate : Composed (.stepwise s) rotate := by
  refine .get_bind (fun _ _ => rfl) fun m => ?_
  split
  · exact pop.bind fun _ => pop.bind fun _ => pop.bind fun _ => (push _).bind fun _ => (push _).bind fun _ => push _
  · exact .pure _

lemma callAny (f : Builtin) (args : List Value) : Composed (.stepwise True) (Run.callBuiltin f args) := by
  by_cases hf : f.IsPlain
  · exact (callBuiltin hf args).stepwise
  · cases f <;> first | exact .fail trivial | exact absurd ⟨by decide, by decide, by decide⟩ hf

end Composed

lemma Works.composed {room : Room} {n l : Nat} (hx : Works p room False n x l) :
    Composed (.stepwise True) x := by
  induction hx with
  | pure a => exact .pure a
  | bind _ _ ihx ihf => exact ihx.bind ihf
  | routine hx => exact hx.stepwise
  | get_bind hf _ ih => exact .get_bind (fun m i => hf m (_, i.2.2.2)) ih
  | target_bind _ _ ih => exact .bind (.target _) fun t => ih t False.elim
  | pop => exact .pop
  | push v => exact .push v
  | popMany count => exact .popMany count
  | dupe => exact .get_bind (fun _ _ => rfl) fun m => .push _
  | rotate => exact .rotate
  | nulls count => exact .modify (fun _ _ => rfl) fun _ => rfl
  | num h | str h | regex h =>
    refine .get_bind (fun _ _ => rfl) fun m => ?_
    split
    · exact .push _
    · exact .throw trivial
  | getScalar hr => exact .getScalar _
  | setScalar hr value => exact .setScalar _ value
  | arrayOf ha => exact .arrayOf _
  | callBuiltin hf args => exact .callAny _ args

namespace Composed

variable {s : Prop}

lemma step (op : Op) : Composed (.stepwise True) (step op) := by
  cases hc : op.isControl with
  | false =>
    have hworks : Works (default : Program) ⟨0, 0⟩ False (0 + op.takes default) (Run.step op) (0 + op.puts) :=
      step_works False.elim hc
    exact hworks.composed
  | true => cases op <;> first | exact .pure _ | cases hc

lemma taken (t : Test) : Composed (.stepwise True) (taken t) := by
  have hworks : Works (default : Program) ⟨0, 0⟩ False (0 + t.operands) (Run.taken t) 0 := taken_works t
  exact hworks.composed

lemma loopKeys (array : ArrayValue) : Composed (.stepwise s) (loopKeys array) :=
  .modifyGet (fun _ _ => rfl) fun _ => rfl

end Composed

lemma composed_setExitStatus {s : Prop} (status : Int) :
    Composed (.stepwise s) (modify fun m : Machine => { m with exitStatus := status }) :=
  .modify (fun _ _ => rfl) fun _ => rfl

end Run

/-! ## Code -/

/-- What of a machine no program changes. -/
structure Fixture where
  program : Program
  config : Config
  regexes : Array Pattern
  keyOrder : KeyOrder

/-- What of a machine only writing changes, and commands. -/
structure Desk where
  output : Output
  outputs : Std.TreeMap String OutputStream
  outside : Outside

namespace Machine

def fixture (m : Machine) : Fixture := ⟨m.program, m.config, m.regexes, m.keyOrder⟩

def desk (m : Machine) : Desk := ⟨m.output, m.streams.outputs, m.world.outside⟩

variable {m n : Machine}

lemma fixture_eq_of_core (h : n.core = m.core) : n.fixture = m.fixture :=
  congrArg (fun c : Core => (⟨c.program, c.config, c.regexes, c.keyOrder⟩ : Fixture)) h

lemma desk_eq_of_reach (h : n.reach = m.reach) : n.desk = m.desk :=
  congrArg (fun r : Reach => (⟨r.output, r.outputs, r.outside⟩ : Desk)) h

end Machine

namespace Run

variable {α β : Type}

/-- What a program does: it does not look at the patterns that are kept, and leaves alone what belongs to the program
and what is written. -/
def Manner.whole : Manner where
  shift := fun (cache : PatternCache) m => m.withCache cache
  part m := (m.fixture, m.desk)
  fault _ := True
  primitives := True
  services := True

/-- What code does: besides, it does not look at the ranges that are open. -/
def Manner.code : Manner where
  Shift := (Array Bool → Array Bool) × (PatternCache → PatternCache)
  shift i := Machine.aside (fun c => { c with inRange := i.1 c.inRange }) i.2
  part m := (m.fixture, m.desk)
  fault _ := True
  primitives := True
  services := True

namespace Composed

lemma whole_of_code (hx : Composed .code x) : Composed .whole x :=
  hx.mono (fun cache => ⟨(id, fun _ => cache), rfl⟩) id (fun _ => id) id id

lemma code (hx : Composed (.stepwise True) x) : Composed .code x :=
  hx.mono (fun j => ⟨(j.1, id, id, j.2), rfl⟩)
    (fun h => Prod.ext (Machine.fixture_eq_of_core (congrArg Prod.fst h))
      (Machine.desk_eq_of_reach (congrArg Prod.snd h)))
    (fun _ => id) id id

lemma whole (hx : Composed (.stepwise True) x) : Composed .whole x := hx.code.whole_of_code

lemma tick : Composed .code tick := by
  rw [tick_eq_counted]
  exact .bind (.modifyGet (fun _ _ => rfl) fun _ => rfl) fun stopped => .failIf stopped trivial

lemma overKeys (var : ScalarRef) (a : ArrayRef) {body : Run Completion} (hbody : Composed .code body)
    (keys : List String) : Composed .code (overKeys var a body keys) := by
  induction keys with
  | nil => exact .pure _
  | cons key keys ih =>
    refine (arrayOf a).code.bind fun slot => ?_
    dsimp only
    split
    · refine (setScalar var _).code.bind fun _ => hbody.bind fun c => ?_
      cases c with
      | normal => exact ih
      | next | nextFile | exit | «return» v | breakForIn => exact .pure _
    · exact ih

variable {run : Code → Run Completion}

lemma callUser (hrun : ∀ code, Composed .code (run code)) (i : Nat)
    (args : List ArrayRef) : Composed .code (callUser run i args) := by
  have hbind (count : Nat) : Composed .code (bindArrays count args) :=
    (mapM slotOf _).code.bind fun _ => .get_bind (fun _ _ => rfl) fun _ =>
      .bind (.modify (fun _ _ => rfl) fun _ => rfl) fun _ => .pure _
  have hframe (f : CompiledFunction) (slots : Array Nat) (count : Nat) :
      Composed .code (withFrame f.scalarCount slots count (run f.body)) :=
    .get_bind (fun _ _ => rfl) fun _ => .get_bind (fun _ _ => rfl) fun _ =>
      .bind (.modify (fun _ _ => rfl) fun _ => rfl) fun _ =>
        .bind (.attempt (fun _ => trivial) (hrun f.body)) fun r =>
          .bind (.modify (fun _ _ => rfl) fun _ => rfl) fun _ => (resume r).code
  refine .get_bind (fun _ _ => rfl) fun m => ?_
  split
  · exact .fail trivial
  · refine .get_bind (fun _ _ => rfl) fun m => .get_bind (fun _ _ => rfl) fun m => ?_
    split
    · exact .fail trivial
    · refine .get_bind (fun _ _ => rfl) fun m => (hbind _).bind fun slots => (hframe _ _ _).bind fun c => ?_
      exact (conclude c).code

lemma exec (fuel : Nat) (code : Code) (pc : Nat) : Composed .code (exec fuel code pc) := by
  induction fuel generalizing code pc with
  | zero => exact .throw trivial
  | succ fuel ih =>
    rw [exec_succ]
    cases code[pc]? with
    | none => exact .pure _
    | some op =>
    refine tick.bind fun _ => ?_
    cases op
    case jump offset => exact ih _ _
    case branch t offset =>
      refine (taken t).code.bind fun b => ?_
      split <;> exact ih _ _
    case next | nextFile | exit | returnNull | breakForIn => exact .pure _
    case exitStatus =>
      exact pop.code.bind fun v => .bind (.modify (fun _ _ => rfl) fun _ => rfl) fun _ => .pure _
    case «return» => exact pop.code.bind fun v => .pure _
    case forIn var a length =>
      refine (arrayOf a).code.bind fun slot => .bind (.modifyGet (fun _ _ => rfl) fun _ => rfl) fun keys =>
        (overKeys var a (ih _ _) keys).bind fun c => ?_
      cases c with
      | normal => exact ih _ _
      | next | nextFile | exit | «return» v | breakForIn => exact .pure _
    case callUser i count =>
      refine (callUser (fun body => ih body 0) i _).bind fun c => ?_
      cases c with
      | normal => exact ih _ _
      | next | nextFile | exit | «return» v | breakForIn => exact .pure _
    all_goals exact (step _).code.bind fun _ => ih _ _

/-! ## Programs -/

lemma getInRange (i : Nat) : Composed .whole (getInRange i) := by
  refine .get_bind (fun _ _ => rfl) fun m => ?_
  split
  · exact .pure _
  · exact .throw trivial

lemma setInRange (i : Nat) (b : Bool) : Composed .whole (setInRange i b) := by
  refine .get_bind (fun _ _ => rfl) fun m => ?_
  split
  · exact .modify (fun _ _ => rfl) fun _ => rfl
  · exact .throw trivial

lemma managed {x : (Code → Run Completion) → Run α} (hx : Managed p x)
    (hrun : ∀ code, Composed .code (run code)) : Composed .whole (x run) := by
  induction hx with
  | pure a => exact .pure a
  | outOfFuel => exact .throw trivial
  | bind _ _ ihx ihf => exact ihx.bind ihf
  | routine hx => exact hx.stepwise.whole
  | code_bind _ _ ih => exact .bind (.modify (fun _ _ => rfl) fun _ => rfl) fun _ => (hrun _).whole_of_code.bind ih
  | emptied => exact .modify (fun _ _ => rfl) fun _ => rfl
  | pop => exact pop.whole
  | getInRange _ => exact getInRange _
  | setInRange _ b => exact setInRange _ b

lemma runParts (hrun : ∀ code, Composed .code (run code)) (bound : Nat) :
    Composed .whole (runParts run bound) :=
  .get_bind (fun _ _ => rfl) fun m => managed (parts_managed m.program bound) hrun

end Composed

end Run

end Awk
