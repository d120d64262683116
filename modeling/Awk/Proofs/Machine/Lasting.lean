import Awk.Proofs.Machine.Keeping
import Awk.Proofs.Machine.Related
import Awk.Proofs.Machine.Session

/-!
# What lasts through whole runs

A property that no instruction breaks lasts through code, if calls do not break it either, and through programs.
So it holds before every instruction of a run, where an alarm would be raised otherwise.
-/

namespace Awk

namespace Run

variable {I : Machine → Prop}

/-! ## Calls -/

/-- A property that no instruction and no call breaks. -/
structure Lasting (I : Machine → Prop) : Prop extends Stable I where
  withArrays : ∀ {m : Machine} (count : Nat), I m → I (m.withArrays count)
  enter : ∀ {m : Machine} (scalarCount : Nat) (slots : Array Nat), I m → m.frames.length < m.config.maxCallDepth →
    I (m.enter scalarCount slots)
  leave : ∀ {m outer : Machine} (scalarCount arrayCount : Nat), I outer → I m → I (m.leave outer scalarCount arrayCount)

lemma Lasting.indistinct (hI : Lasting I) : Indistinct fun (_ : Unit) m m' => m = m' ∧ I m where
  part hx := .of_alike (hI.keeping hx)
  sees h := h.1 ▸ ⟨rfl, rfl, rfl, rfl⟩
  call := by
    rintro _ m _ ⟨rfl, hm⟩ hdepth f bound
    refine ⟨(), ⟨rfl, hI.enter _ _ (hI.withArrays _ hm) hdepth⟩, ?_⟩
    rintro n _ ⟨rfl, hn⟩
    exact ⟨rfl, hI.leave _ _ hm hn⟩

/-! ## Code -/

open Classical in
/-- Counts an instruction, and raises an alarm if the machine lacks a property. -/
noncomputable def alarmed (I : Machine → Prop) (alarm : Run Unit) : Run Unit := do
  tick
  if I (← get) then pure () else alarm

variable {P : Machine → Prop}

lemma alarmed_alike (hI : Stable I) (hP : ∀ {m}, I m → P m) (alarm : Run Unit) : Alike I (alarmed P alarm) tick := by
  have htick : tick = (tick >>= fun _ => get >>= fun _ => pure () : Run Unit) := by
    funext m
    rw [bind_apply]
    cases tick m <;> rfl
  rw [htick]
  refine hI.tick.bind fun _ => .get_bind fun m hm => ?_
  rw [if_pos (hP hm)]
  exact .pure _

/-- Runs code, with an alarm before every instruction at which the machine lacks a property. -/
noncomputable def execAlarmed (I : Machine → Prop) (alarm : Run Unit) (steps : Nat) (code : Code) : Run Completion :=
  execWith (fun _ _ => alarmed I alarm) steps 0 code 0

/-- No alarm is raised for want of what a lasting property gives. -/
lemma execAlarmed_alike (hI : Lasting I) (hP : ∀ {m}, I m → P m) (alarm : Run Unit) (steps : Nat) (code : Code) :
    Alike I (execAlarmed P alarm steps code) (exec steps code 0) := by
  rw [exec_eq_execWith steps 0]
  exact (hI.indistinct.execWith (o := ()) (fun _ _ _ => .of_alike (alarmed_alike hI.toStable hP alarm)) (.inl rfl) 0
    code 0).alike

lemma Lasting.exec (hI : Lasting I) (steps : Nat) (code : Code) : Keeping I (exec steps code 0) := by
  intro m hm
  obtain ⟨hsame, hkept⟩ := execAlarmed_alike hI id (pure ()) steps code m hm
  exact ⟨rfl, hsame ▸ hkept⟩

/-! ## Programs -/

section Programs

variable {run run' : Code → Run Completion} (hI : Stable I) (hbase : ∀ {m : Machine}, I m → I { m with base := 0 })
  (hrun : ∀ code, Alike I (run code) (run' code))

include hI hbase hrun

lemma Managed.alike {α : Type} {p : Program} {x : (Code → Run Completion) → Run α} (hx : Managed p x) :
    Alike I (x run) (x run') := by
  induction hx with
  | pure a => exact .pure a
  | outOfFuel => exact .throw _
  | bind _ _ ihx ihf => exact ihx.bind ihf
  | routine hx => exact hI.keeping hx.stepwise
  | code_bind _ _ ih =>
    exact .bind (.modify fun _ hm => hI.quiet (hbase hm) rfl rfl) fun _ => (hrun _).bind ih
  | emptied => exact .modify fun _ hm => hI.quiet hm rfl rfl
  | pop => exact hI.keeping .pop
  | getInRange _ =>
    refine .get_bind fun m _ => ?_
    split
    · exact .pure _
    · exact .throw _
  | setInRange _ b =>
    refine .get_bind fun m _ => ?_
    split
    · exact .modify fun _ hm => hI.quiet hm rfl rfl
    · exact .throw _

lemma runParts_alike (bound : Nat) : Alike I (runParts run bound) (runParts run' bound) :=
  .get_bind fun m _ => (parts_managed m.program bound).alike hI hbase hrun

lemma runProgram_alike (bound : Nat) : Alike I (runProgram run bound) (runProgram run' bound) :=
  (runParts_alike hI hbase hrun bound).attempt.bind fun _ => hI.closeAll.bind fun _ => (Alike.resume _).bind fun _ =>
    .get_bind fun _ _ => .pure _

end Programs

/-! ## Before a run -/

namespace Composed

variable {s : Prop}

lemma initArgs : Composed (.stepwise s) initArgs := by
  refine .bind (.modify (fun _ _ => rfl) fun _ => rfl) fun _ => .get_bind (fun _ _ => rfl) fun m => ?_
  split
  · exact .pure _
  · exact .initArray _ _

lemma initEnviron : Composed (.stepwise s) initEnviron := by
  refine .get_bind (fun _ _ => rfl) fun m => ?_
  split
  · exact .pure _
  · exact .initArray _ _

end Composed

/-- What is assigned before a run, when everything is cleared. -/
def assigned : Run Unit := do
  initArgs
  initEnviron
  let config := (← get).config
  initFieldSep config
  config.vars.toList.forM fun (name, value) => assignNamed name value

lemma reset_apply (m : Machine) : reset m = assigned (cleared m) := rfl

lemma Composed.assigned {s : Prop} : Composed (.stepwise s) assigned :=
  Composed.initArgs.bind fun _ => Composed.initEnviron.bind fun _ => .get_bind (fun _ _ => rfl) fun m =>
    (Composed.initFieldSep m.config).stepwise.bind fun _ => (Composed.assignAll _).stepwise

/-- Whatever is assigned before a run, the machine keeps what it has when everything is cleared. -/
lemma reset_keeps (hI : Robust I) {m : Machine} (hm : I (cleared m)) : I (reset m).state :=
  (hI.keeping .assigned (cleared m) hm).2

end Run

/-! ## Calls of the host -/

section Host

variable {I : Machine → Prop}

variable (hI : Run.Robust I) (hcore : ∀ {m n : Machine}, I m → n.core = m.core → I n)
  (hbase : ∀ {m : Machine}, I m → I { m with base := 0 }) (hcleared : ∀ {m : Machine}, I m → I (Run.cleared m))
  (hexec : ∀ steps code, Run.Keeping I (Run.exec steps code 0))
  (hnatives : ∀ {m : Machine} {natives}, I m → I { m with natives })

include hI hcore hbase hcleared hexec hnatives

/-- What code keeps, and what holds when everything is cleared, the host keeps. -/
lemma Machine.serve_keeps {m : Machine} (call : HostCall) (hm : I m) : I (m.serve call) :=
  serve_cases (fun steps _ => (Run.runProgram_alike (hI.stable hcore) hbase (hexec steps) steps m hm).2)
    (fun _ => Run.reset_keeps hI (hcleared hm))
    (fun args _ => (hI.keeping .initArgs { m with args } (hcore hm rfl)).2)
    fun _ _ _ _ _ _ => hcore (hnatives hm) rfl

lemma Machine.after_keeps (calls : List HostCall) {m : Machine} (hm : I m) : I (m.after calls) := by
  induction calls generalizing m with
  | nil => exact hm
  | cons call calls ih => exact ih (serve_keeps hI hcore hbase hcleared hexec hnatives call hm)

end Host

end Awk
