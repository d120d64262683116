import Awk.Proofs.Machine.Lasting

/-!
# Calls leave no trace

A call puts a frame, a base and some arrays in place, and takes them away again however the function ends: normally,
with something that goes up to the main part, or with a fault.  So after every call the machine is at the level of
calls at which it was, and after every run it is at rest.
-/

namespace Awk

namespace Machine

/-- The functions at work are those of another machine, and there are as many arrays. -/
structure AtLevel (outer m : Machine) : Prop where
  program : m.program = outer.program
  config : m.config = outer.config
  frames : m.frames = outer.frames
  base : m.base = outer.base
  arrays : m.arrays.size = outer.arrays.size

/-- No more functions are at work than the host allows. -/
structure WithinDepth (max : Nat) (m : Machine) : Prop where
  allowed : m.config.maxCallDepth = max
  depth : m.frames.length ≤ max

/-- No function is at work, and there are only the arrays of the program. -/
structure AtRest (p : Program) (m : Machine) : Prop where
  program : m.program = p
  frames : m.frames = []
  base : m.base = 0
  arrays : m.arrays.size = p.arrayNames.size

namespace AtLevel

variable {outer m n : Machine}

lemma refl (m : Machine) : m.AtLevel m := ⟨rfl, rfl, rfl, rfl, rfl⟩

lemma of_core (hm : outer.AtLevel m) (h : n.core = m.core) : outer.AtLevel n where
  program := (congrArg Core.program h).trans hm.program
  config := (congrArg Core.config h).trans hm.config
  frames := (congrArg Core.frames h).trans hm.frames
  base := (congrArg Core.base h).trans hm.base
  arrays := (congrArg Core.arrayCount h).trans hm.arrays

/-- Behind the body of a function the machine is at the level before the call. -/
lemma leave {f : CompiledFunction} {bound : List Nat} (hm : outer.AtLevel m) (hn : (m.calling f bound).AtLevel n) :
    outer.AtLevel (n.leave m f.scalarCount m.arrays.size) where
  program := hn.program.trans hm.program
  config := hn.config.trans hm.config
  frames := (congrArg List.tail hn.frames).trans hm.frames
  base := hm.base
  arrays := by
    rw [← hm.arrays, Machine.leave, Array.size_shrink, hn.arrays, calling, enter, withArrays, Array.size_append]
    omega

end AtLevel

variable {m n : Machine}

lemma AtRest.of_atLevel {p : Program} (hm : m.AtRest p) (h : m.AtLevel n) : n.AtRest p where
  program := h.program.trans hm.program
  frames := h.frames.trans hm.frames
  base := h.base.trans hm.base
  arrays := h.arrays.trans hm.arrays

lemma WithinDepth.of_core {max : Nat} (hm : m.WithinDepth max) (h : n.core = m.core) : n.WithinDepth max := by
  have hframes : n.frames = m.frames := congrArg Core.frames h
  have hconfig : n.config = m.config := congrArg Core.config h
  exact ⟨hconfig ▸ hm.allowed, hframes ▸ hm.depth⟩

end Machine

namespace Run

variable {outer : Machine}

/-! ## Code -/

lemma atLevel_robust : Robust outer.AtLevel where
  quiet hm h _ := hm.of_core h
  cache _ hm := { hm with }
  fieldSep _ hm := { hm with }
  recordSep _ hm := { hm with }

lemma atLevel_stable : Stable outer.AtLevel := atLevel_robust.stable fun hm => hm.of_core

variable {run : Code → Run Completion} {max : Nat} {args : List ArrayRef} {m n : Machine} {p : Program}

/-- In the body of a function the level is that of its start, and behind it that of the call. -/
lemma indistinct_atLevel : Indistinct fun (outer : Machine) m m' => m = m' ∧ outer.AtLevel m where
  part hx := .of_alike (atLevel_stable.keeping hx)
  sees h := h.1 ▸ ⟨rfl, rfl, rfl, rfl⟩
  call := by
    rintro outer m _ ⟨rfl, hm⟩ - f bound
    refine ⟨m.calling f bound, ⟨rfl, .refl _⟩, ?_⟩
    rintro n _ ⟨rfl, hn⟩
    exact ⟨rfl, hm.leave hn⟩

lemma exec_atLevel (outer : Machine) (fuel : Nat) (code : Code) (pc : Nat) :
    Keeping outer.AtLevel (exec fuel code pc) := by
  rw [exec_eq_execWith fuel 0]
  exact (indistinct_atLevel.execWith (fun _ _ _ => .of_alike atLevel_stable.tick) (.inl rfl) 0 code pc).alike

/-- A call leaves the level as it is, if the body of the function leaves that of the body as it is. -/
lemma callUser_atLevel (hrun : ∀ m code, Keeping (Machine.AtLevel m) (run code)) (i : Nat) (args : List ArrayRef) :
    Keeping outer.AtLevel (callUser run i args) :=
  (indistinct_atLevel.callUser (fun outer code => .of_alike (hrun outer code)) i args).alike

/-! ## How deep calls are nested -/

lemma withinDepth_robust : Robust (Machine.WithinDepth max) where
  quiet hm h _ := hm.of_core h
  cache _ hm := { hm with }
  fieldSep _ hm := { hm with }
  recordSep _ hm := { hm with }

lemma withinDepth_lasting : Lasting (Machine.WithinDepth max) where
  toStable := withinDepth_robust.stable fun hm => hm.of_core
  withArrays _ hm := { hm with }
  enter _ _ hm hdepth := ⟨hm.allowed, hm.allowed ▸ hdepth⟩
  leave _ _ _ hm := ⟨hm.allowed, (List.length_tail.trans_le (Nat.sub_le _ _)).trans hm.depth⟩

/-- A call that has room for one more frame says that there is none only if its body says so. -/
lemma callUser_depth {i : Nat} {f : CompiledFunction} (hf : m.program.functions[i]? = some f)
    (hdepth : m.frames.length < m.config.maxCallDepth) {name : String}
    (h : callUser run i args m = .error (.error (.callDepthExceeded name max)) n) :
    ∃ inner q : Machine, inner.frames.length = m.frames.length + 1 ∧
      run f.body inner = .error (.error (.callDepthExceeded name max)) q := by
  rw [callUser_apply] at h
  cases hbound : (args.take f.arrayCount).mapM (slotIn m.frames) with
  | error fault =>
    have hcallee : m.callee i args = .error fault := by
      rw [Machine.callee, hf]
      dsimp only
      rw [if_neg (Nat.not_le.mpr hdepth), hbound]
      rfl
    rw [hcallee] at h
    cases h
    -- arrays that are not there are the only reason why there are no slots
    obtain ⟨a, -, ha⟩ := mapM_eq_error hbound
    cases a with
    | global i => cases ha
    | «local» i =>
      rw [slotIn] at ha
      split at ha <;> cases ha
  | ok bound =>
    rw [Machine.callee_eq_ok.mpr ⟨hf, hdepth, hbound⟩] at h
    dsimp only at h
    refine ⟨m.calling f bound, ?_⟩
    cases hr : run f.body (m.calling f bound) with
    | error fault q =>
      rw [hr] at h
      cases h
      exact ⟨q, rfl, rfl⟩
    | ok c q =>
      rw [hr] at h
      cases c <;> cases h

/-! ## Machines at rest -/

lemma atRest_robust : Robust (Machine.AtRest p) where
  quiet hm hcore _ := hm.of_atLevel (.of_core (.refl _) hcore)
  cache _ hm := { hm with }
  fieldSep _ hm := { hm with }
  recordSep _ hm := { hm with }

lemma atRest_cleared (hm : m.program = p) : (cleared m).AtRest p :=
  ⟨hm, rfl, rfl, Array.size_replicate.trans (by rw [hm])⟩

end Run

namespace Machine

variable {p : Program} {config : Config} {world : World} {keyOrder : KeyOrder} {m : Machine}

lemma atRest_create (hm : create p config world keyOrder = .ok m) : m.AtRest p := by
  obtain ⟨start, hprogram, -, -, -, hreset⟩ := create_eq_ok hm
  have hrest := Run.reset_keeps Run.atRest_robust (Run.atRest_cleared hprogram)
  rwa [hreset] at hrest

lemma withinDepth_create (hm : create p config world keyOrder = .ok m) : m.WithinDepth config.maxCallDepth := by
  obtain ⟨start, -, -, hconfig, -, hreset⟩ := create_eq_ok hm
  have hcleared : (Run.cleared start).WithinDepth config.maxCallDepth := ⟨by rw [← hconfig]; rfl, Nat.zero_le _⟩
  have hdepth := Run.reset_keeps Run.withinDepth_robust hcleared
  rwa [hreset] at hdepth

lemma AtRest.after (hm : m.AtRest p) (calls : List HostCall) : (m.after calls).AtRest p :=
  after_keeps Run.atRest_robust (fun hm hcore => hm.of_atLevel (.of_core (.refl _) hcore))
    (fun hm => { hm with base := rfl }) (fun hm => Run.atRest_cleared hm.program)
    (fun steps code m hm => ⟨rfl, hm.of_atLevel (Run.exec_atLevel m steps code 0 m (.refl m)).2⟩)
    (fun hm => { hm with }) calls hm

lemma WithinDepth.after {max : Nat} (hm : m.WithinDepth max) (calls : List HostCall) :
    (m.after calls).WithinDepth max :=
  after_keeps Run.withinDepth_robust (fun hm => hm.of_core) (fun hm => { hm with })
    (fun hm => ⟨hm.allowed, Nat.zero_le _⟩) Run.withinDepth_lasting.exec (fun hm => { hm with }) calls hm

/-- Calls leave no trace on any way out.  Whatever the program, the machine and the call are, and however the call ends,
the frames, the base and the number of arrays are afterwards what they were before.  Before every instruction there are
at most as many frames as the host allows.  A call of a function that is there fails for want of a frame if one more
would be too many, and otherwise only if a call inside its body does.  So whatever the host has done with a new machine,
runs that failed included, there are no frames, the base is zero, the arrays are those of the program, and in the next
run too no alarm would be raised for too many frames. -/
theorem calls_leave_no_trace :
    (∀ (m : Machine) (steps i : Nat) (args : List ArrayRef),
      m.AtLevel (Run.callUser (Run.exec steps · 0) i args m).state) ∧
    (∀ (m : Machine) (max : Nat), m.WithinDepth max → ∀ (alarm : Run Unit) (steps : Nat) (code : Code),
      Run.execAlarmed (WithinDepth max) alarm steps code m = Run.exec steps code 0 m) ∧
    (∀ (m : Machine) (run : Code → Run Completion) (i : Nat) (f : CompiledFunction) (args : List ArrayRef),
      m.program.functions[i]? = some f →
        (m.config.maxCallDepth < m.frames.length + 1 →
          Run.callUser run i args m = .error (.error (.callDepthExceeded f.name m.config.maxCallDepth)) m) ∧
        (m.frames.length + 1 ≤ m.config.maxCallDepth → ∀ name max n,
          Run.callUser run i args m = .error (.error (.callDepthExceeded name max)) n →
            ∃ inner q : Machine, inner.frames.length = m.frames.length + 1 ∧
              run f.body inner = .error (.error (.callDepthExceeded name max)) q)) ∧
    ∀ (p : Program) (config : Config) (world : World) (keyOrder : KeyOrder) (m : Machine),
      create p config world keyOrder = .ok m → ∀ calls : List HostCall,
        (m.after calls).AtRest p ∧ ∀ (alarm : Run Unit) (steps : Nat),
          Run.runParts (Run.execAlarmed (WithinDepth config.maxCallDepth) alarm steps) steps (m.after calls) =
            Run.runParts (Run.exec steps · 0) steps (m.after calls) := by
  refine ⟨fun m steps i args => ?_, fun m max hm alarm steps code => ?_, fun m run i f args hf => ⟨?_, ?_⟩, ?_⟩
  · exact (Run.callUser_atLevel (fun m body => Run.exec_atLevel m steps body 0) i args m (.refl m)).2
  · exact (Run.execAlarmed_alike Run.withinDepth_lasting id alarm steps code m hm).1
  · intro hdepth
    rw [Run.callUser_apply, callee_tooDeep hf (Nat.lt_succ_iff.mp hdepth)]
  · exact fun hdepth name max n h => Run.callUser_depth hf hdepth h
  · refine fun p config world keyOrder m hm calls => ⟨(atRest_create hm).after calls, fun alarm steps => ?_⟩
    exact (Run.runParts_alike Run.withinDepth_lasting.toStable (fun hm => { hm with })
      (Run.execAlarmed_alike Run.withinDepth_lasting id alarm steps) steps _ ((withinDepth_create hm).after calls)).1

/-- A program with a function that calls itself without an end. -/
def endlessCalls : String :=
  "function f(x, a) \x7b a[x] = x; for (k in a) return f(k) \x7d BEGIN \x7b f(\"x\") \x7d"

theorem endlessCalls_leave_no_trace : ∃ p m, Program.ofSource endlessCalls [] = .ok p ∧
    create p { maxCallDepth := 3 } {} {} = .ok m ∧ (m.after [.run 1000, .reset, .run 20]).AtRest p := by
  obtain ⟨p, m, hp, hm, -⟩ := exists_of_tried endlessCalls { maxCallDepth := 3 } {} (fun _ _ => True) (by decide +kernel)
  exact ⟨p, m, hp, hm, (calls_leave_no_trace.2.2.2 p _ _ _ m hm [.run 1000, .reset, .run 20]).1⟩

end Machine

end Awk
