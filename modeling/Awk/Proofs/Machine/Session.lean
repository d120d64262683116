import Awk.Proofs.Machine.Parts
import Awk.Proofs.Machine.Safety

/-!
# What a host may do with a machine

A machine for a compiled program stays fit for it whatever the host does, in whatever order: its tables have
the sizes of the program, and no function is at work.  So every run is safe: nothing that an instruction uses
is out of reach, and no run stops because of a defect in the program.
-/

namespace Awk

/-! ## Machines at rest -/

/-- A machine for a program, between two calls of the host. -/
structure Machine.Fit (p : Program) (m : Machine) : Prop where
  program : m.program = p
  regexes : m.regexes.size = p.regexes.size
  outline : m.outline.Fits
  base : m.base = 0
  inRange : m.inRange.size = p.rules.size

variable {p : Program} {m : Machine}

lemma Machine.Keeps.fit {m' : Machine} (h : m.Keeps m') (hm : m.Fit p) : m'.Fit p where
  program := h.program.trans hm.program
  regexes := by rw [h.regexes, hm.regexes]
  outline := h.outline ▸ hm.outline
  base := h.base.trans hm.base
  inRange := h.inRange.trans hm.inRange

lemma Machine.Fit.ready (hm : m.Fit p) : m.Ready p {} 0 where
  program := hm.program
  regexes := hm.regexes
  fits := hm.outline
  scalars := Nat.le_of_eq hm.base
  arrays _ h := absurd h (Nat.not_lt_zero _)

namespace Run

variable {α : Type} {p : Program} {m : Machine} {run run' : Code → Run Completion}

/-! ## Parts of a program -/

def SafeCode (p : Program) (run run' : Code → Run Completion) (code : Code) : Prop :=
  ∀ m : Machine, m.Fit p → m.stack.size = 0 → Safely 0 #[] {} m m (run code) (run' code) fun _ _ => True

def watched (steps : Nat) (code : Code) : Run Completion := execWith watch steps 0 code 0

variable {code : Code}

lemma poised_of_fit {n : Nat} (hm : m.Fit p) (hn : m.stack.size = 0 + n) : Poised p {} 0 0 #[] n m m :=
  ⟨hm.ready, .refl m, Nat.le_refl 0, hn⟩

lemma safeCode_of_verified (hp : p.Verified) (steps : Nat) {final : Nat} {height : Nat → Nat}
    (hv : code.Verified p {} final height) : SafeCode p (watched steps) (exec steps · 0) code := by
  intro m hm hsize
  have h := execWith_safely_whole watch_safely hp steps 0 hv (poised_of_fit hm hsize)
  rw [← exec_eq_execWith] at h
  exact h.mono fun _ _ _ _ => trivial

lemma Tame.safely {x : Run α} (hx : Tame x) (hm : m.Fit p) : Safely 0 #[] {} m m x x fun _ _ => True :=
  (hx.sized (poised_of_fit hm (Nat.zero_add _).symm)).mono fun _ _ _ _ => trivial

/-- All parts of a program that passes the verifier run the same if they are watched. -/
lemma safeCode_of_part (hp : p.Verified) (steps : Nat) (h : p.Part code) :
    SafeCode p (watched steps) (exec steps · 0) code := by
  cases h with
  | begin h => exact (hp.begin code h).elim fun _ => safeCode_of_verified hp steps
  | guard hr h => exact (hp.guards _ hr code h).elim fun _ => safeCode_of_verified hp steps
  | body hr h => exact (hp.bodies _ hr code h).elim fun _ => safeCode_of_verified hp steps
  | final h => exact (hp.final code h).elim fun _ => safeCode_of_verified hp steps

lemma Managed.safely {x : (Code → Run Completion) → Run α} (hx : Managed p x)
    (hp : ∀ code, p.Part code → SafeCode p run run' code) (hm : m.Fit p) :
    Safely 0 #[] {} m m (x run) (x run') fun _ _ => True := by
  induction hx generalizing m with
  | pure a => exact .pure (.refl m) trivial
  | outOfFuel => exact .throw (.refl m) trivial
  | bind _ _ ihx ihf =>
    refine (ihx hm).bind fun a q q' hk hq _ => ?_
    obtain rfl := hq.eq
    exact ihf a (hk.fit hm)
  | routine hx => exact hx.tame.safely hm
  | code_bind h _ ih =>
    have hstart : Safely 0 #[] {} m m (modify fun m => { m with stack := #[], base := 0 } : Run Unit)
        (modify fun m => { m with stack := #[], base := 0 }) fun _ q => q.stack.size = 0 :=
      .of_ok rfl rfl ⟨rfl, hm.base.symm, rfl, rfl⟩ (.refl _) rfl
    refine hstart.bind fun _ q q' hk hq hsize => ?_
    obtain rfl := hq.eq
    have hm' := hk.fit hm
    refine (hp _ h q' hm' hsize).bind fun c r r' hk hr _ => ?_
    obtain rfl := hr.eq
    exact ih c (hk.fit hm')
  | emptied | pop => exact .of_ok rfl rfl ⟨rfl, rfl, rfl, rfl⟩ (.refl _) trivial
  | getInRange hi =>
    refine .get_bind ?_
    rw [Array.getElem?_eq_getElem (hm.inRange ▸ hi)]
    exact .pure (.refl m) trivial
  | setInRange hi b =>
    refine .get_bind ?_
    rw [if_pos (hm.inRange ▸ hi)]
    exact .of_ok rfl rfl ⟨rfl, rfl, rfl, Array.size_setIfInBounds⟩ (.refl _) trivial

lemma runParts_safely (hp : ∀ code, p.Part code → SafeCode p run run' code) (bound : Nat) (hm : m.Fit p) :
    Safely 0 #[] {} m m (runParts run bound) (runParts run' bound) fun _ _ => True := by
  rw [runParts_eq, runParts_eq]
  refine .get_bind ?_
  rw [hm.program]
  exact (parts_managed p bound).safely hp hm

lemma attempt_safely {x y : Run α} {Q : α → Machine → Prop} (h : Safely 0 #[] {} m m x y Q) :
    Safely 0 #[] {} m m (attempt x) (attempt y) fun r _ => ∀ f, r = .error f → f.Allowed := by
  have hxy := h.eq
  have hsafe := h.orderly
  cases hr : x m with
  | ok a q =>
    rw [hr] at hsafe hxy
    exact .of_ok (by rw [attempt, hr]) (by rw [attempt, ← hxy]) hsafe.1 (.refl q) (by simp)
  | error f q =>
    rw [hr] at hsafe hxy
    refine .of_ok (by rw [attempt, hr]) (by rw [attempt, ← hxy]) hsafe.1 (.refl q) ?_
    rintro _ ⟨⟩
    exact hsafe.2

lemma runProgram_safely (hp : ∀ code, p.Part code → SafeCode p run run' code) (bound : Nat) (hm : m.Fit p) :
    Safely 0 #[] {} m m (runProgram run bound) (runProgram run' bound) fun _ _ => True := by
  refine (attempt_safely (runParts_safely hp bound hm)).bind fun r q q' hk hq hr => ?_
  obtain rfl := hq.eq
  refine (Plain.closeAll.tame.safely (hk.fit hm)).bind fun _ n n' _ hn _ => ?_
  obtain rfl := hn.eq
  cases r with
  | ok a => exact .of_ok rfl rfl (.refl n') (.refl n') trivial
  | error f => exact .throw (.refl n') (hr f rfl)

/-! ## Before a run -/

lemma initNamed_apply (hm : m.outline.Fits) (name : String) (value : ArrayValue) :
    ∃ m', m.Keeps m' ∧ (match namedArray m name with
      | none => pure ()
      | some slot => initArray slot value : Run Unit) m = .ok () m' := by
  cases hslot : namedArray m name with
  | none => exact ⟨m, .refl m, rfl⟩
  | some slot =>
    have hlt : slot < m.arrays.size := Nat.lt_of_lt_of_le (findIdx?_lt hslot) hm.arrays
    refine ⟨{ m with arrays := m.arrays.setIfInBounds slot value }, ⟨?_, rfl, rfl, rfl⟩, ?_⟩
    · change Outline.mk m.program m.regexes m.globals.size (m.arrays.setIfInBounds slot value).size = _
      rw [Array.size_setIfInBounds]
      rfl
    · change (if slot < m.arrays.size then setArray slot value else throw .outOfRange : Run Unit) m = _
      rw [if_pos hlt]
      rfl

lemma initArgs_apply (hm : m.outline.Fits) : ∃ m', m.Keeps m' ∧ initArgs m = .ok () m' := by
  obtain ⟨m', hk, h⟩ := initNamed_apply (m := { m with
    specials := { m.specials with argc := Float.ofNat (m.args.length + 1) } }) hm "ARGV"
    ((numberedArray m.args).insert "0" (.str "rawk"))
  exact ⟨m', ⟨hk.outline, hk.base, hk.frames, hk.inRange⟩, h⟩

lemma initEnviron_apply (hm : m.outline.Fits) : ∃ m', m.Keeps m' ∧ initEnviron m = .ok () m' :=
  initNamed_apply hm "ENVIRON" (m.config.environ.map fun _ v => .input v)

lemma Composed.initFieldSep {s : Prop} (config : Config) : Composed (.routine s) (initFieldSep config) := by
  rw [Run.initFieldSep]
  split
  · exact .setSpecial _ _
  · exact .pure _

lemma Composed.assignAll {s : Prop} (vars : List (String × String)) :
    Composed (.routine s) (vars.forM fun (name, value) => Run.assignNamed name value) :=
  .forM (fun (name, value) => .assignNamed name value) vars

/-- A machine that is reset is fit again, also if the settings are refused. -/
lemma reset_orderly (hprogram : m.program = p) (hregexes : m.regexes.size = p.regexes.size) :
    (cleared m).Fit p ∧ Orderly (cleared m) (fun _ _ => True) (reset m) := by
  have hfit : (cleared m).Fit p := by
    refine ⟨hprogram, hregexes, ⟨Array.size_replicate, ?_⟩, rfl, ?_⟩
    · exact Nat.le_of_eq Array.size_replicate.symm
    · exact Array.size_replicate.trans (by rw [hprogram])
  refine ⟨hfit, ?_⟩
  obtain ⟨m₁, hk₁, hargs⟩ := initArgs_apply hfit.outline
  have hm₁ := hk₁.fit hfit
  obtain ⟨m₂, hk₂, henviron⟩ := initEnviron_apply hm₁.outline
  have hm₂ := hk₂.fit hm₁
  have hrest : reset m = (initFieldSep m₂.config >>= fun _ =>
      m₂.config.vars.toList.forM fun (name, value) => assignNamed name value) m₂ := by
    change (initArgs >>= _) (cleared m) = _
    rw [bind_apply, hargs]
    dsimp only
    rw [bind_apply, henviron]
    rfl
  rw [hrest]
  have htame : Tame (initFieldSep m₂.config >>= fun _ =>
      m₂.config.vars.toList.forM fun (name, value) => assignNamed name value) :=
    ((Composed.initFieldSep _).bind fun _ => .assignAll _).tame
  exact (htame.safely hm₂).orderly.trans (hk₁.trans hk₂)

end Run

/-! ## Calls of the host -/

/-- What the host does with a machine.  A run is given a number of steps, and the world around the machine may
change between two calls. -/
inductive HostCall where
  | run (steps : Nat)
  | reset
  | setArgs (args : List String)
  | setStdin (pieces : List (List UInt8))
  | registerNative (name : String) (respond : List (List Value) → List Value → Except String Value)
  | setCancelled (b : Bool)
  | captureOutput
  | deliverOutput
  | takeCaptured
  | takeDelivered
  | setWorld (world : World)

/-- What there is outside a machine after a call of the host: only the world itself may change. -/
def HostCall.outside (o : Outside) : HostCall → Outside
  | .setWorld world => world.outside
  | _ => o

namespace Machine

variable {p : Program} {m : Machine}

def serve (m : Machine) : HostCall → Machine
  | .run steps => (m.apply (Run.runProgram (Run.exec steps · 0) steps)).2
  | .reset => m.reset.2
  | .setArgs args => m.setArgs args
  | .setStdin pieces => m.setStdin pieces
  | .registerNative name respond => (m.registerNative name respond).toOption.getD m
  | .setCancelled b => m.setCancelled b
  | .captureOutput => m.captureOutput
  | .deliverOutput => m.deliverOutput
  | .takeCaptured => m.takeCaptured.2
  | .takeDelivered => m.takeDelivered.2
  | .setWorld world => { m with world }

def after (m : Machine) (calls : List HostCall) : Machine := calls.foldl serve m

/-- Nothing that the host can do now shows a number that leads nowhere or a defect of the program.  A run is
the same, however long, if it is watched before every instruction. -/
structure Safe (m : Machine) : Prop where
  watched : ∀ steps, Run.runParts (Run.watched steps) steps m = Run.runParts (Run.exec steps · 0) steps m
  parts : ∀ steps, (Run.runParts (Run.exec steps · 0) steps m).Fails Fault.Allowed
  run : ∀ steps f, (m.apply (Run.runProgram (Run.exec steps · 0) steps)).1 = .error f → f.Allowed
  reset : ∀ f, m.reset.1 = .error f → f.Allowed
  setArgs : ∀ args, (({ m with args } : Machine).apply Run.initArgs).1 = .ok ()

variable {α : Type} {Q : α → Machine → Prop} {r : EStateM.Result Fault Machine α} {config : Config} {world : World}
  {keyOrder : KeyOrder}

lemma apply_error {x : Run α} {f : Fault} (h : (m.apply x).1 = .error f) : x m = .error f (m.apply x).2 := by
  rw [apply] at h ⊢
  cases hr : x m with
  | ok a m' => rw [hr] at h; cases h
  | error e m' => rw [hr] at h; cases h; rfl

lemma apply_state (m : Machine) (x : Run α) : (m.apply x).2 = (x m).state := by
  rw [apply]
  cases x m <;> rfl

/-- A call of the host leaves what a run, a reset or the assignment of new operands leaves; any other call changes only
what belongs to the host. -/
lemma serve_cases {P : Machine → Prop} {call : HostCall}
    (run : ∀ steps, call = .run steps → P (Run.runProgram (Run.exec steps · 0) steps m).state)
    (reset : call = .reset → P (Run.reset m).state)
    (setArgs : ∀ args, call = .setArgs args → P (Run.initArgs { m with args }).state)
    (other : ∀ natives output stdin cancelled world, world.outside = call.outside m.world.outside →
      P { m with natives, output, cancelled, world, streams := { m.streams with stdin } }) : P (m.serve call) := by
  cases call with
  | run steps =>
    rw [serve, apply_state]
    exact run steps rfl
  | reset =>
    rw [serve, Machine.reset, apply_state]
    exact reset rfl
  | setArgs args =>
    rw [serve, Machine.setArgs, apply_state]
    exact setArgs args rfl
  | registerNative name respond =>
    rw [serve, registerNative]
    cases m.program.nativeNames.findIdx? (· == name) <;> exact other _ _ _ _ _ rfl
  | takeCaptured =>
    rw [serve, takeCaptured]
    cases m.output.captured <;> exact other _ _ _ _ _ rfl
  | setWorld world | setStdin pieces | setCancelled b | captureOutput | deliverOutput | takeDelivered =>
    exact other _ _ _ _ _ rfl

/-- Nothing goes wrong on a machine that is fit for a program that passes the verifier. -/
lemma Fit.safe (hp : p.Verified) (hm : m.Fit p) : m.Safe where
  watched steps := (Run.runParts_safely (fun _ => Run.safeCode_of_part hp steps) steps hm).eq
  parts steps := by
    have h := Run.runParts_safely (fun _ => Run.safeCode_of_part hp steps) steps hm
    exact h.eq ▸ h.orderly.fails
  run steps f h := by
    have hsafe := Run.runProgram_safely (fun _ => Run.safeCode_of_part hp steps) steps hm
    exact (hsafe.eq.trans (apply_error h) ▸ hsafe.orderly.fails :)
  reset f h := by
    have hsafe := (Run.reset_orderly hm.program hm.regexes).2
    exact (apply_error h ▸ hsafe.fails :)
  setArgs args := by
    obtain ⟨m', -, h⟩ := Run.initArgs_apply (m := { m with args }) hm.outline
    rw [apply, h]

lemma Fit.serve (hp : p.Verified) (hm : m.Fit p) (call : HostCall) : (m.serve call).Fit p := by
  refine serve_cases (fun steps _ => ?_) (fun _ => ?_) (fun args _ => ?_) fun _ _ _ _ _ _ =>
    ⟨hm.program, hm.regexes, hm.outline, hm.base, hm.inRange⟩
  · have h := Run.runProgram_safely (fun _ => Run.safeCode_of_part hp steps) steps hm
    rw [← h.eq]
    exact h.orderly.keeps.fit hm
  · obtain ⟨hfit, hsafe⟩ := Run.reset_orderly hm.program hm.regexes
    exact hsafe.keeps.fit hfit
  · have hm' : ({ m with args } : Machine).Fit p := ⟨hm.program, hm.regexes, hm.outline, hm.base, hm.inRange⟩
    obtain ⟨m', hk, h⟩ := Run.initArgs_apply hm'.outline
    rw [h]
    exact hk.fit hm'

lemma Fit.after (hp : p.Verified) (hm : m.Fit p) (calls : List HostCall) : (m.after calls).Fit p := by
  induction calls generalizing m with
  | nil => exact hm
  | cons call calls ih => exact ih (hm.serve hp call)

lemma size_compileRegexes {regexes : Array Regex.Pattern} (h : compileRegexes p = .ok regexes) :
    regexes.size = p.regexes.size :=
  SatisfiesM_Except_eq.mp (Array.size_mapM _ p.regexes) regexes h

lemma compileRegexes_eq_error {e : RunError} (h : compileRegexes p = .error e) : e = .regex := by
  rw [compileRegexes, Array.mapM_eq_mapM_toList] at h
  cases hl : p.regexes.toList.mapM fun source => (Regex.Pattern.compile source).mapError fun _ => RunError.regex with
  | ok patterns =>
    rw [hl] at h
    cases h
  | error e' =>
    rw [hl] at h
    cases h
    obtain ⟨source, -, he⟩ := mapM_eq_error hl
    cases hc : Regex.Pattern.compile source with
    | ok pattern =>
      rw [hc] at he
      cases he
    | error e'' =>
      rw [hc] at he
      cases he
      rfl

lemma create_reset (h : create p config world keyOrder = .ok m) : ∃ regexes, compileRegexes p = .ok regexes ∧
      Run.reset { program := p, config, regexes, natives := Array.replicate p.nativeNames.size none, keyOrder, world } =
        .ok () m := by
  rw [create] at h
  cases hregexes : compileRegexes p with
  | error e =>
    rw [hregexes] at h
    cases h
  | ok regexes =>
    rw [hregexes] at h
    refine ⟨regexes, rfl, ?_⟩
    dsimp only at h
    generalize ({
      program := p
      config := config
      regexes := regexes
      natives := Array.replicate p.nativeNames.size none
      keyOrder := keyOrder
      world := world } : Machine) = start at h ⊢
    rw [apply] at h
    cases hr : Run.reset start with
    | ok a n =>
      rw [hr] at h
      cases h
      rfl
    | error f n =>
      rw [hr] at h
      cases h

lemma create_eq_ok (h : create p config world keyOrder = .ok m) : ∃ start : Machine, start.program = p ∧
      compileRegexes p = .ok start.regexes ∧ start.config = config ∧ start.world = world ∧
      Run.reset start = .ok () m := by
  obtain ⟨regexes, hregexes, hreset⟩ := create_reset h
  exact ⟨_, rfl, hregexes, rfl, rfl, hreset⟩

/-- A new machine is fit for its program, and if there is none, it is not for a defect of the program. -/
lemma create_fit (config : Config) (world : World) (keyOrder : KeyOrder) :
    match create p config world keyOrder with
    | .ok m => m.Fit p
    | .error f => f.Allowed := by
  rw [create]
  cases hregexes : compileRegexes p with
  | error e =>
    rw [compileRegexes_eq_error hregexes]
    trivial
  | ok regexes =>
    dsimp only
    generalize hm : ({
      program := p
      config := config
      regexes := regexes
      natives := Array.replicate p.nativeNames.size none
      keyOrder := keyOrder
      world := world } : Machine) = m
    obtain ⟨hfit, hsafe⟩ := Run.reset_orderly (m := m) (p := p) (by rw [← hm])
      (by rw [← hm]; exact size_compileRegexes hregexes)
    rw [apply]
    cases hr : Run.reset _ with
    | ok a m =>
      rw [hr] at hsafe
      exact hsafe.1.fit hfit
    | error f m =>
      rw [hr] at hsafe
      exact hsafe.2

end Machine

/-! ## Program texts -/

/-- Whether something is so of a program text and of a new machine for it. -/
def Machine.tried (source : String) (config : Config) (world : World) (P : Program → Machine → Bool) : Bool :=
  (Program.ofSource source []).toOption.any fun p => (Machine.create p config world {}).toOption.any (P p)

lemma Machine.exists_of_tried (source : String) (config : Config) (world : World) (P : Program → Machine → Prop)
    [∀ p m, Decidable (P p m)] (h : tried source config world (fun p m => P p m) = true) :
    ∃ p m, Program.ofSource source [] = .ok p ∧ Machine.create p config world {} = .ok m ∧ P p m := by
  simp only [tried, Option.any_eq_true, decide_eq_true_eq] at h
  obtain ⟨p, hp, m, hm, h⟩ := h
  exact ⟨p, m, toOption_eq_some hp, toOption_eq_some hm, h⟩

lemma Machine.exists_of_resolved {α : Type} (source : String) (f : Program → Resolution → Machine → Option α)
    (h : tried source {} {} (fun p m => ((Resolution.ofSource source []).toOption.bind (f p · m)).isSome) = true) :
    ∃ p r m a, Program.ofSource source [] = .ok p ∧ Resolution.ofSource source [] = .ok r ∧
      Machine.create p {} {} {} = .ok m ∧ f p r m = some a := by
  obtain ⟨p, m, hp, hm, h⟩ := exists_of_tried source {} {}
    (fun p m => ((Resolution.ofSource source []).toOption.bind (f p · m)).isSome) (by simpa using h)
  obtain ⟨a, h⟩ := Option.isSome_iff_exists.mp h
  obtain ⟨r, hr, h⟩ := Option.bind_eq_some_iff.mp h
  exact ⟨p, r, m, a, hp, toOption_eq_some hr, hm, h⟩

/-- Compiled programs are safe: from a new machine on, with any settings, in any world, and whatever the host
does in any order, no instruction uses a constant, variable or function that is not there or takes a value
that does not belong to it, and no run or reset fails because of a defect in the program. -/
theorem Program.ofSource_safe {source : String} {natives : List NativeFunc} {p : Program}
    (h : Program.ofSource source natives = .ok p) (config : Config) (world : World) (keyOrder : KeyOrder) :
    match Machine.create p config world keyOrder with
    | .ok m => ∀ calls : List HostCall, (m.after calls).Safe
    | .error f => f.Allowed := by
  obtain ⟨r, -, hp, hsound, hproper⟩ := Program.ofSource_parts h
  have hverified := hp.verified hsound hproper
  have hcreate := Machine.create_fit (p := p) config world keyOrder
  cases hm : Machine.create p config world keyOrder with
  | ok m =>
    rw [hm] at hcreate
    exact fun calls => (hcreate.after hverified calls).safe hverified
  | error f =>
    rw [hm] at hcreate
    exact hcreate

theorem loopProgram_safe : ∃ p m, Program.ofSource loopProgram [] = .ok p ∧
    Machine.create p {} {} {} = .ok m ∧
    (m.after [.setStdin [[120, 10]], .run 1000, .reset, .setArgs ["x=1"], .run 20]).Safe := by
  obtain ⟨p, m, hp, hm, -⟩ := Machine.exists_of_tried loopProgram {} {} (fun _ _ => True) (by decide +kernel)
  have hsafe := Program.ofSource_safe hp {} {} {}
  rw [hm] at hsafe
  exact ⟨p, m, hp, hm, hsafe _⟩

end Awk
