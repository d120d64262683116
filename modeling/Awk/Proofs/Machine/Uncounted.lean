import Awk.Proofs.Machine.Related

/-!
# Running code without counting

Counting instructions only serves to see now and then whether a program is cancelled.  `proceed` runs code
without it.  No instruction looks at the count or at whether the program is cancelled, so that counting makes
no difference to a program that is not.
-/

namespace Awk

def Machine.onContext (h : Context → Context) (m : Machine) : Machine := m.within (h m.context)

namespace Run

variable {α β : Type}

/-! ## Changes of the context -/

/-- An operation commutes with a change of the context, as long as machines have a property that it keeps. -/
structure Respects (h : Context → Context) (I : Machine → Prop) (x : Run α) : Prop where
  commutes : ∀ m, I m → x (m.onContext h) = (x m).mapState (·.onContext h)
  keeps : ∀ m, I m → I (x m).state

namespace Respects

variable {h : Context → Context} {I : Machine → Prop}

lemma pure (a : α) : Respects h I (Pure.pure a : Run α) := ⟨fun _ _ => rfl, fun _ hm => hm⟩

lemma throw (f : Fault) : Respects h I (MonadExcept.throw f : Run α) := ⟨fun _ _ => rfl, fun _ hm => hm⟩

lemma bind {x : Run α} {f : α → Run β} (hx : Respects h I x) (hf : ∀ a, Respects h I (f a)) :
    Respects h I (x >>= f) := by
  constructor
  · intro m hm
    have hkeep := hx.keeps m hm
    rw [bind_apply, bind_apply, hx.commutes m hm]
    cases hr : x m with
    | ok a m' =>
      rw [hr] at hkeep
      exact (hf a).commutes m' hkeep
    | error e m' => rfl
  · intro m hm
    have hkeep := hx.keeps m hm
    rw [bind_apply]
    cases hr : x m with
    | ok a m' =>
      rw [hr] at hkeep
      exact (hf a).keeps m' hkeep
    | error e m' =>
      rw [hr] at hkeep
      exact hkeep

lemma get_bind {f : Machine → Run β} (hf : ∀ m, I m → f (m.onContext h) = f m)
    (hr : ∀ m, I m → Respects h I (f m)) : Respects h I (get >>= f) := by
  constructor
  · intro m hm
    change f (m.onContext h) (m.onContext h) = (f m m).mapState (·.onContext h)
    rw [hf m hm]
    exact (hr m hm).commutes m hm
  · exact fun m hm => (hr m hm).keeps m hm

lemma modifyGet {f : Machine → α × Machine}
    (hf : ∀ m, I m → f (m.onContext h) = ((f m).1, (f m).2.onContext h)) (hk : ∀ m, I m → I (f m).2) :
    Respects h I (modifyGet f : Run α) := by
  refine ⟨fun m hm => ?_, hk⟩
  change EStateM.Result.ok (f (m.onContext h)).1 (f (m.onContext h)).2 = _
  rw [hf m hm]
  rfl

lemma modify {f : Machine → Machine} (hf : ∀ m, I m → f (m.onContext h) = (f m).onContext h)
    (hk : ∀ m, I m → I (f m)) : Respects h I (modify f : Run Unit) :=
  modifyGet (fun m hm => by rw [hf m hm]) hk

/-- What does not look at the context commutes with every change of it. -/
lemma of_blind {x : Run α} (hx : Blind x) (hk : ∀ m, I m → I (x m).state) : Respects h I x := by
  refine ⟨fun m _ => (hx m (h m.context)).trans ?_, hk⟩
  exact EStateM.Result.mapState_congr (by rw [Machine.onContext, hx.context_eq m])

end Respects

end Run

/-! ## The count and the flag -/

/-- A context with another count of instructions and another flag. -/
def Context.withClock (cancelled : Bool) (ticks : Nat) (c : Context) : Context := { c with cancelled, ticks }

/-- Two machines are the same but for the count of instructions, and are cancelled or not as given. -/
def Machine.SameButTicks (cancelled : Bool) (m m' : Machine) : Prop :=
  m.cancelled = cancelled ∧ ∃ ticks, m' = { m with ticks }

namespace Run

variable {cancelled : Bool}

/-- What instructions do makes no difference between machines that differ in the count. -/
lemma Composed.sameButTicks {bad : Fault → Prop} {x : Run α} (hx : Composed (.stepwise True) x) :
    Agrees (Machine.SameButTicks cancelled) bad x x := by
  have hclock (cancelled : Bool) (ticks : Nat) : Commutes (Machine.onContext (.withClock cancelled ticks)) x := by
    have hblind {α : Type} {x : Run α} (hx : Tame x) : Commutes (Machine.onContext (.withClock cancelled ticks)) x :=
      fun m => (Respects.of_blind (I := fun _ => True) hx.blind fun _ _ => trivial).commutes m trivial
    exact hx.commutes ⟨(id, fun _ => cancelled, fun _ => ticks, id), rfl⟩ (fun _ _ _ hx => hblind hx.tame)
      fun _ _ _ hx => hblind hx.plain.tame
  refine .of_mapState ?_
  rintro m _ ⟨rfl, ticks, rfl⟩
  have hsame := congrArg EStateM.Result.state (hclock m.cancelled m.ticks m)
  rw [EStateM.Result.state_mapState] at hsame
  have hflag : (x m).state.cancelled = m.cancelled := (congrArg Machine.cancelled hsame).trans rfl
  refine ⟨_, hclock m.cancelled ticks m, hflag, ticks, ?_⟩
  rw [← hflag]
  rfl

lemma indistinct_sameButTicks : Indistinct fun (_ : Unit) => Machine.SameButTicks cancelled where
  part hx := hx.sameButTicks
  sees := by
    rintro _ m _ ⟨-, ticks, rfl⟩
    exact ⟨rfl, rfl, rfl, rfl⟩
  call := by
    rintro _ m _ ⟨hflag, ticks, rfl⟩ - f bound
    refine ⟨(), ⟨hflag, ticks, rfl⟩, ?_⟩
    rintro n _ ⟨hflag, ticks, rfl⟩
    exact ⟨hflag, ticks, rfl⟩

/-- Counting changes nothing but the count, unless the program is cancelled. -/
lemma tick_agrees : Agrees (Machine.SameButTicks cancelled)
    (fun f => cancelled = true ∧ f = .error .cancelled) tick (pure ()) := by
  rintro m _ ⟨hflag, ticks, rfl⟩
  rw [tick_apply]
  cases hstopped : (counted m).1 with
  | true =>
    have hcancelled : m.cancelled = true := (Bool.and_eq_true_iff.mp hstopped).2
    exact .inl ⟨hflag ▸ hcancelled, rfl⟩
  | false => exact ⟨_, rfl, hflag, ticks, rfl⟩

/-! ## Running code without counting -/

/-- Runs code from an address on, without counting. -/
def proceed : (fuel : Nat) → Code → (pc : Nat) → Run Completion
  | 0, _, _ => throw .outOfFuel
  | fuel + 1, code, pc =>
    match code[pc]? with
    | none => return .normal
    | some op => follow (proceed fuel code) (fun body => proceed fuel body 0) (fun _ body => proceed fuel body 0)
        code pc op

lemma proceed_eq_execWith (fuel floor : Nat) (code : Code) (pc : Nat) :
    proceed fuel code pc = execWith (fun _ _ => pure ()) fuel floor code pc := by
  refine eq_execWith (fun _ _ => rfl) (fun fuel code pc => ?_) fuel floor code pc
  rw [proceed]
  cases code[pc]? <;> rfl

/-- Counting makes no difference but for the count, unless the program is cancelled. -/
theorem exec_eq_proceed (fuel : Nat) (code : Code) (pc : Nat) (m : Machine) :
    (∃ ticks, exec fuel code pc m = (proceed fuel code pc m).mapState ({ · with ticks })) ∨
      m.cancelled = true ∧ ∃ m', exec fuel code pc m = .error (.error .cancelled) m' := by
  rw [exec_eq_execWith fuel 0, proceed_eq_execWith fuel 0]
  have hagrees : Agrees (Machine.SameButTicks m.cancelled)
      (fun f => m.cancelled = true ∧ f = .error .cancelled) (execWith (fun _ _ => tick) fuel 0 code pc)
      (execWith (fun _ _ => pure ()) fuel 0 code pc) :=
    indistinct_sameButTicks.execWith (o := ()) (fun _ _ _ => tick_agrees) (.inl rfl) 0 code pc
  have hm : m.SameButTicks m.cancelled m := ⟨rfl, m.ticks, rfl⟩
  cases hr : execWith (fun _ _ => tick) fuel 0 code pc m with
  | ok c n =>
    obtain ⟨_, hn, -, ticks, rfl⟩ := hagrees.ok hm hr
    rw [hn]
    exact .inl ⟨n.ticks, rfl⟩
  | error f n =>
    obtain ⟨hc, rfl⟩ | ⟨_, hn, -, ticks, rfl⟩ := hagrees.error hm hr
    · exact .inr ⟨hc, n, rfl⟩
    · rw [hn]
      exact .inl ⟨n.ticks, rfl⟩

lemma agrees_proceed {fuel fuel' : Nat} (h : fuel ≤ fuel') (code : Code) (pc : Nat) :
    Agrees Eq (Fault.outOfFuel = ·) (proceed fuel code pc) (proceed fuel' code pc) := by
  rw [proceed_eq_execWith fuel 0, proceed_eq_execWith fuel' 0]
  exact indistinct_eq.execWith (o := ()) (fun _ _ _ => .refl _) (.inr ⟨h, rfl⟩) 0 code pc

/-- More fuel does not change the result of a run that does not run out of it. -/
lemma proceed_mono {fuel fuel' : Nat} (h : fuel ≤ fuel') {code : Code} {pc : Nat} {m : Machine}
    (hout : ∀ m', proceed fuel code pc m ≠ .error .outOfFuel m') :
    proceed fuel' code pc m = proceed fuel code pc m := by
  have hagrees := agrees_proceed h code pc
  cases hr : proceed fuel code pc m with
  | ok c n =>
    obtain ⟨_, hn, rfl⟩ := hagrees.ok rfl hr
    exact hn
  | error f n =>
    obtain rfl | ⟨_, hn, rfl⟩ := hagrees.error rfl hr
    · exact absurd hr (hout n)
    · exact hn

end Run

end Awk
