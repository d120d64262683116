import Awk.Proofs.Expr.Calling
import Awk.Proofs.Stmt.Lowering

/-!
# How arguments are passed

The code of a call computes the arguments on the stack that all functions share, one above the other, and the function
finds its scalars there.  It does what the call means all the same, since neither the arguments nor the function see
what lies below their own values.
-/

namespace Awk

open Compile Run

/-! ## The machine of the caller -/

/-- The machine behind code of a function, which is still at work: the stack is as it was but for the scalars of the
function. -/
structure Machine.Resumes (room : Room) (m q : Machine) : Prop where
  keeps : m.Keeps q
  size : q.stack.size = m.stack.size
  stack : ∀ i, i < m.base ∨ m.base + room.scalars ≤ i → q.stack[i]? = m.stack[i]?

namespace Machine.Resumes

variable {p : Program} {room : Room} {m q n : Machine}

lemma refl (m : Machine) : m.Resumes room m := ⟨.refl m, rfl, fun _ _ => rfl⟩

lemma trans (h : m.Resumes room q) (h' : q.Resumes room n) : m.Resumes room n where
  keeps := h.keeps.trans h'.keeps
  size := h'.size.trans h.size
  stack i hi := (h'.stack i (by rwa [h.keeps.base])).trans (h.stack i hi)

lemma ready (h : m.Resumes room q) (hm : m.Ready p room m.stack.size) : q.Ready p room q.stack.size := by
  rw [h.size]
  exact h.keeps.ready hm

end Machine.Resumes

namespace Run

variable {α β : Type} {p : Program} {room : Room} {env : Env} {m : Machine}

section Verified

variable (hp : p.Verified)

include hp

omit hp in
lemma ready_above (hm : m.Ready p room m.stack.size) (vs : List Value) :
    (m.above vs).Ready p room (m.above vs).stack.size := by
  refine ready_onStack hm (m.stack ++ vs.toArray) m.base ?_
  have := hm.scalars
  rw [Array.size_append]
  omega

/-- Code that pushes a value does the same above values that wait on the stack. -/
lemma proceed_above {code : Code} {height : Nat → Nat} (hv : code.Verified p room 1 height) (fuel : Nat)
    (hm : m.Ready p room m.stack.size) (vs : List Value) :
    (∃ q v, m.Resumes room q ∧ proceed fuel code 0 m = .ok .normal (q.above [v]) ∧
      proceed fuel code 0 (m.above vs) = .ok .normal (q.above (vs ++ [v]))) ∨
    (∃ c q stack, c ≠ .normal ∧ proceed fuel code 0 m = .ok c q ∧
      proceed fuel code 0 (m.above vs) = .ok c { q with stack }) ∨
    ∃ f q stack, proceed fuel code 0 m = .error f q ∧ proceed fuel code 0 (m.above vs) = .error f { q with stack } := by
  have hpad : m.Padded m.stack.size vs.toArray room (m.above vs) :=
    ⟨⟨m.stack, #[], rfl, Array.append_empty.symm, Array.append_empty.symm⟩, .inr ⟨hm.scalars, rfl⟩, rfl⟩
  have hkeeps' := proceed_keeps hp hv fuel (ready_above hm vs)
  obtain ⟨c, q, q', hq, hq', hpadded, hkeeps, -⟩ | ⟨f, q, q', hq, hq', hpadded, hkeeps⟩ :=
    proceed_mirrors hp hv fuel hm hpad
  · obtain ⟨stack, base, rfl⟩ : ∃ stack base, q' = { q with stack, base } := ⟨_, _, hpadded.rest⟩
    rw [hq'] at hkeeps'
    obtain rfl : base = q.base := hkeeps'.base.trans hkeeps.base.symm
    by_cases hc : c = .normal
    · subst hc
      -- the value is what the code leaves above the place of those that wait
      have hsize := proceed_size hp hv fuel hm hq
      obtain ⟨⟨lower, upper, hlower, hstack, hstack'⟩, -, -⟩ := hpadded
      obtain ⟨v, rfl⟩ : ∃ v, upper = #[v] := by
        refine Array.size_eq_one_iff.mp ?_
        rw [hstack, Array.size_append] at hsize
        omega
      have hq₁ : q = Machine.above { q with stack := lower } [v] :=
        congrArg (fun stack => { q with stack }) hstack
      have hq₂ : { q with stack } = Machine.above { q with stack := lower } (vs ++ [v]) := by
        refine congrArg (fun stack => { q with stack }) (hstack'.trans ?_)
        change _ = lower ++ (vs ++ [v]).toArray
        rw [← List.append_toArray, Array.append_assoc]
      refine .inl ⟨{ q with stack := lower }, v, ⟨⟨hkeeps.outline, hkeeps.base, hkeeps.frames, hkeeps.inRange⟩, hlower,
        fun i hi => ?_⟩, hq₁ ▸ hq, hq₂ ▸ hq'⟩
      change lower[i]? = m.stack[i]?
      rcases Nat.lt_or_ge i m.stack.size with hlt | hge
      · rw [← proceed_restores hp hv fuel hm hq hlt hi, hstack, Array.getElem?_append_left (by omega)]
      · rw [Array.getElem?_eq_none hge, Array.getElem?_eq_none (by omega)]
    · exact .inr (.inl ⟨c, q, stack, hc, hq, hq'⟩)
  · obtain ⟨stack, base, rfl⟩ : ∃ stack base, q' = { q with stack, base } := ⟨_, _, hpadded.rest⟩
    rw [hq'] at hkeeps'
    obtain rfl : base = q.base := hkeeps'.base.trans hkeeps.base.symm
    exact .inr (.inr ⟨f, q, stack, hq, hq'⟩)

end Verified

/-! ## Code that does what an evaluation does -/

lemma Evaluation.bind_apply (x : Evaluation α) (f : α → Evaluation β) (m : Machine) :
    (x >>= f).run m = match x.run m with
      | .ok (.ok a) q => (f a).run q
      | .ok (.error c) q => .ok (.error c) q
      | .error fault q => .error fault q := by
  change EStateM.bind x.run _ m = _
  rw [EStateM.bind]
  cases x.run m with
  | ok r q => cases r <;> rfl
  | error fault q => rfl

/-- A run from one address reaches another one with values on the stack that come of what an evaluation gives, or it
ends as the evaluation does, but for the stack. -/
def Delivers (full : Code) (start : Nat) (m : Machine) (stop : Nat) (post : α → List Value) (Q : α → Machine → Prop) :
    EStateM.Result Fault Machine (Except Completion α) → Prop
  | .ok (.ok a) q => Q a q ∧ ∀ r, RunsTo full stop (q.above (post a)) r → RunsTo full start m r
  | .ok (.error c) q => c ≠ .normal ∧ ∃ stack, RunsTo full start m (.ok c { q with stack })
  | .error f q => f = .outOfFuel ∨ ∃ stack, RunsTo full start m (.error f { q with stack })

variable {a : α} {post : β → List Value} {Q' : β → Machine → Prop} {full : Code}

namespace Delivers

variable {full : Code} {start middle stop : Nat} {m' : Machine} {mid : α → List Value} {Q : α → Machine → Prop}

lemma pure {pre : List Value} (h : Q a m) (hpre : mid a = pre) :
    Delivers full start (m.above pre) start mid Q ((Pure.pure a : Evaluation α).run m) :=
  ⟨h, fun _ hr => hpre ▸ hr⟩

lemma extend {start' : Nat} {r : EStateM.Result Fault Machine (Except Completion α)}
    (h : Delivers full start m stop mid Q r) (hstart : ∀ r, RunsTo full start m r → RunsTo full start' m' r) :
    Delivers full start' m' stop mid Q r := by
  match r, h with
  | .ok (.ok _) _, h => exact ⟨h.1, fun r hr => hstart r (h.2 r hr)⟩
  | .ok (.error _) _, ⟨hc, stack, h⟩ => exact ⟨hc, stack, hstart _ h⟩
  | .error _ _, .inl h => exact .inl h
  | .error _ _, .inr ⟨stack, h⟩ => exact .inr ⟨stack, hstart _ h⟩

lemma bind {x : Evaluation α} {f : α → Evaluation β}
    (hx : Delivers full start m' middle mid Q (x.run m))
    (hf : ∀ a q, Q a q → Delivers full middle (q.above (mid a)) stop post Q' ((f a).run q)) :
    Delivers full start m' stop post Q' ((x >>= f).run m) := by
  rw [Evaluation.bind_apply]
  match x.run m, hx with
  | .ok (.ok a) q, hx => exact (hf a q hx.1).extend hx.2
  | .ok (.error _) _, hx | .error _ _, hx => exact hx

end Delivers

/-- Running code on a machine, above any values, does what an evaluation does, takes values off the stack and leaves
others there. -/
def Carries (m : Machine) (code : List Op) (pre : List Value) (x : Evaluation α) (post : α → List Value)
    (Q : α → Machine → Prop) : Prop :=
  ∀ (full : Code) (o : Nat), Stands full o code → ∀ vs,
    Delivers full o (m.above (vs ++ pre)) (o + code.length) (fun a => vs ++ post a) Q (x.run m)

namespace Carries

variable {code first rest : List Op} {pre : List Value} {x : Evaluation α} {mid : α → List Value}
  {Q : α → Machine → Prop}

lemma pure (h : Q a m) (hpre : mid a = pre) : Carries m [] pre (Pure.pure a : Evaluation α) mid Q :=
  fun _ _ _ vs => .pure h (congrArg (vs ++ ·) hpre)

lemma bind {f : α → Evaluation β} (hx : Carries m first pre x mid Q)
    (hf : ∀ a q, Q a q → Carries q rest (mid a) (f a) post Q') : Carries m (first ++ rest) pre (x >>= f) post Q' := by
  intro full o hs vs
  obtain ⟨hfirst, hrest⟩ := along_append.mp hs
  rw [List.length_append, ← Nat.add_assoc]
  exact (hx full o hfirst vs).bind fun a q hq => hf a q hq full _ hrest vs

lemma map {g : α → β} (hx : Carries m code pre x mid Q)
    (hg : ∀ a q, Q a q → Q' (g a) q) (hpost : ∀ a, post (g a) = mid a) :
    Carries m code pre (x >>= fun a => Pure.pure (g a)) post Q' := by
  have h : Carries m (code ++ []) pre (x >>= fun a => Pure.pure (g a)) post Q' :=
    hx.bind fun a q hq => .pure (hg a q hq) (hpost a)
  rwa [List.append_nil] at h

lemma behind (us : List Value) (h : Carries m code [] x mid Q) : Carries m code us x (fun a => us ++ mid a) Q := by
  intro full o hs vs
  simpa only [List.append_assoc, List.append_nil] using h full o hs (vs ++ us)

lemma delivers {start : Nat} (h : Carries m code [] x mid Q) (hs : Stands full start code) :
    Delivers full start m (start + code.length) mid Q (x.run m) := by
  simpa using h full start hs []

lemma result {q : Machine} (h : Carries m code pre x mid Q) (hx : x.run m = .ok (.ok a) q) : Q a q := by
  have hend := h _ 0 (stands_self code) []
  rw [hx] at hend
  exact hend.1

end Carries

variable {full : Code} {start : Nat} {arrays : List Bool} {args : List Expr} {passed : List Binding} {q : Machine}
  {refs : List ArrayRef}

/-- Code that pushes a value does what it does by itself. -/
lemma pushed_carries (hp : p.Verified) {code : List Op} (hshape : Turns p room code 0 1)
    (hm : m.Ready p room m.stack.size) (fuel : Nat) :
    Carries m code [] (pushed fuel code) (fun v => [v]) fun _ q => m.Resumes room q := by
  intro full start hs pre
  rw [List.append_nil]
  obtain ⟨height, hv⟩ := hshape.verified
  have hclosed := hshape.closed
  rw [pushed, ExceptT.run_mk, bind_apply]
  rcases proceed_above hp hv fuel hm pre with ⟨q, v, hq, h, h'⟩ | ⟨c, q, stack, hne, h, h'⟩ | ⟨f, q, stack, h, h'⟩
  · rw [h]
    dsimp only
    rw [bind_apply, pop_apply]
    exact ⟨hq, fun r hr => .inside hs hclosed (Nat.zero_le _) h' (ok_ne_outOfFuel _ _) hr⟩
  · have hruns : RunsTo full start (m.above pre) (.ok c { q with stack }) := by
      refine .inside hs hclosed (Nat.zero_le _) h' (ok_ne_outOfFuel _ _) ?_
      cases c <;> first | exact absurd rfl hne | rfl
    rw [h]
    cases c <;> first | exact absurd rfl hne | exact ⟨hne, stack, hruns⟩
  · rw [h]
    by_cases hf : f = .outOfFuel
    · exact .inl hf
    · have hout : ∀ n, (.error f { q with stack } : Ending) ≠ .error .outOfFuel n := by
        rintro n ⟨⟩
        exact hf rfl
      exact .inr ⟨stack, .inside hs hclosed (Nat.zero_le _) h' hout rfl⟩

/-! ## Arguments -/

/-- What the caller passes, and its machine when it has computed the arguments. -/
structure Passed (p : Program) (room : Room) (env : Env) (arrays : List Bool) (args : List Expr) (m : Machine)
    (passed : List Binding) (q : Machine) : Prop where
  resumes : m.Resumes room q
  kinds : passed.map Binding.isArray = arrays.take args.length
  named : ∀ j slot : Nat, passed[j]? = some (.array slot) → ∃ v a, args[j]? = some (.place (.var v)) ∧
    Gives (env.array v) p.pools a ∧ slotOf a q = .ok slot q ∧ slot < q.arrays.size

lemma Passed.length_eq (h : Passed p room env arrays args m passed q) (hlen : args.length ≤ arrays.length) :
    passed.length = args.length := by
  have := congrArg List.length h.kinds
  rwa [List.length_map, List.length_take, Nat.min_eq_left hlen] at this

section

variable (hset : Setting p room env) (hm : m.Ready p room m.stack.size)

include hset hm

lemma passArray_carries {v : VarRef} (hv : env.HasKind v.name .array) {a : ArrayRef}
    (ha : Gives (env.array v) p.pools a) :
    Carries m [] [] ((Expr.place (.var v)).passArray env p.pools) (fun b => Binding.values [b])
      fun b q => q = m ∧ ∃ slot, b = .array slot ∧ slotOf a m = .ok slot m ∧ slot < m.arrays.size := by
  obtain ⟨slot, hslot, h⟩ := slotIn_of_inReach (hm.array_inReach (hset.array hv ha))
  have h := slotOf_eq_ok.mpr h
  have hpass : ((Expr.place (.var v)).passArray env p.pools).run m = .ok (.ok (.array slot)) m := by
    change lowered p.pools (env.array v) _ m = _
    rw [lowered_of_gives ha, bind_apply, h]
    rfl
  intro full o _ vs
  rw [hpass]
  exact ⟨⟨rfl, slot, rfl, h, hslot⟩, fun r hr => hr⟩

variable (hp : p.Verified) (fuel : Nat)

include hp

variable {code : List Op}

/-- The code of an argument leaves its value above those of the arguments before. -/
lemma passScalar_carries {e : Expr} (hk : e.Kinded env) (he : e.Proper)
    (hc : Gives (exprCode env e).value p.pools code) :
    Carries m code [] (e.passScalar env p.pools fuel) (fun b => Binding.values [b])
      fun b q => m.Resumes room q ∧ ∃ v, b = .scalar v := by
  have hshape := (expr_shapes hset hk he).value hc
  have hpass : (e.passScalar env p.pools fuel).run m =
      (pushed fuel code >>= fun v => pure (Binding.scalar v) : Evaluation Binding).run m := by
    refine (congrFun (lowered_of_gives hc _) m).trans ?_
    rw [Evaluation.bind_apply, pushed, ExceptT.run_mk, bind_apply, bind_apply]
    cases proceed fuel code.toArray 0 m with
    | ok c q => cases c <;> rfl
    | error f q => rfl
  intro full o hs vs
  rw [hpass]
  exact ((pushed_carries hp hshape hm fuel).map (fun v q hq => ⟨hq, v, rfl⟩) fun _ => rfl) full o hs vs

/-- The code of all arguments leaves the values of those that go to scalars, one above the other. -/
lemma passAll_carries {args : List Expr} (he : AllIn Expr.CallFits args) {arrays : List Bool}
    (hlen : args.length ≤ arrays.length) (hk : ArgsKinded env arrays args) {refs : List ArrayRef}
    (hc : Gives (argsCode env arrays args (exprCodes env args)) p.pools (code, refs)) :
    Carries m code [] (passAll env p.pools fuel arrays args) Binding.values fun passed q =>
      Passed p room env arrays args m passed q ∧
        List.Forall₂ (fun a slot => slotOf a q = .ok slot q) refs (Binding.slots passed) := by
  induction args generalizing arrays code refs m with
  | nil =>
    have hnil : argsCode env arrays [] (exprCodes env []) = pure ([], []) := by
      rw [argsCode] <;> simp
    rw [hnil] at hc
    cases gives_pure.mp hc
    rw [passAll]
    exact .pure ⟨⟨.refl m, rfl, by simp⟩, .nil⟩ rfl
  | cons arg args ih =>
    obtain _ | ⟨b, arrays⟩ := arrays
    · cases hlen
    rw [List.length_cons, List.length_cons, Nat.add_le_add_iff_right] at hlen
    rw [exprCodes] at hc
    obtain ⟨hfirst, hk⟩ := hk
    rw [passAll]
    cases b with
    | true =>
      obtain ⟨v, rfl, hv⟩ := hfirst
      obtain ⟨a, ha, hc⟩ := gives_bind.mp hc
      obtain ⟨⟨rest, refs'⟩, hargs, hc⟩ := gives_bind.mp hc
      cases gives_pure.mp hc
      refine .bind (passArray_carries hset hm hv ha) ?_
      rintro _ _ ⟨rfl, slot, rfl, hslot, hlt⟩
      refine ((ih hm he.2 hlen hk hargs).behind _).map ?_ fun passed => Binding.values_append [_] passed
      rintro passed q ⟨hpassed, hrefs⟩
      have hkeeps := hpassed.resumes.keeps
      refine ⟨⟨hpassed.resumes, ?_, ?_⟩, .cons (slotOf_congr hslot hkeeps.frames) hrefs⟩
      · rw [List.map_cons, hpassed.kinds]
        rfl
      · rintro (_ | j) slot' h
        · cases h
          exact ⟨v, a, rfl, ha, slotOf_congr hslot hkeeps.frames, by rwa [hkeeps.arrays]⟩
        · exact hpassed.named j slot' h
    | false =>
      obtain ⟨first, hcode, hc⟩ := gives_bind.mp hc
      obtain ⟨⟨rest, refs'⟩, hargs, hc⟩ := gives_bind.mp hc
      cases gives_pure.mp hc
      refine .bind (passScalar_carries hset hm hp fuel hfirst he.1 hcode) ?_
      rintro _ n ⟨hn, v, rfl⟩
      refine ((ih (hn.ready hm) he.2 hlen hk hargs).behind _).map ?_ fun passed => Binding.values_append [_] passed
      rintro passed q ⟨hpassed, hrefs⟩
      refine ⟨⟨hn.trans hpassed.resumes, ?_, ?_⟩, hrefs⟩
      · rw [List.map_cons, hpassed.kinds]
        rfl
      · rintro (_ | j) slot h
        · cases h
        · exact hpassed.named j slot h

end

/-! ## The call -/

lemma mapM_slotIn {slots : List Nat} (h : List.Forall₂ (fun a slot => slotOf a m = .ok slot m) refs slots) :
    refs.mapM (slotIn m.frames) = .ok slots := by
  induction h with
  | nil => rfl
  | cons ha _ ih =>
    rw [List.mapM_cons, slotOf_eq_ok.mp ha, ih]
    rfl

/-- How a call goes on by how the body of the function ended. -/
lemma conclude_apply (c : Completion) (m : Machine) : conclude c m = match outcome c with
    | .ok v => .ok .normal (m.above [v])
    | .error c => .ok c m := by
  cases c with
  | «return» | normal | breakForIn =>
    rw [conclude, bind_apply, push_apply]
    rfl
  | next | nextFile | exit => rfl

lemma ne_normal_of_outcome {c c' : Completion} (h : outcome c = .error c') : c' ≠ .normal := by
  rintro rfl
  cases c <;> cases h

lemma invoke_apply (fuel : Nat) (f : CompiledFunction) (arrays : List Bool) (passed : List Binding) (m : Machine) :
    (invoke fuel f arrays passed).run m =
      if m.config.maxCallDepth ≤ m.frames.length then
        .error (.error (.callDepthExceeded f.name m.config.maxCallDepth)) m
      else
        match apart fuel f arrays passed m with
        | .ok c n => .ok (outcome c) n
        | .error fault n => .error fault n := by
  change (if m.config.maxCallDepth ≤ m.frames.length then _ else _ : Run (Except Completion Value)) m = _
  split_ifs with hdepth
  · rfl
  · rw [bind_apply]
    cases apart fuel f arrays passed m <;> rfl

/-- A function can be called with what is passed for its first parameters; the arrays are those of an instruction. -/
structure Callable (p : Program) (q : Machine) (i : Nat) (f : CompiledFunction) (arrays : List Bool)
    (passed : List Binding) (refs : List ArrayRef) : Prop where
  function : p.functions[i]? = some f
  scalarCount : f.scalarCount = arrays.count false
  arrayCount : f.arrayCount = arrays.count true
  kinds : passed.map Binding.isArray = arrays.take passed.length
  refs : List.Forall₂ (fun a slot => slotOf a q = .ok slot q) refs (Binding.slots passed)
  bound : ∀ slot ∈ Binding.slots passed, slot < q.arrays.size

lemma Passed.callable (h : Passed p room env arrays args m passed q) (hlen : args.length ≤ arrays.length) {i : Nat}
    {f : CompiledFunction} (hf : p.functions[i]? = some f) (hscalars : f.scalarCount = arrays.count false)
    (harrays : f.arrayCount = arrays.count true)
    (hrefs : List.Forall₂ (fun a slot => slotOf a q = .ok slot q) refs (Binding.slots passed)) :
    Callable p q i f arrays passed refs := by
  refine ⟨hf, hscalars, harrays, by rw [h.length_eq hlen, h.kinds], hrefs, fun slot hslot => ?_⟩
  obtain ⟨b, hb, hslot⟩ := List.mem_filterMap.mp hslot
  cases b with
  | scalar v => cases hslot
  | array slot' =>
    cases hslot
    obtain ⟨j, hj⟩ := List.mem_iff_getElem?.mp hb
    obtain ⟨-, -, -, -, -, hlt⟩ := h.named j slot hj
    exact hlt

namespace Callable

variable {q : Machine} {i : Nat} {f : CompiledFunction} {arrays : List Bool} {passed : List Binding}
  {refs : List ArrayRef} (h : Callable p q i f arrays passed refs)

include h

lemma length_values : (Binding.values (q.bindings arrays passed)).length = f.scalarCount := by
  rw [Binding.length_values, Machine.isArray_bindings h.kinds, h.scalarCount]

lemma length_slots : (Binding.slots (q.bindings arrays passed)).length = f.arrayCount := by
  rw [Binding.length_slots, Machine.isArray_bindings h.kinds, h.arrayCount]

lemma slots_add_missing :
    (Binding.slots passed).length + (arrays.drop passed.length).count true = f.arrayCount := by
  rw [← h.length_slots, Machine.bindings, Binding.slots_append, List.length_append, Binding.slots_unpassed,
    List.length_map, List.length_range]

/-- The arrays of the function are those that the arguments name, and new ones. -/
lemma calling_above (vs : List Value) : (q.above vs).calling f (Binding.slots passed) =
    { q.started arrays passed with
      stack := (q.above vs).stack
      base := (q.above vs).stack.size - f.scalarCount } := by
  have hmissing : f.arrayCount - (Binding.slots passed).length = (arrays.drop passed.length).count true := by
    rw [← h.slots_add_missing, Nat.add_sub_cancel_left]
  rw [Machine.calling, Machine.slots, hmissing, Machine.started, Machine.bindings, Binding.slots_append,
    Binding.slots_unpassed]
  rfl

variable (hq : q.Ready p room q.stack.size)

include hq

lemma ready_started : (q.started arrays passed).Ready p f.room (q.started arrays passed).stack.size := by
  set vs := Binding.values (q.bindings arrays passed) with hvs
  have hsize : vs.toArray.size = f.scalarCount := List.size_toArray.trans h.length_values
  have hle : f.scalarCount ≤ (q.above vs).stack.size := by
    rw [Machine.stack_above, Array.size_append]
    omega
  set inner := (q.above vs).calling f (Binding.slots passed) with hinner
  have hready : inner.Ready p f.room inner.stack.size :=
    ready_calling (ready_above hq vs) (h.slots_add_missing ▸ Nat.le_add_right _ _) h.bound hle
  have hstarted := ready_onStack hready vs.toArray 0 (by rw [hsize, Nat.zero_add]; exact Nat.le_refl _)
  rwa [hinner, h.calling_above] at hstarted

lemma callee_above (hdepth : q.frames.length < q.config.maxCallDepth) (vs : List Value) :
    (q.above vs).callee i refs = .ok (f, Binding.slots passed) := by
  have hf : q.program.functions[i]? = some f := by rw [hq.program, h.function]
  refine Machine.callee_eq_ok.mpr ⟨hf, hdepth, ?_⟩
  rw [List.take_of_length_le]
  · exact mapM_slotIn (m := q) h.refs
  · rw [h.refs.length_eq, ← h.slots_add_missing]
    exact Nat.le_add_right _ _

lemma callUser_above (hp : p.Verified) (fuel : Nat)
    (hdepth : q.frames.length < q.config.maxCallDepth) :
    callUser (fun body => proceed fuel body 0) i refs (q.above (Binding.values (q.bindings arrays passed))) =
      (apart fuel f arrays passed >>= conclude) q := by
  set vs := Binding.values (q.bindings arrays passed) with hvs
  have hsize : vs.toArray.size = f.scalarCount := List.size_toArray.trans h.length_values
  have hplace : (q.above vs).stack.size - f.scalarCount = q.stack.size := by
    rw [Machine.stack_above, Array.size_append, hsize, Nat.add_sub_cancel]
  have hpad : (q.started arrays passed).Padded 0 q.stack f.room ((q.above vs).calling f (Binding.slots passed)) := by
    rw [h.calling_above, hplace]
    refine ⟨⟨#[], vs.toArray, rfl, Array.empty_append.symm, ?_⟩, .inl ⟨Nat.le_refl 0, (Nat.zero_add _).symm⟩, rfl⟩
    rw [Array.empty_append]
    rfl
  -- behind the function only what was below its scalars is left
  have hleave {n n' : Machine} (hkeeps : (q.started arrays passed).Keeps n)
      (hn : n.Padded 0 q.stack f.room n') :
      n'.leave (q.above vs) f.scalarCount q.arrays.size = n.returned q := by
    have hframes : n.frames.tail = q.frames := congrArg List.tail hkeeps.frames
    obtain ⟨⟨lower, upper, hlower, -, hstack⟩, -, hrest⟩ := hn
    obtain rfl : lower = #[] := Array.size_eq_zero_iff.mp hlower
    have hshrink : n'.stack.shrink q.stack.size = q.stack := by
      have := shrink_append q.stack upper 0
      rw [Nat.add_zero] at this
      rw [hstack, Array.empty_append, this]
      simp
    rw [Machine.leave, hplace, hshrink, hrest, hframes]
    rfl
  obtain ⟨height, hv⟩ := hp.functions f (Array.mem_of_getElem? h.function)
  rw [callUser_apply, h.callee_above hq hdepth, bind_apply, apart]
  dsimp only
  obtain ⟨c, n, n', hn, hn', hpad', hkeeps, -⟩ | ⟨fault, n, n', hn, hn', hpad', hkeeps⟩ :=
    proceed_mirrors hp hv fuel (h.ready_started hq) hpad
  · rw [hn, hn']
    exact congrArg _ (hleave hkeeps hpad')
  · rw [hn, hn']
    exact congrArg _ (hleave hkeeps hpad')

/-- The instruction of a call leaves the value of the call in place of the scalars. -/
lemma invoke_delivers (hp : p.Verified) (fuel : Nat)
    {pc stop : Nat} (hop : full[pc]? = some (.callUser i refs.length))
    (hstop : min (pc + 1 + refs.length) full.size = stop) (hrefs : arrayArgs full (pc + 1) stop = refs) :
    Delivers full pc (q.above (Binding.values (q.bindings arrays passed))) stop (fun v => [v]) (fun _ _ => True)
      ((invoke fuel f arrays passed).run q) := by
  set inner := q.above (Binding.values (q.bindings arrays passed)) with hinner
  have hadvance : advance fuel full pc (.callUser i refs.length) inner =
      (callUser (fun body => proceed fuel body 0) i refs >>= fun c => pure (.behind stop c)) inner := by
    rw [advance, hstop, hrefs]
  rw [bind_apply] at hadvance
  rw [invoke_apply]
  rcases Nat.lt_or_ge q.frames.length q.config.maxCallDepth with hdepth | hdepth
  · have hcall := h.callUser_above hq hp fuel hdepth
    rw [bind_apply] at hcall
    rw [if_neg (by omega)]
    cases hr : apart fuel f arrays passed q with
    | error fault n =>
      rw [hr] at hcall
      rw [hcall] at hadvance
      by_cases hfault : fault = .outOfFuel
      · exact .inl hfault
      · exact .inr ⟨n.stack, .fault hop hfault hadvance⟩
    | ok c n =>
      rw [hr] at hcall
      dsimp only at hcall ⊢
      rw [conclude_apply] at hcall
      cases hc : outcome c with
      | ok v =>
        rw [hc] at hcall
        rw [hcall] at hadvance
        exact ⟨trivial, fun r hr => .go hop hadvance hr⟩
      | error c' =>
        have hne := ne_normal_of_outcome hc
        rw [hc] at hcall
        rw [hcall] at hadvance
        refine ⟨hne, n.stack, .stop hop (hadvance.trans ?_)⟩
        cases c' <;> first | exact absurd rfl hne | rfl
  · have hf : inner.program.functions[i]? = some f := by
      change q.program.functions[i]? = some f
      rw [hq.program, h.function]
    rw [callUser_apply, Machine.callee_tooDeep hf hdepth] at hadvance
    rw [if_pos hdepth]
    exact .inr ⟨inner.stack, .fault hop (by simp) hadvance⟩

end Callable

/-! ## Compiled calls -/

/-- Scalars without an argument are pushed behind the others. -/
lemma nulls_runsTo {count : Nat} {vs : List Value} {r : Ending}
    (hs : Stands full start (if count = 0 then [] else [Op.nulls count]))
    (hr : RunsTo full (start + (if count = 0 then [] else [Op.nulls count]).length)
      (m.above (vs ++ List.replicate count Value.null)) r) : RunsTo full start (m.above vs) r := by
  split_ifs at hs hr with hcount
  · rwa [hcount, List.replicate_zero, List.append_nil] at hr
  · refine .step (along_singleton.mp hs) rfl ?_ hr
    change EStateM.Result.ok () { m.above vs with stack := (m.above vs).stack ++ Array.replicate count Value.null } = _
    have hstack : (m.above vs).stack ++ Array.replicate count Value.null =
        (m.above (vs ++ List.replicate count Value.null)).stack := by
      rw [Machine.stack_above, Machine.stack_above, Array.append_assoc, ← List.append_toArray, List.toArray_replicate]
    rw [hstack]
    rfl

lemma arrayArgs_append (before : List Op) (op : Op) (refs : List ArrayRef) :
    arrayArgs (before ++ op :: refs.map .arrayArg).toArray (before.length + 1) (before.length + 1 + refs.length) =
      refs := by
  have hbehind : ((before ++ op :: refs.map Op.arrayArg).toArray.extract (before.length + 1)
      (before.length + 1 + refs.length)).toList = refs.map .arrayArg := by
    rw [Array.toList_extract]
    simp [List.extract, List.take_of_length_le]
  rw [arrayArgs, hbehind, List.filterMap_map]
  exact List.filterMap_some

end Run

end Awk
