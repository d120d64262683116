import Awk.Proofs.Expr.Passing

/-!
# Compiled calls pass their arguments

Every call of a function in a program text, at whatever depth it is made, passes scalars by value and arrays by
reference: its code does what the call means, where the function has a stack of its own and finds arrays by their slots.
-/

namespace Awk

open Compile Run

namespace Run

variable {p : Program} {room : Room} {env : Env} {m : Machine}

/-! ## Endings -/

/-- A run ends as another one does.  If it does not come to its end, its stack may be any. -/
def Akin (r r' : Ending) : Prop :=
  match r with
  | .ok .normal _ => r' = r
  | .ok c m => ∃ stack, r' = .ok c { m with stack }
  | .error f m => ∃ stack, r' = .error f { m with stack }

variable {q : Machine} {arrays : List Bool} {passed : List Binding}

/-- How a run ends that does what an evaluation does. -/
def ending {α : Type} (post : α → List Value) : EStateM.Result Fault Machine (Except Completion α) → Ending
  | .ok (.ok a) q => .ok .normal (q.above (post a))
  | .ok (.error c) q => .ok c q
  | .error f q => .error f q

lemma pushing_apply (x : Evaluation Value) (m : Machine) : pushing x m = ending (fun v => [v]) (x.run m) := by
  rw [pushing, bind_apply]
  match x.run m with
  | .ok (.ok v) q =>
    dsimp only
    rw [bind_apply, push_apply]
    rfl
  | .ok (.error _) _ | .error _ _ => rfl

variable {α : Type} {post : α → List Value} {Q : α → Machine → Prop} {code : List Op}

lemma Delivers.runsTo {code : Code}
    {r : EStateM.Result Fault Machine (Except Completion α)} (h : Delivers code 0 m code.size post Q r)
    (hfuel : ∀ n, r ≠ .error .outOfFuel n) : ∃ e, RunsTo code 0 m e ∧ Akin (ending post r) e := by
  match r, h with
  | .ok (.ok _) _, h => exact ⟨_, h.2 _ (.finish (Array.getElem?_eq_none (Nat.le_refl _))), rfl⟩
  | .ok (.error c) _, ⟨hc, stack, h⟩ =>
    refine ⟨_, h, ?_⟩
    cases c <;> first | exact absurd rfl hc | exact ⟨stack, rfl⟩
  | .error _ q, .inl hf => exact absurd (hf ▸ rfl) (hfuel q)
  | .error _ _, .inr ⟨stack, h⟩ => exact ⟨_, h, stack, rfl⟩

lemma Carries.endsAs {x : Evaluation α}
    (h : Carries m code [] x post Q) (hfuel : ∀ n, x.run m ≠ .error .outOfFuel n) :
    ∃ e, EndsAs code.toArray m e ∧ Akin (ending post (x.run m)) e := by
  have hend := h.delivers (stands_self code)
  rw [Nat.zero_add] at hend
  obtain ⟨e, he, hakin⟩ := Delivers.runsTo hend hfuel
  exact ⟨e, he.endsAs, hakin⟩

/-! ## What a function finds when it starts -/

/-- What a parameter stands for that gets no argument: nothing that is assigned, or an array that is empty and that no
other parameter stands for. -/
def Absent (q : Machine) (arrays : List Bool) (passed : List Binding) (j : Nat) : Binding → Prop
  | .scalar v => v = .null
  | .array slot => q.arrays.size ≤ slot ∧ (q.started arrays passed).arrays[slot]? = some {} ∧
    ∀ j' : Nat, (q.bindings arrays passed)[j']? = some (.array slot) → j' = j

lemma absent_started (hslots : ∀ slot ∈ Binding.slots passed, slot < q.arrays.size) {j : Nat} {b : Binding}
    (hj : passed.length ≤ j) (hb : (q.bindings arrays passed)[j]? = some b) : Absent q arrays passed j b := by
  rw [Machine.bindings, List.getElem?_append_right hj] at hb
  have hmem := List.mem_of_getElem? hb
  cases b with
  | scalar v =>
    have hv := Binding.mem_values hmem
    rw [Binding.values_unpassed] at hv
    exact List.eq_of_mem_replicate hv
  | array slot =>
    obtain ⟨hlow, hhigh⟩ := Binding.slot_of_mem_unpassed hmem
    refine ⟨hlow, ?_, fun j' hj' => ?_⟩
    · change (q.arrays ++ Array.replicate ((arrays.drop passed.length).count true) {})[slot]? = some {}
      rw [Array.getElem?_append_right hlow, Array.getElem?_replicate, if_pos (by omega)]
    · rw [Machine.bindings] at hj'
      rcases Nat.lt_or_ge j' passed.length with hlt | hge
      · -- what is passed was there before
        rw [List.getElem?_append_left hlt] at hj'
        have := hslots slot (Binding.mem_slots (List.mem_of_getElem? hj'))
        omega
      · rw [List.getElem?_append_right hge] at hj'
        have := Binding.unpassed_inj hb hj'
        omega

/-- What a function finds that is called by the machine `q`, on which all arguments are computed.  Before them the
machine of the caller was `m`. -/
structure Starts (p : Program) (room : Room) (env : Env) (f : Function) (c : CompiledFunction) (arrays : List Bool)
    (args : List Expr) (m : Machine) (passed : List Binding) (q : Machine) : Prop
    extends Passed p room env arrays args m passed q where
  ready : (q.started arrays passed).Ready p c.room (q.started arrays passed).stack.size
  /-- Inside the function the name of a parameter stands for what the parameter is bound to. -/
  params : ∀ (j : Nat) (x : String), f.params[j]? = some x → ∃ b, (q.bindings arrays passed)[j]? = some b ∧
    b.Denotes ⟨env.resolution, some f.name⟩ (q.started arrays passed) x
  absent : ∀ (j : Nat) (b : Binding), passed.length ≤ j → (q.bindings arrays passed)[j]? = some b →
    Absent q arrays passed j b
  /-- Whatever the function assigns to its scalars, the caller finds the same. -/
  assigned : ∀ (i : Nat) (value : Value) (n : Machine),
    (setScalar (.local i) value n).state.returned q = n.returned q
  /-- Whatever the function does to an array that it was passed, it does to the array that the argument names. -/
  changed : ∀ (j : Nat) (x : String) (slot : Nat), f.params[j]? = some x → passed[j]? = some (.array slot) →
    ∃ (v : VarRef) (a : ArrayRef) (i : Nat), args[j]? = some (.place (.var v)) ∧ Gives (env.array v) p.pools a ∧
      (∀ w : VarRef, w.name = x → Env.array ⟨env.resolution, some f.name⟩ w = pure (.local i)) ∧
      ∀ (n : Machine) (change : ArrayValue → ArrayValue), n.frames = (q.started arrays passed).frames →
        q.arrays.size ≤ n.arrays.size →
        (updateArray (.local i) change n).mapState (·.returned q) = updateArray a change (n.returned q)

/-- A call in code of a function that has `room`, made by a machine that is ready for the code. -/
structure CallPasses (p : Program) (room : Room) (env : Env) (f : Function) (c : CompiledFunction) (arrays : List Bool)
    (args : List Expr) (code : Code) (fuel : Nat) (m : Machine) : Prop where
  /-- The code of the call does what the call means, whenever that comes to an end. -/
  ends : (∀ n, (evalCall env p.pools fuel c arrays args).run m ≠ .error .outOfFuel n) →
    ∃ r, EndsAs code m r ∧ Akin (pushing (evalCall env p.pools fuel c arrays args) m) r
  starts : ∀ passed q, (passAll env p.pools fuel arrays args).run m = .ok (.ok passed) q →
    Starts p room env f c arrays args m passed q
  /-- Behind the call the caller finds its stack as the arguments left it, and the value of the call on top. -/
  returns : ∀ passed q n, (passAll env p.pools fuel arrays args).run m = .ok (.ok passed) q →
    pushing (evalCall env p.pools fuel c arrays args) m = .ok .normal n →
    ∃ completion inner v, proceed fuel c.body 0 (q.started arrays passed) = .ok completion inner ∧
      outcome completion = .ok v ∧ n = { inner.returned q with stack := q.stack.push v }

lemma exists_of_pushing {fuel : Nat} {f : CompiledFunction} {args : List Expr} {n : Machine}
    (hpass : (passAll env p.pools fuel arrays args).run m = .ok (.ok passed) q)
    (h : pushing (evalCall env p.pools fuel f arrays args) m = .ok .normal n) :
    ∃ completion inner v, proceed fuel f.body 0 (q.started arrays passed) = .ok completion inner ∧
      outcome completion = .ok v ∧ n = { inner.returned q with stack := q.stack.push v } := by
  rw [pushing, bind_apply, evalCall, Evaluation.bind_apply, hpass] at h
  dsimp only at h
  rw [invoke_apply, apart] at h
  by_cases hdepth : q.config.maxCallDepth ≤ q.frames.length
  · rw [if_pos hdepth] at h
    cases h
  · rw [if_neg hdepth] at h
    cases hrun : proceed fuel f.body 0 (q.started arrays passed) with
    | error fault inner =>
      rw [hrun] at h
      cases h
    | ok completion inner =>
      rw [hrun] at h
      dsimp only [EStateM.Result.mapState] at h
      cases hc : outcome completion with
      | error c =>
        rw [hc] at h
        have hne := ne_normal_of_outcome hc
        cases h
        exact absurd rfl hne
      | ok v =>
        rw [hc] at h
        cases h
        exact ⟨completion, inner, v, rfl, hc, rfl⟩

/-! ## The code of a call -/

section

variable {name : String} {args : List Expr} {extent : Extent} {info : FuncInfo}
  (hinfo : env.resolution.lookupFunc name = some info) (hn : info.native = false)

include hinfo hn

lemma argsKinded_of_kinded (hk : (Expr.userCall name args extent).Kinded env) :
    args.length ≤ info.arrays.length ∧ ArgsKinded env info.arrays args := by
  rw [Expr.Kinded, hinfo] at hk
  dsimp only at hk
  rwa [hn, if_neg Bool.false_ne_true] at hk

lemma gives_userCall (hc : Gives (exprCode env (.userCall name args extent)).value p.pools code) :
    ∃ values refs, Gives (argsCode env info.arrays args (exprCodes env args)) p.pools (values, refs) ∧
      code = values ++ (if (info.arrays.drop args.length).count false = 0 then [] else
        [Op.nulls ((info.arrays.drop args.length).count false)]) ++
        Op.callUser info.index refs.length :: refs.map .arrayArg := by
  have hc : Gives (userCallCode env name args (exprCodes env args)) p.pools code := by
    rwa [exprCode] at hc
  rw [userCallCode, hinfo] at hc
  dsimp only at hc
  rw [hn, if_neg Bool.false_ne_true] at hc
  obtain ⟨⟨values, refs⟩, hargs, hc⟩ := gives_bind.mp hc
  refine ⟨values, refs, hargs, ?_⟩
  rw [← gives_pure.mp hc, List.append_assoc _ _ (refs.map _)]
  rfl

variable (hp : p.Verified) (hset : Setting p room env)
  (hcall : (Expr.userCall name args extent).CallSound env) (hm : m.Ready p room m.stack.size) (fuel : Nat)
  {code : List Op} (hc : Gives (exprCode env (.userCall name args extent)).value p.pools code)

include hp hset hcall hm hc

variable {c : CompiledFunction} (hf : p.functions[info.index]? = some c)
  (hscalars : c.scalarCount = info.arrays.count false) (harrays : c.arrayCount = info.arrays.count true)

include hf hscalars harrays

variable {passed : List Binding} {q : Machine}

lemma passed_of_passAll
    (h : (passAll env p.pools fuel info.arrays args).run m = .ok (.ok passed) q) :
    Passed p room env info.arrays args m passed q ∧ ∃ refs, Callable p q info.index c info.arrays passed refs := by
  obtain ⟨hlen, hargs⟩ := argsKinded_of_kinded hinfo hn hcall.1
  obtain ⟨values, refs, hvalues, -⟩ := gives_userCall hinfo hn hc
  obtain ⟨hpassed, hrefs⟩ := (passAll_carries hset hm hp fuel hcall.2.2 hlen hargs hvalues).result h
  exact ⟨hpassed, refs, hpassed.callable hlen hf hscalars harrays hrefs⟩

lemma userCall_delivers : Delivers code.toArray 0 m code.toArray.size (fun v => [v]) (fun _ _ => True)
    ((evalCall env p.pools fuel c info.arrays args).run m) := by
  obtain ⟨hlen, hargs⟩ := argsKinded_of_kinded hinfo hn hcall.1
  obtain ⟨values, refs, hvalues, rfl⟩ := gives_userCall hinfo hn hc
  set nulls : List Op := if (info.arrays.drop args.length).count false = 0 then [] else
    [Op.nulls ((info.arrays.drop args.length).count false)] with hnulls
  set code := values ++ nulls ++ Op.callUser info.index refs.length :: refs.map Op.arrayArg with hcode
  obtain ⟨hbefore, hbehind⟩ := along_append.mp (stands_self code)
  obtain ⟨hvalues', hnulls'⟩ := along_append.mp hbefore
  obtain ⟨hop, -⟩ := along_cons.mp hbehind
  have hsize : code.toArray.size = (values ++ nulls).length + 1 + refs.length := by
    rw [List.size_toArray, hcode, List.length_append, List.length_cons, List.length_map]
    omega
  refine ((passAll_carries hset hm hp fuel hcall.2.2 hlen hargs hvalues).delivers hvalues').bind fun passed q hq => ?_
  obtain ⟨hpassed, hrefs⟩ := hq
  have hcallable := hpassed.callable hlen hf hscalars harrays hrefs
  have hvs : Binding.values (q.bindings info.arrays passed) =
      Binding.values passed ++ List.replicate ((info.arrays.drop args.length).count false) Value.null := by
    rw [Machine.bindings, Binding.values_append, Binding.values_unpassed, hpassed.length_eq hlen]
  rw [Nat.zero_add, List.length_append] at hop
  refine (hcallable.invoke_delivers (hpassed.resumes.ready hm) hp fuel hop ?_ ?_).extend fun r hr => ?_
  · rw [hsize, List.length_append]
    exact Nat.min_self _
  · rw [hsize, ← List.length_append]
    exact arrayArgs_append (values ++ nulls) _ refs
  · rw [hvs] at hr
    refine nulls_runsTo hnulls' ?_
    rwa [Nat.zero_add]

variable {f : Function} (hparams : ∀ (j : Nat) (x : String), f.params[j]? = some x → ∃ isArray,
    info.arrays[j]? = some isArray ∧ env.resolution.lookupVar (some f.name) x =
      some (.local, ⟨if isArray then .array else .scalar, (info.arrays.take j).count isArray⟩))

include hparams

lemma starts_of_passAll
    (h : (passAll env p.pools fuel info.arrays args).run m = .ok (.ok passed) q) :
    Starts p room env f c info.arrays args m passed q := by
  obtain ⟨hpassed, refs, hcallable⟩ := passed_of_passAll hinfo hn hp hset hcall hm fuel hc hf hscalars harrays h
  have hdenotes (j : Nat) (x : String) (hx : f.params[j]? = some x) :
      ∃ b, (q.bindings info.arrays passed)[j]? = some b ∧
        b.Denotes ⟨env.resolution, some f.name⟩ (q.started info.arrays passed) x := by
    obtain ⟨isArray, hj, hlook⟩ := hparams j x hx
    exact Machine.denotes_started hcallable.kinds hj hlook
  refine { hpassed with
    ready := hcallable.ready_started (hpassed.resumes.ready hm)
    params := hdenotes
    absent := fun j b => absent_started hcallable.bound
    assigned := fun i value n => returned_setLocal i value
    changed := fun j x slot hx hslot => ?_ }
  obtain ⟨v, a, harg, ha, hsame, hlt⟩ := hpassed.named j slot hslot
  obtain ⟨b, hb, hdenotes⟩ := hdenotes j x hx
  obtain rfl : .array slot = b := by
    rw [Machine.bindings, List.getElem?_append_left (List.getElem?_eq_some_iff.mp hslot).1, hslot] at hb
    exact Option.some.inj hb
  obtain ⟨i, hi, hslotOf⟩ := hdenotes
  exact ⟨v, a, i, harg, ha, hi, fun n change hframes hsize =>
    returned_updateArray hsame (slotOf_congr hslotOf hframes) hlt hsize change⟩

lemma callPasses_of_callSound : CallPasses p room env f c info.arrays args code.toArray fuel m where
  ends hfuel := by
    obtain ⟨r, hr, hakin⟩ :=
      (userCall_delivers hinfo hn hp hset hcall hm fuel hc hf hscalars harrays).runsTo hfuel
    exact ⟨r, hr.endsAs, pushing_apply _ m ▸ hakin⟩
  starts passed q := starts_of_passAll hinfo hn hp hset hcall hm fuel hc hf hscalars harrays hparams
  returns passed q n := exists_of_pushing

end

end Run

/-! ## All calls of a program -/

/-- The variables that a function has for itself; outside all functions there are none. -/
def Resolution.room (r : Resolution) : Option String → Room
  | none => {}
  | some name => (r.lookupFunc name).elim {} fun info => ⟨info.arrays.count false, info.arrays.count true⟩

lemma Resolution.room_scalars (r : Resolution) (func : Option String) :
    (r.room func).scalars = Env.scalars ⟨r, func⟩ := by
  cases func with
  | none => rfl
  | some name =>
    change Room.scalars ((r.lookupFunc name).elim {} _) = (r.lookupFunc name).elim 0 _
    cases r.lookupFunc name <;> rfl

/-- If an expression is a call of a function of the program, which stands in a function or outside all functions, then
its code passes the arguments, by whatever machine the call is made. -/
def Expr.Passes (p : Program) (r : Resolution) (func : Option String) : Expr → Prop
  | .userCall name args extent => ∃ info, r.lookupFunc name = some info ∧ (info.native = false →
    ∃ f c, r.script.functions[info.index]? = some f ∧ f.name = name ∧ p.functions[info.index]? = some c ∧
      ∀ code, Gives (exprCode ⟨r, func⟩ (.userCall name args extent)).value p.pools code →
        ∀ fuel (m : Machine), m.Ready p (r.room func) m.stack.size →
          CallPasses p (r.room func) ⟨r, func⟩ f c info.arrays args code.toArray fuel m)
  | _ => True

section

variable {source : String} {natives : List NativeFunc} {p : Program} {r : Resolution}

/-- A call that uses its variables according to their kinds passes its arguments. -/
lemma Expr.CallSound.passes (hsource : Resolution.ofSource source natives = .ok r) (hcompiled : p.CompiledFrom r)
    (hr : r.Sound) (hp : p.Verified) {func : Option String} (hset : Setting p (r.room func) ⟨r, func⟩) {e : Expr}
    (he : e.CallSound ⟨r, func⟩) : e.Passes p r func := by
  cases e with
  | userCall name args extent =>
    cases hinfo : r.lookupFunc name with
    | none =>
      have hk := he.1
      rw [Expr.Kinded, hinfo] at hk
      exact hk.elim
    | some info =>
      refine ⟨info, hinfo, fun hn => ?_⟩
      obtain ⟨f, hf, rfl⟩ := hr.called hinfo hn
      obtain ⟨c, hc, hgives⟩ := forall₂_getElem? hcompiled.functions hf
      rw [Array.getElem?_toList] at hc
      obtain ⟨hscalars, harrays⟩ := counts_of_functionCode hr hf hgives hinfo
      refine ⟨f, c, hf, rfl, hc, fun code hcode fuel m hm => ?_⟩
      exact callPasses_of_callSound hinfo hn hp hset he hm fuel hcode hc hscalars harrays fun j x hx =>
        Resolution.ofScript_param (Resolution.ofSource_script hsource) hf hinfo hx
  | _ => trivial

lemma Machine.ready_create {config : Config} {world : World} {keyOrder : KeyOrder} {m : Machine}
    (h : Machine.create p config world keyOrder = .ok m) : m.Ready p {} m.stack.size := by
  have hfit := Machine.create_fit (p := p) config world keyOrder
  rw [h] at hfit
  exact { hfit.ready with scalars := by simp [hfit.base] }

lemma Resolution.Sound.setting_room (hr : r.Sound) (hcompiled : p.CompiledFrom r) {f : Function}
    (hf : f ∈ r.script.functions) : Setting p (r.room (some f.name)) ⟨r, some f.name⟩ := by
  obtain ⟨i, hi⟩ := List.mem_iff_getElem?.mp hf
  obtain ⟨c, -, hgives⟩ := forall₂_getElem? hcompiled.functions hi
  obtain ⟨info, hinfo, -⟩ := hr.own hi
  obtain ⟨hscalars, harrays⟩ := counts_of_functionCode hr hi hgives hinfo
  have hroom : r.room (some f.name) = c.room := by
    rw [Resolution.room, hinfo, CompiledFunction.room, hscalars, harrays]
    rfl
  rw [hroom]
  exact setting_function hr hcompiled hi hgives

/-- What is true of all expressions that use their variables according to their kinds, in whatever function, is true of
all expressions of a program text. -/
lemma Program.ofSource_each {Q : Resolution → Option String → Expr → Prop} (h : Program.ofSource source natives = .ok p)
    (hQ : ∀ {r func e}, Resolution.ofSource source natives = .ok r → p.CompiledFrom r → r.Sound → p.Verified →
      Setting p (r.room func) ⟨r, func⟩ → e.CallSound ⟨r, func⟩ → Q r func e) :
    ∃ r, Resolution.ofSource source natives = .ok r ∧
      r.script.Each (fun func => AllBody (Q r func)) (Expr.All (Q r none)) := by
  obtain ⟨r, hsource, hcompiled, hr, hs⟩ := Program.ofSource_parts h
  have hp := hcompiled.verified hr hs
  have hmain : Setting p (r.room none) ⟨r, none⟩ := setting_main hr hcompiled
  exact ⟨r, hsource, hr.each_call hs (fun e he => hQ hsource hcompiled hr hp hmain he) fun f hf e he =>
    hQ hsource hcompiled hr hp (hr.setting_room hcompiled hf) he⟩

/-- Every call of a function of the program, wherever it stands in a program text and by whatever machine it is made,
passes its arguments: scalars by value, from left to right, and arrays by reference. -/
theorem Program.ofSource_passes (h : Program.ofSource source natives = .ok p) :
    ∃ r, Resolution.ofSource source natives = .ok r ∧
      r.script.Each (fun func => AllBody (Expr.Passes p r func)) (Expr.All (Expr.Passes p r none)) :=
  Program.ofSource_each h fun hsource hcompiled hr hp hset he => he.passes hsource hcompiled hr hp hset

end

/-- What something without numbers is compiled to, if that adds nothing to what a program has. -/
def Compile.given? {α : Type} (x : Compile α) (pools : Pools) : Option α := do
  let (a, after) ← (x.run pools).toOption
  guard (after.nums.size = 0 ∧ pools.nums.size = 0 ∧ after.strs = pools.strs ∧ after.regexes = pools.regexes)
  return a

lemma Compile.gives_of_given? {α : Type} {x : Compile α} {pools : Pools} {a : α} (h : given? x pools = some a) :
    Gives x pools a := by
  obtain ⟨⟨a', after⟩, hrun, hsame⟩ := Option.bind_eq_some_iff.mp h
  obtain ⟨_, hguard, ha⟩ := Option.bind_eq_some_iff.mp hsame
  obtain ⟨hafter, hpools, hstrs, hregexes⟩ := (Option.guard_eq_some' _).mp hguard
  obtain rfl : after = pools := by
    obtain ⟨nums, strs, regexes⟩ := pools
    obtain ⟨nums', strs', regexes'⟩ := after
    rw [Pools.mk.injEq]
    exact ⟨(Array.eq_empty_of_size_eq_zero hafter).trans (Array.eq_empty_of_size_eq_zero hpools).symm, hstrs, hregexes⟩
  cases ha
  exact toOption_eq_some hrun

/-- A call of a function that passes its array on, twice in one call, which has no arguments for the array `c` and the
scalar `y`. -/
def passingProgram : String :=
  "function f(a, x, b, c, y) \x7b a[x] = \"p\"; x = y; c[x] = b[\"k\"]; return c[y] \x7d " ++
    "function g(t, z) \x7b return f(t, z, t) \x7d BEGIN \x7b g(d, u = \"k\") \x7d"

/-- The code of the call that is the only statement of a program without numbers, and the machine of the caller behind
the call, if its value is the text `p`. -/
def calledBegin (fuel : Nat) (p : Program) (r : Resolution) (m : Machine) : Option (List Op × Machine) :=
  match r.script.begin with
  | [[.expr (.userCall name args extent)]] => do
    let info ← r.lookupFunc name
    let c ← p.functions[info.index]?
    let code ← given? (exprCode ⟨r, none⟩ (.userCall name args extent)).value p.pools
    guard (info.native = false)
    match (evalCall ⟨r, none⟩ p.pools fuel c info.arrays args).run m with
    | .ok (.ok (.str "p")) n => some (code, n)
    | _ => none
  | _ => none

theorem passingProgram_passes : ∃ p r m code n, Program.ofSource passingProgram [] = .ok p ∧
    Resolution.ofSource passingProgram [] = .ok r ∧ Machine.create p {} {} {} = .ok m ∧
    calledBegin 40 p r m = some (code, n) ∧ EndsAs code.toArray m (.ok .normal (n.above [.str "p"])) := by
  obtain ⟨p, r, m, ⟨code, n⟩, hp, hr, hm, h⟩ :=
    Machine.exists_of_resolved passingProgram (calledBegin 40) (by decide +kernel)
  refine ⟨p, r, m, code, n, hp, hr, hm, h, ?_⟩
  obtain ⟨r', hr', heach⟩ := Program.ofSource_passes hp
  obtain rfl : r' = r := Except.ok.inj (hr'.symm.trans hr)
  rw [calledBegin] at h
  split at h
  · rename_i name args extent hbegin
    obtain ⟨info, hinfo, h⟩ := Option.bind_eq_some_iff.mp h
    obtain ⟨c, hc, h⟩ := Option.bind_eq_some_iff.mp h
    obtain ⟨code', hcode, h⟩ := Option.bind_eq_some_iff.mp h
    obtain ⟨_, hn, hvalue⟩ := Option.bind_eq_some_iff.mp h
    have hbody := heach.begin _ (hbegin ▸ List.mem_singleton_self _)
    obtain ⟨info', hinfo', hpasses⟩ := Expr.All.self hbody.1
    obtain rfl : info = info' := Option.some.inj (hinfo.symm.trans hinfo')
    obtain ⟨f, c', -, -, hc', hpasses⟩ := hpasses ((Option.guard_eq_some' _).mp hn)
    obtain rfl : c = c' := Option.some.inj (hc.symm.trans hc')
    have hcall := hpasses code' (gives_of_given? hcode) 40 m (Machine.ready_create hm)
    split at hvalue
    · rename_i q heval
      cases hvalue
      obtain ⟨e, hends, hakin⟩ := hcall.ends fun _ => by
        rw [heval]
        rintro ⟨⟩
      rw [pushing_apply, heval] at hakin
      obtain rfl : e = _ := hakin
      exact hends
    · cases hvalue
  · cases h

end Awk
