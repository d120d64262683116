import Awk.Proofs.Machine.Uncounted

/-!
# Where runs lead

A run that ends does so with every amount of fuel from some amount on.  `RunsTo` says how it ends, and forgets
the fuel.  It is put together instruction by instruction, from the end to the start, so that code can be
followed wherever it stands: what is shown of a stretch of code holds whatever comes behind it.
-/

namespace Awk.Run

/-! ## One instruction -/

/-- How code goes on behind an instruction: at an address, or not at all. -/
inductive Way where
  | go (pc : Nat)
  | stop (c : Completion)

namespace Way

/-- The way behind a loop over an array or a call, which both end somehow. -/
def behind (stop : Nat) : Completion → Way
  | .normal => .go stop
  | c => .stop c

/-- Goes on, if there is something to go on with. -/
def follow (next : Nat → Run Completion) : Way → Run Completion
  | .go pc => next pc
  | .stop c => pure c

/-- The same way where the code stands behind other code. -/
def shift (o : Nat) : Way → Way
  | .go pc => .go (o + pc)
  | .stop c => .stop c

end Way

def advance (fuel : Nat) (code : Code) (pc : Nat) : Op → Run Way
  | .jump offset => return .go (jumpFrom (pc + 1) offset)
  | .branch t offset => do return .go (if ← taken t then jumpFrom (pc + 1) offset else pc + 1)
  | .next => return .stop .next
  | .nextFile => return .stop .nextFile
  | .exit => return .stop .exit
  | .exitStatus => do
    let v ← pop
    modify fun m => { m with exitStatus := Number.toInt32 v.toNumber }
    return .stop .exit
  | .return => do return .stop (.return (← pop))
  | .returnNull => return .stop (.return .null)
  | .breakForIn => return .stop .breakForIn
  | .forIn var a length => do
    let stop := min (pc + 1 + length) code.size
    let (_, array) ← arrayOf a
    let keys ← loopKeys array
    return .behind stop (← overKeys var a (proceed fuel (code.extract (pc + 1) stop) 0) keys)
  | .callUser i count => do
    let stop := min (pc + 1 + count) code.size
    return .behind stop (← callUser (fun body => proceed fuel body 0) i (arrayArgs code (pc + 1) stop))
  | op => do
    step op
    return .go (pc + 1)

variable {fuel : Nat} {code : Code} {m : Machine}

lemma advance_step {pc : Nat} {op : Op} (h : op.isControl = false) :
    advance fuel code pc op = step op >>= fun _ => pure (.go (pc + 1)) := by
  cases op <;> first | rfl | cases h

lemma proceed_succ (fuel : Nat) (code : Code) (pc : Nat) :
    proceed (fuel + 1) code pc = match code[pc]? with
      | none => pure .normal
      | some op => advance fuel code pc op >>= Way.follow (proceed fuel code) := by
  rw [proceed]
  cases code[pc]? with
  | none => rfl
  | some op =>
    cases op
    case branch t offset =>
      simp only [follow, advance, bind_assoc, pure_bind]
      refine congrArg _ (funext fun b => ?_)
      cases b <;> rfl
    case forIn var a length =>
      simp only [follow, advance, bind_assoc, pure_bind]
      refine congrArg _ (funext fun slot => congrArg _ (funext fun keys => congrArg _ (funext fun c => ?_)))
      cases c <;> rfl
    case callUser i count =>
      simp only [follow, advance, bind_assoc, pure_bind]
      refine congrArg _ (funext fun c => ?_)
      cases c <;> rfl
    all_goals simp only [follow, advance, bind_assoc, pure_bind, Way.follow]

/-! ## More fuel -/

section

variable {fuel fuel' : Nat}

lemma agrees_advance (h : fuel ≤ fuel') (code : Code) (pc : Nat) (op : Op) :
    Agrees Eq (Fault.outOfFuel = ·) (advance fuel code pc op) (advance fuel' code pc op) := by
  cases op
  case forIn var a length =>
    exact .bind (.refl _) fun slot => .bind (.refl _) fun keys =>
      .bind (indistinct_eq.overKeys (o := ()) var a (agrees_proceed h _ 0) keys) fun _ => .refl _
  case callUser i count =>
    exact .bind (indistinct_eq.callUser (o := ()) (fun _ body => agrees_proceed h body 0) i _) fun _ => .refl _
  all_goals exact .refl _

variable {code : Code} {pc : Nat} {op : Op} {m m' : Machine}

lemma advance_mono (h : fuel ≤ fuel') {w : Way} (hw : advance fuel code pc op m = .ok w m') :
    advance fuel' code pc op m = .ok w m' := by
  obtain ⟨_, hn, rfl⟩ := (agrees_advance h code pc op).ok rfl hw
  exact hn

lemma advance_mono_error (h : fuel ≤ fuel') {f : Fault} (hf : f ≠ .outOfFuel)
    (hw : advance fuel code pc op m = .error f m') : advance fuel' code pc op m = .error f m' := by
  obtain ⟨_, hn, rfl⟩ := ((agrees_advance h code pc op).error rfl hw).resolve_left (Ne.symm hf)
  exact hn

end

/-! ## How runs end -/

abbrev Ending := EStateM.Result Fault Machine Completion

/-- Running code from an address on ends in a way, if there is enough fuel. -/
def RunsTo (code : Code) (pc : Nat) (m : Machine) (r : Ending) : Prop :=
  ∃ bound, ∀ fuel ≥ bound, proceed fuel code pc m = r

namespace RunsTo

variable {code : Code} {pc : Nat} {op : Op} {m m' : Machine} {r r' : Ending}

variable {fuel : Nat} {f : Fault}

lemma of_proceed (h : proceed fuel code pc m = r) (hout : ∀ n, r ≠ .error .outOfFuel n) : RunsTo code pc m r := by
  subst h
  exact ⟨fuel, fun _ hfuel => proceed_mono hfuel hout⟩

lemma unique (h : RunsTo code pc m r) (h' : RunsTo code pc m r') : r = r' := by
  obtain ⟨bound, h⟩ := h
  obtain ⟨bound', h'⟩ := h'
  rw [← h (max bound bound') (le_max_left _ _), h' _ (le_max_right _ _)]

/-- What holds with one unit of fuel more than some amount holds from there on. -/
lemma of_succ (bound : Nat) (h : ∀ fuel ≥ bound, proceed (fuel + 1) code pc m = r) : RunsTo code pc m r := by
  refine ⟨bound + 1, fun fuel hfuel => ?_⟩
  obtain ⟨k, rfl⟩ : ∃ k, fuel = k + 1 := ⟨fuel - 1, by omega⟩
  exact h k (by omega)

lemma finish (h : code[pc]? = none) : RunsTo code pc m (.ok .normal m) := by
  refine of_succ 0 fun fuel _ => ?_
  rw [proceed_succ, h]
  rfl

variable {pc' : Nat} {offset : Int} {t : Test}

lemma go (hop : code[pc]? = some op) (h : advance fuel code pc op m = .ok (.go pc') m')
    (hr : RunsTo code pc' m' r) : RunsTo code pc m r := by
  obtain ⟨bound, hr⟩ := hr
  refine of_succ (max fuel bound) fun fuel' hfuel => ?_
  rw [proceed_succ, hop]
  dsimp only
  rw [bind_apply, advance_mono (le_of_max_le_left hfuel) h]
  exact hr fuel' (le_of_max_le_right hfuel)

lemma stop {c : Completion} (hop : code[pc]? = some op) (h : advance fuel code pc op m = .ok (.stop c) m') :
    RunsTo code pc m (.ok c m') := by
  refine of_succ fuel fun fuel' hfuel => ?_
  rw [proceed_succ, hop]
  dsimp only
  rw [bind_apply, advance_mono hfuel h]
  rfl

lemma fault (hop : code[pc]? = some op) (hf : f ≠ .outOfFuel) (h : advance fuel code pc op m = .error f m') :
    RunsTo code pc m (.error f m') := by
  refine of_succ fuel fun fuel' hfuel => ?_
  rw [proceed_succ, hop]
  dsimp only
  rw [bind_apply, advance_mono_error hfuel hf h]

/-! ### Instructions -/

lemma step (hop : code[pc]? = some op) (hc : op.isControl = false) (h : Run.step op m = .ok () m')
    (hr : RunsTo code (pc + 1) m' r) : RunsTo code pc m r := by
  have hadvance : advance 0 code pc op m = .ok (.go (pc + 1)) m' := by
    rw [advance_step hc, bind_apply, h]
    rfl
  exact go hop hadvance hr

lemma stepFault (hop : code[pc]? = some op) (hc : op.isControl = false) (h : Run.step op m = .error f m') :
    RunsTo code pc m (.error f m') := by
  refine of_succ 0 fun fuel _ => ?_
  rw [proceed_succ, hop]
  dsimp only
  rw [advance_step hc, bind_apply, bind_apply, h]

lemma jump (hop : code[pc]? = some (.jump offset)) (hpc : (pc : Int) + 1 + offset = pc')
    (hr : RunsTo code pc' m r) : RunsTo code pc m r := by
  have htarget : jumpFrom (pc + 1) offset = pc' := by
    rw [jumpFrom]
    omega
  have hadvance : advance 0 code pc (.jump offset) m = .ok (.go pc') m := by
    rw [advance, htarget]
    rfl
  exact go hop hadvance hr

lemma branch {taken : Bool} (hop : code[pc]? = some (.branch t offset))
    (ht : Run.taken t m = .ok taken m') (hpc : (pc : Int) + 1 + (if taken then offset else 0) = pc')
    (hr : RunsTo code pc' m' r) : RunsTo code pc m r := by
  have htarget : (if taken then jumpFrom (pc + 1) offset else pc + 1) = pc' := by
    cases taken with
    | true =>
      rw [if_pos rfl] at hpc ⊢
      rw [jumpFrom]
      omega
    | false =>
      rw [if_neg Bool.false_ne_true] at hpc ⊢
      omega
  have hadvance : advance 0 code pc (.branch t offset) m = .ok (.go pc') m' := by
    rw [advance, bind_apply, ht]
    dsimp only
    rw [htarget]
    rfl
  exact go hop hadvance hr

lemma branchFault (hop : code[pc]? = some (.branch t offset))
    (ht : Run.taken t m = .error f m') : RunsTo code pc m (.error f m') := by
  refine of_succ 0 fun fuel _ => ?_
  rw [proceed_succ, hop]
  dsimp only
  rw [advance, bind_apply, bind_apply, ht]

end RunsTo

/-! ## Code inside other code -/

open Compile (Along along_append along_cons along_singleton)

abbrev Stands (full : Code) : Nat → List Op → Prop := Along fun pc op => full[pc]? = some op

/-- No jump leaves the code, but for its end. -/
def Closed (code : List Op) : Prop :=
  ∀ (pc : Nat) (op : Op), code[pc]? = some op → ∀ t ∈ op.targets pc, 0 ≤ t ∧ t ≤ code.length

/-- Code that stands behind other code goes on as it ends: behind its end if it comes there. -/
def Continues (full : Code) (pc : Nat) (r : Ending) : Ending → Prop
  | .ok .normal m => RunsTo full pc m r
  | e => r = e

section

variable {full : Code} {o : Nat} {code : List Op}

lemma stands_self (code : List Op) : Stands code.toArray 0 code := by
  intro i op hi
  rw [Nat.zero_add, List.getElem?_toArray, hi]

/-- A way that stays in code of a length, or ends it early. -/
def Way.Stays (length : Nat) : Way → Prop
  | .go pc => pc ≤ length
  | .stop c => c ≠ .normal

/-- Whatever an operation gives has a property. -/
def Ensures {α : Type} (x : Run α) (P : α → Prop) : Prop := ∀ m a m', x m = .ok a m' → P a

variable {α : Type} {P : α → Prop}

lemma Ensures.pure {a : α} (h : P a) : Ensures (Pure.pure a : Run α) P := by
  rintro m _ _ ⟨⟩
  exact h

variable {α β : Type} {x : Run α} {f : α → Run β} {P : α → Prop} {Q : β → Prop} {fuel pc i : Nat} {op : Op}
  {m : Machine} {r : Ending}

lemma Ensures.bind (hx : Ensures x P) (hf : ∀ a, P a → Ensures (f a) Q) : Ensures (x >>= f) Q := by
  intro m b m' h
  rw [bind_apply] at h
  cases hr : x m with
  | ok a n =>
    rw [hr] at h
    exact hf a (hx m a n hr) n b m' h
  | error e n =>
    rw [hr] at h
    cases h

lemma Ensures.next {P : β → Prop} (hf : ∀ a, Ensures (f a) P) :
    Ensures (x >>= f) P := .bind (P := fun _ => True) (fun _ _ _ _ => trivial) fun a _ => hf a

lemma Ensures.map (hx : Ensures x P) {g : α → β} (hg : ∀ a, P a → Q (g a)) :
    Ensures (x >>= fun a => Pure.pure (g a)) Q :=
  hx.bind fun a ha => .pure (hg a ha)

lemma Ensures.throw {f : Fault} : Ensures (MonadExcept.throw f : Run α) P := by
  intro m a m' h
  cases h

lemma Way.stays_behind {stop length : Nat} (h : stop ≤ length) (c : Completion) : (behind stop c).Stays length := by
  cases c <;> first | exact h | exact fun h => by cases h

lemma Closed.advance_stays (hc : Closed code) (hop : code[pc]? = some op) :
    Ensures (advance fuel code.toArray pc op) (Way.Stays code.length) := by
  have htargets := hc pc op hop
  have hlt := (List.getElem?_eq_some_iff.mp hop).1
  have hjump : ∀ offset : Int, (pc : Int) + 1 + offset ∈ op.targets pc → jumpFrom (pc + 1) offset ≤ code.length := by
    intro offset ht
    have := htargets _ ht
    rw [jumpFrom]
    omega
  have hsize (stop : Nat) : min stop code.toArray.size ≤ code.length := by
    rw [List.size_toArray]
    exact Nat.min_le_right _ _
  cases op
  case jump offset => exact .pure (hjump offset (by simp [Op.targets]))
  case branch t offset =>
    refine .next fun b => .pure ?_
    cases b with
    | true => exact hjump offset (by simp [Op.targets])
    | false => exact hlt
  case next | nextFile | exit | returnNull | breakForIn => exact .pure (by simp [Way.Stays])
  case exitStatus => exact .next fun _ => .next fun _ => .pure (by simp [Way.Stays])
  case «return» => exact .next fun _ => .pure (by simp [Way.Stays])
  case forIn var a length => exact .next fun _ => .next fun _ => .next fun c => .pure (Way.stays_behind (hsize _) c)
  case callUser i count => exact .next fun c => .pure (Way.stays_behind (hsize _) c)
  all_goals exact .next fun _ => .pure hlt

lemma RunsTo.steps (hc : ∀ op ∈ code, op.isControl = false) (hs : Stands full o code) (m : Machine) :
    match code.forM Run.step m with
    | .ok _ n => ∀ r, RunsTo full (o + code.length) n r → RunsTo full o m r
    | .error f n => RunsTo full o m (.error f n) := by
  induction code generalizing o m with
  | nil => exact fun r hr => hr
  | cons op rest ih =>
    obtain ⟨hop, hrest⟩ := along_cons.mp hs
    obtain ⟨hop', hrest'⟩ := List.forall_mem_cons.mp hc
    rw [List.forM, bind_apply]
    cases hstep : Run.step op m with
    | error f n => exact .stepFault hop hop' hstep
    | ok _ n =>
      have hn := ih hrest' hrest n
      dsimp only
      cases hr : rest.forM Run.step n with
      | error f n' =>
        rw [hr] at hn
        exact .step hop hop' hstep hn
      | ok _ n' =>
        rw [hr] at hn
        intro r hend
        rw [List.length_cons, Nat.add_comm rest.length, ← Nat.add_assoc] at hend
        exact .step hop hop' hstep (hn r hend)

variable (hs : Stands full o code)

include hs

lemma Stands.le_size (hi : i ≤ code.length) (hpos : 0 < i) : o + i ≤ full.size := by
  have hlast := hs (i - 1) _ (List.getElem?_eq_getElem (by omega))
  have := (Array.getElem?_eq_some_iff.mp hlast).1
  omega

lemma Stands.extract_eq {j : Nat} (hj : j ≤ code.length) :
    full.extract (o + i) (o + j) = code.toArray.extract i j := by
  refine Array.ext_getElem? fun k => ?_
  by_cases hk : i + k < j
  · have hthere := hs (i + k) _ (List.getElem?_eq_getElem (by omega))
    have hsize := (Array.getElem?_eq_some_iff.mp hthere).1
    rw [Array.getElem?_extract, Array.getElem?_extract, if_pos (by omega), if_pos (by simp; omega), Nat.add_assoc,
      hthere, List.getElem?_toArray, List.getElem?_eq_getElem (by omega)]
  · rw [Array.getElem?_eq_none (by simp; omega), Array.getElem?_eq_none (by simp; omega)]

variable (hc : Closed code)

include hc

lemma Stands.advance_eq (fuel : Nat) (hop : code[pc]? = some op) :
    advance fuel full (o + pc) op = advance fuel code.toArray pc op >>= fun w => pure (w.shift o) := by
  have htargets := hc pc op hop
  have hlt := (List.getElem?_eq_some_iff.mp hop).1
  have hjump : ∀ offset : Int, (pc : Int) + 1 + offset ∈ op.targets pc →
      jumpFrom (o + pc + 1) offset = o + jumpFrom (pc + 1) offset := by
    intro offset ht
    have := htargets _ ht
    rw [jumpFrom, jumpFrom]
    omega
  have hstop : ∀ length : Nat, (pc : Int) + 1 + length ∈ op.targets pc →
      min (o + pc + 1 + length) full.size = o + min (pc + 1 + length) code.toArray.size := by
    intro length ht
    have := htargets _ ht
    have hfull := hs.le_size (i := pc + 1 + length) (by omega) (by omega)
    have hsize : code.toArray.size = code.length := List.size_toArray
    omega
  have hextract (stop : Nat) : full.extract (o + pc + 1) (o + min stop code.toArray.size) =
      code.toArray.extract (pc + 1) (min stop code.toArray.size) := by
    refine hs.extract_eq (i := pc + 1) ?_
    rw [List.size_toArray]
    exact Nat.min_le_right _ _
  cases op
  case jump offset =>
    rw [advance, advance, hjump offset (by simp [Op.targets])]
    rfl
  case branch t offset =>
    simp only [advance, bind_assoc, pure_bind, Way.shift, hjump offset (by simp [Op.targets])]
    refine congrArg _ (funext fun b => ?_)
    cases b <;> rfl
  case forIn var a length =>
    simp only [advance, bind_assoc, pure_bind, hstop length (by simp [Op.targets]), hextract]
    refine congrArg _ (funext fun slot => congrArg _ (funext fun keys => congrArg _ (funext fun c => ?_)))
    cases c <;> rfl
  case callUser i count =>
    simp only [advance, bind_assoc, pure_bind, arrayArgs, hstop count (by simp [Op.targets]), hextract]
    refine congrArg _ (funext fun c => ?_)
    cases c <;> rfl
  all_goals
    simp only [advance, bind_assoc, pure_bind, Way.shift]
    try rfl

/-- A stretch of code that no jump leaves ends in other code as it does alone, or it comes to its end there. -/
lemma RunsTo.inside (hpc : pc ≤ code.length) {e : Ending} (h : proceed fuel code.toArray pc m = e)
    (hout : ∀ n, e ≠ .error .outOfFuel n) (hr : Continues full (o + code.length) r e) : RunsTo full (o + pc) m r := by
  induction fuel generalizing pc m with
  | zero => exact absurd h.symm (hout m)
  | succ fuel ih =>
    rw [proceed_succ, List.getElem?_toArray] at h
    by_cases hlt : pc < code.length
    · obtain ⟨op, hop⟩ : ∃ op, code[pc]? = some op := ⟨_, List.getElem?_eq_getElem hlt⟩
      have hfull : full[o + pc]? = some op := hs pc op hop
      have hadvance := congrFun (hs.advance_eq hc fuel hop) m
      rw [hop] at h
      dsimp only at h
      rw [bind_apply] at h hadvance
      cases hw : advance fuel code.toArray pc op m with
      | error f n =>
        rw [hw] at h hadvance
        subst h
        have hf : f ≠ .outOfFuel := fun hf => hout n (by rw [hf])
        rw [show r = _ from hr]
        exact .fault hfull hf hadvance
      | ok w n =>
        have hstays := hc.advance_stays hop _ _ _ hw
        rw [hw] at h hadvance
        cases w with
        | go pc' => exact .go hfull hadvance (ih hstays h)
        | stop c =>
          subst h
          have hrc : r = .ok c n := by
            cases c <;> first | exact hr | exact absurd rfl hstays
          rw [hrc]
          exact .stop hfull hadvance
    · obtain rfl : pc = code.length := by omega
      rw [List.getElem?_eq_none (Nat.le_refl _)] at h
      subst h
      exact hr

omit hs hc in
lemma ok_ne_outOfFuel (c : Completion) (m : Machine) : ∀ n, (.ok c m : Ending) ≠ .error .outOfFuel n := by
  intro n h
  cases h

/-- What ends in other code ends as it does alone, or comes to its end there. -/
lemma proceed_inside (hpc : pc ≤ code.length) (h : proceed fuel full (o + pc) m = r)
    (hout : ∀ n, r ≠ .error .outOfFuel n) : ∃ e, proceed fuel code.toArray pc m = e ∧ (∀ n, e ≠ .error .outOfFuel n) ∧
      Continues full (o + code.length) r e := by
  induction fuel generalizing pc m with
  | zero => exact absurd h.symm (hout m)
  | succ fuel ih =>
    by_cases hlt : pc < code.length
    · obtain ⟨op, hop⟩ : ∃ op, code[pc]? = some op := ⟨_, List.getElem?_eq_getElem hlt⟩
      have hfull : full[o + pc]? = some op := hs pc op hop
      rw [proceed_succ, hfull] at h
      rw [proceed_succ, List.getElem?_toArray, hop]
      dsimp only at h ⊢
      rw [hs.advance_eq hc fuel hop, bind_assoc] at h
      rw [bind_apply] at h ⊢
      cases hw : advance fuel code.toArray pc op m with
      | error f n =>
        rw [hw] at h
        exact ⟨_, rfl, h ▸ hout, h.symm⟩
      | ok w n =>
        have hstays := hc.advance_stays hop _ _ _ hw
        rw [hw] at h
        cases w with
        | go pc' => exact ih hstays h
        | stop c =>
          refine ⟨.ok c n, rfl, ok_ne_outOfFuel c n, ?_⟩
          cases c <;> first | exact h.symm | exact absurd rfl hstays
    · obtain rfl : pc = code.length := by omega
      refine ⟨.ok .normal m, ?_, ok_ne_outOfFuel .normal m, .of_proceed h hout⟩
      rw [proceed_succ, List.getElem?_toArray, List.getElem?_eq_none (Nat.le_refl _)]
      rfl

end

lemma proceed_append {code rest : List Op} (hc : Closed code) (hrest : ∀ op ∈ rest, op.isControl = false)
    (hout : ∀ n, proceed fuel (code ++ rest).toArray 0 m ≠ .error .outOfFuel n) :
    proceed fuel (code ++ rest).toArray 0 m = (do
      match ← proceed fuel code.toArray 0 with
      | .normal => do
        rest.forM step
        return Completion.normal
      | c => return c) m := by
  obtain ⟨hcode, hbehind⟩ := along_append.mp (stands_self (code ++ rest))
  obtain ⟨e, he, -, hcont⟩ := proceed_inside hcode hc (Nat.zero_le _) rfl hout
  rw [bind_apply, he]
  cases e with
  | error f n => exact hcont
  | ok c n =>
    cases c with
    | next | nextFile | exit | «return» v | breakForIn => exact hcont
    | normal =>
      have hsteps := RunsTo.steps hrest hbehind n
      have hend : (code ++ rest).toArray[0 + code.length + rest.length]? = none := by simp
      dsimp only
      rw [bind_apply]
      cases hr : rest.forM step n with
      | error f n' =>
        rw [hr] at hsteps
        exact hcont.unique hsteps
      | ok _ n' =>
        rw [hr] at hsteps
        exact hcont.unique (hsteps _ (.finish hend))

/-! ## Loops over arrays -/

lemma callUser_ne_breakForIn (run : Code → Run Completion) (i : Nat) (args : List ArrayRef) :
    Ensures (callUser run i args) (· ≠ .breakForIn) := by
  refine .next fun m => ?_
  split
  · exact .throw
  · refine .next fun _ => .next fun _ => ?_
    split
    · exact .throw
    · refine .next fun _ => .next fun _ => .next fun c => ?_
      cases c with
      | normal | breakForIn | «return» v => exact .next fun _ => .pure nofun
      | next | nextFile | exit => exact .pure nofun

/-- Code without loops over arrays leaves none. -/
lemma proceed_ne_breakForIn (h : ∀ op ∈ code, op.isLoop = false) (fuel pc : Nat) :
    Ensures (proceed fuel code pc) (· ≠ .breakForIn) := by
  induction fuel generalizing pc with
  | zero => exact .throw
  | succ fuel ih =>
    rw [proceed_succ]
    cases hop : code[pc]? with
    | none => exact .pure nofun
    | some op =>
      have hloop := h op (Array.mem_of_getElem? hop)
      have hadvance : Ensures (advance fuel code pc op) (· ≠ .stop .breakForIn) := by
        cases op
        case forIn | breakForIn => cases hloop
        case callUser i count =>
          refine (callUser_ne_breakForIn _ i _).bind fun c hc => .pure ?_
          cases c with
          | breakForIn => exact absurd rfl hc
          | _ => nofun
        case jump | next | nextFile | exit | returnNull => exact .pure nofun
        case exitStatus => exact .next fun _ => .next fun _ => .pure nofun
        all_goals exact .next fun _ => .pure nofun
      refine hadvance.bind fun w hw => ?_
      cases w with
      | go pc' => exact ih pc'
      | stop c => exact .pure fun hc => hw (by rw [hc])

/-! ## Counting -/

/-- Running code with enough fuel ends in a way, but for the count of instructions, unless the program is
cancelled. -/
def EndsAs (code : Code) (m : Machine) (r : Ending) : Prop :=
  ∃ bound, ∀ fuel ≥ bound, (∃ ticks, exec fuel code 0 m = r.mapState ({ · with ticks })) ∨
    m.cancelled = true ∧ ∃ n, exec fuel code 0 m = .error (.error .cancelled) n

lemma RunsTo.endsAs {r : Ending} (h : RunsTo code 0 m r) : EndsAs code m r := by
  obtain ⟨bound, h⟩ := h
  refine ⟨bound, fun fuel hfuel => ?_⟩
  rw [← h fuel hfuel]
  exact exec_eq_proceed fuel code 0 m

end Awk.Run
