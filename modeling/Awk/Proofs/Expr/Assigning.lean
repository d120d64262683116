import Awk.Proofs.Expr.Augment

/-!
# Places that are assigned

An assignment, or an increment, whose value is not used is one instruction behind the code of its operands.  Where its
value is used, instructions copy the value, fetch the place, add and put the result back.  Both are the same to a
program: they end alike, or neither of them ends.
-/

namespace Awk

open Compile Run
open Machine (Hosts)

namespace Run

variable {α β : Type} {code code' full : Code} {pc : Nat} {m n q : Machine} {r : Ending}

/-! ## Endings of two pieces of code -/

/-- Running code never ends, unless the program is cancelled. -/
def Endless (code : Code) (m : Machine) : Prop :=
  ∀ fuel, (∃ n, exec fuel code 0 m = .error .outOfFuel n) ∨
    m.cancelled = true ∧ ∃ n, exec fuel code 0 m = .error (.error .cancelled) n

/-- Two pieces of code end alike, but for the count of instructions, or neither of them ends. -/
def EndAlike (code code' : Code) (m : Machine) : Prop :=
  (∃ e e', EndsAs code m e ∧ EndsAs code' m e' ∧ Akin e e') ∨ Endless code m ∧ Endless code' m

lemma endless_of_not_runsTo (h : ∀ r, RunsTo code 0 m r → ∃ n, r = .error .outOfFuel n) : Endless code m := by
  intro fuel
  have hout : ∃ n, proceed fuel code 0 m = .error .outOfFuel n := by
    by_contra hne
    exact hne (h _ (.of_proceed rfl (not_exists.mp hne)))
  obtain ⟨n, hn⟩ := hout
  refine (exec_eq_proceed fuel code 0 m).imp_left fun ⟨ticks, hexec⟩ => ⟨{ n with ticks }, ?_⟩
  rw [hexec, hn]
  rfl

lemma RunsTo.behind_step {op : Op} (hr : RunsTo code pc m r) (hop : code[pc]? = some op) (hc : op.isControl = false)
    (h : Run.step op m = .ok () n) : RunsTo code (pc + 1) n r := by
  obtain ⟨bound, hr⟩ := hr
  refine ⟨bound, fun fuel hfuel => ?_⟩
  have hnext := hr (fuel + 1) (by omega)
  rw [proceed_succ, hop] at hnext
  dsimp only at hnext
  rwa [advance_step hc, bind_assoc, bind_apply, h] at hnext

/-! ## Code that computes operands -/

/-- An evaluation does not run out of fuel, and if it gives something the run goes on behind its code. -/
def Leads (full : Code) (stop : Nat) (post : α → List Value) (r : Ending) :
    EStateM.Result Fault Machine (Except Completion α) → Prop
  | .ok (.ok a) q => RunsTo full stop (q.above (post a)) r
  | .ok (.error _) _ => True
  | .error f _ => f ≠ .outOfFuel

/-- Code does what an evaluation does, and its run ends only if the evaluation does with enough fuel. -/
structure Computes (full : Code) (start : Nat) (m' : Machine) (stop : Nat) (post : α → List Value)
    (Q : α → Machine → Prop) (x : Nat → Evaluation α) (m : Machine) : Prop where
  delivers : ∀ fuel, Delivers full start m' stop post Q ((x fuel).run m)
  settles : ∀ r, (∀ n, r ≠ .error .outOfFuel n) → RunsTo full start m' r →
    ∃ bound result, (∀ fuel ≥ bound, (x fuel).run m = result) ∧ Leads full stop post r result

section

variable {start middle stop : Nat} {m' : Machine} {mid : α → List Value} {post : β → List Value}
  {Q : α → Machine → Prop} {Q' : β → Machine → Prop} {x : Nat → Evaluation α}

namespace Computes

lemma pure {a : α} {pre : List Value} (h : Q a m) (hpre : mid a = pre) :
    Computes full start (m.above pre) start mid Q (fun _ => Pure.pure a) m :=
  ⟨fun _ => .pure h hpre, fun _ _ hr => ⟨0, _, fun _ _ => rfl, by rw [← hpre] at hr; exact hr⟩⟩

lemma bind {f : Nat → α → Evaluation β} (hx : Computes full start m' middle mid Q x m)
    (hf : ∀ a q, Q a q → Computes full middle (q.above (mid a)) stop post Q' (fun fuel => f fuel a) q) :
    Computes full start m' stop post Q' (fun fuel => x fuel >>= f fuel) m := by
  refine ⟨fun fuel => (hx.delivers fuel).bind fun a q hq => (hf a q hq).delivers fuel, fun r hout hr => ?_⟩
  obtain ⟨bound, result, hresult, hleads⟩ := hx.settles r hout hr
  match result, hresult, hleads with
  | .ok (.ok a) q, hresult, hleads =>
    have hq := hx.delivers bound
    rw [hresult bound le_rfl] at hq
    obtain ⟨bound', result', hresult', hleads'⟩ := (hf a q hq.1).settles r hout hleads
    refine ⟨max bound bound', result', fun fuel hfuel => ?_, hleads'⟩
    rw [Evaluation.bind_apply, hresult fuel (le_of_max_le_left hfuel)]
    exact hresult' fuel (le_of_max_le_right hfuel)
  | .ok (.error c) q, hresult, _ =>
    refine ⟨bound, .ok (.error c) q, fun fuel hfuel => ?_, trivial⟩
    rw [Evaluation.bind_apply, hresult fuel hfuel]
  | .error f q, hresult, hleads =>
    refine ⟨bound, .error f q, fun fuel hfuel => ?_, hleads⟩
    rw [Evaluation.bind_apply, hresult fuel hfuel]

lemma step {op : Op} {us : List Value} {Q : Unit → Machine → Prop} (hop : full[start]? = some op)
    (hc : op.isControl = false) (h : Run.step op m' = .ok () (m.above us)) (hm : Q () m) :
    Computes full start m' (start + 1) (fun _ => us) Q (fun _ => Pure.pure ()) m :=
  ⟨fun _ => ⟨hm, fun _ hr => .step hop hc h hr⟩, fun _ _ hr => ⟨0, _, fun _ _ => rfl, hr.behind_step hop hc h⟩⟩

lemma mono {Q' : α → Machine → Prop} (h : Computes full start m' stop mid Q x m) (hQ : ∀ a q, Q a q → Q' a q) :
    Computes full start m' stop mid Q' x m := ⟨fun fuel => (h.delivers fuel).mono hQ, h.settles⟩

end Computes

/-! ## Operands, and what is done with them -/

section

variable {I : Machine → Prop} {S : α → Run Unit}

/-- Code computes operands, and then does something with them that takes no fuel. -/
structure Does (full : Code) (x : Nat → Evaluation α) (S : α → Run Unit) (m : Machine) : Prop where
  ends : ∀ fuel, (∀ n, (x fuel).run m ≠ .error .outOfFuel n) →
    ∃ r, RunsTo full 0 m r ∧ Akin (concluded (x fuel >>= fun a => liftM (S a)) m) r
  settles : ∀ r, (∀ n, r ≠ .error .outOfFuel n) → RunsTo full 0 m r →
    ∃ fuel, ∀ n, (x fuel).run m ≠ .error .outOfFuel n

lemma Computes.does {first rest : List Op} (hx : Computes (first ++ rest).toArray 0 m (0 + first.length) mid Q x m)
    (hQ : ∀ a q, Q a q → I q) (hS : ∀ a, Realizes I rest (mid a) (S a) fun _ => []) :
    Does (first ++ rest).toArray x S m := by
  constructor
  case ends =>
    intro fuel hfuel
    rw [concluded, Run.bind_apply, Evaluation.bind_apply]
    have hdelivers := hx.delivers fuel
    rcases hr : (x fuel).run m with ⟨c | a, q⟩ | ⟨f, q⟩ <;> rw [hr] at hdelivers
    · obtain ⟨hc, stack, hruns⟩ := hdelivers
      refine ⟨_, hruns, ?_⟩
      cases c <;> first | exact absurd rfl hc | exact ⟨stack, rfl⟩
    · obtain ⟨hq, hruns⟩ := hdelivers
      have hrest := (along_append.mp (stands_self (first ++ rest))).2
      have hreaches := hS a _ _ hrest q (hQ a q hq) []
      have hend : (first ++ rest).toArray[0 + first.length + rest.length]? = none := by simp
      dsimp only
      rw [Evaluation.lift_apply]
      cases hs : S a q with
      | ok u n =>
        rw [hs] at hreaches
        have hend : RunsTo _ 0 m (.ok .normal (n.above [])) := hruns _ (hreaches.2 _ (.finish hend))
        rw [Machine.above_nil] at hend
        exact ⟨_, hend, rfl⟩
      | error f n =>
        rw [hs] at hreaches
        obtain ⟨stack, hreaches⟩ := hreaches
        exact ⟨_, hruns _ hreaches, stack, rfl⟩
    · obtain hf | ⟨stack, hruns⟩ := hdelivers
      · exact absurd (hf ▸ hr) (hfuel q)
      · exact ⟨_, hruns, stack, rfl⟩
  case settles =>
    intro r hout hr
    obtain ⟨bound, result, hresult, hleads⟩ := hx.settles r hout hr
    refine ⟨bound, fun n hn => ?_⟩
    rw [hresult bound le_rfl] at hn
    subst hn
    exact hleads rfl

lemma Does.endAlike (h : Does code x S m) (h' : Does code' x S m) : EndAlike code code' m := by
  by_cases hfuel : ∃ fuel, ∀ n, (x fuel).run m ≠ .error .outOfFuel n
  · obtain ⟨fuel, hfuel⟩ := hfuel
    obtain ⟨e, he, hakin⟩ := h.ends fuel hfuel
    obtain ⟨e', he', hakin'⟩ := h'.ends fuel hfuel
    exact .inl ⟨e, e', he.endsAs, he'.endsAs, hakin.euclidean hakin'⟩
  · have hendless {code : Code} (h : Does code x S m) : Endless code m := by
      refine endless_of_not_runsTo fun r hr => ?_
      by_contra hout
      exact hfuel (h.settles r (not_exists.mp hout) hr)
    exact .inr ⟨hendless h, hendless h'⟩

end

end

/-! ## Cells -/

/-- The value that a cell is assigned, and behind that the key of the cell. -/
def computed (fuel : Nat) (right key : List Op) (c : Cell) : Evaluation (Value × Value) := do
  let v ← pushed fuel right
  let k ← keyed fuel key c
  return (k, v)

lemma step_dupe (m : Machine) (us : List Value) (v : Value) :
    Run.step .dupe (m.above (us ++ [v])) = .ok () (m.above (us ++ [v, v])) := by
  have hback : (m.above (us ++ [v])).stack.back? = some v := by
    rw [Machine.stack_above_concat, Array.back?_push]
  change push ((m.above (us ++ [v])).stack.back?.getD .null) _ = _
  rw [hback, Option.getD_some, push_above, List.append_assoc]
  rfl

section

variable {p : Program} {room : Room} {env : Env} {s : Array Value} {start : Nat} {pre : List Value}

lemma pushed_computes (hp : p.Verified) {code : List Op} (hshape : Turns p room code 0 1)
    (hm : m.Ready p room m.stack.size) (hs : Stands full start code) :
    Computes full start (m.above pre) (start + code.length) (fun v => pre ++ [v]) (fun _ q => m.Resumes room q)
      (pushed · code) m := by
  refine ⟨fun fuel => (pushed_carries hp hshape hm fuel).behind pre full start hs [], fun r hout hr => ?_⟩
  obtain ⟨height, hv⟩ := hshape.verified
  obtain ⟨bound, hr⟩ := hr
  obtain ⟨e, he, hend, hcont⟩ := proceed_inside hs hshape.closed (Nat.zero_le _) (hr bound le_rfl) hout
  have hsame (fuel : Nat) (hfuel : fuel ≥ bound) : proceed fuel code.toArray 0 m = proceed bound code.toArray 0 m := by
    refine proceed_mono hfuel fun n hn => ?_
    rcases proceed_above hp hv bound hm pre with ⟨q, v, -, h, -⟩ | ⟨c, q, stack, -, h, -⟩ | ⟨f, q, stack, h, h'⟩ <;>
      rw [h] at hn <;> cases hn
    exact hend _ (he.symm.trans h')
  refine ⟨bound, (pushed bound code).run m, fun fuel hfuel => ?_, ?_⟩
  · rw [pushed, pushed, ExceptT.run_mk, ExceptT.run_mk, bind_apply, bind_apply, hsame fuel hfuel]
  · rw [pushed, ExceptT.run_mk, bind_apply]
    rcases proceed_above hp hv bound hm pre with ⟨q, v, -, h, h'⟩ | ⟨c, q, stack, hne, h, -⟩ | ⟨f, q, stack, h, h'⟩
    · obtain rfl := he.symm.trans h'
      rw [h]
      dsimp only
      rw [bind_apply, pop_apply]
      exact hcont
    · rw [h]
      cases c <;> first | exact absurd rfl hne | exact trivial
    · rw [h]
      rintro rfl
      exact hend _ (he.symm.trans h')

namespace KeyCode

variable {right key : List Op} {c : Cell} (h : KeyCode p room env key c) (hm : m.Serves p room env s)

include h hm

lemma keyed_computes (hs : Stands full start key) :
    Computes full start (m.above pre) (start + key.length) (fun k => pre ++ c.keyed k)
      (fun _ q => q.Serves p room env s) (keyed · key c) m := by
  have hpushed := h.turns
  have hbare := h.bare
  cases c with
  | scalar r =>
    rw [hbare rfl]
    exact .pure hm (List.append_nil pre)
  | field | element a =>
    exact (pushed_computes h.verified hpushed hm.ready hs).mono fun _ _ hq => hq.serves h.scalars hm

/-- The code of a statement leaves the value and the key on the stack, and that of an expression the value twice. -/
lemma computed_computes (hright : Turns p room right 0 1) (twice : Bool)
    (hs : Stands full start (right ++ bif twice then .dupe :: key else key)) :
    Computes full start m (start + (right ++ bif twice then Op.dupe :: key else key).length)
      (fun ⟨k, v⟩ => (bif twice then [v, v] else [v]) ++ c.keyed k) (fun _ q => q.Serves p room env s)
      (computed · right key c) m := by
  obtain ⟨hcode, hthere⟩ := along_append.mp hs
  have hpushed : Computes full start (m.above []) _ (fun v => [] ++ [v]) _ (pushed · right) m :=
    (pushed_computes h.verified hright hm.ready hcode).mono fun _ _ hq => hq.serves h.scalars hm
  rw [Machine.above_nil] at hpushed
  cases twice with
  | false =>
    rw [List.length_append, ← Nat.add_assoc]
    exact hpushed.bind fun v q hq => (h.keyed_computes hq hthere).bind fun k n hn => .pure hn rfl
  | true =>
    obtain ⟨hdupe, hthere⟩ := along_cons.mp hthere
    have hcomputed : (computed · right key c) = fun fuel => pushed fuel right >>= fun v =>
        (Pure.pure () : Evaluation Unit) >>= fun _ => keyed fuel key c >>= fun k => Pure.pure (k, v) := by
      simp only [pure_bind]
      rfl
    rw [hcomputed, cond_true, List.length_append, List.length_cons, Nat.add_comm key.length, ← Nat.add_assoc,
      ← Nat.add_assoc]
    refine hpushed.bind fun v q hq => ?_
    refine (Computes.step (Q := fun _ q => q.Serves p room env s) hdupe rfl (step_dupe q [] v) hq).bind fun _ n hn => ?_
    exact (h.keyed_computes hn hthere).bind fun k n' hn' => .pure hn' rfl

end KeyCode

end

section

variable {p : Program} {env : Env} {s : Array Value} {c : Cell} (hc : c.Within env) (k : Value)

include hc

/-- Adds one to what a cell holds, or takes one away. -/
def stepCell (decr : Bool) (c : Cell) (k : Value) : Run Unit :=
  c.at k >>= load >>= fun old => change (if decr then .sub else .add) c k old (.num 1)

lemma realizes_incr (decr : Bool) : Realizes (Hosts p env s) [.incr (if decr then -1 else 1) c] (c.keyed k)
    (stepCell decr c k) fun _ => [] := by
  rw [stepCell, fetch_change]
  have hadd : (fun t => do
      let old ← load t
      store t (.num (old.toNumber + Number.ofInt (if decr then -1 else 1)))) =
      changeAt (if decr then .sub else .add) (.num 1) := by
    funext t
    cases decr with
    | false =>
      simp only [Bool.false_eq_true, if_false, Number.ofInt_one]
      rfl
    | true =>
      simp only [if_true, Number.add_ofInt_neg_one]
      rfl
  refine .step rfl ?_
  rw [← hadd]
  exact .target hc [] k fun _ ht => .of_below ((Below.load ht).bind fun _ => Below.store ht _) []

section

variable {decr : Bool} {new : List Op} (hnew : Gives (stepCode decr) p.pools new)

include hnew

/-- The instructions that fetch a cell, add one and put the sum back, and leave one of both on the stack. -/
lemma realizes_step (keep : Bool) : Realizes (Hosts p env s)
    (fetchCode c ++ (amendCode keep new ++ putCode c) ++ [.drop]) (c.keyed k) (stepCell decr c k) fun _ => [] := by
  have hamend (old : Value) : Realizes (Hosts p env s) _ (c.keyed k ++ [old]) _ _ :=
    amend_means keep (step_means hnew) (c.keyed k) old
  have h := (realizes_fetch (p := p) (s := s) hc k).bind fun old => (hamend old).bind fun w =>
    (realizes_put (p := p) (s := s) hc k (bif keep then .num old.toNumber else w) w).bind fun _ => Realizes.drop [] _
  have htoNumber (old : Value) : (bif keep then .num old.toNumber else old).toNumber = old.toNumber := by
    cases keep <;> rfl
  have hone : (Value.num 1).toNumber = 1 := rfl
  simpa [stepCell, change, htoNumber, hone] using h

end

end

end Run

/-! ## All assignments and increments of a program -/

/-- Assignments, and increments and decrements before or behind a place. -/
def Expr.Stores : Expr → Prop
  | .assign _ _ | .incr _ _ _ => True
  | _ => False

/-- An assignment or increment in a function, or outside all functions, does as a statement what it does as an expression
whose value is dropped, whatever machine is at work. -/
def Expr.Assigns (p : Program) (r : Resolution) (func : Option String) (e : Expr) : Prop :=
  e.Stores → ∀ stmt expr, Gives (stmtCode ⟨r, func⟩ (.expr e)) p.pools (ops stmt) →
    Gives (exprCode ⟨r, func⟩ e).value p.pools expr →
    ∀ m : Machine, m.Serves p (r.room func) ⟨r, func⟩ m.stack →
      EndAlike stmt.toArray (expr ++ [Op.drop]).toArray m

section

variable {source : String} {natives : List NativeFunc} {p : Program} {r : Resolution}

lemma Expr.CallSound.assigns (hp : p.Verified) {func : Option String} (hset : Setting p (r.room func) ⟨r, func⟩)
    {e : Expr} (he : e.CallSound ⟨r, func⟩) : e.Assigns p r func := by
  intro hstores stmt expr hstmt hexpr m hm
  have hstmt := gives_effect.mp hstmt
  cases e with
  | assign target value =>
    obtain ⟨hk, hproper⟩ := he
    obtain ⟨right, hright, store, hstore, rfl⟩ := gives_map₂.mp hstmt
    obtain ⟨right', hright', store', hstore', rfl⟩ := gives_map₂.mp hexpr
    obtain rfl := hright.unique hright'
    obtain rfl := hstore.unique hstore'
    obtain ⟨key, c, hkey, hcell, rfl⟩ := gives_store hstore
    have hcode := KeyCode.of_gives hp (place_shapes hset hk.1 hproper.2.1) hkey hcell
    have hright := (expr_shapes hset hk.2 hproper.2.2).value hright
    have hstmt : Does (right ++ key ++ [Op.store c]).toArray (computed · right key c)
        (fun ⟨k, v⟩ => c.at k >>= fun t => store t v) m :=
      (hcode.computed_computes hm hright false (along_append.mp (stands_self _)).1).does
        (fun _ _ hq => hq.hosts) fun ⟨k, v⟩ => Realizes.store hcode.within [] k v
    have hexpr : Does (right ++ Op.dupe :: key ++ [Op.store c, Op.drop]).toArray (computed · right key c)
        (fun ⟨k, v⟩ => c.at k >>= fun t => store t v) m := by
      refine (hcode.computed_computes hm hright true (along_append.mp (stands_self _)).1).does
        (fun _ _ hq => hq.hosts) fun ⟨k, v⟩ => ?_
      have h := (Realizes.store (p := p) (s := m.stack) hcode.within [v] k v).bind fun _ => Realizes.drop [] v
      simpa using h
    have halike := hstmt.endAlike hexpr
    simpa using halike
  | incr target decr pre =>
    obtain ⟨hk, hproper⟩ := he
    obtain ⟨key, hkey, c, hcell, rfl⟩ := gives_map₂.mp hstmt
    have hcode := KeyCode.of_gives hp (place_shapes hset hk hproper.2) hkey hcell
    have hdoes {rest : List Op} (h : ∀ k, Realizes (Hosts p ⟨r, func⟩ m.stack) rest (c.keyed k)
        (stepCell decr c k) fun _ => []) : Does (key ++ rest).toArray (keyed · key c) (stepCell decr c) m := by
      have hkeyed : Computes _ 0 (m.above []) _ (fun k => [] ++ c.keyed k) _ (keyed · key c) m :=
        hcode.keyed_computes hm (along_append.mp (stands_self (key ++ rest))).1
      rw [Machine.above_nil] at hkeyed
      exact hkeyed.does (fun _ _ hq => hq.hosts) h
    have hexpr : Gives (bif !pre then modifyKeepCode (placeCode ⟨r, func⟩ target) (stepCode decr) else
        modifyCode (placeCode ⟨r, func⟩ target) (stepCode decr)) p.pools expr := by
      cases pre <;> exact hexpr
    obtain ⟨key', c', new, hkey', hcell', hnew, rfl⟩ := gives_modify (!pre) hexpr
    obtain rfl := hkey.unique hkey'
    obtain rfl := hcell.unique hcell'
    rw [List.append_assoc]
    exact (hdoes fun k => realizes_incr hcode.within k decr).endAlike
      (hdoes fun k => realizes_step hcode.within k hnew (!pre))
  | _ => exact hstores.elim

/-- Every assignment, increment and decrement, wherever it stands in a program text and whatever machine is at work, is
the same whether its value is used or not: the code of the statement and the code of the expression, behind which the
value is dropped, leave the same machine or fail in the same way, but for the count of instructions, or neither of them
ends. -/
theorem Program.ofSource_assigns (h : Program.ofSource source natives = .ok p) :
    ∃ r, Resolution.ofSource source natives = .ok r ∧
      r.script.Each (fun func => AllBody (Expr.Assigns p r func)) (Expr.All (Expr.Assigns p r none)) :=
  Program.ofSource_each h fun _ _ _ hp hset he => he.assigns hp hset

end

/-- A program that assigns an element, where functions give the key and the value and assign a variable. -/
def storingProgram : String :=
  "function f(v) \x7b y = v y; return y \x7d BEGIN \x7b a[f(\"k\")] = f(\"2\") \x7d"

/-- The code of the only statement of a program, if it is an assignment, and of the same where its value is used. -/
def storingBegin (p : Program) (r : Resolution) : Option (List Op × List Op) :=
  match r.script.begin with
  | [[.expr (.assign target value)]] => do
    let stmt ← given? (effectCode ⟨r, none⟩ (.assign target value)) p.pools
    let expr ← given? (exprCode ⟨r, none⟩ (.assign target value)).value p.pools
    return (stmt, expr)
  | _ => none

theorem storingProgram_assigns : ∃ p r m stmt expr, Program.ofSource storingProgram [] = .ok p ∧
    Resolution.ofSource storingProgram [] = .ok r ∧ Machine.create p {} {} {} = .ok m ∧
    storingBegin p r = some (stmt, expr) ∧ EndAlike stmt.toArray (expr ++ [Op.drop]).toArray m := by
  obtain ⟨p, r, m, ⟨stmt, expr⟩, hp, hr, hm, h⟩ :=
    Machine.exists_of_resolved storingProgram (fun p r _ => storingBegin p r) (by decide +kernel)
  obtain ⟨r', hr', heach⟩ := Program.ofSource_assigns hp
  obtain rfl : r' = r := Except.ok.inj (hr'.symm.trans hr)
  refine ⟨p, r', m, stmt, expr, hp, hr, hm, h, ?_⟩
  rw [storingBegin] at h
  split at h
  · rename_i target value hbegin
    obtain ⟨stmt', hstmt, h⟩ := Option.bind_eq_some_iff.mp h
    obtain ⟨expr', hexpr, h⟩ := Option.bind_eq_some_iff.mp h
    cases h
    have hbody := heach.begin _ (hbegin ▸ List.mem_singleton_self _)
    exact Expr.All.self hbody.1 trivial stmt expr (gives_effect.mpr (gives_of_given? hstmt))
      (gives_of_given? hexpr) m ⟨m.hosts_create hm r', Machine.ready_create hm⟩
  · cases h

end Awk
