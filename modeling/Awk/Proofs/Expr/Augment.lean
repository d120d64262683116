import Awk.Proofs.Expr.Parameters

/-!
# Places that are changed by an operator

An assignment by an operator is compiled in two ways.  Where its value is not used, the right operand is computed first,
and one instruction fetches the place, changes what it holds and puts it back.  Where its value is used, the place is
fetched first.  So the two ways agree as long as the right operand can be computed before the place is fetched or behind
that, and they do not if the right operand assigns the place.
-/

namespace Awk

open Compile Run
open Machine (Hosts)

/-! ## What the two ways mean -/

variable {v : Value} {α : Type} {a : α} {c : Cell} {pools : Pools}

namespace Run

/-- The key of a cell, which code pushes; a scalar has none. -/
def keyed (fuel : Nat) (key : List Op) : Cell → Evaluation Value
  | .scalar _ => return .null
  | .field | .element _ => pushed fuel key

def fetch (fuel : Nat) (key : List Op) (c : Cell) : Evaluation (Value × Value) := do
  let k ← keyed fuel key c
  let old ← (c.at k >>= load : Run Value)
  return (k, old)

/-- Puts into a cell what an operator makes of the value that it held. -/
def change (op : Arith) (c : Cell) (key old right : Value) : Run Unit := do
  let new ← arith op old.toNumber right.toNumber
  store (← c.at key) (.num new)

/-- Changes a cell by an operator.  The right operand is computed first. -/
def computeFirst (fuel : Nat) (op : Arith) (right key : List Op) (c : Cell) : Evaluation Unit := do
  let v ← pushed fuel right
  let (k, old) ← fetch fuel key c
  change op c k old v

/-- Changes a cell by an operator.  The cell is fetched first. -/
def fetchFirst (fuel : Nat) (op : Arith) (right key : List Op) (c : Cell) : Evaluation Unit := do
  let (k, old) ← fetch fuel key c
  let v ← pushed fuel right
  change op c k old v

variable {α β : Type}

/-- Two things can be done in either order: they give the same and leave the same machine. -/
def Exchanges (x : Evaluation α) (y : Evaluation β) (m : Machine) : Prop :=
  (do let a ← x; let b ← y; return (a, b)).run m = (do let b ← y; let a ← x; return (a, b)).run m

variable {fuel : Nat} {op : Arith} {right key : List Op} {c : Cell} {m q n : Machine}

lemma Evaluation.bind_congr {x y : Evaluation α} (h : x.run m = y.run m) (f : α → Evaluation β) :
    (x >>= f).run m = (y >>= f).run m := by
  rw [Evaluation.bind_apply, Evaluation.bind_apply, h]

/-- The order does not matter if the right operand and the cell can be had in either order. -/
lemma computeFirst_eq_fetchFirst (h : Exchanges (fetch fuel key c) (pushed fuel right) m) :
    (computeFirst fuel op right key c).run m = (fetchFirst fuel op right key c).run m := by
  have hcompute : computeFirst fuel op right key c = (do
      let v ← pushed fuel right
      let fetched ← fetch fuel key c
      return (fetched, v)) >>= fun (fetched, v) => change op c fetched.1 fetched.2 v := by
    simp only [computeFirst, bind_assoc, pure_bind]
  have hfetch : fetchFirst fuel op right key c = (do
      let fetched ← fetch fuel key c
      let v ← pushed fuel right
      return (fetched, v)) >>= fun (fetched, v) => change op c fetched.1 fetched.2 v := by
    simp only [fetchFirst, bind_assoc, pure_bind]
  rw [hcompute, hfetch]
  exact Evaluation.bind_congr h.symm _

lemma Evaluation.lift_apply (x : Run α) (m : Machine) : (liftM x : Evaluation α).run m = match x m with
    | .ok a n => .ok (.ok a) n
    | .error f n => .error f n := by
  change (x >>= fun a => pure (Except.ok a) : Run (Except Completion α)) m = _
  rw [Run.bind_apply]
  cases x m <;> rfl

variable {old : Value}

lemma fetch_scalar {r : ScalarRef} (h : getScalar r m = .ok old m) :
    (fetch fuel key (.scalar r)).run m = .ok (.ok (.null, old)) m := by
  have hload : (Cell.at (.scalar r) .null >>= load) m = .ok old m := h
  rw [fetch, keyed, pure_bind, Evaluation.bind_apply, Evaluation.lift_apply, hload]
  rfl

/-- A scalar can be fetched before the right operand is computed or behind that, if that leaves its value alone. -/
lemma exchanges_scalar {r : ScalarRef} (hright : (pushed fuel right).run m = .ok (.ok v) q)
    (hm : getScalar r m = .ok old m) (hq : getScalar r q = .ok old q) :
    Exchanges (fetch fuel key (.scalar r)) (pushed fuel right) m := by
  rw [Exchanges, Evaluation.bind_apply, Evaluation.bind_apply, fetch_scalar hm, hright]
  dsimp only
  rw [Evaluation.bind_apply, Evaluation.bind_apply, fetch_scalar hq, hright]

/-! ## The instruction that changes a cell -/

lemma getElement_specials (a : ArrayRef) (k : String) (m : Machine) :
    (getElement a k m).state.specials = m.specials := by
  have hslot : Keeping (·.specials = m.specials) (slotOf a) := by
    rw [slotOf_eq]
    exact .get_bind fun n _ => .resume _
  have harray : Keeping (·.specials = m.specials) (arrayOf a) := by
    refine hslot.bind fun slot => .get_bind fun n _ => ?_
    split
    · exact .pure _
    · exact .fail _
  have helement : Keeping (·.specials = m.specials) (getElement a k) := by
    refine harray.bind ?_
    rintro ⟨slot, array⟩
    dsimp only
    split
    · exact .pure _
    · exact .bind (.modify fun _ h => h) fun _ => .pure _
  exact (helement m rfl).2

lemma fail_bind (e : RunError) (f : α → Run β) : (fail e >>= f) = fail e := rfl

lemma arith_cases (op : Arith) (a b : Float) : (∃ x, arith op a b = pure x) ∨ ∃ e, arith op a b = fail e := by
  cases op with
  | add | sub | mul | pow => exact .inl ⟨_, rfl⟩
  | div | mod =>
    rw [arith]
    split_ifs
    · exact .inr ⟨_, rfl⟩
    · exact .inl ⟨_, rfl⟩

lemma fieldNumber_cases (x : Float) : (∃ n, fieldNumber x = pure n) ∨ ∃ e, fieldNumber x = fail e := by
  rw [fieldNumber]
  split_ifs
  · exact .inl ⟨_, rfl⟩
  · exact .inr ⟨_, rfl⟩

/-- Changes what a cell holds, which is known by its key. -/
def changeAt (op : Arith) (right : Value) (t : Target) : Run Unit := do
  let old ← load t
  let new ← arith op old.toNumber right.toNumber
  store t (.num new)

lemma fetch_change (op : Arith) (c : Cell) (k v : Value) :
    (c.at k >>= load >>= fun old => change op c k old v) = c.at k >>= changeAt op v := by
  have hlater {t : Target} (ht : c.at k = pure t) :
      (c.at k >>= load >>= fun old => change op c k old v) = c.at k >>= changeAt op v := by
    simp only [change, ht, pure_bind]
    rfl
  cases c with
  | scalar r => exact hlater rfl
  | field =>
    rcases fieldNumber_cases k.toNumber with ⟨n, hn⟩ | ⟨e, he⟩
    · exact hlater (by rw [Cell.at, hn, pure_bind])
    · rw [Cell.at, he, fail_bind, fail_bind, fail_bind, fail_bind]
  | element a =>
    funext m
    set key := k.text m.specials.convfmt with hkey
    have hat {n : Machine} (hn : n.specials = m.specials) :
        Cell.at (.element a) k n = .ok (.element a key) n := by
      change EStateM.Result.ok (Target.element a (k.text n.specials.convfmt)) n = _
      rw [hn]
    have hspecials := getElement_specials a key m
    rw [bind_apply, bind_apply, bind_apply, hat rfl]
    dsimp only
    rw [changeAt, bind_apply]
    cases hr : load (.element a key) m with
    | error e n => rfl
    | ok old n =>
      have hn : n.specials = m.specials := by
        rwa [show getElement a key m = .ok old n from hr] at hspecials
      dsimp only
      rw [change]
      rcases arith_cases op old.toNumber v.toNumber with ⟨x, hx⟩ | ⟨e, he⟩
      · rw [hx, pure_bind, pure_bind, bind_apply, hat hn]
      · rw [he, fail_bind, fail_bind]

variable {p : Program} {room : Room} {env : Env} {s : Array Value}

lemma below_changeAt {t : Target} (ht : t.Within env) (op : Arith) (v : Value) :
    Below (Hosts p env s) (changeAt op v t) :=
  (Below.load ht).bind fun _ => (Composed.arith op _ _).tame.below.bind fun _ => Below.store ht _

/-- The instruction takes the right operand and the key from the stack. -/
lemma realizes_aug (hc : c.Within env) (k v : Value) :
    Realizes (Hosts p env s) [.aug op c] ([v] ++ c.keyed k)
      (c.at k >>= load >>= fun old => change op c k old v) fun _ => [] := by
  rw [fetch_change]
  exact .step rfl (.target hc [v] k fun _ ht => .pop_bind [] (.of_below (below_changeAt ht op v) []))

/-! ## Code -/

lemma realizes_change (hc : c.Within env) (k old v : Value) :
    Realizes (Hosts p env s) ([.arith op, .dupe] ++ putCode c ++ [.drop]) (c.keyed k ++ [old] ++ [v])
      (change op c k old v) fun _ => [] := by
  have h := (arith_means op (c.keyed k) old v).bind fun w => (Realizes.dupe (c.keyed k) w).bind fun _ =>
    (realizes_put (p := p) (s := s) hc k w w).bind fun _ => Realizes.drop [] w
  simpa [change] using h

end Run

/-! ## Machines at work -/

/-- A machine that is at work on code of a function, with a stack that is the given one but for the scalars of the
function. -/
structure Machine.Serves (p : Program) (room : Room) (env : Env) (stack : Array Value) (m : Machine) : Prop where
  hosts : m.Hosts p env stack
  ready : m.Ready p room m.stack.size

section

variable {p : Program} {room : Room} {env : Env} {s : Array Value} {m q n : Machine}

lemma Machine.Resumes.serves (hroom : room.scalars = env.scalars) (h : m.Resumes room q)
    (hm : m.Serves p room env s) : q.Serves p room env s where
  ready := h.ready hm.ready
  hosts := {
    program := h.keeps.program.trans hm.hosts.program
    regexes := by rw [h.keeps.regexes, hm.hosts.regexes]
    fits := h.keeps.outline ▸ hm.hosts.fits
    scalars := by rw [h.keeps.base, h.size]; exact hm.hosts.scalars
    size := h.size.trans hm.hosts.size
    rest := fun i hi => by
      rw [h.keeps.base] at hi
      exact (h.stack i (hroom ▸ hi)).trans (hm.hosts.rest i hi) }

namespace Run

lemma Resizes.serves {x : Run α} (hx : Resizes p room q.stack.size 0 x 0)
    (hq : q.Serves p room env s) (h : x q = .ok a n) (hn : n.Hosts p env s) : n.Serves p room env s := by
  have hsafe := (hx ⟨hq.ready, .refl q, Nat.zero_le _, rfl⟩).orderly
  rw [h] at hsafe
  obtain ⟨hkeeps, hsize, -⟩ := hsafe
  exact ⟨hn, by rw [hsize]; exact hkeeps.ready hq.ready⟩

lemma load_serves (hc : c.WellFormed p room) {k : Value} (hq : q.Serves p room env s)
    (h : (c.at k >>= load) q = .ok v n) (hn : n.Hosts p env s) : n.Serves p room env s := by
  refine Resizes.serves ?_ hq h hn
  cases c with
  | scalar r => exact (load_works (t := .scalar r) fun _ => hc).sized
  | field =>
    rw [Cell.at, bind_assoc]
    exact (Composed.fieldNumber _).tame.sized.bind fun i _ => (load_works (t := .field i) fun _ => trivial).sized
  | element a =>
    rw [Cell.at, bind_assoc]
    exact (Composed.textOf k).tame.sized.bind fun key _ => (load_works (t := .element a key) fun _ => hc).sized

/-! ## Code that changes a cell -/

variable {α : Type} {full : Code} {start stop : Nat} {post : α → List Value} {Q Q' : α → Machine → Prop}

lemma Delivers.mono {r : EStateM.Result Fault Machine (Except Completion α)} (h : Delivers full start m stop post Q r)
    (hQ : ∀ a q, Q a q → Q' a q) : Delivers full start m stop post Q' r := by
  match r, h with
  | .ok (.ok a) q, h => exact ⟨hQ a q h.1, h.2⟩
  | .ok (.error _) _, h | .error _ _, h => exact h

lemma Carries.mono {code : List Op} {pre : List Value} {x : Evaluation α} (h : Carries m code pre x post Q)
    (hQ : ∀ a q, Q a q → Q' a q) : Carries m code pre x post Q' := fun full o hs vs => (h full o hs vs).mono hQ

lemma Realizes.carries {I : Machine → Prop} {code : List Op} {pre : List Value} {x : Run α}
    (h : Realizes I code pre x post) (hq : I q) (hQ : ∀ a n, x q = .ok a n → I n → Q a n) :
    Carries q code pre (liftM x : Evaluation α) post Q := by
  intro full o hs vs
  have h := h full o hs q hq vs
  rw [Evaluation.lift_apply]
  cases hr : x q with
  | ok a n =>
    rw [hr] at h
    exact ⟨hQ a n hr h.1, h.2⟩
  | error f n =>
    rw [hr] at h
    exact .inr h

/-- Code that pushes the key of a cell, if it has one, in a function whose scalars are those of an environment. -/
structure KeyCode (p : Program) (room : Room) (env : Env) (key : List Op) (c : Cell) : Prop where
  verified : p.Verified
  scalars : room.scalars = env.scalars
  turns : Turns p room key 0 c.keys
  bare : c.keys = 0 → key = []
  wellFormed : c.WellFormed p room

namespace KeyCode

variable {right key : List Op} {c : Cell} (h : KeyCode p room env key c) (fuel : Nat) (hright : Turns p room right 0 1)
  (hm : m.Serves p room env s)

include h

lemma within : c.Within env := by
  have hw := h.wellFormed
  cases c with
  | scalar r =>
    cases r with
    | «local» i => exact Nat.lt_of_lt_of_eq hw h.scalars
    | global i | special v => trivial
  | field | element a => trivial

include hm

lemma pushed_carries (hright : Turns p room right 0 1) :
    Carries m right [] (pushed fuel right) (fun v => [v]) fun _ q => q.Serves p room env s :=
  (Run.pushed_carries h.verified hright hm.ready fuel).mono fun _ _ hq => hq.serves h.scalars hm

lemma keyed_carries : Carries m key [] (keyed fuel key c) c.keyed fun _ q => q.Serves p room env s := by
  have hpushed := h.turns
  have hbare := h.bare
  cases c with
  | scalar r =>
    rw [hbare rfl]
    exact .pure hm rfl
  | field | element a => exact h.pushed_carries fuel hm hpushed

/-- The code that fetches a cell leaves its key and its value on the stack. -/
lemma fetch_carries : Carries m (key ++ fetchCode c) [] (fetch fuel key c)
    (fun fetched => c.keyed fetched.1 ++ [fetched.2]) fun _ q => q.Serves p room env s :=
  (h.keyed_carries fuel hm).bind fun k _ hq => ((realizes_fetch h.within k).carries hq.hosts fun _ _ =>
    load_serves h.wellFormed hq).map (fun _ _ hn => hn) fun _ => rfl

include hright

lemma computeFirst_carries (op : Arith) : Carries m (right ++ key ++ [.aug op c]) [] (computeFirst fuel op right key c)
    (fun _ => []) fun _ _ => True := by
  have hmeans : computeFirst fuel op right key c = (do
      let v ← pushed fuel right
      let k ← keyed fuel key c
      liftM (c.at k >>= load >>= fun old => change op c k old v)) := by
    simp only [computeFirst, fetch, bind_assoc, pure_bind, liftM_bind]
  rw [hmeans, List.append_assoc]
  refine (h.pushed_carries fuel hm hright).bind fun v q hq => ((h.keyed_carries fuel hq).behind [v]).bind fun k n hn => ?_
  exact (realizes_aug h.within k v).carries hn.hosts fun _ _ _ _ => trivial

lemma fetchFirst_carries (op : Arith) :
    Carries m (key ++ fetchCode c ++ right ++ ([.arith op, .dupe] ++ putCode c ++ [.drop])) []
      (fetchFirst fuel op right key c) (fun _ => []) fun _ _ => True := by
  rw [List.append_assoc _ right]
  refine (h.fetch_carries fuel hm).bind fun fetched q hq => ?_
  refine ((h.pushed_carries fuel hq hright).behind _).bind fun v n hn => ?_
  exact (realizes_change h.within fetched.1 fetched.2 v).carries hn.hosts fun _ _ _ _ => trivial

end KeyCode

/-- How code ends that does what something means. -/
def concluded (x : Evaluation Unit) : Run Completion := do
  match ← x.run with
  | .ok _ => return .normal
  | .error c => return c

lemma concluded_apply (x : Evaluation Unit) (m : Machine) : concluded x m = ending (fun _ => []) (x.run m) := by
  rw [concluded, bind_apply]
  match x.run m with
  | .ok (.ok _) q =>
    rw [ending, Machine.above_nil]
    rfl
  | .ok (.error _) _ | .error _ _ => rfl

lemma Akin.euclidean {e r r' : Ending} (h : Akin e r) (h' : Akin e r') : Akin r r' := by
  match e, h, h' with
  | .ok .normal _, h, h' => rw [h', h]; rfl
  | .ok .next _, ⟨_, h⟩, ⟨stack, h'⟩ | .ok .nextFile _, ⟨_, h⟩, ⟨stack, h'⟩ | .ok .exit _, ⟨_, h⟩, ⟨stack, h'⟩
  | .ok (.return _) _, ⟨_, h⟩, ⟨stack, h'⟩ | .ok .breakForIn _, ⟨_, h⟩, ⟨stack, h'⟩
  | .error _ _, ⟨_, h⟩, ⟨stack, h'⟩ =>
    rw [h, h']
    exact ⟨stack, rfl⟩

/-- A cell that is changed by an operator, on a machine that is at work: by the code of a statement, and by the code of
an expression whose value is dropped. -/
structure ChangesCell (fuel : Nat) (op : Arith) (right key : List Op) (c : Cell) (stmt expr : Code) (m : Machine) :
    Prop where
  /-- The statement computes the right operand first. -/
  computes : (∀ n, (computeFirst fuel op right key c).run m ≠ .error .outOfFuel n) →
    ∃ e, EndsAs stmt m e ∧ Akin (concluded (computeFirst fuel op right key c) m) e
  /-- The expression fetches the cell first. -/
  fetches : (∀ n, (fetchFirst fuel op right key c).run m ≠ .error .outOfFuel n) →
    ∃ e, EndsAs expr m e ∧ Akin (concluded (fetchFirst fuel op right key c) m) e
  /-- Both end the same if the cell can be fetched before the right operand is computed or behind that. -/
  agree : Exchanges (fetch fuel key c) (pushed fuel right) m →
    (∀ n, (computeFirst fuel op right key c).run m ≠ .error .outOfFuel n) →
    ∃ e e', EndsAs stmt m e ∧ EndsAs expr m e' ∧ Akin e e'

end Run

end

/-! ## All assignments by operators of a program -/

/-- If an expression assigns a place by an operator, in a function or outside all functions, then it has the meaning of
its code, whether its value is used or not, and whatever machine is at work. -/
def Expr.Augments (p : Program) (r : Resolution) (func : Option String) : Expr → Prop
  | .augAssign target op value => ∀ stmt expr,
    Gives (stmtCode ⟨r, func⟩ (.expr (.augAssign target op value))) p.pools (ops stmt) →
    Gives (exprCode ⟨r, func⟩ (.augAssign target op value)).value p.pools expr →
    ∃ right key c, Gives (exprCode ⟨r, func⟩ value).value p.pools right ∧
      Gives (placeCode ⟨r, func⟩ target).key p.pools key ∧ Gives (placeCode ⟨r, func⟩ target).cell p.pools c ∧
      ∀ fuel (m : Machine), m.Serves p (r.room func) ⟨r, func⟩ m.stack →
        ChangesCell fuel op right key c stmt.toArray (expr ++ [Op.drop]).toArray m
  | _ => True

section

variable {source : String} {natives : List NativeFunc} {p : Program} {r : Resolution}

variable {func : Option String} {e : Expr}

lemma Run.KeyCode.of_gives (hp : p.Verified) {pl : Place} {key : List Op}
    (hplace : (placeCode ⟨r, func⟩ pl).Shapes p (r.room func)) (hkey : Gives (placeCode ⟨r, func⟩ pl).key p.pools key)
    (hcell : Gives (placeCode ⟨r, func⟩ pl).cell p.pools c) : KeyCode p (r.room func) ⟨r, func⟩ key c :=
  ⟨hp, r.room_scalars func, hplace.key hkey hcell, gives_key_bare hkey hcell, hplace.cell hcell⟩

/-- The code of a statement that is an expression, whose value is not used. -/
lemma Compile.gives_effect {env : Env} {stmt : List Op} :
    Gives (stmtCode env (.expr e)) pools (ops stmt) ↔ Gives (effectCode env e) pools stmt := by
  rw [stmtCode, gives_map]
  refine ⟨?_, fun h => ⟨stmt, h, rfl⟩⟩
  rintro ⟨effect, heffect, hops⟩
  rwa [List.map_injective_iff.mpr (fun _ _ => Piece.op.inj) hops]

/-- An assignment by an operator that uses its variables according to their kinds means what it should. -/
lemma Expr.CallSound.augments (hp : p.Verified) (hset : Setting p (r.room func) ⟨r, func⟩) (he : e.CallSound ⟨r, func⟩) : e.Augments p r func := by
  cases e with
  | augAssign target op value =>
    intro stmt expr hstmt hexpr
    obtain ⟨hk, hproper⟩ := he
    obtain ⟨key, c, new, hkey, hcell, hnew, rfl⟩ := gives_modify false hexpr
    obtain ⟨right, hright, rfl⟩ := gives_map.mp hnew
    have hcode := KeyCode.of_gives hp (place_shapes hset hk.1 hproper.2.1) hkey hcell
    have hrightTurns := (expr_shapes hset hk.2 hproper.2.2).value hright
    obtain ⟨v, hv, hstmt⟩ := gives_bind.mp (gives_effect.mp hstmt)
    obtain ⟨key', hkey', c', hcell', rfl⟩ := gives_map₂.mp hstmt
    rw [hv.unique hright, hkey'.unique hkey, hcell'.unique hcell]
    have hexpr : key ++ (fetchCode c ++ (amendCode false (right ++ [.arith op]) ++ putCode c)) ++ [Op.drop] =
        key ++ fetchCode c ++ right ++ ([.arith op, .dupe] ++ putCode c ++ [.drop]) := by
      simp [amendCode]
    refine ⟨right, key, c, hright, hkey, hcell, fun fuel m hm => ?_⟩
    have hcompute := (hcode.computeFirst_carries fuel hrightTurns hm op).endsAs
    have hfetch := (hcode.fetchFirst_carries fuel hrightTurns hm op).endsAs
    rw [← concluded_apply] at hcompute hfetch
    rw [hexpr]
    refine ⟨hcompute, hfetch, fun hex hfuel => ?_⟩
    have hsame : (computeFirst fuel op right key c).run m = (fetchFirst fuel op right key c).run m :=
      computeFirst_eq_fetchFirst hex
    obtain ⟨e, he, hakin⟩ := hcompute hfuel
    obtain ⟨e', he', hakin'⟩ := hfetch (hsame ▸ hfuel)
    rw [concluded_apply, hsame, ← concluded_apply] at hakin
    exact ⟨e, e', he, he', hakin.euclidean hakin'⟩
  | _ => trivial

/-- Every assignment by an operator, wherever it stands in a program text and whatever machine is at work, means the
same whether its value is used or not, but for the order: as a statement it computes the right operand before it
fetches the place, and where its value is used it fetches the place first.  So both leave the same machine and end in
the same way if the place can be fetched before the right operand is computed or behind that. -/
theorem Program.ofSource_augments (h : Program.ofSource source natives = .ok p) :
    ∃ r, Resolution.ofSource source natives = .ok r ∧
      r.script.Each (fun func => AllBody (Expr.Augments p r func)) (Expr.All (Expr.Augments p r none)) :=
  Program.ofSource_each h fun _ _ _ hp hset he => he.augments hp hset

end

/-- A program that adds to a variable what a function gives, which assigns another one. -/
def addingProgram : String :=
  "function f(v) \x7b y = v v; return y \x7d BEGIN \x7b x += f(\"2\") \x7d"

/-- The code of the only statement of a program, of the same where its value is used, and of the right operand, if the
statement adds something to a global variable that is not assigned, also when the right operand is computed. -/
def addingBegin (fuel : Nat) (p : Program) (r : Resolution) (m : Machine) : Option (List Op × List Op × List Op) :=
  match r.script.begin with
  | [[.expr (.augAssign (.var x) .add value)]] => do
    let stmt ← given? (effectCode ⟨r, none⟩ (.augAssign (.var x) .add value)) p.pools
    let expr ← given? (exprCode ⟨r, none⟩ (.augAssign (.var x) .add value)).value p.pools
    let right ← given? (exprCode ⟨r, none⟩ value).value p.pools
    match ← given? (placeCode ⟨r, none⟩ (.var x)).cell p.pools with
    | .scalar (.global i) =>
      match m.globals[i]?, (pushed fuel right).run m with
      | some .null, .ok (.ok _) q =>
        match q.globals[i]?, (computeFirst fuel .add right [] (.scalar (.global i))).run m with
        | some .null, .ok _ _ => some (stmt, expr, right)
        | _, _ => none
      | _, _ => none
    | _ => none
  | _ => none

theorem addingProgram_augments : ∃ p r m stmt expr right e e', Program.ofSource addingProgram [] = .ok p ∧
    Resolution.ofSource addingProgram [] = .ok r ∧ Machine.create p {} {} {} = .ok m ∧
    addingBegin 60 p r m = some (stmt, expr, right) ∧ EndsAs stmt.toArray m e ∧
    EndsAs (expr ++ [Op.drop]).toArray m e' ∧ Akin e e' := by
  obtain ⟨p, r, m, ⟨stmt, expr, right⟩, hp, hr, hm, h⟩ :=
    Machine.exists_of_resolved addingProgram (addingBegin 60) (by decide +kernel)
  obtain ⟨r', hr', heach⟩ := Program.ofSource_augments hp
  obtain rfl : r' = r := Except.ok.inj (hr'.symm.trans hr)
  suffices ∃ e e', EndsAs stmt.toArray m e ∧ EndsAs (expr ++ [Op.drop]).toArray m e' ∧ Akin e e' by
    obtain ⟨e, e', hends⟩ := this
    exact ⟨p, r', m, stmt, expr, right, e, e', hp, hr, hm, h, hends⟩
  rw [addingBegin] at h
  split at h
  · rename_i x value hbegin
    obtain ⟨stmt', hstmt, h⟩ := Option.bind_eq_some_iff.mp h
    obtain ⟨expr', hexpr, h⟩ := Option.bind_eq_some_iff.mp h
    obtain ⟨right', hright, h⟩ := Option.bind_eq_some_iff.mp h
    obtain ⟨cell, hcell, h⟩ := Option.bind_eq_some_iff.mp h
    split at h
    · rename_i i
      split at h
      · rename_i v q hglobal hpushed
        split at h
        · rename_i result n hglobal' hcompute
          cases h
          have hbody := heach.begin _ (hbegin ▸ List.mem_singleton_self _)
          obtain ⟨right', key, c, hright', hkey, hc, hchanges⟩ :=
            Expr.All.self hbody.1 stmt expr (gives_effect.mpr (gives_of_given? hstmt)) (gives_of_given? hexpr)
          obtain rfl := hright'.unique (gives_of_given? hright)
          obtain rfl := hc.unique (gives_of_given? hcell)
          obtain rfl := gives_key_bare hkey hc rfl
          have hread {n : Machine} (hn : n.globals[i]? = some .null) :
              getScalar (.global i) n = .ok .null n := by
            rw [getScalar, get_bind_apply, hn]
            rfl
          refine (hchanges 60 m ⟨m.hosts_create hm r', Machine.ready_create hm⟩).agree
            (exchanges_scalar hpushed (hread hglobal) (hread hglobal')) fun n hn => ?_
          rw [hcompute] at hn
          cases hn
        · cases h
      · cases h
    · cases h
  · cases h

/-- A program that assigns a variable while it adds to it, as a statement and where the value is used. -/
def selfProgram : String :=
  "BEGIN \x7b x = 1; x += (x = 5); y = 1; z = (y += (y = 5)); print x, y, z \x7d"

/-- The statement adds to the value that the right operand has assigned, and the expression to the one before. -/
theorem selfProgram_differs : ∃ p m, Program.ofSource selfProgram [] = .ok p ∧ Machine.create p {} {} {} = .ok m ∧
    (m.after [.run 200]).takeDelivered.1 = "10 6 6\n" :=
  Machine.exists_of_tried selfProgram {} {} _ (by decide +kernel)

end Awk
