import Awk.Proofs.Expr.Instructions
import Awk.Proofs.Machine.Session

/-!
# Code of expressions means what the expressions do

Every form of an expression's code does what `Expr.eval` says: it pushes the value, jumps on its truth, pushes
the operands of a chain of texts, or pushes something that is as good as the value where a key is wanted.
-/

namespace Awk

open Compile Run
open Machine (Hosts)

namespace Compile

variable {p : Program} {env : Env} {s : Array Value} {I : Machine → Prop} {pools : Pools}

attribute [local simp] Place.key Expr.eval Expr.operands evalAll

/-! ## The forms of code -/

/-- The forms of an expression's code do what the expression means. -/
structure ExprCode.Means (I : Machine → Prop) (pools : Pools) (c : ExprCode) (x : Run Value)
    (operands : Run (List Value)) : Prop where
  value : ∀ {code}, Gives c.value pools code → Realizes I code [] x fun v => [v]
  branch : ∀ {expected code t}, Gives (c.branch expected) pools (code, t) →
    Tests I code t (do return (← x).isTrue == expected)
  operands : ∀ {code n}, Gives c.operands pools (code, n) →
    Realizes I code [] operands (fun vs => vs) ∧ Ensures operands fun vs => vs.length = n
  key : ∀ {code}, Gives c.key pools code → ∃ g : Value → Value, (∀ v fmt, (g v).text fmt = v.text fmt) ∧
    Realizes I code [] x fun v => [g v]

/-- The parts of a place's code do what the place means. -/
structure PlaceCode.Means (I : Machine → Prop) (pools : Pools) (env : Env) (c : PlaceCode) (pl : Place) : Prop where
  cell : ∀ {cell}, Gives c.cell pools cell → pl.cell env = pure cell ∧ cell.Within env
  key : ∀ {code cell}, Gives c.key pools code → Gives c.cell pools cell → ∃ g : Value → Value,
    (∀ v, cell.at (g v) = cell.at v) ∧ Realizes I code [] (pl.key env) fun v => cell.keyed (g v)

lemma acts_truth (expected : Bool) (us : List Value) (v : Value) :
    Acts I (taken (.truth expected)) (us ++ [v]) (pure (v.isTrue == expected)) (fun b => b) fun _ => us :=
  .pop_bind us (.of_below (.pure _) us)

lemma acts_compare (c : Comparison) (a b : Value) : Acts (Hosts p env s) (taken (.compare c)) [a, b]
    (do return c.holds (a.compare (← get).specials.convfmt b)) (fun b => b) fun _ => [] :=
  .pop_bind [a] (.pop_bind [] (.of_below (.get_bind (fun _ _ _ => rfl) fun _ _ => .pure _) []))

lemma ExprCode.Means.ofValue {value : Compile (List Op)} {x : Run Value}
    (h : ∀ {code}, Gives value pools code → Realizes I code [] x fun v => [v]) :
    (ExprCode.ofValue value).Means I pools x (do return [← x]) where
  value := h
  branch hc := by
    obtain ⟨hcode, rfl⟩ := gives_ofValue_branch.mp hc
    exact ⟨Value, x, _, _, h hcode, acts_truth _ [], rfl⟩
  operands hc := by
    obtain ⟨hcode, rfl⟩ := gives_ofValue_operands.mp hc
    exact ⟨(h hcode).map fun _ => rfl, .next fun _ => .pure rfl⟩
  key hc := ⟨id, fun _ _ => rfl, h hc⟩

/-- The code of an expression does what it means, on machines that host a program. -/
abbrev Faithful (p : Program) (env : Env) (s : Array Value) (e : Expr) : Prop :=
  (exprCode env e).Means (Hosts p env s) p.pools (e.eval env) (e.operands env)

/-- The code of a place does what it means, on machines that host a program. -/
abbrev FaithfulPlace (p : Program) (env : Env) (s : Array Value) (pl : Place) : Prop :=
  (placeCode env pl).Means (Hosts p env s) p.pools env pl

/-! ## Names -/

variable {v : VarRef} {es args : List Expr} {f : Builtin} {extent : Extent} {code : List Op}

lemma named_scalar {r : ScalarRef} (h : Gives (env.scalar v) pools r) : named (env.scalar v) = pure r := by
  have hempty : Gives (env.scalar v) {} r := by
    rw [Env.scalar] at h ⊢
    split at h
    · exact gives_pure.mpr (gives_pure.mp h)
    · exact gives_pure.mpr (gives_pure.mp h)
    · split at h
      · exact gives_pure.mpr (gives_pure.mp h)
      · exact absurd h not_gives_fail
    · exact absurd h not_gives_fail
  rw [named, hempty]

lemma named_array {a : ArrayRef} (h : Gives (env.array v) pools a) : named (env.array v) = pure a := by
  have hempty : Gives (env.array v) {} a := by
    rw [Env.array] at h ⊢
    split at h
    · exact gives_pure.mpr (gives_pure.mp h)
    · exact gives_pure.mpr (gives_pure.mp h)
    · exact absurd h not_gives_fail
    · exact absurd h not_gives_fail
  rw [named, hempty]

/-! ## Several expressions -/

section

variable {es : List Expr} (hes : ∀ e ∈ es, Faithful p env s e)

include hes

variable {code : List Op}

lemma evalAll_means (hc : Gives (valuesOf (exprCodes env es)) p.pools code) :
    Realizes (Hosts p env s) code [] (evalAll env es) fun vs => vs := by
  induction es generalizing code with
  | nil =>
    rw [exprCodes, valuesOf, gives_pure] at hc
    rw [← hc, evalAll]
    exact .pure rfl
  | cons e es ih =>
    obtain ⟨he, hes⟩ := List.forall_mem_cons.mp hes
    rw [exprCodes] at hc
    obtain ⟨first, hfirst, rest, hrest, rfl⟩ := gives_valuesOf_cons.mp hc
    rw [evalAll]
    exact (he.value hfirst).bind fun v => ((ih hes hrest).behind [v]).map fun _ => rfl

omit hes in
lemma evalAll_ensures (es : List Expr) : Ensures (evalAll env es) fun vs => vs.length = es.length := by
  induction es with
  | nil =>
    rw [evalAll]
    exact .pure rfl
  | cons e es ih =>
    rw [evalAll]
    exact .next fun v => ih.map fun vs hvs => congrArg Nat.succ hvs

lemma keyOf_means (hc : Gives (keyOf (exprCodes env es)) p.pools code) : ∃ g : Value → Value,
    (∀ v fmt, (g v).text fmt = v.text fmt) ∧
      Realizes (Hosts p env s) code [] (do subscript (← evalAll env es)) fun v => [g v] := by
  have hlen : (exprCodes env es).length = es.length := by simp [exprCodes_eq_map]
  have hseveral : es.length ≠ 1 → Gives (do return (← valuesOf (exprCodes env es)) ++
      [.indexMulti (exprCodes env es).length]) p.pools code → ∃ g : Value → Value,
      (∀ v fmt, (g v).text fmt = v.text fmt) ∧
        Realizes (Hosts p env s) code [] (do subscript (← evalAll env es)) fun v => [g v] := by
    intro hne hc
    obtain ⟨values, hvalues, rfl⟩ := gives_map.mp hc
    refine ⟨id, fun _ _ => rfl, (evalAll_means hes hvalues).append (evalAll_ensures es) fun vs hvs => ?_⟩
    rw [hlen, ← hvs]
    exact .indexMulti fun v hv => hne (hvs.symm.trans (congrArg List.length hv))
  obtain _ | ⟨e, _ | ⟨e', es⟩⟩ := es
  · exact hseveral (by simp) hc
  · obtain ⟨g, hg, hkey⟩ := (hes e (by simp)).key hc
    refine ⟨g, hg, ?_⟩
    simpa only [evalAll, subscript, bind_assoc, pure_bind, bind_pure] using hkey
  · exact hseveral (by simp) hc

end

/-! ## Places -/

section

variable {c : Cell} (hc : c.Within env) (k : Value)

include hc

lemma realizes_fetch :
    Realizes (Hosts p env s) (fetchCode c) (c.keyed k) (c.at k >>= load) fun v => c.keyed k ++ [v] := by
  cases c with
  | scalar r => exact .load hc [] k
  | field | element a => exact (Realizes.dupe [] k).bind fun _ => Realizes.load hc [k] k

lemma realizes_put (kept new : Value) : Realizes (Hosts p env s) (putCode c) (c.keyed k ++ [kept, new])
    (c.at k >>= fun t => store t new) fun _ => [kept] := by
  cases c with
  | scalar r => exact .store hc [kept] k new
  | field | element a => exact (Realizes.rote [] k kept new).bind fun _ => Realizes.store hc [kept] k new

end

lemma amend_means (keep : Bool) {new : List Op} {f : Value → Run Value}
    (hf : ∀ us v, Realizes I new (us ++ [v]) (f v) fun w => us ++ [w]) (us : List Value) (old : Value) :
    Realizes I (amendCode keep new) (us ++ [old]) (f (bif keep then .num old.toNumber else old))
      fun w => us ++ [bif keep then .num old.toNumber else w, w] := by
  cases keep with
  | true =>
    have hplus : Realizes I [.plus] (us ++ [old]) (pure ()) fun _ => us ++ [.num old.toNumber] :=
      ((Realizes.plus old).frame us).pure_congr rfl
    have hsum := hf (us ++ [.num old.toNumber]) (.num old.toNumber)
    rw [List.append_assoc] at hsum
    have h := hplus.bind fun _ => (Realizes.dupe us _).bind fun _ => hsum
    simpa [amendCode] using h
  | false =>
    have hdupe (w : Value) : Realizes I [.dupe] (us ++ [w]) (pure w) fun w => us ++ [w, w] :=
      (Realizes.dupe us w).pure_congr rfl
    simpa [amendCode] using (hf us old).bind hdupe

section

variable {pl : Place} (hc : FaithfulPlace p env s pl)

include hc

lemma load_means {key : List Op} {cell : Cell} (hkey : Gives (placeCode env pl).key p.pools key)
    (hcell : Gives (placeCode env pl).cell p.pools cell) :
    Realizes (Hosts p env s) (key ++ [Op.load cell]) [] ((Expr.place pl).eval env) fun v => [v] := by
  obtain ⟨hcell', hwithin⟩ := hc.cell hcell
  obtain ⟨g, hg, hkey⟩ := hc.key hkey hcell
  have h := hkey.bind fun k => Realizes.load hwithin [] (g k)
  rw [Expr.eval]
  simpa only [hcell', pure_bind, hg, List.nil_append] using h

variable {code : List Op} {change : Compile (List Op)} {f : Value → Run Value}

/-- The value of a place.  The field that a literal names is read by an instruction of its own. -/
lemma placeValue_means (h : Gives (placeCode env pl).value p.pools code) :
    Realizes (Hosts p env s) code [] ((Expr.place pl).eval env) fun v => [v] := by
  cases pl with
  | var v =>
    obtain ⟨r, hr, rfl⟩ := gives_map.mp h
    exact load_means hc (gives_pure.mpr rfl) (gives_map.mpr ⟨r, hr, rfl⟩)
  | index array index =>
    obtain ⟨key, hkey, a, ha, rfl⟩ := gives_map₂.mp h
    exact load_means hc hkey (gives_map.mpr ⟨a, ha, rfl⟩)
  | field e =>
    have hload : Gives (do return (← (exprCode env e).value) ++ [Op.load .field]) p.pools code →
        Realizes (Hosts p env s) code [] ((Expr.place (.field e)).eval env) fun v => [v] := by
      intro h
      obtain ⟨number, hnumber, rfl⟩ := gives_map.mp h
      exact load_means hc hnumber (gives_pure.mpr rfl)
    rw [placeCode.eq_def] at h
    dsimp only at h
    split at h
    · split at h
      · rename_i hfield
        rw [← gives_pure.mp h, Expr.eval, Place.key, Expr.eval, Place.cell]
        exact .fieldInt hfield
      · exact hload h
    · exact hload h

lemma store_means (h : Gives (placeCode env pl).store p.pools code) (us : List Value) (v : Value) :
    Realizes (Hosts p env s) code (us ++ [v]) (do
      let key ← pl.key env
      let cell ← pl.cell env
      store (← cell.at key) v) fun _ => us := by
  obtain ⟨key, cell, hkey, hcell, rfl⟩ := gives_store h
  obtain ⟨hcell', hwithin⟩ := hc.cell hcell
  obtain ⟨g, hg, hkey⟩ := hc.key hkey hcell
  have h := (hkey.behind (us ++ [v])).bind fun k => Realizes.store hwithin us (g k) v
  simpa only [hcell', pure_bind, hg] using h

lemma modify_means (keep : Bool) (hf : ∀ {new}, Gives change p.pools new → ∀ us v,
      Realizes (Hosts p env s) new (us ++ [v]) (f v) fun w => us ++ [w])
    (h : Gives (bif keep then modifyKeepCode (placeCode env pl) change else modifyCode (placeCode env pl) change)
      p.pools code) : Realizes (Hosts p env s) code [] (do
      let key ← pl.key env
      let cell ← pl.cell env
      let old ← load (← cell.at key)
      let new ← f (bif keep then .num old.toNumber else old)
      store (← cell.at key) new
      return bif keep then .num old.toNumber else new) fun v => [v] := by
  obtain ⟨key, cell, new, hkey, hcell, hnew, rfl⟩ := gives_modify keep h
  obtain ⟨hcell', hwithin⟩ := hc.cell hcell
  obtain ⟨g, hg, hkey⟩ := hc.key hkey hcell
  have h := hkey.bind fun k => (realizes_fetch hwithin (g k)).bind fun old =>
    (amend_means keep (hf hnew) _ old).bind fun w =>
      (realizes_put hwithin (g k) (bif keep then .num old.toNumber else w) w).giving
  simpa only [hcell', pure_bind, bind_assoc, hg] using h

end

/-! ## Operators -/

lemma operands_eq {e : Expr} (h : ∀ left right, e ≠ .binary left .concat right) :
    e.operands env = (do return [← e.eval env]) := by
  rw [Expr.operands]
  exact h

@[simp] lemma isTrue_ofBool (b : Bool) : (Value.ofBool b).isTrue = b := by
  cases b <;> decide +kernel

@[simp] lemma holds_negated (c : Comparison) (o : Ordering) : c.negated.holds o = !c.holds o := by
  cases c <;> cases o <;> rfl

section

variable {e left right : Expr}

lemma means_unary (op : UnaryOp) (h : Faithful p env s e) : Faithful p env s (.unary op e) := by
  have hone : ∀ (o : Op) (f : Value → Value),
      (∀ v, Realizes (Hosts p env s) [o] [v] (pure (f v)) fun w => [w]) →
        ∀ {code}, Gives (do return (← (exprCode env e).value) ++ [o]) p.pools code →
          Realizes (Hosts p env s) code [] (do return f (← e.eval env)) fun v => [v] := by
    intro o f ho code hc
    obtain ⟨operand, hoperand, rfl⟩ := gives_map.mp hc
    exact (h.value hoperand).bind ho
  rw [Faithful, operands_eq (e := .unary op e) fun _ _ => nofun]
  cases op with
  | not =>
    rw [Expr.eval]
    refine { ExprCode.Means.ofValue (hone .not _ .not) with
      branch := fun {expected code t} hc => ?_ }
    have hbranch := h.branch hc
    have hnot : ∀ v : Value, (v.isTrue == !expected) = ((Value.ofBool !v.isTrue).isTrue == expected) := by
      intro v
      cases v.isTrue <;> cases expected <;> simp
    simpa only [hnot, bind_assoc, pure_bind] using hbranch
  | minus =>
    rw [Expr.eval]
    exact .ofValue (hone .minus _ .minus)
  | plus =>
    rw [Expr.eval]
    exact .ofValue (hone .plus _ .plus)

variable (hl : Faithful p env s left) (hr : Faithful p env s right)

include hl hr

variable {code : List Op}

lemma means_both (hc : Gives (do
      let code ← (exprCode env left).value
      return code ++ (← (exprCode env right).value)) p.pools code) : Realizes (Hosts p env s) code [] (do
      let a ← left.eval env
      let b ← right.eval env
      return (a, b)) fun v => [v.1, v.2] := by
  obtain ⟨l, hlc, r, hrc, rfl⟩ := gives_map₂.mp hc
  exact (hl.value hlc).bind fun a => ((hr.value hrc).behind [a]).map fun _ => rfl

lemma means_short (decides : Bool) (hc : Gives (do
      let code ← (exprCode env left).value
      return shortCode decides code (← (exprCode env right).value)) p.pools code) :
    Realizes (Hosts p env s) code [] (do
      let a ← left.eval env
      if a.isTrue == decides then return .ofBool decides else return .ofBool (← right.eval env).isTrue)
      fun v => [v] := by
  obtain ⟨l, hlc, r, hrc, rfl⟩ := gives_map₂.mp hc
  have hright : ∀ a, Realizes (Hosts p env s) (.drop :: r) [a] (right.eval env) fun v => [v] := by
    intro a
    have := (Realizes.drop [] a).bind fun _ => hr.value hrc
    rwa [pure_bind] at this
  have hskip : ∀ a, Realizes (Hosts p env s) (.branch (.truth decides) (r.length + 1) :: .drop :: r) [a, a]
      (do if ← pure (a.isTrue == decides) then return a else right.eval env) fun v => [v] :=
    fun a => .skip (acts_truth decides [a] a) (by rfl) (hright a)
  have h := (hl.value hlc).bind fun a => (Realizes.dupe [] a).bind fun _ => (hskip a).bind Realizes.boolean
  have hdecided : ∀ a : Value,
      ((if a.isTrue == decides then pure a else right.eval env) >>= fun v => pure (Value.ofBool v.isTrue)) =
      if a.isTrue == decides then return .ofBool decides else return .ofBool (← right.eval env).isTrue := by
    intro a
    split
    · rename_i hdecides
      rw [pure_bind]
      exact congrArg (fun b => (pure (Value.ofBool b) : Run Value)) (eq_of_beq hdecides)
    · rfl
  simpa only [shortCode, pure_bind, hdecided, List.append_assoc, List.cons_append, List.nil_append] using h

lemma means_concat : Faithful p env s (.binary left .concat right) := by
  have hoperands : ∀ {code n}, Gives (exprCode env (.binary left .concat right)).operands p.pools (code, n) →
      Realizes (Hosts p env s) code [] ((Expr.binary left .concat right).operands env) (fun vs => vs) ∧
        Ensures ((Expr.binary left .concat right).operands env) fun vs => vs.length = n := by
    intro code n hc
    obtain ⟨⟨l, count⟩, hlc, hc⟩ := gives_bind.mp hc
    obtain ⟨r, hrc, heq⟩ := gives_map.mp hc
    cases heq
    obtain ⟨hleft, hcount⟩ := hl.operands hlc
    rw [Expr.operands]
    refine ⟨hleft.bind fun vs => ((hr.value hrc).behind vs).map fun _ => rfl, ?_⟩
    exact hcount.bind fun vs hvs => .next fun v => .pure (by rw [List.length_append, hvs]; rfl)
  have heval : (Expr.binary left .concat right).eval env =
      (Expr.binary left .concat right).operands env >>= joined := by
    rw [Expr.eval, Expr.operands]
    simp only [bind_assoc, pure_bind]
  refine { ExprCode.Means.ofValue ?_ with operands := hoperands }
  intro code hc
  obtain ⟨⟨code, count⟩, hcode, hc⟩ := gives_bind.mp hc
  rw [← gives_pure.mp hc, heval]
  obtain ⟨hvalues, hcount⟩ := hoperands hcode
  refine hvalues.append hcount fun vs hvs => ?_
  split
  · rename_i htwo
    obtain ⟨a, b, rfl⟩ := List.length_eq_two.mp (hvs.trans htwo)
    exact .concat a b
  · rw [← hvs]
    exact .concatMulti vs

lemma means_binary (op : BinaryOp) : Faithful p env s (.binary left op right) := by
  have htwo : ∀ (o : Op) (f : Value → Value → Run Value),
      (∀ a b, Realizes (Hosts p env s) [o] [a, b] (f a b) fun v => [v]) →
        ∀ {code}, Gives (do return (← (do
            let code ← (exprCode env left).value
            return code ++ (← (exprCode env right).value))) ++ [o]) p.pools code →
          Realizes (Hosts p env s) code [] (do
            let a ← left.eval env
            let b ← right.eval env
            f a b) fun v => [v] := by
    intro o f ho code hc
    obtain ⟨both, hcode, rfl⟩ := gives_map.mp hc
    have h := (means_both hl hr hcode).bind fun v => ho v.1 v.2
    simpa only [bind_assoc, pure_bind] using h
  by_cases hconcat : op = .concat
  · subst hconcat
    exact means_concat hl hr
  rw [Faithful, operands_eq fun _ _ h => hconcat (by cases h; rfl)]
  cases op with
  | and =>
    have heval : (Expr.binary left .and right).eval env = (do
        let a ← left.eval env
        if a.isTrue == false then return .ofBool false else return .ofBool (← right.eval env).isTrue) := by
      rw [Expr.eval]
      refine bind_congr fun a => ?_
      cases a.isTrue <;> rfl
    rw [heval]
    exact .ofValue (means_short hl hr false)
  | or =>
    have heval : (Expr.binary left .or right).eval env = (do
        let a ← left.eval env
        if a.isTrue == true then return .ofBool true else return .ofBool (← right.eval env).isTrue) := by
      rw [Expr.eval]
      refine bind_congr fun a => ?_
      cases a.isTrue <;> rfl
    rw [heval]
    exact .ofValue (means_short hl hr true)
  | concat => exact absurd rfl hconcat
  | compare c =>
    rw [Expr.eval]
    refine { ExprCode.Means.ofValue (htwo (.compare c) _ (.compare c)) with
      branch := fun {expected code t} hc => ?_ }
    obtain ⟨both, hcode, heq⟩ := gives_map.mp hc
    cases heq
    refine ⟨_, _, _, _, means_both hl hr hcode, fun v => acts_compare _ v.1 v.2, ?_⟩
    have hholds : ∀ o, (if expected then c else c.negated).holds o = (c.holds o == expected) := by
      intro o
      cases expected <;> simp
    simp only [bind_assoc, pure_bind, isTrue_ofBool, hholds]
  | arith op =>
    rw [Expr.eval]
    exact .ofValue (htwo (.arith op) _ (.arith op))
  | «match» n =>
    rw [Expr.eval]
    exact .ofValue (htwo (.match n) _ (.match n))

end

/-! ## Calls -/

/-- The code of all simple expressions of a list does what they mean. -/
abbrev Meant (p : Program) (env : Env) (s : Array Value) (es : List Expr) : Prop :=
  ∀ e ∈ es, e.Kinded env → e.Proper → e.All Expr.Simple → Faithful p env s e

lemma Meant.all (h : Meant p env s es) (hk : AllKinded env es) (hp : AllIn Expr.CallFits es)
    (hi : AllIn Expr.Simple es) : ∀ e ∈ es, Faithful p env s e :=
  fun e he => h e he (allKinded_iff.mp hk e he) (allIn_iff.mp hp e he) (allIn_iff.mp hi e he)

lemma eval_plain (hf : f ≠ .split) (hl : f = .length → ∀ v, args = [.place (.var v)] → env.isArray v = false) :
    (Expr.call f args extent).eval env = (do callBuiltin f (← evalAll env args)) := by
  by_cases h : f = .length ∧ ∃ v, args = [.place (.var v)]
  · obtain ⟨rfl, v, rfl⟩ := h
    rw [Expr.eval, hl rfl v rfl]
    simp [evalAll]
  · rw [Expr.eval]
    · exact fun _ _ _ hsplit _ => hf hsplit
    · exact fun v hlength hargs => h ⟨hlength, v, hargs⟩

lemma separator_cases {text : Expr} (h : (Expr.call .split (text :: .place (.var v) :: es) extent).CallFits)
    {vs : List Value} (hvs : vs.length = es.length) :
    (!(exprCodes env es).isEmpty) = vs.head?.isSome ∧ vs = vs.head?.toList := by
  have htakes := h.1
  rw [Builtin.takes, Bool.and_eq_true] at htakes
  have hmax : es.length + 1 + 1 ≤ 3 := of_decide_eq_true htakes.2
  rcases es with _ | ⟨e, _ | ⟨e', es⟩⟩
  · rw [List.length_eq_zero_iff.mp hvs]
    exact ⟨rfl, rfl⟩
  · obtain ⟨w, rfl⟩ := List.length_eq_one_iff.mp hvs
    exact ⟨rfl, rfl⟩
  · rw [List.length_cons, List.length_cons] at hmax
    omega

lemma means_call (h : Meant p env s args) (hk : (Expr.call f args extent).Kinded env)
    (hp : (Expr.call f args extent).Proper) (hi : (Expr.call f args extent).All Expr.Simple)
    (hc : Gives (callCode env f args (exprCodes env args)) p.pools code) :
    Realizes (Hosts p env s) code [] ((Expr.call f args extent).eval env) fun v => [v] := by
  have hlen : (exprCodes env args).length = args.length := by simp [exprCodes_eq_map]
  have hparts := gives_callCode hp.1 hlen hc
  generalize hcodes : exprCodes env args = codes at hparts
  cases hparts with
  | lengthArray hv ha =>
    rw [Expr.eval, if_pos hv, named_array ha, pure_bind]
    exact .callLengthArray _
  | split htext hsep ha =>
    rename_i e v es t c rest text sep a
    rw [exprCodes, exprCodes] at hcodes
    cases hcodes
    have hsep := evalAll_means (Meant.all (fun e' he => h e' (by simp [he])) hk.2.2 hp.2.2.2 hi.2.2.2) hsep
    have htext := (h e (by simp) hk.1 hp.2.1 hi.2.1).value htext
    rw [Expr.eval, named_array ha, List.append_assoc]
    simp only [pure_bind]
    refine htext.bind fun t => (hsep.behind [t]).append (evalAll_ensures es) fun vs hvs => ?_
    obtain ⟨hempty, hvs⟩ := separator_cases hp.1 hvs
    rw [hempty]
    nth_rewrite 2 [hvs]
    exact .callSplit a t vs.head?
  | sub hf | subRecord hf => exact absurd hf (not_or.mpr hi.1)
  | plain hf hl hvalues =>
    rw [eval_plain hf.1 hl]
    subst hcodes
    rw [hlen]
    refine (evalAll_means (h.all (allKinded_of_plain hk hf.1 hl) hp.2 hi.2) hvalues).append (evalAll_ensures args)
      fun vs hvs => ?_
    rw [← hvs]
    exact .callBuiltin hf vs

/-! ## Expressions -/

lemma textOf_congr {v w : Value} (h : ∀ fmt, v.text fmt = w.text fmt) : textOf v = textOf w := by
  rw [textOf, textOf]
  simp only [h]

/-- A value as a key: a whole number is its text under every format. -/
def asKey : Value → Value
  | .num x => (Number.whole? x).elim (.num x) fun n => .str (Number.intText n)
  | v => v

lemma text_asKey (v : Value) (fmt : String) : (asKey v).text fmt = v.text fmt := by
  cases v with
  | num x =>
    rw [asKey]
    cases hx : Number.whole? x with
    | none => rfl
    | some n => exact (Value.text_of_whole hx fmt).symm
  | null | str t | input t => rfl

lemma arith_means (op : Arith) (us : List Value) (a b : Value) :
    Realizes (Hosts p env s) [.arith op] (us ++ [a] ++ [b])
      (do return Value.num (← arith op a.toNumber b.toNumber)) fun v => us ++ [v] := by
  rw [List.append_assoc]
  exact (Realizes.arith op a b).frame us

lemma step_means {decr : Bool} (hc : Gives (stepCode decr) p.pools code) (us : List Value) (v : Value) :
    Realizes (Hosts p env s) code (us ++ [v])
      (do return Value.num (← arith (if decr then .sub else .add) v.toNumber 1)) fun w => us ++ [w] := by
  obtain ⟨i, hi, rfl⟩ := gives_stepCode hc
  exact ((Realizes.num hi).behind (us ++ [v])).bind fun w => arith_means _ us v w

/-- The scalars that names stand for are there for the function at work. -/
def Env.Scoped (env : Env) (pools : Pools) : Prop :=
  ∀ {v : VarRef} {r : ScalarRef}, env.HasKind v.name .scalar → Gives (env.scalar v) pools r → r.Within env

mutual

lemma place_means (hw : env.Scoped p.pools) : ∀ {pl : Place}, pl.Kinded env → pl.All Expr.CallFits →
    pl.All Expr.Simple → FaithfulPlace p env s pl
  | .var v, hk, _, _ => by
    have hkey : (Place.var v).key env = pure .null := by rw [Place.key]
    constructor
    case cell =>
      intro cell hcell
      obtain ⟨r, hr, rfl⟩ := gives_map.mp hcell
      rw [Place.cell, named_scalar hr]
      exact ⟨rfl, hw hk hr⟩
    case key =>
      intro code cell hc hcell
      obtain ⟨r, -, rfl⟩ := gives_map.mp hcell
      rw [← gives_pure.mp hc, hkey]
      exact ⟨id, fun _ => rfl, .pure rfl⟩
  | .index array index, hk, hp, hi => by
    constructor
    case cell =>
      intro cell hc
      obtain ⟨a, ha, rfl⟩ := gives_map.mp hc
      rw [Place.cell, named_array ha]
      exact ⟨rfl, trivial⟩
    case key =>
      intro code cell hc hcell
      obtain ⟨a, -, rfl⟩ := gives_map.mp hcell
      obtain ⟨g, hg, hkey⟩ := keyOf_means ((each_means hw index).all hk.2 hp hi) hc
      rw [Place.key]
      refine ⟨g, fun v => ?_, hkey⟩
      rw [Cell.at, Cell.at, textOf_congr (hg v)]
  | .field e, hk, hp, hi => by
    have h : Faithful p env s e := expr_means hw hk hp hi
    constructor
    case cell =>
      intro cell hc
      rw [← gives_pure.mp hc]
      exact ⟨rfl, trivial⟩
    case key =>
      intro code cell hc hcell
      rw [← gives_pure.mp hcell, Place.key]
      exact ⟨id, fun _ => rfl, h.value hc⟩

lemma expr_means (hw : env.Scoped p.pools) : ∀ {e : Expr}, e.Kinded env → e.Proper → e.All Expr.Simple →
    Faithful p env s e
  | .num x, _, _, _ => by
    have hvalue : ∀ {code}, Gives (do return [← num x]) p.pools code →
        Realizes (Hosts p env s) code [] (pure (.num x)) fun v => [v] := by
      intro code hc
      obtain ⟨op, hop, rfl⟩ := gives_map.mp hc
      obtain ⟨i, rfl, hi⟩ := hop.num
      exact .num hi
    rw [Faithful, operands_eq (e := .num x) fun _ _ => nofun, Expr.eval]
    refine { ExprCode.Means.ofValue hvalue with key := fun {code} hc => ?_ }
    rw [exprCode] at hc
    dsimp only at hc
    split at hc
    · rename_i n hn
      obtain ⟨op, hop, rfl⟩ := gives_map.mp hc
      obtain ⟨i, rfl, hi⟩ := hop.str
      have hkey : asKey (.num x) = .str (Number.intText n) := by rw [asKey, hn]; rfl
      exact ⟨asKey, text_asKey, (Realizes.str hi).pure_congr (by rw [hkey])⟩
    · exact ⟨id, fun _ _ => rfl, hvalue hc⟩
  | .str t, _, _, _ => by
    rw [Faithful, operands_eq (e := .str t) fun _ _ => nofun, Expr.eval]
    refine .ofValue fun hc => ?_
    obtain ⟨op, hop, rfl⟩ := gives_map.mp hc
    obtain ⟨i, rfl, hi⟩ := hop.str
    exact .str hi
  | .regex t, _, _, _ => by
    rw [Faithful, operands_eq (e := .regex t) fun _ _ => nofun, Expr.eval]
    refine .ofValue fun hc => ?_
    obtain ⟨op, hop, rfl⟩ := gives_map.mp hc
    obtain ⟨i, rfl, hi⟩ := hop.regex
    exact .regex hi
  | .place pl, hk, hp, hi => by
    have h := place_means hw hk hp.2 hi.2
    rw [Faithful, operands_eq (e := .place pl) fun _ _ => nofun]
    exact { ExprCode.Means.ofValue (placeValue_means h) with }
  | .assign target value, hk, hp, hi => by
    have ht := place_means hw hk.1 hp.2.1 hi.2.1
    have hv := expr_means hw hk.2 hp.2.2 hi.2.2
    rw [Faithful, operands_eq (e := .assign target value) fun _ _ => nofun, Expr.eval]
    refine .ofValue fun hc => ?_
    obtain ⟨v, hvc, store, hstore, rfl⟩ := gives_map₂.mp hc
    have h := (hv.value hvc).bind fun v => (Realizes.dupe [] v).bind fun _ => (store_means ht hstore [v] v).giving
    simpa only [pure_bind, bind_assoc, List.append_assoc] using h
  | .augAssign target op value, hk, hp, hi => by
    have ht := place_means hw hk.1 hp.2.1 hi.2.1
    have hv := expr_means hw hk.2 hp.2.2 hi.2.2
    rw [Faithful, operands_eq (e := .augAssign target op value) fun _ _ => nofun, Expr.eval]
    refine .ofValue fun hc => ?_
    have h := modify_means ht false (f := fun old => do
      let right ← value.eval env
      return .num (← arith op old.toNumber right.toNumber)) (fun hnew us old => ?_) hc
    · simpa only [pure_bind, bind_assoc, cond_false] using h
    · obtain ⟨v, hvc, rfl⟩ := gives_map.mp hnew
      exact ((hv.value hvc).behind (us ++ [old])).bind fun w => arith_means op us old w
  | .incr target decr pre, hk, hp, hi => by
    have ht := place_means hw hk hp.2 hi.2
    rw [Faithful, operands_eq (e := .incr target decr pre) fun _ _ => nofun, Expr.eval]
    cases pre with
    | true =>
      refine .ofValue fun hc => ?_
      have h := modify_means ht false step_means hc
      simpa only [pure_bind, bind_assoc, reduceIte, cond_false] using h
    | false =>
      refine .ofValue fun hc => ?_
      have h := modify_means ht true step_means hc
      simpa only [pure_bind, bind_assoc, Bool.false_eq_true, reduceIte, cond_true, Value.toNumber] using h
  | .unary op e, hk, hp, hi =>
    means_unary op (expr_means hw hk hp.2 hi.2 : Faithful p env s e)
  | .binary left op right, hk, hp, hi =>
    means_binary (expr_means hw hk.1 hp.2.1 hi.2.1 : Faithful p env s left)
      (expr_means hw hk.2 hp.2.2 hi.2.2 : Faithful p env s right) op
  | .cond test yes no, hk, hp, hi => by
    have htest := expr_means hw hk.1 hp.2.1 hi.2.1
    have hyes := expr_means hw hk.2.1 hp.2.2.1 hi.2.2.1
    have hno := expr_means hw hk.2.2 hp.2.2.2 hi.2.2.2
    rw [Faithful, operands_eq (e := .cond test yes no) fun _ _ => nofun, Expr.eval]
    refine .ofValue fun hc => ?_
    obtain ⟨⟨t, u⟩, htc, hc⟩ := gives_bind.mp hc
    obtain ⟨y, hyc, n, hnc, rfl⟩ := gives_map₂.mp hc
    have h := (htest.branch htc).choice (hyes.value hyc) (hno.value hnc)
    have hbranch : ∀ v : Value, (if v.isTrue == false then no.eval env else yes.eval env) =
        if v.isTrue then yes.eval env else no.eval env := by
      intro v
      cases v.isTrue <;> rfl
    simpa only [pure_bind, bind_assoc, hbranch] using h
  | .member index array, hk, hp, hi => by
    rw [Faithful, operands_eq (e := .member index array) fun _ _ => nofun, Expr.eval]
    refine .ofValue fun hc => ?_
    obtain ⟨key, hkey, a, ha, rfl⟩ := gives_map₂.mp hc
    obtain ⟨g, hg, hkey⟩ := keyOf_means ((each_means hw index).all hk.1 hp.2 hi.2) hkey
    have h := hkey.bind fun k => Realizes.member a (g k)
    simp only [textOf_congr (hg _)] at h
    simpa only [named_array ha, pure_bind, bind_assoc] using h
  | .call f args extent, hk, hp, hi => by
    rw [Faithful, operands_eq (e := .call f args extent) fun _ _ => nofun]
    exact .ofValue (means_call (each_means hw args) hk hp hi)
  | .userCall name args extent, _, _, hi => hi.1.elim
  | .getline target, _, _, hi | .getlineFile _ target, _, _, hi | .getlineCommand _ target, _, _, hi => hi.1.elim

lemma each_means (hw : env.Scoped p.pools) : ∀ es : List Expr, Meant p env s es
  | [] => nofun
  | e :: rest => List.forall_mem_cons.mpr
      ⟨fun hk hp hi => (expr_means hw hk hp hi : Faithful p env s e), each_means hw rest⟩

end

end Compile

lemma Resolution.Sound.scoped {r : Resolution} (hr : r.Sound) (func : Option String) (pools : Pools) :
    Env.Scoped ⟨r, func⟩ pools := by
  intro v ref ⟨scope, info, hlook, hkind⟩ hg
  rw [Env.scalar, hlook] at hg
  cases scope with
  | «local» =>
    rw [← gives_pure.mp hg]
    cases func with
    | none => exact absurd hlook lookupVar_main_ne_local
    | some f =>
      obtain ⟨finfo, hfinfo, hlt⟩ := hr.local hlook
      change info.index < (r.lookupFunc f).elim 0 fun info => info.arrays.count false
      rw [hfinfo]
      rwa [hkind] at hlt
  | global =>
    rw [← gives_pure.mp hg]
    trivial
  | special =>
    dsimp only at hg
    split at hg
    · rw [← gives_pure.mp hg]
      trivial
    · exact absurd hg not_gives_fail

/-! ## Running code -/

lemma Run.Realizes.endsAs {I : Machine → Prop} {code : List Op} {x : Run Value}
    (h : Realizes I code [] x fun v => [v]) {m : Machine} (hm : I m) : match x m with
      | .ok v n => I n ∧ EndsAs code.toArray m (.ok .normal { n with stack := n.stack.push v })
      | .error f n => ∃ stack, EndsAs code.toArray m (.error f { n with stack }) := by
  have hreach := h code.toArray 0 (stands_self code) m hm []
  rw [List.append_nil, Machine.above_nil, Nat.zero_add] at hreach
  cases hx : x m with
  | error f n =>
    rw [hx] at hreach
    obtain ⟨stack, hrun⟩ := hreach
    exact ⟨stack, hrun.endsAs⟩
  | ok v n =>
    rw [hx] at hreach
    have hend : code.toArray[code.length]? = none := by simp
    exact ⟨hreach.1, (hreach.2 _ (.finish hend)).endsAs⟩

/-- Code outside all functions can run on a new machine. -/
lemma Machine.hosts_create {p : Program} {config : Config} {world : World} {keyOrder : KeyOrder} {m : Machine}
    (h : Machine.create p config world keyOrder = .ok m) (r : Resolution) : m.Hosts p ⟨r, none⟩ m.stack := by
  obtain ⟨start, hprogram, hregexes, -, -, hreset⟩ := create_eq_ok h
  obtain ⟨hfit, hsafe⟩ := Run.reset_orderly hprogram (size_compileRegexes hregexes)
  rw [hreset] at hsafe
  have hm := hsafe.1.fit hfit
  refine ⟨hm.program, ?_, hm.outline, ?_, rfl, fun _ _ => rfl⟩
  · rw [hsafe.1.regexes]
    exact hregexes
  · rw [hm.base]
    exact Nat.zero_le _

/-- Running the code of an expression gives what the expression means.  In a resolved program all variables are
used according to their kinds and all calls of builtin functions suit.  Wherever an expression like that is
compiled, its code does what `Expr.eval` says, on every machine on which code of the program can run: it ends
with the value on top of the stack and all else as there, or with the same fault. -/
theorem Resolution.exprCode_endsAs {source : String} {natives : List NativeFunc} {r : Resolution}
    (h : Resolution.ofSource source natives = .ok r) :
    r.script.Each (fun func body => BodyKinded ⟨r, func⟩ body ∧ ProperBody body)
        (fun e => e.Kinded ⟨r, none⟩ ∧ e.Proper) ∧
      ∀ (func : Option String) (e : Expr), e.Kinded ⟨r, func⟩ → e.Proper → e.All Expr.Simple →
        ∀ (before after : Pools) (code : List Op), (exprCode ⟨r, func⟩ e).value.run before = .ok (code, after) →
          ∀ (p : Program) (m : Machine), after.Within p.pools → m.Hosts p ⟨r, func⟩ m.stack →
            match e.eval ⟨r, func⟩ m with
            | .ok v n => n.Hosts p ⟨r, func⟩ m.stack ∧
              EndsAs code.toArray m (.ok .normal { n with stack := n.stack.push v })
            | .error f n => ∃ stack, EndsAs code.toArray m (.error f { n with stack }) := by
  obtain ⟨tokens, -, h⟩ := bind_eq_ok.mp h
  obtain ⟨script, hscript, hresolve⟩ := bind_eq_ok.mp h
  obtain ⟨hscript', hsound⟩ := Resolution.ofScript_sound (mapError_eq_ok.mp hresolve)
  have hproper : r.script.Proper := hscript' ▸ Script.ofTokens_proper (mapError_eq_ok.mp hscript)
  refine ⟨hsound.kinded.and hproper, fun func e hk hp hi before after code hrun p m hpools hm => ?_⟩
  have hcode := gives_of_run hrun hpools
  exact ((expr_means (hsound.scoped func p.pools) hk hp hi).value hcode).endsAs hm

/-- A program whose variables are used in `countingExpr`. -/
def countingProgram : String := "BEGIN \x7b a[1] = x \x7d"

/-- An assignment to an element with a literal subscript, which counts, compares, joins texts and matches:
`a[1] += $2 < x++ ? x 3 : /b/`. -/
def countingExpr : Expr :=
  let x : Place := .var ⟨"x", default⟩
  .augAssign (.index ⟨"a", default⟩ [.num 1]) .add
    (.cond (.binary (.place (.field (.num 2))) (.compare .less) (.incr x false false))
      (.binary (.place x) .concat (.num 3)) (.regex "b"))

theorem countingExpr_endsAs : ∃ r p m code, Resolution.ofSource countingProgram [] = .ok r ∧
    Machine.create p {} {} = .ok m ∧ Gives (exprCode ⟨r, none⟩ countingExpr).value p.pools code ∧
      match countingExpr.eval ⟨r, none⟩ m with
      | .ok v n => n.Hosts p ⟨r, none⟩ m.stack ∧
        EndsAs code.toArray m (.ok .normal { n with stack := n.stack.push v })
      | .error f n => ∃ stack, EndsAs code.toArray m (.error f { n with stack }) := by
  have hsome : ((Resolution.ofSource countingProgram []).toOption.bind fun r =>
      ((exprCode ⟨r, none⟩ countingExpr).value.run {}).toOption.bind fun (_, pools) =>
        (Machine.create { pools with } {} {}).toOption).isSome = true := by decide +kernel
  have hnames : (Resolution.ofSource countingProgram []).toOption.map (fun r =>
      ((r.lookupVar none "a").map (·.2.kind), (r.lookupVar none "x").map (·.2.kind))) =
        some (some .array, some .scalar) := by decide +kernel
  obtain ⟨m, h⟩ := Option.isSome_iff_exists.mp hsome
  obtain ⟨r, hr, h⟩ := Option.bind_eq_some_iff.mp h
  obtain ⟨⟨code, pools⟩, hcode, hm⟩ := Option.bind_eq_some_iff.mp h
  rw [hr, Option.map_some, Option.some.injEq, Prod.mk.injEq] at hnames
  obtain ⟨⟨_, _⟩, ha, hka⟩ := Option.map_eq_some_iff.mp hnames.1
  obtain ⟨⟨_, _⟩, hx, hkx⟩ := Option.map_eq_some_iff.mp hnames.2
  have ha : Env.HasKind ⟨r, none⟩ "a" .array := ⟨_, _, ha, hka⟩
  have hx : Env.HasKind ⟨r, none⟩ "x" .scalar := ⟨_, _, hx, hkx⟩
  have hr := toOption_eq_some hr
  have hcode := toOption_eq_some hcode
  have hm := toOption_eq_some hm
  refine ⟨r, { pools with }, m, code, hr, hm,
    gives_of_run hcode (.refl pools), ?_⟩
  refine (Resolution.exprCode_endsAs hr).2 none countingExpr ?_ ?_ ?_ {} pools code hcode { pools with } m
    (.refl pools) (Machine.hosts_create hm r)
  · exact ⟨⟨ha, trivial, trivial⟩, ⟨trivial, hx⟩, ⟨hx, trivial⟩, trivial⟩
  · simp [countingExpr, Expr.Proper, Expr.All, Place.All, AllIn, Expr.CallFits]
  · simp [countingExpr, Expr.All, Place.All, AllIn, Expr.Simple]

end Awk
