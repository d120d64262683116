import Awk.Proofs.Resolution.Walks

/-!
# The uses of names in a program

All that a walk over a program looks at are the places where a name is used.  `Script.uses` lists them, each
with the function it stands in, and a walk does one thing for each use, one after the other.  What is
proved about walks is then proved for a single use.
-/

namespace Awk

/-- How a name is used. -/
inductive Use where
  | scalar (v : VarRef)
  | array (v : VarRef)
  /-- A variable whose length is asked for, which may be of either kind. -/
  | length (v : VarRef)
  /-- A function that is called with a number of arguments. -/
  | call (name : String) (count : Nat) (extent : Extent)
  /-- A variable by itself as the argument of a function, at a position. -/
  | passed (name : String) (position : Nat) (v : VarRef) (extent : Extent)
  /-- Any other argument of a function, at a position. -/
  | computed (name : String) (position : Nat) (arg : Expr) (extent : Extent)

/-! ## Uses in order -/

mutual

def Place.uses : Place → List Use
  | .var v => [.scalar v]
  | .index array index => usesOfAll index ++ [.array array]
  | .field e => e.uses

def Expr.uses : Expr → List Use
  | .num _ | .str _ | .regex _ => []
  | .place p => p.uses
  | .assign target value | .augAssign target _ value => target.uses ++ value.uses
  | .incr target _ _ => target.uses
  | .unary _ e => e.uses
  | .binary left _ right => left.uses ++ right.uses
  | .cond test yes no => test.uses ++ (yes.uses ++ no.uses)
  | .member index array => usesOfAll index ++ [.array array]
  | .call .split (s :: .place (.var array) :: rest) _ => s.uses ++ .array array :: usesOfAll rest
  | .call .length [.place (.var v)] _ => [.length v]
  | .call _ args _ => usesOfAll args
  | .userCall name args extent => .call name args.length extent :: usesOfArgs name extent 0 args
  | .getline target => usesOfTarget target
  | .getlineFile e target | .getlineCommand e target => e.uses ++ usesOfTarget target

def usesOfTarget : Option Place → List Use
  | none => []
  | some p => p.uses

def usesOfAll : List Expr → List Use
  | [] => []
  | e :: rest => e.uses ++ usesOfAll rest

/-- The uses in the arguments of a function, from a position on. -/
def usesOfArgs (name : String) (extent : Extent) : Nat → List Expr → List Use
  | _, [] => []
  | i, .place (.var v) :: rest => .passed name i v extent :: usesOfArgs name extent (i + 1) rest
  | i, arg :: rest => .computed name i arg extent :: (arg.uses ++ usesOfArgs name extent (i + 1) rest)

end

mutual

def Stmt.uses : Stmt → List Use
  | .print args redirect | .printf args redirect => usesOfAll args ++ redirect.elim [] (·.dest.uses)
  | .expr e => e.uses
  | .ifElse cond body otherwise => cond.uses ++ (usesOfBody body ++ usesOfElse otherwise)
  | .forLoop init cond post body =>
    usesOfInit init ++ (cond.elim [] Expr.uses ++ (usesOfInit post ++ usesOfBody body))
  | .forIn var array body => .scalar var :: .array array :: usesOfBody body
  | .whileLoop cond body | .doWhile body cond => cond.uses ++ usesOfBody body
  | .breakLoop _ | .continueLoop _ | .next _ | .nextFile _ => []
  | .exit e | .returnValue e => e.elim [] Expr.uses
  | .delete array index => .array array :: index.elim [] usesOfAll
  | .block body => usesOfBody body

def usesOfInit : Option Stmt → List Use
  | none => []
  | some s => s.uses

def usesOfElse : Option (List Stmt) → List Use
  | none => []
  | some body => usesOfBody body

def usesOfBody : List Stmt → List Use
  | [] => []
  | s :: rest => s.uses ++ usesOfBody rest

end

def Rule.uses (r : Rule) : List Use := usesOfAll r.pattern.exprs ++ r.body.elim [] usesOfBody

def inFunction (func : Option String) (uses : List Use) : List (Option String × Use) := uses.map (func, ·)

def Script.mainUses (s : Script) : List (Option String × Use) :=
  s.begin.flatMap (inFunction none <| usesOfBody ·) ++
    (s.rules.flatMap (inFunction none ·.uses) ++ s.final.flatMap (inFunction none <| usesOfBody ·))

/-- All uses in a program, each with the function it stands in. -/
def Script.uses (s : Script) : List (Option String × Use) :=
  s.functions.flatMap (fun f => inFunction (some f.name) (usesOfBody f.body)) ++ s.mainUses

namespace Infer

variable (fs : Functions) (func : Option String)

/-- What a walk does for a use.  An argument is looked at only where its function can be called with
arguments up to that one. -/
def perform : Use → Learn Unit
  | .scalar v => recordRef fs func v (some .scalar)
  | .array v => recordRef fs func v (some .array)
  | .length v => recordRef fs func v none
  | .call name count extent => do
    let _ ← callee fs func name count extent
    pure ()
  | .passed name i v extent => do
    let info ← callee fs func name (i + 1) extent
    recordArg fs func name info info.params[i]? v extent
  | .computed name i arg extent => do
    let info ← callee fs func name (i + 1) extent
    checkArg name info info.params[i]? arg extent

def performAll (us : List Use) : Learn Unit := us.forM (perform fs func)

variable {fs func}

lemma performAll_nil : performAll fs func [] = pure () := rfl

lemma performAll_cons (u : Use) (us : List Use) :
    performAll fs func (u :: us) = (do perform fs func u; performAll fs func us) := rfl

lemma performAll_append (us vs : List Use) :
    performAll fs func (us ++ vs) = (do performAll fs func us; performAll fs func vs) := List.forM_append

lemma performAll_singleton (u : Use) : performAll fs func [u] = perform fs func u := bind_pure_unit

section

variable {R : Knowledge → Knowledge → Prop} [IsPreorder Knowledge R]
  (hrecord : ∀ {func name kind extent}, Respects R (record fs func name kind extent))

include hrecord

/-- What is respected whenever a variable is recorded is respected by every use. -/
lemma respects_perform (u : Use) : Respects R (perform fs func u) := by
  cases u with
  | scalar v | array v | length v => exact hrecord
  | call name count extent => exact respects_callee.bind fun _ => .pure _
  | passed name i v extent => exact respects_callee.bind fun _ => respects_recordArg hrecord
  | computed name i arg extent => exact respects_callee.bind fun _ => respects_checkArg

end

/-! ## Calls

A walk finds out once for all arguments which function a call calls, and the uses do it for every argument.
Nothing that a walk does in between changes the answer. -/

variable {name : String} {extent : Extent} {k : Knowledge} {info : FuncInfo} {args : List Expr} {α : Type}

/-- What a walk does to knowledge does not change which function a call calls, and it may have fewer
arguments. -/
lemma Knowledge.Before.callee {name : String} {count n : Nat} {extent : Extent} {k k' : Knowledge}
    {info : FuncInfo} (hb : k.Before k')
    (h : (callee fs func name count extent).run k = .ok (info, k)) (hn : n ≤ count) :
    (Infer.callee fs func name n extent).run k' = .ok (info, k') := by
  rw [run_callee] at h ⊢
  obtain ⟨-, hlocal, hinfo, harity⟩ := h
  refine ⟨rfl, ?_, hinfo, fun m hm => hn.trans (harity m hm)⟩
  simpa only [hb.isParam] using hlocal

/-! ## Expressions -/

lemma walkAll_eq_of {es : List Expr}
    (h : ∀ e ∈ es, walkExpr fs func e = performAll fs func e.uses) :
    walkAll fs func es = performAll fs func (usesOfAll es) := by
  induction es with
  | nil => rfl
  | cons e rest ih =>
    rw [List.forall_mem_cons] at h
    rw [walkAll, usesOfAll, performAll_append, h.1, ih h.2]

/-- Where a function can be called, its arguments are walked through one use after the other. -/
lemma run_walkArgs {i : Nat} (hcallee : (callee fs func name (i + args.length) extent).run k = .ok (info, k))
    (h : ∀ e ∈ args, walkExpr fs func e = performAll fs func e.uses) :
    (walkArgs fs func name info extent (info.params.drop i) args).run k =
      (performAll fs func (usesOfArgs name extent i args)).run k := by
  induction args generalizing i k with
  | nil => rfl
  | cons arg rest ih =>
    rw [List.forall_mem_cons] at h
    -- one argument is walked through, by `x`, and the rest follows
    have step : ∀ (x : Learn Unit), Careful x →
        (x >>= fun _ => walkArgs fs func name info extent (info.params.drop (i + 1)) rest).run k =
          (x >>= fun _ => performAll fs func (usesOfArgs name extent (i + 1) rest)).run k := by
      intro x hx
      rw [StateT.run_bind, StateT.run_bind]
      cases hrun : x.run k with
      | error e => rfl
      | ok r =>
        obtain ⟨⟨⟩, k'⟩ := r
        refine ih ((hx _ _ _ hrun).callee hcallee ?_) h.2
        rw [List.length_cons]
        omega
    have hcalled : ∀ f : FuncInfo → Learn Unit,
        (callee fs func name (i + 1) extent >>= f).run k = (f info).run k := by
      intro f
      rw [StateT.run_bind, (Knowledge.Before.refl k).callee hcallee (by rw [List.length_cons]; omega)]
      rfl
    rw [walkArgs.eq_def]
    split
    · contradiction
    · rename_i v _ heq
      cases heq
      rw [usesOfArgs, performAll_cons, perform, List.head?_drop, List.tail_drop, bind_assoc, hcalled]
      exact step _ (respects_recordArg careful_record)
    · rename_i hne heq
      cases heq
      rw [usesOfArgs.eq_3 _ _ _ _ _ (fun v => hne v), performAll_cons, perform, performAll_append,
        List.head?_drop, List.tail_drop, bind_assoc, hcalled, ← bind_assoc, ← bind_assoc, h.1]
      exact step _ (respects_checkArg.bind fun _ => .forM (respects_perform careful_record) _)

lemma walkExpr_userCall_eq (h : ∀ e ∈ args, walkExpr fs func e = performAll fs func e.uses) :
    walkExpr fs func (.userCall name args extent) =
      performAll fs func (Expr.userCall name args extent).uses := by
  refine funext fun k => ?_
  rw [walkExpr, Expr.uses, performAll_cons, perform, bind_assoc]
  change StateT.run _ k = StateT.run _ k
  rw [StateT.run_bind, StateT.run_bind]
  cases hcallee : (callee fs func name args.length extent).run k with
  | error e => rfl
  | ok r =>
    obtain ⟨info, k'⟩ := r
    obtain ⟨rfl, -⟩ := run_callee.mp hcallee
    rw [← Nat.zero_add args.length] at hcallee
    exact run_walkArgs hcallee h

lemma walkExpr_call_eq {f : Builtin} (h : ∀ e ∈ args, walkExpr fs func e = performAll fs func e.uses) :
    walkExpr fs func (.call f args extent) = performAll fs func (Expr.call f args extent).uses := by
  rcases builtin_cases f args with ⟨a, array, rest, rfl, rfl⟩ | ⟨v, rfl, rfl⟩ | ⟨hsplit, hlength⟩
  · rw [List.forall_mem_cons, List.forall_mem_cons] at h
    rw [walkExpr, Expr.uses, performAll_append, performAll_cons, perform, h.1, walkAll_eq_of h.2.2]
  · rw [walkExpr, Expr.uses, performAll_singleton, perform]
  · rw [walkExpr.eq_14 _ _ _ _ _ hsplit hlength, Expr.uses.eq_14 _ _ _ hsplit hlength, walkAll_eq_of h]

mutual

lemma walkPlace_eq : ∀ p : Place, walkPlace fs func p = performAll fs func p.uses
  | .var v => (performAll_singleton (.scalar v)).symm
  | .index array index => by
    rw [walkPlace, Place.uses, performAll_append, performAll_singleton, walkAll_eq_of (walkEach_eq index),
      perform]
  | .field e => by rw [walkPlace, Place.uses, walkExpr_eq e]

lemma walkExpr_eq : ∀ e : Expr, walkExpr fs func e = performAll fs func e.uses
  | .num _ | .str _ | .regex _ => rfl
  | .place p => by rw [walkExpr, Expr.uses, walkPlace_eq p]
  | .assign target value | .augAssign target _ value => by
    rw [walkExpr, Expr.uses, performAll_append, walkPlace_eq target, walkExpr_eq value]
  | .incr target _ _ => by rw [walkExpr, Expr.uses, walkPlace_eq target]
  | .unary _ e => by rw [walkExpr, Expr.uses, walkExpr_eq e]
  | .binary left _ right => by
    rw [walkExpr, Expr.uses, performAll_append, walkExpr_eq left, walkExpr_eq right]
  | .cond test yes no => by
    rw [walkExpr, Expr.uses, performAll_append, performAll_append, walkExpr_eq test, walkExpr_eq yes,
      walkExpr_eq no]
  | .member index array => by
    rw [walkExpr, Expr.uses, performAll_append, performAll_singleton, walkAll_eq_of (walkEach_eq index),
      perform]
  | .call _ args _ => walkExpr_call_eq (walkEach_eq args)
  | .userCall _ args _ => walkExpr_userCall_eq (walkEach_eq args)
  | .getline target => by rw [walkExpr, Expr.uses, walkTarget_eq target]
  | .getlineFile e target | .getlineCommand e target => by
    rw [walkExpr, Expr.uses, performAll_append, walkExpr_eq e, walkTarget_eq target]

lemma walkTarget_eq : ∀ t : Option Place, walkTarget fs func t = performAll fs func (usesOfTarget t)
  | none => rfl
  | some p => by rw [walkTarget, usesOfTarget, walkPlace_eq p]

lemma walkEach_eq : ∀ es : List Expr, ∀ e ∈ es, walkExpr fs func e = performAll fs func e.uses
  | [] => nofun
  | e :: rest => List.forall_mem_cons.mpr ⟨walkExpr_eq e, walkEach_eq rest⟩

end

lemma walkAll_eq (es : List Expr) : walkAll fs func es = performAll fs func (usesOfAll es) :=
  walkAll_eq_of (walkEach_eq es)

/-! ## Statements -/

mutual

lemma walkStmt_eq : ∀ s : Stmt, walkStmt fs func s = performAll fs func s.uses
  | .print args redirect | .printf args redirect => by
    cases redirect with
    | none => rw [walkStmt, Stmt.uses, performAll_append, walkAll_eq, Option.elim_none, performAll_nil]
    | some r =>
      rw [walkStmt, Stmt.uses, performAll_append, walkAll_eq, Option.elim_some, walkExpr_eq]
  | .expr e => by rw [walkStmt, Stmt.uses, walkExpr_eq]
  | .ifElse cond body otherwise => by
    rw [walkStmt, Stmt.uses, performAll_append, performAll_append, walkExpr_eq, walkBody_eq body,
      walkElse_eq otherwise]
  | .forLoop init cond post body => by
    rw [walkStmt, Stmt.uses, performAll_append, performAll_append, performAll_append, walkInit_eq init,
      walkInit_eq post, walkBody_eq body]
    cases cond with
    | none =>
      dsimp only [Option.elim_none]
      rw [performAll_nil]
      rfl
    | some e =>
      dsimp only [Option.elim_some]
      rw [walkExpr_eq]
  | .forIn var array body => by
    rw [walkStmt, Stmt.uses, performAll_cons, performAll_cons, perform, perform, walkBody_eq body]
  | .whileLoop cond body | .doWhile body cond => by
    rw [walkStmt, Stmt.uses, performAll_append, walkExpr_eq, walkBody_eq body]
  | .breakLoop _ | .continueLoop _ | .next _ | .nextFile _ => rfl
  | .exit e | .returnValue e => by
    cases e with
    | none => rfl
    | some e => exact walkExpr_eq e
  | .delete array index => by
    cases index with
    | none => rw [walkStmt, Stmt.uses, performAll_cons, perform, Option.elim_none, performAll_nil]
    | some es => rw [walkStmt, Stmt.uses, performAll_cons, perform, Option.elim_some, walkAll_eq]
  | .block body => by rw [walkStmt, Stmt.uses, walkBody_eq body]

lemma walkInit_eq : ∀ s : Option Stmt, walkInit fs func s = performAll fs func (usesOfInit s)
  | none => rfl
  | some s => by rw [walkInit, usesOfInit, walkStmt_eq s]

lemma walkElse_eq : ∀ s : Option (List Stmt), walkElse fs func s = performAll fs func (usesOfElse s)
  | none => rfl
  | some body => by rw [walkElse, usesOfElse, walkBody_eq body]

lemma walkBody_eq : ∀ body : List Stmt, walkBody fs func body = performAll fs func (usesOfBody body)
  | [] => rfl
  | s :: rest => by rw [walkBody, usesOfBody, performAll_append, walkStmt_eq s, walkBody_eq rest]

end

lemma walkRule_eq (r : Rule) : walkRule fs r = performAll fs none r.uses := by
  rw [walkRule, Rule.uses, performAll_append, walkAll_eq]
  cases r.body with
  | none => rfl
  | some body =>
    dsimp only [Option.elim_some]
    rw [walkBody_eq]

/-! ## Programs -/

def usesOfFunction (fs : Functions) (name : String) : List (Option String × Use) :=
  (fs.defs[name]?).elim [] fun f => inFunction (some name) (usesOfBody f.body)

/-- The uses in a program as a walk comes across them, functions in the given order. -/
def usesInOrder (fs : Functions) (s : Script) (order : List String) : List (Option String × Use) :=
  order.flatMap (usesOfFunction fs) ++ s.mainUses

def performAt (fs : Functions) (u : Option String × Use) : Learn Unit := perform fs u.1 u.2

lemma forM_inFunction (us : List Use) :
    (inFunction func us).forM (performAt fs) = performAll fs func us := List.forM_map

lemma forM_flatMap {β : Type} (f : β → Learn Unit) (g : α → List β) (l : List α) :
    (l.flatMap g).forM f = l.forM fun a => (g a).forM f := by
  induction l with
  | nil => rfl
  | cons a l ih =>
    rw [List.flatMap_cons, List.forM_eq_forM, List.forM_append]
    exact congrArg (_ >>= fun _ => ·) ih

lemma walkFunction_eq (name : String) :
    walkFunction fs name = (usesOfFunction fs name).forM (performAt fs) := by
  rw [walkFunction, usesOfFunction]
  cases fs.defs[name]? with
  | none => rfl
  | some f =>
    dsimp only [Option.elim_some]
    rw [forM_inFunction, walkBody_eq]

lemma walkScript_eq (s : Script) (order : List String) :
    walkScript fs s order = (usesInOrder fs s order).forM (performAt fs) := by
  simp only [walkScript, usesInOrder, Script.mainUses, List.forM_eq_forM, List.forM_append]
  simp only [← List.forM_eq_forM, forM_flatMap, forM_inFunction, funext walkFunction_eq, funext walkBody_eq,
    funext walkRule_eq]

/-! ## Until nothing changes -/

section

variable {R : Knowledge → Knowledge → Prop} [IsPreorder Knowledge R] {s : Script}

lemma respects_walkScript (hrecord : ∀ {func name kind extent}, Respects R (record fs func name kind extent))
    (order : List String) : Respects R (walkScript fs s order) := by
  rw [walkScript_eq]
  exact .forM (fun (u : Option String × Use) => respects_perform hrecord u.2) _

/-- What every walk respects is respected until one changes nothing. -/
lemma respects_settle {order : List String} (hwalk : Respects R (walkScript fs s order))
    {left updates : Nat} : Respects R (settle fs s order left updates) := by
  induction left generalizing updates with
  | zero | succ left ih =>
    rw [settle]
    refine Respects.get.bind fun k => ?_
    split
    · first | exact .throw _ | exact hwalk.bind fun _ => ih
    · exact .pure _

end

variable {s : Script} {k₀ : Knowledge}

/-- Walks are repeated until one changes nothing.  The induction is on the walks that are left; the
hypothesis says that the state at hand comes from a walk. -/
lemma settle_holds {order : List String} {left : Nat} {k₁ : Knowledge}
    (hwalk : (walkScript fs s order).run k₀ = .ok ((), k₁))
    (h : (settle fs s order left k₀.updates).run k₁ = .ok ((), k)) :
    Holds (walkScript fs s order) k () ∧ k₁.Before k := by
  have hwalks : Careful (walkScript fs s order) := respects_walkScript careful_record order
  induction left generalizing k₀ k₁ with
  | zero | succ left ih =>
    rw [settle, StateT.run_bind, StateT.run_get, pure_bind] at h
    dsimp only at h
    split at h
    · first
      | exact absurd h run_throw_ne_ok
      | obtain ⟨_, k₂, h₂, h⟩ := run_bind_eq_ok.mp h
        obtain ⟨hk, hbefore⟩ := ih h₂ h
        exact ⟨hk, (hwalks _ _ _ h₂).trans hbefore⟩
    · rename_i hsame
      obtain ⟨-, rfl⟩ := run_pure_eq_ok.mp h
      obtain rfl := (hwalks _ _ _ hwalk).eq (not_not.mp hsame).symm
      exact ⟨hwalk, .refl _⟩

/-- In the end the walk over the whole program changes nothing. -/
theorem infer_holds (h : (infer fs s).run k₀ = .ok ((), k)) :
    Holds (walkScript fs s s.callGraph.sorted) k () ∧ k₀.Before k := by
  obtain ⟨_, k₁, h₁, h⟩ := run_bind_eq_ok.mp h
  obtain ⟨_, k₂, h₂, h⟩ := run_bind_eq_ok.mp h
  rw [StateT.run_bind, StateT.run_get, pure_bind] at h
  obtain ⟨_, k₃, h₃, h⟩ := run_bind_eq_ok.mp h
  obtain ⟨hk, hbefore⟩ := settle_holds h₃ h
  exact ⟨hk, ((careful_record _ _ _ h₁).trans (careful_record _ _ _ h₂)).trans
    ((respects_walkScript careful_record _ _ _ _ h₃).trans hbefore)⟩

end Infer

end Awk
