import Awk.Proofs.Compile.Shape

/-!
# The shape of the code of statements

The code of a statement leaves the stack as it was.  The instruction for a loop over an array tells how many
instructions behind it are its body, and they are exactly the code of the statements of the loop.
-/

namespace Awk

/-- A loop over an array. -/
structure ForIn where
  var : VarRef
  array : VarRef
  body : List Stmt

mutual

/-- The loops over arrays in a statement. -/
def Stmt.forIns : Stmt → List ForIn
  | .ifElse _ body otherwise => forInsBody body ++ forInsElse otherwise
  | .forLoop init _ post body => forInsInit init ++ (forInsBody body ++ forInsInit post)
  | .forIn var array body => ⟨var, array, body⟩ :: forInsBody body
  | .whileLoop _ body | .doWhile body _ | .block body => forInsBody body
  | .print _ _ | .printf _ _ | .expr _ | .breakLoop _ | .continueLoop _ | .next _ | .nextFile _ | .exit _
  | .returnValue _ | .delete _ _ => []

/-- The loops over arrays in a statement in the head of a loop. -/
def forInsInit : Option Stmt → List ForIn
  | none => []
  | some s => s.forIns

/-- The loops over arrays in the other branch of a condition. -/
def forInsElse : Option (List Stmt) → List ForIn
  | none => []
  | some body => forInsBody body

/-- The loops over arrays in some statements. -/
def forInsBody : List Stmt → List ForIn
  | [] => []
  | s :: rest => s.forIns ++ forInsBody rest

end

namespace Compile

/-- The instructions of the body of a loop over an array are the code of the body of one of some loops. -/
def Covered (env : Env) (pools : Pools) (loops : List ForIn) : Loops := fun v a n code =>
  ∃ loop ∈ loops, ∃ round, Gives (env.scalar loop.var) pools v ∧ Gives (env.array loop.array) pools a ∧
    Gives (bodyCode env loop.body) pools round ∧ round.length = n ∧ code = (closeForIn round).toArray

variable {p : Program} {room : Room} {env : Env} {code : List Op} {loops : List ForIn}

lemma turns_effectCode (hset : Setting p room env) {e : Expr} (hk : e.Kinded env) (hp : e.Proper)
    (hc : Gives (effectCode env e) p.pools code) : Turns p room code 0 0 := by
  have hdrop : Gives (do return (← (exprCode env e).value) ++ [Op.drop]) p.pools code → Turns p room code 0 0 := by
    intro hc
    obtain ⟨value, hvalue, rfl⟩ := gives_map.mp hc
    exact ((expr_shapes hset hk hp).value hvalue).op rfl trivial rfl
  cases e with
  | assign target value =>
    obtain ⟨v, hv, store, hstore, rfl⟩ := gives_map₂.mp hc
    exact ((expr_shapes hset hk.2 hp.2.2).value hv).append ((place_shapes hset hk.1 hp.2.1).store hstore)
  | augAssign target op value =>
    have ht := place_shapes hset hk.1 hp.2.1
    obtain ⟨v, hv, hc⟩ := gives_bind.mp hc
    obtain ⟨key, hkey, cell, hcell, rfl⟩ := gives_map₂.mp hc
    have hboth := ((expr_shapes hset hk.2 hp.2.2).value hv).append ((ht.key hkey hcell).above 1)
    exact hboth.op rfl (ht.cell hcell) (Nat.add_comm _ _)
  | incr target decr pre =>
    have ht := place_shapes hset hk hp.2
    obtain ⟨key, hkey, cell, hcell, rfl⟩ := gives_map₂.mp hc
    exact (ht.key hkey hcell).op rfl (ht.cell hcell) rfl
  | _ => exact hdrop hc

lemma turns_outputCode (hset : Setting p room env) {formatted : Bool} {args : List Expr}
    {redirect : Option Redirect} (hk : AllKinded env args ∧ ∀ r ∈ redirect, r.dest.Kinded env)
    (hp : AllIn Expr.CallFits args ∧ ∀ r ∈ redirect, r.dest.Proper)
    (hc : Gives (outputCode env formatted args redirect) p.pools code) : Turns p room code 0 0 := by
  have hlen : (exprCodes env args).length = args.length := by simp [exprCodes_eq_map]
  have hargs {values : List Op} (hvalues : Gives (valuesOf (exprCodes env args)) p.pools values) :=
    turns_valuesOf (Shaped.codes (each_shapes hset args) hk.1 hp.1) hvalues
  cases redirect with
  | none =>
    obtain ⟨values, hvalues, rfl⟩ := gives_map.mp hc
    exact (hargs hvalues).op rfl trivial (by simp [Op.takes, hlen])
  | some r =>
    obtain ⟨values, hvalues, dest, hdest, rfl⟩ := gives_map₂.mp hc
    have hr := (expr_shapes hset (hk.2 r rfl) (hp.2 r rfl)).value hdest
    exact ((hargs hvalues).append (hr.above _)).op rfl trivial (by simp [Op.takes, hlen])

lemma shape_cond (hset : Setting p room env) {e : Expr} (hk : e.Kinded env) (hp : e.Proper)
    {expected : Bool} {code : List Op} {t : Test}
    (hc : Gives ((exprCode env e).branch expected) p.pools (code, t)) :
    Shape p room (Covered env p.pools loops) 0 (ops code) 0 (0 + t.operands) := (expr_shapes hset hk hp).branch hc _ 0

mutual

lemma stmt_shape (hset : Setting p room env) : ∀ {s : Stmt}, s.Kinded env → s.All Expr.CallFits →
    s.forIns ⊆ loops → ∀ {code}, Gives (stmtCode env s) p.pools code → Shape p room (Covered env p.pools loops) 0 code 0 0
  | .print _ _, hk, hp, _, _, hc => by
    cases gives_stmtCode hc with | print hout => exact turns_outputCode hset hk hp hout _ 0
  | .printf _ _, hk, hp, _, _, hc => by
    cases gives_stmtCode hc with | printf hout => exact turns_outputCode hset hk hp hout _ 0
  | .expr _, hk, hp, _, _, hc => by
    cases gives_stmtCode hc with | expr heffect => exact turns_effectCode hset hk hp heffect _ 0
  | .ifElse _ _ none, hk, hp, hl, _, hc => by
    cases gives_stmtCode hc with
    | ifThen htest hyes =>
      exact (shape_cond hset hk.1 hp.1 htest).append (body_shape hset hk.2.1 hp.2.1 (List.append_subset.mp hl).1 hyes).skip
  | .ifElse _ _ (some other), hk, hp, hl, _, hc => by
    cases gives_stmtCode hc with
    | ifElse htest hyes hno =>
      have hother := body_shape hset (hk.2.2 : BodyKinded env other) hp.2.2 (List.append_subset.mp hl).2 hno
      exact (shape_cond hset hk.1 hp.1 htest).append
        ((body_shape hset hk.2.1 hp.2.1 (List.append_subset.mp hl).1 hyes).either hother)
  | .forLoop _ none _ _, hk, hp, hl, _, hc => by
    obtain ⟨hinit, hl⟩ := List.append_subset.mp hl
    obtain ⟨hbody, hpost⟩ := List.append_subset.mp hl
    cases gives_stmtCode hc with
    | forever hfirst hround hafter =>
      exact (init_shape hset hk.1 hp.1 hinit hfirst).append (.loop (body_shape hset hk.2.2.2 hp.2.2.2 hbody hround)
        (init_shape hset hk.2.2.1 hp.2.2.1 hpost hafter) (.nil le_rfl) backJump_jump)
  | .forLoop _ (some cond) _ _, hk, hp, hl, _, hc => by
    obtain ⟨hinit, hl⟩ := List.append_subset.mp hl
    obtain ⟨hbody, hpost⟩ := List.append_subset.mp hl
    have hkc := hk.2.1 cond rfl
    have hpc := hp.2.1 cond rfl
    cases gives_stmtCode hc with
    | forLoop hfirst hentry hround hafter htest =>
      have hloop := Shape.loop (body_shape hset hk.2.2.2 hp.2.2.2 hbody hround)
        (init_shape hset hk.2.2.1 hp.2.2.1 hpost hafter) (shape_cond hset hkc hpc htest) (backJump_branch _)
      exact (init_shape hset hk.1 hp.1 hinit hfirst).append ((shape_cond hset hkc hpc hentry).append hloop.skip)
  | .whileLoop _ _, hk, hp, hl, _, hc => by
    cases gives_stmtCode hc with
    | whileLoop hentry hround htest =>
      have hloop := Shape.loop (body_shape hset hk.2 hp.2 hl hround) (.nil le_rfl)
        (shape_cond hset hk.1 hp.1 htest) (backJump_branch _)
      exact (shape_cond hset hk.1 hp.1 hentry).append hloop.skip
  | .doWhile _ _, hk, hp, hl, _, hc => by
    cases gives_stmtCode hc with
    | doWhile hround htest =>
      exact .loop (body_shape hset hk.2 hp.1 hl hround) (.nil le_rfl) (shape_cond hset hk.1 hp.2 htest)
        (backJump_branch _)
  | .forIn _ _ _, hk, hp, hl, _, hc => by
    cases gives_stmtCode hc with
    | forIn hv ha hround =>
      obtain ⟨hloop, hl⟩ := List.cons_subset.mp hl
      exact .forIn (body_shape hset hk.2.2 hp hl hround) (hset.scalar hk.1 hv) (hset.array hk.2.1 ha)
        ⟨_, hloop, _, hv, ha, hround, rfl, rfl⟩
  | .breakLoop _, _, _, _, _, hc => by cases gives_stmtCode hc; exact .leave
  | .continueLoop _, _, _, _, _, hc => by cases gives_stmtCode hc; exact .again
  | .next _, _, _, _, _, hc | .nextFile _, _, _, _, _, hc | .exit none, _, _, _, _, hc
  | .returnValue none, _, _, _, _, hc => by
    cases gives_stmtCode hc
    exact .stop rfl le_rfl le_rfl (Nat.zero_le _)
  | .exit (some e), hk, hp, _, _, hc => by
    cases gives_stmtCode hc with
    | exitStatus hvalue =>
      exact ((expr_shapes hset (hk e rfl) (hp e rfl)).value hvalue).stop rfl rfl _ 0
  | .returnValue (some e), hk, hp, _, _, hc => by
    cases gives_stmtCode hc with
    | returnValue hvalue =>
      exact ((expr_shapes hset (hk e rfl) (hp e rfl)).value hvalue).stop rfl rfl _ 0
  | .delete _ none, hk, _, _, _, hc => by
    cases gives_stmtCode hc with
    | deleteAll ha => exact .straight (n := 0) (m := 0) 0 rfl ⟨rfl, hset.array hk.1 ha⟩
  | .delete _ (some index), hk, hp, _, _, hc => by
    have hshapes := Shaped.codes (each_shapes hset index) (hk.2 index rfl) (hp index rfl)
    cases gives_stmtCode hc with
    | delete ha hkey =>
      exact Turns.op (o := .delete _) (pushes_keyOf hshapes hkey) rfl (hset.array hk.1 ha) rfl _ 0
  | .block _, hk, hp, hl, _, hc => body_shape hset hk hp hl hc

lemma init_shape (hset : Setting p room env) : ∀ {s : Option Stmt}, InitKinded env s →
    AllInit Expr.CallFits s → forInsInit s ⊆ loops → ∀ {code}, Gives (initCode env s) p.pools code →
      Shape p room (Covered env p.pools loops) 0 code 0 0
  | none, _, _, _, code, hc => by
    rw [← gives_pure.mp hc]
    exact .nil le_rfl
  | some _, hk, hp, hl, _, hc => stmt_shape hset hk hp hl hc

lemma body_shape (hset : Setting p room env) : ∀ {body : List Stmt}, BodyKinded env body →
    AllBody Expr.CallFits body → forInsBody body ⊆ loops → ∀ {code}, Gives (bodyCode env body) p.pools code →
      Shape p room (Covered env p.pools loops) 0 code 0 0
  | [], _, _, _, code, hc => by
    rw [← gives_pure.mp hc]
    exact .nil le_rfl
  | s :: rest, hk, hp, hl, code, hc => by
    obtain ⟨first, hfirst, more, hmore, rfl⟩ := gives_bodyCode_cons.mp hc
    obtain ⟨hl, hrest⟩ := List.append_subset.mp hl
    exact (stmt_shape hset hk.1 hp.1 hl hfirst).append (body_shape hset hk.2 hp.2 hrest hmore)

end

end Compile

end Awk
