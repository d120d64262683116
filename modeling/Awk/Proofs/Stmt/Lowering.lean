import Awk.Proofs.Expr.Lowering
import Awk.Proofs.Stmt.Implements

/-!
# Code of statements means what the statements do

The code of every statement implements it.  A condition in front of a jump decides as the value of its expression
does, whether the jump tests a value or compares two of them, and whether or not the condition is turned round.
-/

namespace Awk

open Compile Run
open Stmt (Outcome)

namespace Compile

variable {p : Program} {room : Room} {env : Env} {pools : Pools} {fuel : Nat}

/-! ## Conditions -/

variable {α : Type} {expected : Bool} {code : List Op} {t : Test} {a b : Nat}

lemma push_pop (v : Value) (f : Value → Run α) : (do push v; f (← pop)) = f v := by
  funext m
  change f ((m.stack.push v).back?.getD .null) { m with stack := (m.stack.push v).pop } = f v m
  rw [Array.back?_push, Array.pop_push]
  rfl

lemma fused_truth (expected : Bool) (code : List Op) : Fused expected code (.truth expected) code :=
  ⟨[], (List.append_nil code).symm, nofun, rfl⟩

lemma fused_compare (c : Comparison) (expected : Bool) (code : List Op) :
    Fused expected code (.compare (if expected then c else c.negated)) (code ++ [Op.compare c]) := by
  refine ⟨[.compare c], rfl, by simp [Op.isControl], ?_⟩
  have hholds : ∀ o, (if expected then c else c.negated).holds o = (c.holds o == expected) := by
    intro o
    cases expected <;> simp
  have hstep : [Op.compare c].forM step = step (.compare c) := bind_pure _
  rw [hstep]
  simp only [taken, hholds, step, binary, bind_assoc, push_pop, pure_bind, isTrue_ofBool]

/-- A condition that is turned round is tested the other way. -/
lemma fused_not {value : List Op} (h : Fused (!expected) code t value) :
    Fused expected code t (value ++ [Op.not]) := by
  obtain ⟨rest, rfl, hrest, htaken⟩ := h
  refine ⟨rest ++ [Op.not], List.append_assoc .., by simpa [or_imp, forall_and, Op.isControl] using hrest, ?_⟩
  have hnot : ∀ v : Value, ((Value.ofBool !v.isTrue).isTrue == expected) = (v.isTrue == !expected) := by
    intro v
    cases v.isTrue <;> cases expected <;> simp
  have hforM : (rest ++ [Op.not]).forM step = rest.forM step >>= fun _ => step .not := by
    rw [List.forM_eq_forM, List.forM_append, List.forM_cons, List.forM_nil]
    exact congrArg _ (funext fun _ => bind_pure _)
  rw [← htaken, hforM]
  simp only [step, unary, bind_assoc, push_pop, hnot]

lemma fused_ofValue {e : Expr} (h : Gives (do return (← (exprCode env e).value, .truth expected)) pools (code, t)) :
    ∃ value, Gives (exprCode env e).value pools value ∧ Fused expected code t value := by
  obtain ⟨hcode, rfl⟩ := gives_ofValue_branch.mp h
  exact ⟨code, hcode, fused_truth expected code⟩

/-- The code of a condition in front of a jump decides as the value of the condition does. -/
lemma exists_fused : ∀ (e : Expr) (expected : Bool) {code : List Op} {t : Test},
    Gives ((exprCode env e).branch expected) pools (code, t) →
      ∃ value, Gives (exprCode env e).value pools value ∧ Fused expected code t value
  | .unary .not e, expected, code, t, h => by
    obtain ⟨value, hvalue, hfused⟩ := exists_fused e (!expected) h
    exact ⟨value ++ [Op.not], gives_map.mpr ⟨value, hvalue, rfl⟩, fused_not hfused⟩
  | .binary left (.compare c) right, expected, code, t, h => by
    obtain ⟨both, hcode, heq⟩ := gives_map.mp h
    cases heq
    exact ⟨code ++ [Op.compare c], gives_map.mpr ⟨code, hcode, rfl⟩, fused_compare c expected code⟩
  | .num _, _, _, _, h | .str _, _, _, _, h | .regex _, _, _, _, h | .place _, _, _, _, h
  | .assign _ _, _, _, _, h | .augAssign _ _ _, _, _, _, h | .incr _ _ _, _, _, _, h | .unary .minus _, _, _, _, h
  | .unary .plus _, _, _, _, h | .binary _ .and _, _, _, _, h | .binary _ .or _, _, _, _, h
  | .binary _ .concat _, _, _, _, h | .binary _ (.arith _) _, _, _, _, h | .binary _ (.match _) _, _, _, _, h
  | .cond _ _ _, _, _, _, h | .member _ _, _, _, _, h | .call _ _ _, _, _, _, h | .userCall _ _ _, _, _, _, h
  | .getline _, _, _, _, h | .getlineFile _ _, _, _, _, h | .getlineCommand _ _, _, _, _, h => fused_ofValue h

/-! ## Statements -/

lemma lowered_of_gives {β : Type} {x : Compile α} {a : α} (h : Gives x pools a) (f : α → Run β) :
    lowered pools x f = f a := by
  rw [lowered, show x.run pools = .ok (a, pools) from h]

lemma Turns.closed (h : Turns p room code a b) : Closed code := by
  intro pc op hop t ht
  obtain ⟨F, hcode, -, -, -, hgood⟩ := (h (fun _ _ _ _ => True) 0).good
  rw [map_settled_ops] at hcode
  have hlt : pc < (ops code).length := by simpa [ops] using (List.getElem?_eq_some_iff.mp hop).1
  have hedge : F.code.Edge pc t := ⟨op, by rw [hcode, List.getElem?_toArray, hop], ht⟩
  simpa [ops] using hgood.edges (Nat.zero_le pc) hlt hedge

/-- Code that may stand above a value has no loops over arrays. -/
lemma Turns.loopless (h : Turns p room code a b) : ∀ op ∈ code, op.isLoop = false :=
  fun op hop => (h (fun _ _ _ _ => True) 1).not_isLoop op (List.mem_map_of_mem hop)

/-- The code of a statement without statements in it is what the statement means. -/
lemma implements_leaf {s : Stmt} (hs : Turns p room code a b)
    (hc : Gives (stmtCode env s) pools (ops code)) : Implements (ops code) (s.alone env pools fuel) := by
  have hbody : Gives (bodyCode env [s]) pools (ops code) :=
    gives_bodyCode_cons.mpr ⟨ops code, hc, [], gives_pure.mpr rfl, (List.append_nil _).symm⟩
  have hblock : Gives (blockCode env [s]) pools code.toArray := by
    exact gives_map.mpr ⟨ops code, hbody, by rw [map_settled_ops]⟩
  rw [Stmt.alone, lowered_of_gives hblock]
  exact .leaf hs.closed hs.loopless fuel

section

variable (fuel) (hset : Setting p room env)

include hset

variable {e : Expr} {t : Test} {test : List Op}

/-- The code of a condition: it tests what the value of the condition tells. -/
lemma exists_test (hk : e.Kinded env) (hp : e.Proper) {expected : Bool} {code : List Op}
    (hc : Gives ((exprCode env e).branch expected) p.pools (code, t)) :
    Closed code ∧ (∀ op ∈ code, op.isLoop = false) ∧ ∃ value, Fused expected code t value ∧
      ∀ yes no, e.choose env p.pools fuel yes no =
        Run.withValue fuel value.toArray fun v => if v.isTrue then yes else no := by
  have hshape := (expr_shapes hset hk hp).branch hc
  obtain ⟨value, hvalue, hfused⟩ := exists_fused e expected hc
  refine ⟨hshape.closed, hshape.loopless, value, hfused, fun yes no => ?_⟩
  rw [Expr.choose, Expr.withValue, lowered_of_gives hvalue]

/-- The code of a value that an instruction takes, with which the block ends. -/
lemma implements_ending (hk : e.Kinded env) (hp : e.Proper) {value : List Op}
    (hvalue : Gives (exprCode env e).value p.pools value) {op : Op} {f : Value → Run Outcome}
    (hop : ∀ full o, advance 0 full o op = (do return .stop (← (do f (← pop))).completion))
    (hf : ∀ v, Ensures (f v) fun out => out.endsBlock = true) :
    Implements (ops (value ++ [op])) (e.withValue env p.pools fuel f) := by
  have hshape := (expr_shapes hset hk hp).value hvalue
  rw [Expr.withValue, lowered_of_gives hvalue]
  exact .ofValue hshape.closed hshape.loopless fuel (.finish hop (.next hf))

lemma implements_testLoop (hk : e.Kinded env) (hp : e.Proper) {u : Test}
    (htest : Gives ((exprCode env e).branch true) p.pools (test, u)) {round after : List Piece}
    {body post : Run Outcome} (hround : Implements round body) (hafter : Implements after post)
    (hstays : Ensures post Outcome.Stays) : Implements (ops (closeLoop round after test (.branch u)))
      (rounds (whileHolds env p.pools fuel (some e)) body post fuel) := by
  obtain ⟨hclosed, hloopless, value, hfused, hchoose⟩ := exists_test fuel hset hk hp htest
  have hholds : whileHolds env p.pools fuel (some e) = fun rest =>
      Run.withValue fuel value.toArray fun v => if v.isTrue then rest else pure .normal :=
    funext fun rest => hchoose rest (pure .normal)
  rw [hholds]
  exact .loop hround hafter hstays (Implements.returns_branch hclosed hloopless hfused fuel) fuel

lemma implements_skip (hk : e.Kinded env) (hp : e.Proper)
    (htest : Gives ((exprCode env e).branch false) p.pools (test, t)) {xs : List Piece} {x : Run Outcome}
    (hx : Implements xs x) : Implements (ops test ++ skip t xs) (e.choose env p.pools fuel x (pure .normal)) := by
  obtain ⟨hclosed, hloopless, value, hfused, hchoose⟩ := exists_test fuel hset hk hp htest
  rw [hchoose]
  exact .skip hclosed hloopless hfused hx fuel

end

mutual

/-- The code of a statement of a resolved program does what the statement means. -/
lemma stmt_implements (hset : Setting p room env) : ∀ {s : Stmt}, s.Kinded env → s.All Expr.CallFits →
    s.postsStay = true → ∀ {code}, Gives (stmtCode env s) p.pools code →
      Implements code (s.perform env p.pools fuel)
  | .print _ _, hk, hp, _, _, hc => by
    rw [Stmt.perform]
    cases gives_stmtCode hc with | print hout => exact implements_leaf (turns_outputCode hset hk hp hout) hc
  | .printf _ _, hk, hp, _, _, hc => by
    rw [Stmt.perform]
    cases gives_stmtCode hc with | printf hout => exact implements_leaf (turns_outputCode hset hk hp hout) hc
  | .expr _, hk, hp, _, _, hc => by
    rw [Stmt.perform]
    cases gives_stmtCode hc with | expr heffect => exact implements_leaf (turns_effectCode hset hk hp heffect) hc
  | .ifElse _ _ none, hk, hp, hs, _, hc => by
    obtain ⟨hbody, -⟩ := Bool.and_eq_true_iff.mp hs
    rw [Stmt.perform, performElse]
    cases gives_stmtCode hc with
    | ifThen htest hyes =>
      exact implements_skip fuel hset hk.1 hp.1 htest (body_implements hset hk.2.1 hp.2.1 hbody hyes)
  | .ifElse _ _ (some other), hk, hp, hs, _, hc => by
    obtain ⟨hbody, hother⟩ := Bool.and_eq_true_iff.mp hs
    rw [Stmt.perform, performElse]
    cases gives_stmtCode hc with
    | ifElse htest hyes hno =>
      obtain ⟨hclosed, hloopless, value, hfused, hchoose⟩ := exists_test fuel hset hk.1 hp.1 htest
      rw [hchoose]
      exact .either hclosed hloopless hfused (body_implements hset hk.2.1 hp.2.1 hbody hyes)
        (body_implements hset (hk.2.2 : BodyKinded env other) hp.2.2 hother hno) fuel
  | .forLoop _ none _ _, hk, hp, hs, _, hc => by
    simp only [Stmt.postsStay, Bool.and_eq_true, Bool.not_eq_true'] at hs
    obtain ⟨⟨⟨hescapes, hinit⟩, hpost⟩, hbody⟩ := hs
    rw [Stmt.perform]
    cases gives_stmtCode hc with
    | forever hfirst hround hafter =>
      exact (init_implements hset hk.1 hp.1 hinit hfirst).append (.loop
        (body_implements hset hk.2.2.2 hp.2.2.2 hbody hround)
        (init_implements hset hk.2.2.1 hp.2.2.1 hpost hafter) (performInit_stays hescapes)
        Implements.returns_jump fuel)
  | .forLoop _ (some cond) _ _, hk, hp, hs, _, hc => by
    simp only [Stmt.postsStay, Bool.and_eq_true, Bool.not_eq_true'] at hs
    obtain ⟨⟨⟨hescapes, hinit⟩, hpost⟩, hbody⟩ := hs
    have hkc := hk.2.1 cond rfl
    have hpc := hp.2.1 cond rfl
    rw [Stmt.perform]
    cases gives_stmtCode hc with
    | forLoop hfirst hentry hround hafter htest =>
      have hloop := implements_testLoop fuel hset hkc hpc htest
        (body_implements hset hk.2.2.2 hp.2.2.2 hbody hround)
        (init_implements hset hk.2.2.1 hp.2.2.1 hpost hafter) (performInit_stays hescapes)
      exact (init_implements hset hk.1 hp.1 hinit hfirst).append (implements_skip fuel hset hkc hpc hentry hloop)
  | .whileLoop _ _, hk, hp, hs, _, hc => by
    rw [Stmt.perform]
    cases gives_stmtCode hc with
    | whileLoop hentry hround htest =>
      have hloop := implements_testLoop fuel hset hk.1 hp.1 htest
        (body_implements hset hk.2 hp.2 hs hround) .nil (.pure Outcome.stays_normal)
      exact implements_skip fuel hset hk.1 hp.1 hentry hloop
  | .doWhile _ _, hk, hp, hs, _, hc => by
    rw [Stmt.perform]
    cases gives_stmtCode hc with
    | doWhile hround htest =>
      exact implements_testLoop fuel hset hk.1 hp.2 htest (body_implements hset hk.2 hp.1 hs hround) .nil
        (.pure Outcome.stays_normal)
  | .forIn _ _ _, hk, hp, hs, _, hc => by
    rw [Stmt.perform]
    cases gives_stmtCode hc with
    | forIn hv ha hround =>
      rw [lowered_of_gives hv, lowered_of_gives ha]
      exact .forIn (body_implements hset hk.2.2 hp hs hround) _ _
  | .breakLoop _, _, _, _, _, hc => by
    rw [Stmt.perform]
    cases gives_stmtCode hc
    exact .leave
  | .continueLoop _, _, _, _, _, hc => by
    rw [Stmt.perform]
    cases gives_stmtCode hc
    exact .again
  | .next _, _, _, _, _, hc | .nextFile _, _, _, _, _, hc | .exit none, _, _, _, _, hc
  | .returnValue none, _, _, _, _, hc => by
    rw [Stmt.perform]
    cases gives_stmtCode hc
    exact .finish (fun _ _ => rfl) (.pure rfl)
  | .exit (some e), hk, hp, _, _, hc => by
    rw [Stmt.perform]
    cases gives_stmtCode hc with
    | exitStatus hvalue =>
      exact implements_ending fuel hset (hk e rfl) (hp e rfl) hvalue (fun _ _ => rfl) fun v => .next fun _ => .pure rfl
  | .returnValue (some e), hk, hp, _, _, hc => by
    rw [Stmt.perform]
    cases gives_stmtCode hc with
    | returnValue hvalue =>
      exact implements_ending fuel hset (hk e rfl) (hp e rfl) hvalue (fun _ _ => rfl) fun v => .pure rfl
  | .delete _ none, hk, _, _, _, hc => by
    rw [Stmt.perform]
    cases gives_stmtCode hc with
    | deleteAll ha =>
      exact implements_leaf (.straight (a := 0) rfl ⟨rfl, hset.array hk.1 ha⟩) hc
  | .delete _ (some index), hk, hp, _, _, hc => by
    have hshapes := Shaped.codes (each_shapes hset index) (hk.2 index rfl) (hp index rfl)
    rw [Stmt.perform]
    cases gives_stmtCode hc with
    | delete ha hkey =>
      exact implements_leaf (Turns.op (o := .delete _) (pushes_keyOf hshapes hkey) rfl (hset.array hk.1 ha) rfl) hc
  | .block _, hk, hp, hs, _, hc => by
    rw [Stmt.perform]
    exact body_implements hset hk hp hs hc

lemma init_implements (hset : Setting p room env) : ∀ {s : Option Stmt}, InitKinded env s →
    AllInit Expr.CallFits s → postsStayInit s = true → ∀ {code}, Gives (initCode env s) p.pools code →
      Implements code (performInit env p.pools fuel s)
  | none, _, _, _, _, hc => by
    rw [← gives_pure.mp hc, performInit]
    exact .nil
  | some _, hk, hp, hs, _, hc => by
    rw [performInit]
    exact stmt_implements hset hk hp hs hc

/-- The code of statements of a resolved program does what the statements mean. -/
lemma body_implements (hset : Setting p room env) : ∀ {body : List Stmt}, BodyKinded env body →
    AllBody Expr.CallFits body → postsStayBody body = true → ∀ {code}, Gives (bodyCode env body) p.pools code →
      Implements code (performBody env p.pools fuel body)
  | [], _, _, _, _, hc => by
    rw [← gives_pure.mp hc, performBody]
    exact .nil
  | s :: rest, hk, hp, hs, _, hc => by
    obtain ⟨first, hfirst, more, hmore, rfl⟩ := gives_bodyCode_cons.mp hc
    obtain ⟨hs, hrest⟩ := Bool.and_eq_true_iff.mp hs
    rw [performBody]
    exact (stmt_implements hset hk.1 hp.1 hs hfirst).append (body_implements hset hk.2 hp.2 hrest hmore)

end

end Compile

end Awk
