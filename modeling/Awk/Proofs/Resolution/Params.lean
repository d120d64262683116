import Awk.Compile.Script
import Awk.Proofs.Resolution.Kinds
import Awk.Proofs.Script.Grammar

/-!
# Parameters and the calls that they get their arguments from

Inside a function the name of a parameter stands for a local variable: its number is the number of parameters of its
kind before it.  All calls in a resolved program, however deep they stand in other expressions, use their arguments
according to the kinds of the parameters.
-/

namespace Awk

/-! ## Numbers of parameters -/

variable {i : Nat} {natives : List NativeFunc} {r : Resolution} {args : List Expr} {extent : Extent}

/-- The place of what comes of an element, if something comes only of some of them. -/
lemma getElem?_filterMap_take {α β : Type} {f : α → Option β} {l : List α} {x : α} {y : β} (h : l[i]? = some x)
    (hy : f x = some y) : (l.filterMap f)[((l.take i).filterMap f).length]? = some y := by
  obtain ⟨hi, rfl⟩ := List.getElem?_eq_some_iff.mp h
  have hsplit : l.filterMap f = (l.take i).filterMap f ++ y :: (l.drop (i + 1)).filterMap f := by
    conv_lhs => rw [← List.take_append_drop i l, List.drop_eq_getElem_cons hi]
    rw [List.filterMap_append, List.filterMap_cons_some hy]
  rw [hsplit, List.getElem?_append_right (Nat.le_refl _), Nat.sub_self]
  rfl

namespace Infer

variable {s : Script} {fs : Functions} {k : Knowledge}

/-- A parameter is numbered by how many of its kind stand before it. -/
lemma finish_param_index (hfs : fs.Of s) (hk : k.Fits fs) {i j : Nat} {f : Function} {x : String}
    (hf : s.functions[i]? = some f) (hx : f.params[j]? = some x) :
    (finish s fs k).lookupVar (some f.name) x = some (.local, ⟨if k.isArrayParam f.name x then .array else .scalar,
      ((f.params.take j).map (k.isArrayParam f.name)).count (k.isArrayParam f.name x)⟩) := by
  have hmem := List.mem_of_getElem? hx
  obtain ⟨kinds, hkinds, hget⟩ := hk.param (hfs.own i f hf).1 hmem
  obtain ⟨info, n, hinfo, hlook, hpos⟩ := finish_param hfs hk hkinds hget
  obtain rfl : ownInfo i f = info := Option.some.inj ((hfs.own i f hf).1.symm.trans hinfo)
  set kind := (k.paramKind f.name x).getD .scalar with hkind
  have harray : k.isArrayParam f.name x = decide (kind = .array) := rfl
  -- the names of the kind are distinct, so that the place of the parameter among them is its number
  have hplace : (kinds.ofKind kind f.params)[(kinds.ofKind kind (f.params.take j)).length]? = some x := by
    rw [KindTable.ofKind, KindTable.ofKind, ← List.filterMap_eq_filter]
    refine getElem?_filterMap_take hx ?_
    simp [KindTable.kindOf, hget, hkind]
  have hnodup : (kinds.ofKind kind f.params).Nodup := (hfs.params f (List.mem_of_getElem? hf)).filter _
  have hn : n = (kinds.ofKind kind (f.params.take j)).length :=
    (List.getElem?_inj (List.getElem?_eq_some_iff.mp hpos).1 hnodup).mp (hpos.trans hplace.symm)
  rw [Resolution.lookupVar, Option.bind_some, hlook, hn, length_ofKind_params hkinds, harray]
  cases kind <;> rfl

end Infer

/-- Inside a function a parameter stands for a local variable, whose number is the number of parameters of its kind
before it. -/
theorem Resolution.ofScript_param {s : Script} (h : Resolution.ofScript s natives = .ok r) {j : Nat} {f : Function}
    {info : FuncInfo} {x : String} (hf : s.functions[i]? = some f) (hinfo : r.lookupFunc f.name = some info)
    (hx : f.params[j]? = some x) : ∃ isArray, info.arrays[j]? = some isArray ∧ r.lookupVar (some f.name) x =
      some (.local, ⟨if isArray then .array else .scalar, (info.arrays.take j).count isArray⟩) := by
  obtain ⟨fs, hfs, h⟩ := bind_eq_ok.mp h
  obtain ⟨⟨_, k⟩, hinfer, h⟩ := bind_eq_ok.mp h
  cases h
  have hof := Infer.addFunctions_of hfs
  have hk := (Infer.infer_holds hinfer).2.fits (Infer.start_fits hof)
  obtain rfl := Option.some.inj (hinfo.symm.trans (Infer.finish_lookupFunc hof hk hf))
  refine ⟨k.isArrayParam f.name x, ?_, ?_⟩
  · rw [List.getElem?_map, hx]
    rfl
  · rw [Infer.finish_param_index hof hk hf hx, ← List.map_take]
    rfl

lemma Resolution.ofSource_script {source : String} (h : Resolution.ofSource source natives = .ok r) :
    Resolution.ofScript r.script natives = .ok r := by
  obtain ⟨tokens, -, h⟩ := bind_eq_ok.mp h
  obtain ⟨script, -, h⟩ := bind_eq_ok.mp h
  have hr := mapError_eq_ok.mp h
  rwa [(Resolution.ofScript_sound hr).1]

/-! ## Calls -/

/-- An expression uses its variables according to their kinds, and calls functions with their numbers of arguments.
Nothing is said of places, since a variable by itself may be the name of an array. -/
def Expr.CallSound (env : Compile.Env) : Expr → Prop
  | .place _ => True
  | e => e.Kinded env ∧ e.Proper

open Compile (Env)

/-- A property of all expressions that use their variables according to their kinds, and of places. -/
abbrev OfCalls (env : Env) (P : Expr → Prop) : Prop := ∀ e : Expr, e.CallSound env → P e

variable {env : Env} {P : Expr → Prop}

section

variable (hP : OfCalls env P)

include hP

-- the linter does not look at what recursive calls use
set_option linter.unusedSectionVars false

/-- The arguments of a builtin function that are used as scalars, if all others are the names of arrays. -/
lemma allIn_callSound {f : Builtin} (h : ∀ e ∈ args, e.Kinded env → e.All P)
    (hk : (Expr.call f args extent).Kinded env) : AllIn P args := by
  rcases Infer.builtin_cases f args with ⟨a, array, rest, rfl, rfl⟩ | ⟨v, rfl, rfl⟩ | ⟨hsplit, hlength⟩
  · obtain ⟨ha, -, hrest⟩ := hk
    rw [List.forall_mem_cons, List.forall_mem_cons] at h
    exact ⟨h.1 ha, ⟨hP _ trivial, trivial⟩, allIn_iff.mpr fun e he => h.2.2 e he (allKinded_iff.mp hrest e he)⟩
  · exact ⟨⟨hP _ trivial, trivial⟩, trivial⟩
  · rw [Expr.Kinded.eq_14 _ _ _ _ hsplit hlength] at hk
    exact allIn_iff.mpr fun e he => h e he (allKinded_iff.mp hk e he)

lemma allIn_argsSound (h : ∀ e ∈ args, e.Kinded env → e.All P) {arrays : List Bool}
    (hk : ArgsKinded env arrays args) : AllIn P args := by
  induction args generalizing arrays with
  | nil => trivial
  | cons arg args ih =>
    rw [List.forall_mem_cons] at h
    obtain ⟨hfirst, hrest⟩ := hk
    refine ⟨?_, ih h.2 hrest⟩
    split at hfirst
    · obtain ⟨v, rfl, -⟩ := hfirst
      exact ⟨hP _ trivial, trivial⟩
    · exact h.1 hfirst

lemma allIn_userCallSound {name : String} (h : ∀ e ∈ args, e.Kinded env → e.All P)
    (hk : (Expr.userCall name args extent).Kinded env) : AllIn P args := by
  rw [Expr.Kinded] at hk
  split at hk
  · exact hk.elim
  · split at hk
    · exact allIn_iff.mpr fun e he => h e he (allKinded_iff.mp hk e he)
    · exact allIn_argsSound hP h hk.2

mutual

lemma place_callSound : ∀ {p : Place}, p.Kinded env → p.All Expr.CallFits → p.All P
  | .var _, _, _ => trivial
  | .index _ _, hk, hp => all_callSound hk.2 hp
  | .field _, hk, hp => expr_callSound hk hp

lemma expr_callSound : ∀ {e : Expr}, e.Kinded env → e.Proper → e.All P
  | .num _, hk, hp | .str _, hk, hp | .regex _, hk, hp => hP _ ⟨hk, hp⟩
  | .place _, hk, hp => ⟨hP _ trivial, place_callSound hk hp.2⟩
  | .assign _ _, hk, hp => ⟨hP _ ⟨hk, hp⟩, place_callSound hk.1 hp.2.1, expr_callSound hk.2 hp.2.2⟩
  | .augAssign _ _ _, hk, hp => ⟨hP _ ⟨hk, hp⟩, place_callSound hk.1 hp.2.1, expr_callSound hk.2 hp.2.2⟩
  | .incr _ _ _, hk, hp => ⟨hP _ ⟨hk, hp⟩, place_callSound hk hp.2⟩
  | .unary _ _, hk, hp => ⟨hP _ ⟨hk, hp⟩, expr_callSound hk hp.2⟩
  | .binary _ _ _, hk, hp => ⟨hP _ ⟨hk, hp⟩, expr_callSound hk.1 hp.2.1, expr_callSound hk.2 hp.2.2⟩
  | .cond _ _ _, hk, hp =>
    ⟨hP _ ⟨hk, hp⟩, expr_callSound hk.1 hp.2.1, expr_callSound hk.2.1 hp.2.2.1,
      expr_callSound hk.2.2 hp.2.2.2⟩
  | .member _ _, hk, hp => ⟨hP _ ⟨hk, hp⟩, all_callSound hk.1 hp.2⟩
  | .call _ args _, hk, hp => ⟨hP _ ⟨hk, hp⟩, allIn_callSound hP (each_callSound args hp.2) hk⟩
  | .userCall _ args _, hk, hp => ⟨hP _ ⟨hk, hp⟩, allIn_userCallSound hP (each_callSound args hp.2) hk⟩
  | .getline _, hk, hp => ⟨hP _ ⟨hk, hp⟩, target_callSound hk hp.2⟩
  | .getlineFile _ _, hk, hp | .getlineCommand _ _, hk, hp =>
    ⟨hP _ ⟨hk, hp⟩, expr_callSound hk.1 hp.2.1, target_callSound hk.2 hp.2.2⟩

lemma target_callSound : ∀ {t : Option Place}, TargetKinded env t →
    AllTarget Expr.CallFits t → AllTarget P t
  | none, _, _ => trivial
  | some _, hk, hp => place_callSound hk hp

lemma all_callSound : ∀ {es : List Expr}, AllKinded env es → AllIn Expr.CallFits es →
    AllIn P es
  | [], _, _ => trivial
  | _ :: _, hk, hp => ⟨expr_callSound hk.1 hp.1, all_callSound hk.2 hp.2⟩

lemma each_callSound : ∀ es : List Expr, AllIn Expr.CallFits es →
    ∀ e ∈ es, e.Kinded env → e.All P
  | [], _ => nofun
  | _ :: rest, hp => List.forall_mem_cons.mpr ⟨fun hk => expr_callSound hk hp.1, each_callSound rest hp.2⟩

end

mutual

lemma stmt_callSound : ∀ {s : Stmt}, s.Kinded env → s.All Expr.CallFits → s.All P
  | .print _ _, hk, hp | .printf _ _, hk, hp =>
    ⟨all_callSound hP hk.1 hp.1, fun r hr => expr_callSound hP (hk.2 r hr) (hp.2 r hr)⟩
  | .expr _, hk, hp => expr_callSound hP hk hp
  | .ifElse _ _ _, hk, hp =>
    ⟨expr_callSound hP hk.1 hp.1, body_callSound hk.2.1 hp.2.1, else_callSound hk.2.2 hp.2.2⟩
  | .forLoop _ _ _ _, hk, hp =>
    ⟨init_callSound hk.1 hp.1, fun e he => expr_callSound hP (hk.2.1 e he) (hp.2.1 e he),
      init_callSound hk.2.2.1 hp.2.2.1, body_callSound hk.2.2.2 hp.2.2.2⟩
  | .forIn _ _ _, hk, hp => body_callSound hk.2.2 hp
  | .whileLoop _ _, hk, hp => ⟨expr_callSound hP hk.1 hp.1, body_callSound hk.2 hp.2⟩
  | .doWhile _ _, hk, hp => ⟨body_callSound hk.2 hp.1, expr_callSound hP hk.1 hp.2⟩
  | .breakLoop _, _, _ | .continueLoop _, _, _ | .next _, _, _ | .nextFile _, _, _ => trivial
  | .exit _, hk, hp | .returnValue _, hk, hp => fun e he => expr_callSound hP (hk e he) (hp e he)
  | .delete _ _, hk, hp => fun es hes => all_callSound hP (hk.2 es hes) (hp es hes)
  | .block _, hk, hp => body_callSound hk hp

lemma init_callSound : ∀ {s : Option Stmt}, InitKinded env s → AllInit Expr.CallFits s →
    AllInit P s
  | none, _, _ => trivial
  | some _, hk, hp => stmt_callSound hk hp

lemma else_callSound : ∀ {body : Option (List Stmt)}, ElseKinded env body →
    AllElse Expr.CallFits body → AllElse P body
  | none, _, _ => trivial
  | some _, hk, hp => body_callSound hk hp

lemma body_callSound : ∀ {body : List Stmt}, BodyKinded env body → AllBody Expr.CallFits body →
    AllBody P body
  | [], _, _ => trivial
  | _ :: _, hk, hp => ⟨stmt_callSound hk.1 hp.1, body_callSound hk.2 hp.2⟩

end

end

/-- What holds of all expressions that use their variables according to their kinds, and of places, holds everywhere in
a program that can be resolved. -/
lemma Resolution.Sound.each_call (hr : r.Sound) (hs : r.script.Proper) {P : Option String → Expr → Prop}
    (hmain : OfCalls ⟨r, none⟩ (P none))
    (hfunction : ∀ f ∈ r.script.functions, OfCalls ⟨r, some f.name⟩ (P (some f.name))) :
    r.script.Each (fun func => AllBody (P func)) (Expr.All (P none)) where
  begin body hbody := body_callSound hmain (hr.kinded.begin body hbody) (hs.begin body hbody).calls
  patterns rule hrule e he := expr_callSound hmain (hr.kinded.patterns rule hrule e he) (hs.patterns rule hrule e he)
  bodies rule hrule body hbody :=
    body_callSound hmain (hr.kinded.bodies rule hrule body hbody) (hs.bodies rule hrule body hbody).calls
  final body hbody := body_callSound hmain (hr.kinded.final body hbody) (hs.final body hbody).calls
  functions f hf := body_callSound (hfunction f hf) (hr.kinded.functions f hf) (hs.functions f hf).calls

end Awk
