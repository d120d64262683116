import Awk.Compile.Pools
import Awk.Proofs.CallGraph
import Awk.Proofs.Resolution.Numbering
import Awk.Proofs.Resolution.Uses
import Awk.Proofs.Script.Subexpr

/-!
# Every use of a variable agrees with its kind

A resolved program uses its scalars as scalars and its arrays as arrays, and a function gets an array where
its parameter is one.
-/

namespace Awk

lemma Script.mem_callGraph (s : Script) {f : Function} (h : f ∈ s.functions) :
    f.name ∈ s.callGraph.calls := by
  have fold : ∀ (l : List Function) (g : CallGraph), (f ∈ l ∨ f.name ∈ g.calls) →
      f.name ∈ (l.foldl (fun g f => g.add f.name (callsOfBody f.body)) g).calls := by
    intro l
    induction l with
    | nil => simp
    | cons a l ih =>
      intro g hf
      rw [List.foldl_cons]
      refine ih _ ?_
      rcases hf with hf | hf
      · rcases List.mem_cons.mp hf with rfl | hf
        · exact .inr (by simp [CallGraph.add])
        · exact .inl hf
      · exact .inr (by simp [CallGraph.add, hf])
  have := fold s.functions {} (.inl h)
  simp only [Script.callGraph, CallGraph.add, Std.TreeMap.mem_insert]
  exact .inr this

variable {kinds : KindTable} {found : Found} {name : String} {info : FuncInfo} {i : Nat}

namespace Infer

/-! ## From knowledge to the resolution -/

variable {s : Script} {fs : Functions} {k : Knowledge}

/-- The parameters that knowledge has are those of the functions. -/
structure Knowledge.Fits (k : Knowledge) (fs : Functions) : Prop where
  isParam : ∀ f name, k.isParam f name = true ↔ ∃ info, fs.infos[f]? = some info ∧ name ∈ info.params

lemma start_fits (hfs : fs.Of s) : (start s).Fits fs := by
  refine ⟨fun f name => ?_⟩
  rw [Knowledge.isParam, start_locals hfs.names, Option.bind_map]
  constructor
  · intro h
    obtain ⟨table, ht⟩ := Option.isSome_iff_exists.mp h
    obtain ⟨g, hg, hname⟩ := Option.bind_eq_some_iff.mp ht
    obtain ⟨i, hi⟩ := List.mem_iff_getElem?.mp (List.mem_of_find?_eq_some hg)
    have hgf : g.name = f := by simpa using List.find?_some hg
    refine ⟨_, hgf ▸ (hfs.own i g hi).1, ?_⟩
    rw [← start_table, Option.isSome_iff_exists]
    exact ⟨table, hname⟩
  · rintro ⟨info, hinfo, hname⟩
    rcases hfs.cases f info hinfo with ⟨-, hp⟩ | ⟨i, g, hi, rfl, rfl⟩
    · rw [hp] at hname
      cases hname
    · have hg : (s.functions.find? (·.name == g.name)) = some g := by
        have hmem := List.mem_of_getElem? hi
        have hsome : (s.functions.find? (·.name == g.name)).isSome := by
          rw [List.find?_isSome]
          exact ⟨g, hmem, by simp⟩
        obtain ⟨g', hg'⟩ := Option.isSome_iff_exists.mp hsome
        have heq : g'.name = g.name := by simpa using List.find?_some hg'
        rw [hg', List.inj_on_of_nodup_map hfs.names (List.mem_of_find?_eq_some hg') hmem heq]
      rw [hg]
      exact start_table _ _ |>.mpr hname

lemma Knowledge.Before.fits {k' : Knowledge} (h : k.Before k') (hk : k.Fits fs) : k'.Fits fs :=
  ⟨fun f name => by rw [h.isParam]; exact hk.isParam f name⟩

lemma finish_locals (f : String) : (finish s fs k).locals[f]? =
    k.locals[f]?.map fun kinds => number kinds ((fs.infos[f]?).elim [] (·.params)) 0 0 {} := by
  rw [finish]
  exact Std.TreeMap.getElem?_map

variable {f name : String}

lemma finish_param (hfs : fs.Of s) (hk : k.Fits fs) {kind : Option Kind}
    (hf : k.locals[f]? = some kinds) (hname : kinds[name]? = some kind) : ∃ info i, fs.infos[f]? = some info ∧
      ((finish s fs k).locals[f]?.bind fun table => table[name]?) = some ⟨kind.getD .scalar, i⟩ ∧
      (kinds.ofKind (kind.getD .scalar) info.params)[i]? = some name := by
  obtain ⟨info, hinfo, hmem⟩ := (hk.isParam f name).mp (by simp [Knowledge.isParam, hf, hname])
  obtain ⟨i, hi, hpos⟩ := number_getElem? kinds (hfs.nodup hinfo) hmem
  have hkind : kinds.kindOf name = kind.getD .scalar := by simp [KindTable.kindOf, hname]
  rw [hkind] at hi hpos
  refine ⟨info, i, hinfo, ?_, hpos⟩
  rw [finish_locals, hf, hinfo]
  exact hi

lemma finish_no_param (hk : k.Fits fs) (h : (k.locals[f]?.bind fun table => table[name]?) = none) :
    ((finish s fs k).locals[f]?.bind fun table => table[name]?) = none := by
  rw [finish_locals]
  cases hf : k.locals[f]? with
  | none => rfl
  | some kinds =>
    have hno : ¬ ∃ info, fs.infos[f]? = some info ∧ name ∈ info.params := by
      rw [← hk.isParam, Knowledge.isParam, h]
      simp
    rw [Option.map_some, Option.bind_some, number_getElem?_of_notMem]
    · simp
    · intro hmem
      cases hinfo : fs.infos[f]? with
      | none => simp [hinfo] at hmem
      | some info => exact hno ⟨info, hinfo, by simpa [hinfo] using hmem⟩

/-- What knowledge says of a variable is what the resolution says; a kind that is not known is a
scalar's. -/
lemma finish_lookupVar (hfs : fs.Of s) (hk : k.Fits fs) {func : Option String}
    (h : k.find func name = some found) : ∃ info, (finish s fs k).lookupVar func name = some (found.scope, info) ∧
      info.kind = found.kind.getD .scalar := by
  rw [Knowledge.find] at h
  rw [Resolution.lookupVar]
  split at h
  · rename_i kind hlocal
    cases h
    obtain ⟨f, rfl, htable⟩ := Option.bind_eq_some_iff.mp hlocal
    obtain ⟨kinds, hf, hname⟩ := Option.bind_eq_some_iff.mp htable
    obtain ⟨_, i, _, hlook, -⟩ := finish_param hfs hk hf hname
    exact ⟨⟨kind.getD .scalar, i⟩, by rw [Option.bind_some, hlook], rfl⟩
  · rename_i hlocal
    have hnone : (func.bind fun f => (finish s fs k).locals[f]?.bind fun table => table[name]?) =
        none := by
      cases func with
      | none => rfl
      | some f => exact finish_no_param hk hlocal
    rw [hnone]
    dsimp only
    split at h
    · rename_i hspecial
      cases h
      obtain ⟨v, hv⟩ := Option.isSome_iff_exists.mp hspecial
      exact ⟨⟨.scalar, v.index⟩, by rw [hv], rfl⟩
    · rename_i hspecial
      rw [Option.not_isSome_iff_eq_none] at hspecial
      obtain ⟨kind, hkind, rfl⟩ := Option.map_eq_some_iff.mp h
      have hmem : name ∈ k.globals.keys := by
        rw [Std.TreeMap.mem_keys, Std.TreeMap.mem_iff_isSome_getElem?, hkind]
        rfl
      obtain ⟨i, hi, -⟩ := number_getElem? k.globals Std.TreeMap.nodup_keys hmem
      refine ⟨⟨k.globals.kindOf name, i⟩, ?_, by simp [KindTable.kindOf, hkind]⟩
      rw [hspecial]
      exact congrArg (Option.map _) hi

lemma Knowledge.Fits.param (hk : k.Fits fs) {f : String}
    (hf : fs.infos[f]? = some info) (hname : name ∈ info.params) :
    ∃ kinds, k.locals[f]? = some kinds ∧ kinds[name]? = some (k.paramKind f name) := by
  have hsome := (hk.isParam f name).mpr ⟨info, hf, hname⟩
  obtain ⟨kind, hkind⟩ := Option.isSome_iff_exists.mp hsome
  obtain ⟨kinds, hkinds, hget⟩ := Option.bind_eq_some_iff.mp hkind
  exact ⟨kinds, hkinds, by rw [Knowledge.paramKind, hkind, hget, Option.join_some]⟩

lemma finish_lookupFunc (hfs : fs.Of s) (hk : k.Fits fs) {f : Function}
    (hi : s.functions[i]? = some f) :
    (finish s fs k).lookupFunc f.name = some { ownInfo i f with
      arrays := f.params.map fun p => decide ((k.paramKind f.name p).getD .scalar = .array) } := by
  have hinfo := (hfs.own i f hi).1
  rw [Resolution.lookupFunc, finish, Std.TreeMap.getElem?_map, hinfo]
  simp only [Option.map_some, withArrays, ownInfo, Bool.false_eq_true, if_false, Option.some.injEq,
    FuncInfo.mk.injEq, true_and, and_true]
  refine List.map_congr_left fun p hp => ?_
  obtain ⟨kinds, hkinds, hget⟩ := hk.param hinfo hp
  obtain ⟨_, j, -, hlook, -⟩ := finish_param hfs hk hkinds hget
  obtain ⟨table, htable, hentry⟩ := Option.bind_eq_some_iff.mp hlook
  have htable' : (finish s fs k).locals.getD f.name {} = table := by
    rw [Std.TreeMap.getD_eq_getD_getElem?, htable, Option.getD_some]
  rw [finish] at htable'
  rw [htable', hentry]
  rfl

lemma finish_lookupFunc_native (hinfo : fs.infos[name]? = some info) (hn : info.native = true) :
    (finish s fs k).lookupFunc name = some info := by
  rw [Resolution.lookupFunc, finish, Std.TreeMap.getElem?_map, hinfo]
  simp [withArrays, hn]

end Infer

/-! ## Uses that agree -/

namespace Compile

def Env.HasKind (env : Env) (name : String) (kind : Kind) : Prop :=
  ∃ scope info, env.resolution.lookupVar env.func name = some (scope, info) ∧ info.kind = kind

end Compile

open Compile (Env)

variable (env : Env)

mutual

/-- All uses of variables in a place agree with their kinds. -/
def Place.Kinded : Place → Prop
  | .var v => env.HasKind v.name .scalar
  | .index array index => env.HasKind array.name .array ∧ AllKinded index
  | .field e => e.Kinded

/-- All uses of variables in an expression agree with their kinds. -/
def Expr.Kinded : Expr → Prop
  | .num _ | .str _ | .regex _ => True
  | .place p => p.Kinded
  | .assign target value | .augAssign target _ value => target.Kinded ∧ value.Kinded
  | .incr target _ _ => target.Kinded
  | .unary _ e => e.Kinded
  | .binary left _ right => left.Kinded ∧ right.Kinded
  | .cond test yes no => test.Kinded ∧ yes.Kinded ∧ no.Kinded
  | .member index array => AllKinded index ∧ env.HasKind array.name .array
  | .call .split (s :: .place (.var array) :: rest) _ =>
    s.Kinded ∧ env.HasKind array.name .array ∧ AllKinded rest
  | .call .length [.place (.var v)] _ => ∃ kind, env.HasKind v.name kind
  | .call _ args _ => AllKinded args
  | .userCall name args _ =>
    match env.resolution.lookupFunc name with
    | none => False
    | some info =>
      if info.native then AllKinded args
      else args.length ≤ info.arrays.length ∧ ArgsKinded info.arrays args
  | .getline target => TargetKinded target
  | .getlineFile e target | .getlineCommand e target => e.Kinded ∧ TargetKinded target

/-- All uses of variables in the place of a record agree with their kinds. -/
def TargetKinded : Option Place → Prop
  | none => True
  | some p => p.Kinded

/-- All uses of variables in some expressions agree with their kinds. -/
def AllKinded : List Expr → Prop
  | [] => True
  | e :: rest => e.Kinded ∧ AllKinded rest

/-- All uses of variables in arguments agree with their kinds, and an array parameter gets an array. -/
def ArgsKinded : (arrays : List Bool) → List Expr → Prop
  | _, [] => True
  | arrays, arg :: rest =>
    (if arrays.headD false then ∃ v, arg = .place (.var v) ∧ env.HasKind v.name .array
      else arg.Kinded) ∧ ArgsKinded arrays.tail rest

end

mutual

/-- All uses of variables in a statement agree with their kinds. -/
def Stmt.Kinded : Stmt → Prop
  | .print args redirect | .printf args redirect =>
    AllKinded env args ∧ ∀ r ∈ redirect, r.dest.Kinded env
  | .expr e => e.Kinded env
  | .ifElse cond body otherwise => cond.Kinded env ∧ BodyKinded body ∧ ElseKinded otherwise
  | .forLoop init cond post body =>
    InitKinded init ∧ (∀ e ∈ cond, e.Kinded env) ∧ InitKinded post ∧ BodyKinded body
  | .forIn var array body =>
    env.HasKind var.name .scalar ∧ env.HasKind array.name .array ∧ BodyKinded body
  | .whileLoop cond body | .doWhile body cond => cond.Kinded env ∧ BodyKinded body
  | .breakLoop _ | .continueLoop _ | .next _ | .nextFile _ => True
  | .exit e | .returnValue e => ∀ e' ∈ e, e'.Kinded env
  | .delete array index => env.HasKind array.name .array ∧ ∀ es ∈ index, AllKinded env es
  | .block body => BodyKinded body

/-- All uses of variables in the head of a loop agree with their kinds. -/
def InitKinded : Option Stmt → Prop
  | none => True
  | some s => s.Kinded

/-- All uses of variables in the other branch of a condition agree with their kinds. -/
def ElseKinded : Option (List Stmt) → Prop
  | none => True
  | some body => BodyKinded body

/-- All uses of variables in some statements agree with their kinds. -/
def BodyKinded : List Stmt → Prop
  | [] => True
  | s :: rest => s.Kinded ∧ BodyKinded rest

end

variable {env} in
lemma allKinded_iff {es : List Expr} : AllKinded env es ↔ ∀ e ∈ es, e.Kinded env := by
  induction es with
  | nil => simp [AllKinded]
  | cons e rest ih => simp [AllKinded, ih]

/-! ## The last walk -/

namespace Infer

variable {s : Script} {fs : Functions} {k : Knowledge} {func : Option String}

lemma holds_get_bind {β : Type} {f : Knowledge → Learn β} {b : β} :
    Holds (get >>= f) k b ↔ Holds (f k) k b := Iff.rfl

def Knowledge.isArrayParam (k : Knowledge) (f param : String) : Bool :=
  (k.paramKind f param).getD .scalar = .array

/-- Uses that change nothing. -/
abbrev Unchanged (fs : Functions) (func : Option String) (k : Knowledge) (us : List Use) : Prop :=
  ∀ u ∈ us, Holds (perform fs func u) k ()

variable {param : String} {arg : Expr}

lemma checkArg_holds {extent : Extent} (hn : info.native = false)
    (h : Holds (checkArg name info (some param) arg extent) k ()) : k.isArrayParam name param = false := by
  rw [checkArg, holds_get_bind] at h
  split at h
  · exact absurd h not_holds_throw
  · rename_i hkind
    simp only [hn, Option.bind_some, Bool.not_false, Bool.true_and, decide_eq_true_eq] at hkind
    rw [Knowledge.isArrayParam, decide_eq_false_iff_not]
    cases hp : k.paramKind name param with
    | none => simp
    | some kind => simpa [hp] using hkind

lemma Functions.Of.exists_param (hfs : fs.Of s)
    (hinfo : fs.infos[name]? = some info) (hn : info.native = false) (harity : ∀ n ∈ info.arity, i + 1 ≤ n) :
    ∃ p, info.params[i]? = some p := by
  rcases hfs.cases name info hinfo with ⟨hnative, -⟩ | ⟨_, f, _, rfl, rfl⟩
  · rw [hnative] at hn
    cases hn
  · exact ⟨_, List.getElem?_eq_getElem (harity _ rfl)⟩

section

variable (hfs : fs.Of s) (hk : k.Fits fs)

include hfs hk

variable {name : String} {extent : Extent}

lemma hasKind_of_find (h : k.find func name = some found) :
    Env.HasKind ⟨finish s fs k, func⟩ name (found.kind.getD .scalar) := by
  obtain ⟨info, hlook, hkind⟩ := finish_lookupVar hfs hk h
  exact ⟨_, info, hlook, hkind⟩

lemma hasKind_of_record {kind : Kind} (h : Holds (record fs func name (some kind) extent) k ()) :
    Env.HasKind ⟨finish s fs k, func⟩ name kind := by
  obtain ⟨found, hfind, hkind⟩ := record_holds h
  have := hasKind_of_find hfs hk hfind
  rwa [hkind kind rfl] at this

variable {v : VarRef}

lemma hasKind_of_recordArg (hinfo : fs.infos[name]? = some info)
    (hn : info.native = false) (hp : param ∈ info.params)
    (h : Holds (recordArg fs func name info (some param) v extent) k ()) :
    Env.HasKind ⟨finish s fs k, func⟩ v.name ((k.paramKind name param).getD .scalar) := by
  rw [recordArg, if_neg (by simp [hn]), holds_get_bind, Option.bind_some] at h
  split at h
  · rename_i kind hparam
    rw [hparam]
    exact hasKind_of_record hfs hk h
  · -- what is known of the argument would be new for the parameter
    rename_i kind _ hparam
    obtain ⟨found, hfind, hkind⟩ := record_holds h
    obtain ⟨kinds, hkinds, hget⟩ := hk.param hinfo hp
    have : k.find (some name) param = some ⟨.local, none⟩ := by
      simp [Knowledge.find, hkinds, hget, hparam]
    rw [this] at hfind
    cases hfind
    cases hkind kind rfl
  · rename_i arg kind harg hparam
    obtain ⟨found, hfind, hkind⟩ := Option.bind_eq_some_iff.mp harg
    dsimp only at h
    split at h
    · exact absurd ((holds_bind (.throw _) fun _ => careful_record).mp h) (by simp)
    · rename_i heq
      have := hasKind_of_find hfs hk hfind
      rwa [hkind, not_not.mp heq, ← hparam] at this
  · rename_i harg hparam
    obtain ⟨found, hfind, -⟩ := record_holds h
    have hnone : found.kind = none := by simpa [hfind] using harg
    have := hasKind_of_find hfs hk hfind
    rwa [hnone, ← hparam] at this

variable {info : FuncInfo} {i : Nat}

/-- What holds of a variable that is an argument: a native function gets a scalar, and any other argument has
the kind of its parameter. -/
lemma passed_holds (hinfo : fs.infos[name]? = some info)
    (h : Holds (perform fs func (.passed name i v extent)) k ()) :
    (info.native = true → Env.HasKind ⟨finish s fs k, func⟩ v.name .scalar) ∧
      (info.native = false → ∃ p, info.params[i]? = some p ∧
        Env.HasKind ⟨finish s fs k, func⟩ v.name ((k.paramKind name p).getD .scalar)) := by
  obtain ⟨info', hcallee, harg⟩ := (holds_bind respects_callee fun _ => respects_recordArg careful_record).mp h
  obtain ⟨-, -, hinfo', harity⟩ := run_callee.mp hcallee
  obtain rfl := Option.some.inj (hinfo'.symm.trans hinfo)
  constructor
  · intro hn
    rw [recordArg, if_pos hn] at harg
    exact hasKind_of_record hfs hk harg
  · intro hn
    obtain ⟨p, hp⟩ := hfs.exists_param hinfo hn harity
    rw [hp] at harg
    exact ⟨p, hp, hasKind_of_recordArg hfs hk hinfo hn (List.mem_of_getElem? hp) harg⟩

omit hk in
/-- What holds of any other argument: it goes to a native function or to a scalar. -/
lemma computed_holds (hinfo : fs.infos[name]? = some info)
    (h : Holds (perform fs func (.computed name i arg extent)) k ()) (hn : info.native = false) :
    ∃ p, info.params[i]? = some p ∧ k.isArrayParam name p = false := by
  obtain ⟨info', hcallee, harg⟩ := (holds_bind respects_callee fun _ => respects_checkArg).mp h
  obtain ⟨-, -, hinfo', harity⟩ := run_callee.mp hcallee
  obtain rfl := Option.some.inj (hinfo'.symm.trans hinfo)
  obtain ⟨p, hp⟩ := hfs.exists_param hinfo hn harity
  rw [hp] at harg
  exact ⟨p, hp, checkArg_holds hn harg⟩

variable {f : String} {es args : List Expr}

-- the linter does not look at what recursive calls use
set_option linter.unusedSectionVars false

omit hfs hk in
lemma kinded_all_of (hes : ∀ e ∈ es, Unchanged fs func k e.uses → e.Kinded ⟨finish s fs k, func⟩)
    (h : Unchanged fs func k (usesOfAll es)) : AllKinded ⟨finish s fs k, func⟩ es := by
  induction es with
  | nil => trivial
  | cons e rest ih =>
    rw [List.forall_mem_cons] at hes
    obtain ⟨he, hrest⟩ := List.forall_mem_append.mp h
    exact ⟨hes.1 he, ih hes.2 hrest⟩

lemma kinded_call {f : Builtin} (hes : ∀ e ∈ args, Unchanged fs func k e.uses → e.Kinded ⟨finish s fs k, func⟩)
    (h : Unchanged fs func k (Expr.call f args extent).uses) :
    (Expr.call f args extent).Kinded ⟨finish s fs k, func⟩ := by
  rcases builtin_cases f args with ⟨a, array, rest, rfl, rfl⟩ | ⟨v, rfl, rfl⟩ | ⟨hsplit, hlength⟩
  · rw [List.forall_mem_cons, List.forall_mem_cons] at hes
    obtain ⟨ha, h⟩ := List.forall_mem_append.mp h
    obtain ⟨harray, hrest⟩ := List.forall_mem_cons.mp h
    exact ⟨hes.1 ha, hasKind_of_record hfs hk harray, kinded_all_of hes.2.2 hrest⟩
  · obtain ⟨found, hfind, -⟩ := record_holds (h _ List.mem_cons_self)
    exact ⟨_, hasKind_of_find hfs hk hfind⟩
  · rw [Expr.uses.eq_14 _ _ _ hsplit hlength] at h
    rw [Expr.Kinded.eq_14 _ _ _ _ hsplit hlength]
    exact kinded_all_of hes h

/-- The arguments of a native function are all scalars; those of a function of the program have the kinds
of its parameters. -/
lemma kinded_args (hinfo : fs.infos[name]? = some info)
    (hes : ∀ e ∈ args, Unchanged fs func k e.uses → e.Kinded ⟨finish s fs k, func⟩)
    (h : Unchanged fs func k (usesOfArgs name extent i args)) :
    (info.native = true → AllKinded ⟨finish s fs k, func⟩ args) ∧
      (info.native = false →
        ArgsKinded ⟨finish s fs k, func⟩ ((info.params.drop i).map (k.isArrayParam name)) args) := by
  induction args generalizing i with
  | nil => exact ⟨fun _ => trivial, fun _ => trivial⟩
  | cons arg rest ih =>
    rw [List.forall_mem_cons] at hes
    rw [usesOfArgs.eq_def] at h
    split at h
    · contradiction
    · rename_i v _ heq
      cases heq
      obtain ⟨harg, hrest⟩ := List.forall_mem_cons.mp h
      have harg := passed_holds hfs hk hinfo harg
      have hrest := ih hes.2 hrest
      refine ⟨fun hn => ⟨harg.1 hn, hrest.1 hn⟩, fun hn => ?_⟩
      obtain ⟨p, hp, hkind⟩ := harg.2 hn
      obtain ⟨hi, hget⟩ := List.getElem?_eq_some_iff.mp hp
      rw [List.drop_eq_getElem_cons hi, hget]
      refine ⟨?_, hrest.2 hn⟩
      rw [List.map_cons, List.headD_cons, Knowledge.isArrayParam]
      cases hp : (k.paramKind name p).getD .scalar <;> rw [hp] at hkind
      · exact hkind
      · exact ⟨v, rfl, hkind⟩
    · rename_i heq
      cases heq
      obtain ⟨hcheck, h⟩ := List.forall_mem_cons.mp h
      obtain ⟨harg, hrest⟩ := List.forall_mem_append.mp h
      have hrest := ih hes.2 hrest
      refine ⟨fun hn => ⟨hes.1 harg, hrest.1 hn⟩, fun hn => ?_⟩
      obtain ⟨p, hp, hkind⟩ := computed_holds hfs hinfo hcheck hn
      obtain ⟨hi, hget⟩ := List.getElem?_eq_some_iff.mp hp
      rw [List.drop_eq_getElem_cons hi, hget]
      refine ⟨?_, hrest.2 hn⟩
      rw [List.map_cons, List.headD_cons, hkind]
      exact hes.1 harg

lemma kinded_userCall (hes : ∀ e ∈ args, Unchanged fs func k e.uses → e.Kinded ⟨finish s fs k, func⟩)
    (h : Unchanged fs func k (Expr.userCall name args extent).uses) :
    (Expr.userCall name args extent).Kinded ⟨finish s fs k, func⟩ := by
  obtain ⟨hcall, hargs⟩ := List.forall_mem_cons.mp h
  obtain ⟨info, hcallee, -⟩ := (holds_bind respects_callee fun _ => .pure _).mp hcall
  obtain ⟨-, -, hinfo, harity⟩ := run_callee.mp hcallee
  have hkinded := kinded_args hfs hk hinfo hes hargs
  rw [Expr.Kinded]
  rcases hfs.cases name info hinfo with ⟨hn, -⟩ | ⟨i, f, hi, rfl, rfl⟩
  · rw [finish_lookupFunc_native hinfo hn]
    dsimp only
    rw [if_pos hn]
    exact hkinded.1 hn
  · rw [finish_lookupFunc hfs hk hi]
    dsimp only
    have hlength : args.length ≤ f.params.length := harity _ rfl
    rw [if_neg (by simp [ownInfo])]
    exact ⟨by simpa using hlength, hkinded.2 rfl⟩

mutual

lemma kinded_place : ∀ {p : Place}, Unchanged fs func k p.uses → p.Kinded ⟨finish s fs k, func⟩
  | .var _, h => hasKind_of_record hfs hk (h _ List.mem_cons_self)
  | .index _ index, h => by
    obtain ⟨hindex, harray⟩ := List.forall_mem_append.mp h
    exact ⟨hasKind_of_record hfs hk (harray _ List.mem_cons_self), kinded_all_of (kinded_each index) hindex⟩
  | .field _, h => kinded_expr h

lemma kinded_expr : ∀ {e : Expr}, Unchanged fs func k e.uses → e.Kinded ⟨finish s fs k, func⟩
  | .num _, _ | .str _, _ | .regex _, _ => trivial
  | .place _, h => kinded_place h
  | .assign _ _, h | .augAssign _ _ _, h => by
    obtain ⟨ht, hv⟩ := List.forall_mem_append.mp h
    exact ⟨kinded_place ht, kinded_expr hv⟩
  | .incr _ _ _, h => kinded_place h
  | .unary _ e, h => (kinded_expr h : e.Kinded _)
  | .binary _ _ _, h => by
    obtain ⟨hl, hr⟩ := List.forall_mem_append.mp h
    exact ⟨kinded_expr hl, kinded_expr hr⟩
  | .cond _ _ _, h => by
    obtain ⟨ht, h⟩ := List.forall_mem_append.mp h
    obtain ⟨hy, hn⟩ := List.forall_mem_append.mp h
    exact ⟨kinded_expr ht, kinded_expr hy, kinded_expr hn⟩
  | .member index _, h => by
    obtain ⟨hindex, harray⟩ := List.forall_mem_append.mp h
    exact ⟨kinded_all_of (kinded_each index) hindex, hasKind_of_record hfs hk (harray _ List.mem_cons_self)⟩
  | .call _ args _, h => kinded_call hfs hk (kinded_each args) h
  | .userCall _ args _, h => kinded_userCall hfs hk (kinded_each args) h
  | .getline _, h => kinded_target h
  | .getlineFile _ _, h | .getlineCommand _ _, h => by
    obtain ⟨he, ht⟩ := List.forall_mem_append.mp h
    exact ⟨kinded_expr he, kinded_target ht⟩

lemma kinded_target : ∀ {t : Option Place}, Unchanged fs func k (usesOfTarget t) →
    TargetKinded ⟨finish s fs k, func⟩ t
  | none, _ => trivial
  | some _, h => kinded_place h

lemma kinded_each : ∀ es : List Expr, ∀ e ∈ es, Unchanged fs func k e.uses → e.Kinded ⟨finish s fs k, func⟩
  | [] => nofun
  | e :: rest => List.forall_mem_cons.mpr ⟨fun h => (kinded_expr h : e.Kinded _), kinded_each rest⟩

end

lemma kinded_all (h : Unchanged fs func k (usesOfAll es)) : AllKinded ⟨finish s fs k, func⟩ es :=
  kinded_all_of (kinded_each hfs hk es) h

lemma kinded_option {e : Option Expr} (h : Unchanged fs func k (e.elim [] Expr.uses)) :
    ∀ e' ∈ e, e'.Kinded ⟨finish s fs k, func⟩ := by
  rintro e' rfl
  exact kinded_expr hfs hk h

mutual

lemma kinded_stmt : ∀ {st : Stmt}, Unchanged fs func k st.uses → st.Kinded ⟨finish s fs k, func⟩
  | .print _ _, h | .printf _ _, h => by
    obtain ⟨hargs, hdest⟩ := List.forall_mem_append.mp h
    exact ⟨kinded_all hfs hk hargs, by rintro r rfl; exact kinded_expr hfs hk hdest⟩
  | .expr _, h => kinded_expr hfs hk h
  | .ifElse _ _ _, h => by
    obtain ⟨hc, h⟩ := List.forall_mem_append.mp h
    obtain ⟨hb, ho⟩ := List.forall_mem_append.mp h
    exact ⟨kinded_expr hfs hk hc, kinded_body hb, kinded_else ho⟩
  | .forLoop _ _ _ _, h => by
    obtain ⟨hi, h⟩ := List.forall_mem_append.mp h
    obtain ⟨hc, h⟩ := List.forall_mem_append.mp h
    obtain ⟨hp, hb⟩ := List.forall_mem_append.mp h
    exact ⟨kinded_init hi, kinded_option hfs hk hc, kinded_init hp, kinded_body hb⟩
  | .forIn _ _ _, h => by
    obtain ⟨hv, h⟩ := List.forall_mem_cons.mp h
    obtain ⟨ha, hb⟩ := List.forall_mem_cons.mp h
    exact ⟨hasKind_of_record hfs hk hv, hasKind_of_record hfs hk ha, kinded_body hb⟩
  | .whileLoop _ _, h | .doWhile _ _, h => by
    obtain ⟨hc, hb⟩ := List.forall_mem_append.mp h
    exact ⟨kinded_expr hfs hk hc, kinded_body hb⟩
  | .breakLoop _, _ | .continueLoop _, _ | .next _, _ | .nextFile _, _ => trivial
  | .exit _, h | .returnValue _, h => kinded_option hfs hk h
  | .delete _ _, h => by
    obtain ⟨ha, hes⟩ := List.forall_mem_cons.mp h
    exact ⟨hasKind_of_record hfs hk ha, by rintro es rfl; exact kinded_all hfs hk hes⟩
  | .block _, h => kinded_body h

lemma kinded_init : ∀ {st : Option Stmt}, Unchanged fs func k (usesOfInit st) →
    InitKinded ⟨finish s fs k, func⟩ st
  | none, _ => trivial
  | some _, h => kinded_stmt h

lemma kinded_else : ∀ {body : Option (List Stmt)}, Unchanged fs func k (usesOfElse body) →
    ElseKinded ⟨finish s fs k, func⟩ body
  | none, _ => trivial
  | some _, h => kinded_body h

lemma kinded_body : ∀ {body : List Stmt}, Unchanged fs func k (usesOfBody body) →
    BodyKinded ⟨finish s fs k, func⟩ body
  | [], _ => trivial
  | _ :: _, h => by
    obtain ⟨hs, hrest⟩ := List.forall_mem_append.mp h
    exact ⟨kinded_stmt hs, kinded_body hrest⟩

end

/-- All uses in a program agree with the kinds that no use changes. -/
lemma kinded_script (h : ∀ {func u}, (func, u) ∈ s.uses → Holds (perform fs func u) k ()) :
    s.Each (fun func => BodyKinded ⟨finish s fs k, func⟩) (Expr.Kinded ⟨finish s fs k, none⟩) := by
  have hrule : ∀ r ∈ s.rules, Unchanged fs none k r.uses := fun r hr u hu =>
    h (List.mem_append_right _ (List.mem_append_right _ (List.mem_append_left _
      (List.mem_flatMap.mpr ⟨r, hr, List.mem_map_of_mem hu⟩))))
  refine ⟨fun body hb => kinded_body hfs hk fun u hu => h ?_, fun r hr => ?_, fun r hr => ?_,
    fun body hb => kinded_body hfs hk fun u hu => h ?_, fun f hf => kinded_body hfs hk fun u hu => h ?_⟩
  · exact List.mem_append_right _ (List.mem_append_left _ (List.mem_flatMap.mpr ⟨body, hb, List.mem_map_of_mem hu⟩))
  · exact allKinded_iff.mp (kinded_all hfs hk (List.forall_mem_append.mp (hrule r hr)).1)
  · rintro body hbody
    have h := (List.forall_mem_append.mp (hrule r hr)).2
    rw [hbody] at h
    exact kinded_body hfs hk h
  · exact List.mem_append_right _ (List.mem_append_right _ (List.mem_append_right _
      (List.mem_flatMap.mpr ⟨body, hb, List.mem_map_of_mem hu⟩)))
  · exact List.mem_append_left _ (List.mem_flatMap.mpr ⟨f, hf, List.mem_map_of_mem hu⟩)

end

/-- A walk comes across every use of the program. -/
lemma mem_usesInOrder (hfs : fs.Of s) {u : Option String × Use} (h : u ∈ s.uses) :
    u ∈ usesInOrder fs s s.callGraph.sorted := by
  rw [Script.uses, List.mem_append, List.mem_flatMap] at h
  rw [usesInOrder, List.mem_append, List.mem_flatMap]
  refine h.imp ?_ id
  rintro ⟨f, hf, hu⟩
  obtain ⟨i, hi⟩ := List.mem_iff_getElem?.mp hf
  refine ⟨f.name, s.callGraph.mem_sorted (s.mem_callGraph hf), ?_⟩
  rw [usesOfFunction, (hfs.own i f hi).2]
  exact hu

/-- In the end no use of the program changes what is known. -/
lemma infer_performed (hfs : fs.Of s) {k₀ : Knowledge} (h : (infer fs s).run k₀ = .ok ((), k)) {u : Use}
    (hu : (func, u) ∈ s.uses) : Holds (perform fs func u) k () := by
  have hwalk := (infer_holds h).1
  have hcareful : ∀ u, Careful (performAt fs u) := fun u => respects_perform careful_record u.2
  rw [walkScript_eq, holds_forM hcareful] at hwalk
  exact hwalk _ (mem_usesInOrder hfs hu)

variable {name f : String}

/-! ## Positions -/

lemma finish_global {info : VarInfo} (h : (finish s fs k).lookupVar func name = some (.global, info)) :
    ((finish s fs k).globalNames info.kind)[info.index]? = some name := by
  rw [Resolution.lookupVar] at h
  split at h
  · cases h
  · split at h
    · cases h
    · obtain ⟨info', hinfo, heq⟩ := Option.map_eq_some_iff.mp h
      cases heq
      have hmem : name ∈ k.globals.keys := by
        rw [← mem_number_iff k.globals Std.TreeMap.nodup_keys, Std.TreeMap.mem_iff_isSome_getElem?]
        exact Option.isSome_iff_exists.mpr ⟨info, hinfo⟩
      obtain ⟨i, hi, hpos⟩ := number_getElem? k.globals Std.TreeMap.nodup_keys hmem
      rw [show info = _ from Option.some.inj (hinfo.symm.trans hi), globalNames_finish]
      exact hpos

lemma length_ofKind_params (hf : k.locals[f]? = some kinds) (params : List String) (kind : Kind) :
    (kinds.ofKind kind params).length =
      (params.map (k.isArrayParam f)).count (decide (kind = .array)) := by
  rw [KindTable.ofKind, ← List.countP_eq_length_filter, List.count, List.countP_map]
  refine List.countP_congr fun p _ => ?_
  have : k.isArrayParam f p = decide (kinds.kindOf p = .array) := by
    rw [Knowledge.isArrayParam, Knowledge.paramKind, hf]
    rfl
  rw [Function.comp_apply, this]
  cases kinds.kindOf p <;> cases kind <;> decide

lemma finish_local (hfs : fs.Of s) (hk : k.Fits fs) {info : VarInfo}
    (h : (finish s fs k).lookupVar (some f) name = some (.local, info)) :
    ∃ finfo, (finish s fs k).lookupFunc f = some finfo ∧
      info.index < finfo.arrays.count (decide (info.kind = .array)) := by
  rw [Resolution.lookupVar] at h
  split at h
  · rename_i info' hlook
    cases h
    rw [Option.bind_some] at hlook
    cases hparam : (k.locals[f]?.bind fun table => table[name]?) with
    | none => rw [finish_no_param hk hparam] at hlook; cases hlook
    | some kind =>
      obtain ⟨kinds, hkinds, hget⟩ := Option.bind_eq_some_iff.mp hparam
      obtain ⟨finfo, i, hfinfo, hlook', hpos⟩ := finish_param hfs hk hkinds hget
      obtain rfl := Option.some.inj (hlook.symm.trans hlook')
      rcases hfs.cases f finfo hfinfo with ⟨-, hp⟩ | ⟨j, g, hj, rfl, rfl⟩
      · rw [hp] at hpos
        cases hpos
      · refine ⟨_, finish_lookupFunc hfs hk hj, ?_⟩
        obtain ⟨hlt, -⟩ := List.getElem?_eq_some_iff.mp hpos
        rw [length_ofKind_params hkinds] at hlt
        exact hlt
  · split at h
    · cases h
    · obtain ⟨_, _, heq⟩ := Option.map_eq_some_iff.mp h
      cases heq

end Infer

/-- What holds of every resolution: all uses of variables agree with their kinds, and every number is a
position. -/
structure Resolution.Sound (r : Resolution) : Prop where
  kinded : r.script.Each (fun func => BodyKinded ⟨r, func⟩) (Expr.Kinded ⟨r, none⟩)
  global : ∀ {func name info}, r.lookupVar func name = some (.global, info) →
    (r.globalNames info.kind)[info.index]? = some name
  «local» : ∀ {f name info}, r.lookupVar (some f) name = some (.local, info) →
    ∃ finfo, r.lookupFunc f = some finfo ∧
      info.index < finfo.arrays.count (decide (info.kind = .array))
  own : ∀ {i f}, r.script.functions[i]? = some f → ∃ info, r.lookupFunc f.name = some info ∧
    info.index = i ∧ info.native = false ∧ info.params = f.params ∧
    info.arrays.length = f.params.length
  called : ∀ {name info}, r.lookupFunc name = some info → info.native = false →
    ∃ f, r.script.functions[info.index]? = some f ∧ f.name = name

/-- A program that can be resolved uses its variables according to their kinds, and all numbers of its
variables and functions are positions. -/
theorem Resolution.ofScript_sound {s : Script} {natives : List NativeFunc} {r : Resolution}
    (h : Resolution.ofScript s natives = .ok r) : r.script = s ∧ r.Sound := by
  obtain ⟨fs, hfs, h⟩ := bind_eq_ok.mp h
  obtain ⟨⟨_, k⟩, hinfer, h⟩ := bind_eq_ok.mp h
  cases h
  have hof := Infer.addFunctions_of hfs
  have hk := (Infer.infer_holds hinfer).2.fits (Infer.start_fits hof)
  refine ⟨rfl, Infer.kinded_script hof hk (Infer.infer_performed hof hinfer), Infer.finish_global, Infer.finish_local hof hk,
    fun {i f} hi => ⟨_, Infer.finish_lookupFunc hof hk hi, rfl, rfl, rfl, by simp⟩,
    fun {name info} hinfo hn => ?_⟩
  rw [Resolution.lookupFunc, Infer.finish, Std.TreeMap.getElem?_map] at hinfo
  obtain ⟨info', hinfo', rfl⟩ := Option.map_eq_some_iff.mp hinfo
  rcases hof.cases name info' hinfo' with ⟨hnative, -⟩ | ⟨i, f, hi, hname, rfl⟩
  · rw [Infer.withArrays, if_pos hnative, hnative] at hn
    cases hn
  · exact ⟨f, hi, hname⟩

end Awk
