import Awk.Proofs.Compile.Statements

/-!
# Compiled programs pass the verifier
-/

namespace Awk

open Compile

/-! ## The verifier for programs -/

def Guard.codes : Guard → List Code
  | .all => []
  | .expr code => [code]
  | .range start stop => [start, stop]

def CompiledFunction.room (f : CompiledFunction) : Room := ⟨f.scalarCount, f.arrayCount⟩

/-- All code of a program passes the verifier: a pattern leaves one value, everything else none.  No constant
is there twice. -/
structure Program.Verified (p : Program) : Prop where
  begin : ∀ code ∈ p.begin, ∃ height, code.Verified p {} 0 height
  guards : ∀ rule ∈ p.rules, ∀ code ∈ rule.guard.codes, ∃ height, code.Verified p {} 1 height
  bodies : ∀ rule ∈ p.rules, ∀ code ∈ rule.body, ∃ height, code.Verified p {} 0 height
  final : ∀ code ∈ p.final, ∃ height, code.Verified p {} 0 height
  functions : ∀ f ∈ p.functions, ∃ height, f.body.Verified p f.room 0 height
  distinct : p.pools.Distinct

namespace Compile

variable {p : Program} {r : Resolution}

/-! ## Names in a compiled program -/

variable {f : Function} {pools : Pools} {c : CompiledFunction} {i : Nat} {room : Room} {env : Env} {body : List Stmt}
  {code : Code}

lemma gives_functionCode (h : Gives (functionCode r f) pools c) : ∃ info, r.lookupFunc f.name = some info ∧
      Gives (blockCode ⟨r, some f.name⟩ f.body) pools c.body ∧
      c.scalarCount = info.params.length - info.arrays.count true ∧
      c.arrayCount = info.arrays.count true := by
  rw [functionCode] at h
  split at h
  · exact absurd h not_gives_fail
  · rename_i info hinfo
    obtain ⟨body, hbody, rfl⟩ := gives_map.mp h
    exact ⟨info, hinfo, hbody, rfl, rfl⟩

section

variable {α β : Type} {R : α → β → Prop}

variable {xs : List α} {ys : List β}

lemma forall₂_getElem? (h : List.Forall₂ R xs ys) {i : Nat} {x : α} (hx : xs[i]? = some x) :
    ∃ y, ys[i]? = some y ∧ R x y := by
  obtain ⟨hlen, hall⟩ := List.forall₂_iff_get.mp h
  obtain ⟨hi, rfl⟩ := List.getElem?_eq_some_iff.mp hx
  exact ⟨ys[i], List.getElem?_eq_getElem (hlen ▸ hi), hall i hi (hlen ▸ hi)⟩

lemma forall₂_imp_mem {S : α → β → Prop} (h : List.Forall₂ R xs ys) (himp : ∀ x ∈ xs, ∀ y, R x y → S x y) :
    List.Forall₂ S xs ys := by
  induction h with
  | nil => exact .nil
  | cons hr _ ih =>
    obtain ⟨hx, hxs⟩ := List.forall_mem_cons.mp himp
    exact .cons (hx _ hr) (ih hxs)

lemma forall₂_exists (h : List.Forall₂ R xs ys) {y : β} (hy : y ∈ ys) : ∃ x ∈ xs, R x y := by
  obtain ⟨i, hi⟩ := List.mem_iff_getElem?.mp hy
  obtain ⟨x, hx, hr⟩ := forall₂_getElem? h.flip hi
  exact ⟨x, List.mem_of_getElem? hx, hr⟩

end

/-- A function takes as many scalars and arrays as it has parameters of either kind. -/
lemma counts_of_functionCode (hr : r.Sound) (hf : r.script.functions[i]? = some f)
    (hc : Gives (functionCode r f) p.pools c) {info : FuncInfo} (hinfo : r.lookupFunc f.name = some info) :
    c.scalarCount = info.arrays.count false ∧ c.arrayCount = info.arrays.count true := by
  obtain ⟨info', hinfo', -, hscalars, harrays⟩ := gives_functionCode hc
  obtain rfl := Option.some.inj (hinfo.symm.trans hinfo')
  obtain ⟨info', hinfo', -, -, hparams, hlen⟩ := hr.own hf
  obtain rfl := Option.some.inj (hinfo.symm.trans hinfo')
  refine ⟨?_, harrays⟩
  have := List.count_false_add_count_true info.arrays
  rw [hparams, ← hlen] at hscalars
  omega

/-- Names stand for numbers that exist, if the local ones find their room. -/
lemma setting_of (hr : r.Sound) (hp : p.CompiledFrom r) {func : Option String}
    (hlocal : ∀ {name info}, r.lookupVar func name = some (.local, info) →
      info.index < if info.kind = .array then room.arrays else room.scalars) : Setting p room ⟨r, func⟩ := by
  have hglobal : ∀ {kind name info}, r.lookupVar func name = some (.global, info) → info.kind = kind →
      info.index < (r.globalNames kind).length := by
    rintro _ name info h rfl
    exact (List.getElem?_eq_some_iff.mp (hr.global h)).1
  constructor
  case scalar =>
    rintro v ref ⟨scope, info, hlook, hkind⟩ hg
    rw [Env.scalar, hlook] at hg
    cases scope with
    | «local» =>
      rw [← gives_pure.mp hg]
      have := hlocal hlook
      rwa [hkind, if_neg (by simp)] at this
    | global =>
      rw [← gives_pure.mp hg, ScalarRef.WellFormed, hp.scalarNames]
      exact hglobal hlook hkind
    | special =>
      dsimp only at hg
      split at hg
      · rw [← gives_pure.mp hg]
        trivial
      · exact absurd hg not_gives_fail
  case array =>
    rintro v ref ⟨scope, info, hlook, hkind⟩ hg
    rw [Env.array, hlook] at hg
    cases scope with
    | «local» =>
      rw [← gives_pure.mp hg]
      have := hlocal hlook
      rwa [hkind, if_pos rfl] at this
    | global =>
      rw [← gives_pure.mp hg, ArrayRef.WellFormed, hp.arrayNames]
      exact hglobal hlook hkind
    | special => exact absurd hg not_gives_fail
  case func =>
    intro name info hinfo hn
    obtain ⟨f, hf, rfl⟩ := hr.called hinfo hn
    obtain ⟨c, hc, hgives⟩ := forall₂_getElem? hp.functions hf
    rw [Array.getElem?_toList] at hc
    refine ⟨(Array.getElem?_eq_some_iff.mp hc).1, ?_⟩
    rw [Program.scalarCount, hc]
    exact (counts_of_functionCode hr hf hgives hinfo).1

lemma lookupVar_main_ne_local {name : String} {info : VarInfo} : r.lookupVar none name ≠ some (.local, info) := by
  intro h
  rw [Resolution.lookupVar, Option.bind_none] at h
  dsimp only at h
  split at h
  · cases h
  · obtain ⟨_, -, heq⟩ := Option.map_eq_some_iff.mp h
    cases heq

lemma setting_main (hr : r.Sound) (hp : p.CompiledFrom r) : Setting p {} ⟨r, none⟩ :=
  setting_of hr hp fun h => absurd h lookupVar_main_ne_local

lemma setting_function (hr : r.Sound) (hp : p.CompiledFrom r) (hf : r.script.functions[i]? = some f)
    (hc : Gives (functionCode r f) p.pools c) : Setting p c.room ⟨r, some f.name⟩ := by
  refine setting_of hr hp fun {name info} h => ?_
  obtain ⟨finfo, hfinfo, hlt⟩ := hr.local h
  obtain ⟨hscalars, harrays⟩ := counts_of_functionCode hr hf hc hfinfo
  rw [CompiledFunction.room, hscalars, harrays]
  split
  · rename_i hkind
    rwa [hkind] at hlt
  · rename_i hkind
    rwa [decide_eq_false hkind] at hlt

/-! ## All parts -/

lemma gives_blockCode (h : Gives (blockCode env body) pools code) :
    ∃ pieces, Gives (bodyCode env body) pools pieces ∧ code = (pieces.map Piece.settled).toArray :=
  gives_map.mp h

lemma verified_block (hset : Setting p room env) (hk : BodyKinded env body) (hb : ProperBody body)
    (h : Gives (blockCode env body) p.pools code) : ∃ height, code.Verified p room 0 height := by
  obtain ⟨pieces, hpieces, rfl⟩ := gives_blockCode h
  exact (body_shape hset hk hb.calls (List.Subset.refl _) hpieces).verified

lemma Turns.verified {code : List Op} {final : Nat} (h : Turns p room code 0 final) :
    ∃ height, Code.Verified p room final code.toArray height := by
  have hverified := (h (fun _ _ _ _ => True) 0).verified
  rwa [Nat.zero_add, map_settled_ops] at hverified

lemma verified_pattern (hset : Setting p room env) {e : Expr} (hk : e.Kinded env) (he : e.Proper) {code : List Op}
    (h : Gives (exprCode env e).value p.pools code) : ∃ height, Code.Verified p room 1 code.toArray height :=
  ((expr_shapes hset hk he).value h).verified

lemma gives_guardCode {pattern : RulePattern} {guard : Guard} (h : Gives (guardCode env pattern) pools guard)
    (hc : code ∈ guard.codes) :
    ∃ e ∈ pattern.exprs, ∃ ops, Gives (exprCode env e).value pools ops ∧ code = ops.toArray := by
  cases pattern with
  | all =>
    rw [← gives_pure.mp h] at hc
    cases hc
  | expr e =>
    obtain ⟨ops, hops, rfl⟩ := gives_map.mp h
    exact ⟨e, List.mem_singleton_self e, ops, hops, List.mem_singleton.mp hc⟩
  | range start stop =>
    obtain ⟨first, hfirst, last, hlast, rfl⟩ := gives_map₂.mp h
    rcases List.mem_cons.mp hc with rfl | hc
    · exact ⟨start, by simp [RulePattern.exprs], first, hfirst, rfl⟩
    · rw [List.mem_singleton.mp hc]
      exact ⟨stop, by simp [RulePattern.exprs], last, hlast, rfl⟩

lemma gives_ruleCode {rule : Rule} {c : CompiledRule} (h : Gives (ruleCode env rule) pools c) :
    Gives (guardCode env rule.pattern) pools c.guard ∧
      ∀ code ∈ c.body, ∃ body ∈ rule.body, Gives (blockCode env body) pools code := by
  rw [ruleCode] at h
  cases hb : rule.body with
  | none =>
    rw [hb] at h
    obtain ⟨guard, hguard, rfl⟩ := gives_map.mp h
    exact ⟨hguard, nofun⟩
  | some body =>
    rw [hb] at h
    obtain ⟨guard, hguard, code, hcode, rfl⟩ := gives_map₂.mp h
    exact ⟨hguard, fun _ hc => ⟨body, rfl, Option.mem_some_iff.mp hc ▸ hcode⟩⟩

end Compile

variable {p : Program} {r : Resolution}

lemma Program.CompiledFrom.verified (hp : p.CompiledFrom r) (hr : r.Sound) (hs : r.script.Proper) : p.Verified := by
  have hset := setting_main hr hp
  constructor
  case begin =>
    intro code hcode
    obtain ⟨body, hbody, hg⟩ := forall₂_exists hp.begin (Array.mem_toList_iff.mpr hcode)
    exact verified_block hset (hr.kinded.begin body hbody) (hs.begin body hbody) hg
  case guards =>
    intro c hc code hcode
    obtain ⟨rule, hrule, hg⟩ := forall₂_exists hp.rules (Array.mem_toList_iff.mpr hc)
    obtain ⟨e, he, ops, hops, rfl⟩ := gives_guardCode (gives_ruleCode hg).1 hcode
    exact verified_pattern hset (hr.kinded.patterns rule hrule e he) (hs.patterns rule hrule e he) hops
  case bodies =>
    intro c hc code hcode
    obtain ⟨rule, hrule, hg⟩ := forall₂_exists hp.rules (Array.mem_toList_iff.mpr hc)
    obtain ⟨body, hbody, hg⟩ := (gives_ruleCode hg).2 code hcode
    exact verified_block hset (hr.kinded.bodies rule hrule body hbody) (hs.bodies rule hrule body hbody) hg
  case final =>
    intro code hcode
    obtain ⟨body, hbody, hg⟩ := forall₂_exists hp.final (Array.mem_toList_iff.mpr hcode)
    exact verified_block hset (hr.kinded.final body hbody) (hs.final body hbody) hg
  case functions =>
    intro c hc
    obtain ⟨f, hf, hg⟩ := forall₂_exists hp.functions (Array.mem_toList_iff.mpr hc)
    obtain ⟨i, hi⟩ := List.mem_iff_getElem?.mp hf
    obtain ⟨info, -, hbody, -⟩ := gives_functionCode hg
    exact verified_block (setting_function hr hp hi hg) (hr.kinded.functions f hf) (hs.functions f hf) hbody
  case distinct => exact hp.distinct

lemma Program.ofSource_parts {source : String} {natives : List NativeFunc}
    (h : Program.ofSource source natives = .ok p) : ∃ r, Resolution.ofSource source natives = .ok r ∧
      p.CompiledFrom r ∧ r.Sound ∧ r.script.Proper := by
  obtain ⟨r, hr, hcompile⟩ := bind_eq_ok.mp h
  obtain ⟨tokens, -, h⟩ := bind_eq_ok.mp hr
  obtain ⟨script, hscript, hresolve⟩ := bind_eq_ok.mp h
  obtain ⟨hscript', hsound⟩ := Resolution.ofScript_sound (mapError_eq_ok.mp hresolve)
  refine ⟨r, hr, Resolution.compile_compiledFrom (mapError_eq_ok.mp hcompile), hsound, ?_⟩
  rw [hscript']
  exact Script.ofTokens_proper (mapError_eq_ok.mp hscript)

/-! ## Loops over arrays -/

/-- Every loop over an array in code stands for one of some statements, and the instructions of its body,
as many as the loop tells, are the code of the body of that statement. -/
def Code.Covers (pools : Pools) (env : Env) (body : List Stmt) (code : Code) : Prop :=
  ∀ i v a n, code[i]? = some (.forIn v a n) → ∃ loop ∈ forInsBody body, ∃ round,
    Gives (env.scalar loop.var) pools v ∧ Gives (env.array loop.array) pools a ∧
    Gives (bodyCode env loop.body) pools round ∧ round.length = n ∧
    code.extract (i + 1) (i + 1 + n) = (closeForIn round).toArray

/-- The loops over arrays of a program are those of its script, block by block; patterns have none. -/
structure Program.LoopsFrom (p : Program) (r : Resolution) : Prop where
  begin : List.Forall₂ (Code.Covers p.pools ⟨r, none⟩) r.script.begin p.begin.toList
  guards : ∀ rule ∈ p.rules, ∀ code ∈ rule.guard.codes, code.Covers p.pools ⟨r, none⟩ []
  bodies : List.Forall₂ (fun rule c => ∀ code ∈ c.body, ∃ body ∈ rule.body,
    Code.Covers p.pools ⟨r, none⟩ body code) r.script.rules p.rules.toList
  final : List.Forall₂ (Code.Covers p.pools ⟨r, none⟩) r.script.final p.final.toList
  functions : List.Forall₂ (fun f c => Code.Covers p.pools ⟨r, some f.name⟩ f.body c.body)
    r.script.functions p.functions.toList

namespace Compile

variable {p : Program} {r : Resolution}

variable {env : Env} {body : List Stmt} {room : Room}

lemma covers_block (hset : Setting p room env) (hk : BodyKinded env body) (hb : ProperBody body) {code : Code}
    (h : Gives (blockCode env body) p.pools code) : code.Covers p.pools env body := by
  obtain ⟨pieces, hpieces, rfl⟩ := gives_blockCode h
  exact fun _ _ _ _ => (body_shape hset hk hb.calls (List.Subset.refl _) hpieces).covers rfl

lemma covers_pattern (hset : Setting p room env) {e : Expr} (hk : e.Kinded env) (he : e.Proper) {code : List Op}
    (h : Gives (exprCode env e).value p.pools code) : Code.Covers p.pools env [] code.toArray :=
  fun _ _ _ _ => ((expr_shapes hset hk he).value h (Covered env p.pools []) 0).covers (by rw [map_settled_ops])

end Compile

lemma Program.CompiledFrom.loopsFrom (hp : p.CompiledFrom r) (hr : r.Sound) (hs : r.script.Proper) :
    p.LoopsFrom r := by
  have hset := setting_main hr hp
  constructor
  case begin =>
    exact forall₂_imp_mem hp.begin fun body hbody code hg =>
      covers_block hset (hr.kinded.begin body hbody) (hs.begin body hbody) hg
  case guards =>
    intro c hc code hcode
    obtain ⟨rule, hrule, hg⟩ := forall₂_exists hp.rules (Array.mem_toList_iff.mpr hc)
    obtain ⟨e, he, ops, hops, rfl⟩ := gives_guardCode (gives_ruleCode hg).1 hcode
    exact covers_pattern hset (hr.kinded.patterns rule hrule e he) (hs.patterns rule hrule e he) hops
  case bodies =>
    refine forall₂_imp_mem hp.rules fun rule hrule c hg code hcode => ?_
    obtain ⟨body, hbody, hg⟩ := (gives_ruleCode hg).2 code hcode
    exact ⟨body, hbody, covers_block hset (hr.kinded.bodies rule hrule body hbody)
      (hs.bodies rule hrule body hbody) hg⟩
  case final =>
    exact forall₂_imp_mem hp.final fun body hbody code hg =>
      covers_block hset (hr.kinded.final body hbody) (hs.final body hbody) hg
  case functions =>
    refine forall₂_imp_mem hp.functions fun f hf c hg => ?_
    obtain ⟨i, hi⟩ := List.mem_iff_getElem?.mp hf
    obtain ⟨info, -, hbody, -⟩ := gives_functionCode hg
    exact covers_block (setting_function hr hp hi hg) (hr.kinded.functions f hf) (hs.functions f hf) hbody

/-! ## Program texts -/

/-- Every compiled program passes the verifier: for every block there are heights of the stack that all ways
respect, jumps stay in the block and in the bodies of loops over arrays, calls have their arguments, all
numbers exist, and no constant is there twice.  The body of every loop over an array is the code of its
statements and nothing more. -/
theorem Program.ofSource_verified {source : String} {natives : List NativeFunc} {p : Program}
    (h : Program.ofSource source natives = .ok p) :
    p.Verified ∧ ∃ r, Resolution.ofSource source natives = .ok r ∧ p.LoopsFrom r := by
  obtain ⟨r, hr, hp, hsound, hproper⟩ := Program.ofSource_parts h
  exact ⟨hp.verified hsound hproper, r, hr, hp.loopsFrom hsound hproper⟩

/-- A program with a loop over an array in a function, a call that leaves out an argument, a choice in an
expression, and a range. -/
def loopProgram : String :=
  "function f(a, n) { for (k in a) { if (n) break; n = f(a) } return k } /x/, $y { y = f(b, y) ? y z : c[k, y]++ }"

theorem loopProgram_verified : ∃ p, Program.ofSource loopProgram [] = .ok p ∧ p.Verified ∧
    ∃ r, Resolution.ofSource loopProgram [] = .ok r ∧ p.LoopsFrom r := by
  obtain ⟨p, hp⟩ := exists_eq_ok (x := Program.ofSource loopProgram []) (by decide +kernel)
  exact ⟨p, hp, Program.ofSource_verified hp⟩

end Awk
