import Awk.Proofs.Resolution.Constraints

/-!
# The kinds of a resolved program

In the end the kinds that are known meet every constraint of the program (`kinds_suit`), with a scalar where
nothing is known.  All that is known is forced, so that no more variables are arrays than have to be: the arrays are those
that links between arguments and parameters connect with a use as an array.
-/

namespace Awk

def Resolution.kindAt (r : Resolution) (func : Option String) (name : String) : Option Kind :=
  (r.lookupVar func name).map (·.2.kind)

variable {i : Nat} {f : Function}

namespace Infer

variable {s : Script} {natives : List NativeFunc} {fs : Functions} {k : Knowledge} {func : Option String}
  {name : String}

/-! ## Nothing is forgotten -/

/-- What is known, and which global names there are, is still so; and if anything has changed there is a new name, or a
kind that was not known. -/
structure Knowledge.Gains (k k' : Knowledge) : Prop where
  known : ∀ v κ, k.kindOf v = some κ → k'.kindOf v = some κ
  names : ∀ x ∈ k.globals, x ∈ k'.globals
  change : k' ≠ k → (∃ x ∈ k'.globals, x ∉ k.globals) ∨ ∃ v, k.kindOf v = none ∧ (k'.kindOf v).isSome = true

lemma Knowledge.Gains.trans {k k' k'' : Knowledge} (h : k.Gains k') (h' : k'.Gains k'') : k.Gains k'' where
  known v κ hv := h'.known v κ (h.known v κ hv)
  names x hx := h'.names x (h.names x hx)
  change hne := by
    by_cases heq : k' = k
    · exact heq ▸ h'.change (heq ▸ hne)
    · refine (h.change heq).imp (fun ⟨x, hx, hnew⟩ => ⟨x, h'.names x hx, hnew⟩) fun ⟨v, hnone, hsome⟩ => ⟨v, hnone, ?_⟩
      obtain ⟨κ, hκ⟩ := Option.isSome_iff_exists.mp hsome
      rw [h'.known v κ hκ]
      rfl

/-- Knowledge grows, as long as its parameters are those of the functions. -/
def Knowledge.Grows (fs : Functions) (k k' : Knowledge) : Prop := k.Fits fs → k'.Fits fs ∧ k.Gains k'

instance : IsPreorder Knowledge (Knowledge.Grows fs) where
  refl _ hk := ⟨hk, fun _ _ hv => hv, fun _ hx => hx, fun hne => absurd rfl hne⟩
  trans _ _ _ h h' hk := ⟨(h' (h hk).1).1, (h hk).2.trans (h' (h hk).1).2⟩

variable {extent : Extent} {κ : Kind}

lemma grows_record (hfs : fs.Of s) {func : Option String} {name : String} {kind : Option Kind} :
    Respects (Knowledge.Grows fs) (record fs func name kind extent) := by
  intro k _ k' h hk
  refine ⟨(careful_record _ _ _ h).fits hk, ?_⟩
  obtain ⟨rfl, -⟩ | ⟨hnone, hkinds, hnames, hnew⟩ := record_cases hfs hk h
  · exact ⟨fun _ _ hv => hv, fun _ hx => hx, fun hne => absurd rfl hne⟩
  · refine ⟨fun v κ hv => ?_, fun x hx => (hnames x).mpr (.inl hx), fun _ => ?_⟩
    · rw [hkinds, if_neg (by rintro rfl; simp [hnone] at hv), hv]
    · cases kind with
      | none =>
        obtain ⟨x, hvar, hx⟩ := hnew rfl
        exact .inl ⟨x, (hnames x).mpr (.inr hvar), hx⟩
      | some κ => exact .inr ⟨_, hnone, by rw [hkinds, if_pos rfl]; rfl⟩

/-! ## Knowledge that no use changes -/

/-- Knowledge that no use of the program changes any more, and that has the arrays of the start. -/
structure Saturated (fs : Functions) (s : Script) (k : Knowledge) : Prop where
  fits : k.Fits fs
  performed : ∀ {func u}, (func, u) ∈ s.uses → Holds (perform fs func u) k ()
  argv : k.kindOf (.global "ARGV") = some .array
  environ : k.kindOf (.global "ENVIRON") = some .array

lemma kindOf_of_record (hfs : fs.Of s) {k₀ : Knowledge} (hk : k₀.Fits fs)
    (h : (record fs func name (some κ) extent).run k₀ = .ok ((), k)) :
    k.kindOf (s.variable func name) = some κ := by
  obtain ⟨rfl, hknown, -⟩ | ⟨-, hkinds, -⟩ := record_cases hfs hk h
  · exact hknown κ rfl
  · rw [hkinds, if_pos rfl]

lemma infer_saturated (hfs : fs.Of s) (h : (infer fs s).run (start s) = .ok ((), k)) : Saturated fs s k := by
  have hstart := start_fits hfs
  have hinfer := h
  obtain ⟨_, k₁, h₁, h⟩ := run_bind_eq_ok.mp h
  obtain ⟨_, k₂, h₂, h⟩ := run_bind_eq_ok.mp h
  obtain ⟨hk₁, -⟩ := grows_record hfs _ _ _ h₁ hstart
  obtain ⟨hk₂, hkeep₂⟩ := grows_record hfs _ _ _ h₂ hk₁
  have hrest : Respects (Knowledge.Grows fs) (do
      let updates := (← get).updates
      walkScript fs s s.callGraph.sorted
      settle fs s s.callGraph.sorted maxWalks updates) :=
    Respects.get.bind fun _ => (respects_walkScript (grows_record hfs) _).bind
      fun _ => respects_settle (respects_walkScript (grows_record hfs) _)
  obtain ⟨hk, hkeep⟩ := hrest _ _ _ h hk₂
  exact ⟨hk, infer_performed hfs hinfer, hkeep.known _ _ (hkeep₂.known _ _ (kindOf_of_record hfs hstart h₁)),
    hkeep.known _ _ (kindOf_of_record hfs hk₁ h₂)⟩

def Knowledge.finalKind (k : Knowledge) (v : Variable) : Kind := (k.kindOf v).getD .scalar

lemma kindAt_finish (hfs : fs.Of s) (hk : k.Fits fs) (func : Option String) (name : String) :
    (finish s fs k).kindAt func name =
      (k.find func name).map fun _ => k.finalKind (s.variable func name) := by
  have hfound := find_kind hfs hk func name
  cases hfind : k.find func name with
  | some found =>
    rw [hfind, Option.bind_some] at hfound
    obtain ⟨info, hlook, hkind⟩ := finish_lookupVar hfs hk hfind
    rw [Resolution.kindAt, hlook, Option.map_some, Option.map_some, hkind, Knowledge.finalKind, hfound]
  | none =>
    rw [Knowledge.find] at hfind
    split at hfind
    · cases hfind
    · rename_i hlocal
      split at hfind
      · cases hfind
      · rename_i hspecial
        rw [Option.map_eq_none_iff] at hfind
        have hnone : (func.bind fun f => (finish s fs k).locals[f]?.bind fun table => table[name]?) =
            none := by
          cases func with
          | none => rfl
          | some f => exact finish_no_param hk hlocal
        have hnumber : (finish s fs k).globals[name]? = none := by
          rw [finish]
          dsimp only
          rw [number_getElem?_of_notMem]
          · simp
          · rw [Std.TreeMap.mem_keys, Std.TreeMap.mem_iff_isSome_getElem?, hfind]
            simp
        rw [Resolution.kindAt, Resolution.lookupVar, hnone]
        dsimp only
        rw [Option.not_isSome_iff_eq_none.mp hspecial]
        dsimp only
        rw [hnumber]
        rfl

lemma finalKind_of_kindAt (hfs : fs.Of s) (hk : k.Fits fs)
    (h : (finish s fs k).kindAt func name = some κ) : k.finalKind (s.variable func name) = κ := by
  rw [kindAt_finish hfs hk] at h
  obtain ⟨_, -, h⟩ := Option.map_eq_some_iff.mp h
  exact h

lemma kindAt_of_hasKind {r : Resolution} (h : Compile.Env.HasKind ⟨r, func⟩ name κ) :
    r.kindAt func name = some κ := by
  obtain ⟨scope, info, hlook, rfl⟩ := h
  rw [Resolution.kindAt, hlook]
  rfl

section

variable (hfs : fs.From s natives) (hk : Saturated fs s k)

include hfs hk

lemma Saturated.passed {v : VarRef}
    (hu : (func, .passed name i v extent) ∈ s.uses) :
    ∃ info, fs.infos[name]? = some info ∧
      ((info.native = true ∧ s.CallsNative natives func name ∧
          (finish s fs k).kindAt func v.name = some .scalar) ∨
        ∃ j f p, info = ownInfo j f ∧ s.functions[j]? = some f ∧ s.Calls func name f ∧
          f.params[i]? = some p ∧
          (finish s fs k).kindAt func v.name = some (k.finalKind (.param name p))) := by
  obtain ⟨info, hcallee, -⟩ :=
    (holds_bind respects_callee fun _ => respects_recordArg careful_record).mp (hk.performed hu)
  obtain ⟨-, hlocal, hinfo, -⟩ := run_callee.mp hcallee
  rw [isLocal_eq hfs.of hk.fits] at hlocal
  have hpassed := passed_holds hfs.of hk.fits hinfo (hk.performed hu)
  refine ⟨info, hinfo, ?_⟩
  rcases hfs.calls hlocal hinfo with ⟨hn, -, hcalls⟩ | ⟨j, f, rfl, hj, hcalls⟩
  · exact .inl ⟨hn, hcalls, kindAt_of_hasKind (hpassed.1 hn)⟩
  · obtain ⟨p, hp, hkind⟩ := hpassed.2 rfl
    exact .inr ⟨j, f, p, rfl, hj, hcalls, hp, kindAt_of_hasKind hkind⟩

lemma Saturated.computed {arg : Expr}
    (hu : (func, .computed name i arg extent) ∈ s.uses) :
    ∃ info, fs.infos[name]? = some info ∧
      ((info.native = true ∧ s.CallsNative natives func name) ∨
        ∃ j f p, info = ownInfo j f ∧ s.functions[j]? = some f ∧ s.Calls func name f ∧
          f.params[i]? = some p ∧ k.finalKind (.param name p) = .scalar) := by
  obtain ⟨info, hcallee, -⟩ := (holds_bind respects_callee fun _ => respects_checkArg).mp (hk.performed hu)
  obtain ⟨-, hlocal, hinfo, -⟩ := run_callee.mp hcallee
  rw [isLocal_eq hfs.of hk.fits] at hlocal
  refine ⟨info, hinfo, ?_⟩
  rcases hfs.calls hlocal hinfo with ⟨hn, -, hcalls⟩ | ⟨j, f, rfl, hj, hcalls⟩
  · exact .inl ⟨hn, hcalls⟩
  · obtain ⟨p, hp, hkind⟩ := computed_holds hfs.of hinfo (hk.performed hu) rfl
    refine .inr ⟨j, f, p, rfl, hj, hcalls, hp, ?_⟩
    rw [Knowledge.isArrayParam, decide_eq_false_iff_not] at hkind
    rw [Knowledge.finalKind, Knowledge.kindOf]
    cases h : (k.paramKind name p).getD .scalar with
    | scalar => rfl
    | array => exact absurd h hkind

omit hk in
lemma Functions.From.calls_unique {g : Function} (hf : s.Calls func name f) (hg : s.Calls func name g) :
    f = g :=
  List.inj_on_of_nodup_map hfs.of.names hf.2.1 hg.2.1 (hf.2.2.trans hg.2.2.symm)

lemma kinds_suit : s.Suits natives k.finalKind where
  scalar hu := by rw [Knowledge.finalKind, kindOf_of_record hfs.of hk.fits (hk.performed hu)]; rfl
  array hv := by
    cases hv with
    | use hu => rw [Knowledge.finalKind, kindOf_of_record hfs.of hk.fits (hk.performed hu)]; rfl
    | argv => rw [Knowledge.finalKind, hk.argv]; rfl
    | environ => rw [Knowledge.finalKind, hk.environ]; rfl
  special _ := rfl
  link hl := by
    obtain ⟨hu, hcalls, hp⟩ := hl
    obtain ⟨info, -, ⟨-, hnative, -⟩ | ⟨j, g, q, -, -, hcalls', hq, hkind⟩⟩ := hk.passed hfs hu
    · exact absurd hcalls.2.2 (hnative.2.1 _ hcalls.2.1)
    · obtain rfl := hfs.calls_unique hcalls hcalls'
      obtain rfl := Option.some.inj (hp.symm.trans hq)
      exact finalKind_of_kindAt hfs.of hk.fits hkind
  native hu hcalls := by
    obtain ⟨info, -, ⟨-, -, hkind⟩ | ⟨j, g, q, -, -, hcalls', -⟩⟩ := hk.passed hfs hu
    · exact finalKind_of_kindAt hfs.of hk.fits hkind
    · exact absurd hcalls'.2.2 (hcalls.2.1 _ hcalls'.2.1)
  computed hu hcalls hp := by
    obtain ⟨info, -, ⟨-, hnative⟩ | ⟨j, g, q, -, -, hcalls', hq, hkind⟩⟩ := hk.computed hfs hu
    · exact absurd hcalls.2.2 (hnative.2.1 _ hcalls.2.1)
    · obtain rfl := hfs.calls_unique hcalls hcalls'
      obtain rfl := Option.some.inj (hp.symm.trans hq)
      exact hkind

end

end Infer

/-! ## Arrays are those that have to be -/

namespace Script.Suits

variable {s : Script} {natives : List NativeFunc} {A : Variable → Kind} (hA : s.Suits natives A)

include hA

variable {v : Variable}

lemma connected {w : Variable} (h : Relation.EqvGen s.Link v w) : A v = A w := by
  induction h with
  | rel _ _ h => exact hA.link h
  | refl _ => rfl
  | symm _ _ _ ih => exact ih.symm
  | trans _ _ _ _ _ ih₁ ih₂ => exact ih₁.trans ih₂

lemma linkedToArray (h : s.LinkedToArray v) : A v = .array := by
  obtain ⟨w, hw, harray⟩ := h
  exact (hA.connected hw).trans (hA.array harray)

open Classical in
lemma least : s.Suits natives fun v => if s.LinkedToArray v then .array else .scalar := by
  have hscalar : ∀ v, A v = .scalar → (if s.LinkedToArray v then Kind.array else .scalar) = .scalar := by
    intro v hv
    rw [if_neg]
    intro hlinked
    rw [hA.linkedToArray hlinked] at hv
    cases hv
  constructor
  case scalar => exact fun hu => hscalar _ (hA.scalar hu)
  case array => exact fun {v} hv => if_pos ⟨v, .refl v, hv⟩
  case special => exact fun name => hscalar _ (hA.special name)
  case link =>
    intro v w hl
    have hiff : s.LinkedToArray v ↔ s.LinkedToArray w :=
      ⟨fun ⟨u, hu, harray⟩ => ⟨u, .trans _ _ _ (.symm _ _ (.rel _ _ hl)) hu, harray⟩,
        fun ⟨u, hu, harray⟩ => ⟨u, .trans _ _ _ (.rel _ _ hl) hu, harray⟩⟩
    simp only [hiff]
  case native => exact fun hu hcalls => hscalar _ (hA.native hu hcalls)
  case computed => exact fun hu hcalls hp => hscalar _ (hA.computed hu hcalls hp)

end Script.Suits

/-- The kinds of a resolution are those that the uses in its program tell, and the arrays are exactly the
variables that have to be arrays. -/
structure Resolution.Exact (r : Resolution) (s : Script) : Prop where
  array : ∀ {func v}, (func, .array v) ∈ s.uses → r.kindAt func v.name = some .array
  scalar : ∀ {func v}, (func, .scalar v) ∈ s.uses → r.kindAt func v.name = some .scalar
  called : ∀ {func name count extent}, (func, .call name count extent) ∈ s.uses →
    ∃ info, r.lookupFunc name = some info ∧ ∀ most ∈ info.arity, count ≤ most
  passed : ∀ {func name i v extent}, (func, .passed name i v extent) ∈ s.uses →
    ∃ info, r.lookupFunc name = some info ∧
      if info.native then r.kindAt func v.name = some .scalar
      else ∃ p κ, info.params[i]? = some p ∧ r.kindAt func v.name = some κ ∧
        r.kindAt (some name) p = some κ
  computed : ∀ {func name i arg extent}, (func, .computed name i arg extent) ∈ s.uses →
    ∃ info, r.lookupFunc name = some info ∧
      (info.native = false → ∃ p, info.params[i]? = some p ∧ r.kindAt (some name) p = some .scalar)
  arrays : ∀ func name, r.kindAt func name = some .array ↔ s.LinkedToArray (s.variable func name)

namespace Infer

variable {s : Script} {natives : List NativeFunc} {fs : Functions} {k : Knowledge} {func : Option String}
  {name : String}

section

variable (hfs : fs.From s natives) (hk : Saturated fs s k)

include hfs hk

lemma kindAt_array_iff : (finish s fs k).kindAt func name = some .array ↔
    k.kindOf (s.variable func name) = some .array := by
  have hfound := find_kind hfs.of hk.fits func name
  rw [kindAt_finish hfs.of hk.fits, ← hfound, Knowledge.finalKind, ← hfound]
  cases k.find func name with
  | none => simp
  | some found =>
    obtain ⟨scope, kind⟩ := found
    cases kind with
    | none | some kind => simp

lemma kindAt_param {p : String} (hf : s.Calls func name f)
    (hp : f.params[i]? = some p) :
    (finish s fs k).kindAt (some name) p = some (k.finalKind (.param name p)) := by
  obtain ⟨-, hmem, rfl⟩ := hf
  have hparam := List.mem_of_getElem? hp
  obtain ⟨j, hj⟩ := List.mem_iff_getElem?.mp hmem
  obtain ⟨kinds, hkinds, hget⟩ := hk.fits.param (hfs.of.own j f hj).1 hparam
  have hfind : k.find (some f.name) p = some ⟨.local, k.paramKind f.name p⟩ := by
    rw [Knowledge.find, Option.bind_some, hkinds, Option.bind_some, hget]
  rw [kindAt_finish hfs.of hk.fits, hfind, Option.map_some, variable_param hmem hparam]

/-- A function that can be called is one of the resolution, with its parameters and arity. -/
lemma lookupFunc_finish {info : FuncInfo} (hinfo : fs.infos[name]? = some info) :
    ∃ info', (finish s fs k).lookupFunc name = some info' ∧ info'.native = info.native ∧
      info'.params = info.params ∧ info'.arity = info.arity := by
  rcases hfs.of.cases name info hinfo with ⟨hn, -⟩ | ⟨i, f, hi, rfl, rfl⟩
  · exact ⟨info, finish_lookupFunc_native hinfo hn, rfl, rfl, rfl⟩
  · exact ⟨_, finish_lookupFunc hfs.of hk.fits hi, rfl, rfl, rfl⟩

end

lemma finish_exact (hfs : fs.From s natives) (h : (infer fs s).run (start s) = .ok ((), k)) :
    (finish s fs k).Exact s := by
  have hk := infer_saturated hfs.of h
  have hsuit := kinds_suit hfs hk
  constructor
  case array =>
    exact fun hu => kindAt_of_hasKind (hasKind_of_record hfs.of hk.fits (hk.performed hu))
  case scalar =>
    exact fun hu => kindAt_of_hasKind (hasKind_of_record hfs.of hk.fits (hk.performed hu))
  case called =>
    intro func name count extent hu
    obtain ⟨info, hcallee, -⟩ :=
      (holds_bind respects_callee fun _ => .pure _).mp (hk.performed hu)
    obtain ⟨-, -, hinfo, harity⟩ := run_callee.mp hcallee
    obtain ⟨info', hlook, -, -, heq⟩ := lookupFunc_finish hfs hk hinfo
    exact ⟨info', hlook, fun n hn => harity n (heq ▸ hn)⟩
  case passed =>
    intro func name i v extent hu
    obtain ⟨info, hinfo, hcases⟩ := hk.passed hfs hu
    obtain ⟨info', hlook, hnative, hparams, -⟩ := lookupFunc_finish hfs hk hinfo
    refine ⟨info', hlook, ?_⟩
    rw [hnative, hparams]
    obtain ⟨hn, -, hkind⟩ | ⟨j, f, p, rfl, -, hcalls, hp, hkind⟩ := hcases
    · rwa [if_pos hn]
    · rw [if_neg (by simp [ownInfo])]
      exact ⟨p, _, hp, hkind, kindAt_param hfs hk hcalls hp⟩
  case computed =>
    intro func name i arg extent hu
    obtain ⟨info, hinfo, hcases⟩ := hk.computed hfs hu
    obtain ⟨info', hlook, hnative, hparams, -⟩ := lookupFunc_finish hfs hk hinfo
    refine ⟨info', hlook, ?_⟩
    rw [hnative, hparams]
    obtain ⟨hn, -⟩ | ⟨j, f, p, rfl, -, hcalls, hp, hkind⟩ := hcases
    · rw [hn]
      rintro ⟨⟩
    · exact fun _ => ⟨p, hp, by rw [kindAt_param hfs hk hcalls hp, hkind]⟩
  case arrays =>
    intro func name
    rw [kindAt_array_iff hfs hk]
    constructor
    · -- what is known is forced by the least assignment
      intro hknown
      have hforced := agreeing_infer hfs hsuit.least _ (start_forced hfs hsuit.least)
      rw [h] at hforced
      have harray := hforced.known _ _ hknown
      by_contra hlinked
      rw [if_neg hlinked] at harray
      cases harray
    · intro hlinked
      have harray := hsuit.linkedToArray hlinked
      rw [Knowledge.finalKind] at harray
      cases hkind : k.kindOf (s.variable func name) with
      | none =>
        rw [hkind] at harray
        cases harray
      | some κ =>
        rw [hkind] at harray
        exact congrArg some harray

end Infer

/-- Kinds are inferred soundly and exactly: all uses of variables agree with their kinds, arguments with
parameters, and the arrays are the variables that a chain of arguments and parameters connects with a use as
an array. -/
theorem Resolution.ofScript_exact {s : Script} {natives : List NativeFunc} {r : Resolution}
    (h : Resolution.ofScript s natives = .ok r) : r.Exact s := by
  obtain ⟨fs, hfs, h⟩ := bind_eq_ok.mp h
  obtain ⟨⟨_, k⟩, hinfer, h⟩ := bind_eq_ok.mp h
  cases h
  exact Infer.finish_exact (Infer.addFunctions_from hfs) hinfer

/-- Kinds flow down to a function that is called through two others, and from there up to a global
variable. -/
def chainProgram : String :=
  "function f(a, n) { return n ? f(a, n - 1) : g(a) } function g(x) { return h(x) + id(NR) } function h(z) { return 1 in z } BEGIN { print f(u, 2), length(w), f(ENVIRON, k) }"

theorem chainProgram_exact : ∃ s r,
    (Token.lex chainProgram).toOption.bind (fun ts => (Script.ofTokens ts).toOption) = some s ∧
      Resolution.ofScript s [⟨"id", some 1⟩] = .ok r ∧ r.Exact s := by
  have hsome : (((Token.lex chainProgram).toOption.bind fun ts => (Script.ofTokens ts).toOption).any
    fun s => (Resolution.ofScript s [⟨"id", some 1⟩]).isOk) = true := by decide +kernel
  rw [Option.any_eq_true] at hsome
  obtain ⟨s, hs, hok⟩ := hsome
  cases hr : Resolution.ofScript s [⟨"id", some 1⟩] with
  | error e =>
    rw [hr] at hok
    cases hok
  | ok r => exact ⟨s, r, hs, hr, Resolution.ofScript_exact hr⟩

end Awk
