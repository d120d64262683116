import Awk.Compile.Script
import Awk.Proofs.Resolution.Kinds

/-!
# Kinds as constraints

The uses in a program constrain the kinds of its variables: a subscript makes an array, an argument has the
kind of its parameter.  `Script.Suits` says that an assignment of kinds to all variables meets every
constraint.  Inference is compared with it.

Nothing is guessed: every kind that is known at any time of any walk is the one that every suiting assignment
has.  That is shown for one use (`agreeing_perform`) and then for all walks (`agreeing_infer`).  Hence an
error about kinds means that there is no such assignment.
-/

namespace Awk

/-- A variable of a program: a parameter of a function, a special variable or a global one. -/
inductive Variable where
  | param (func name : String)
  | special (name : String)
  | global (name : String)
deriving DecidableEq, Repr

namespace Script

variable (s : Script)

def hasParam (f name : String) : Bool := s.functions.any fun g => g.name == f && g.params.contains name

def isLocal (func : Option String) (name : String) : Bool := func.any (s.hasParam · name)

/-- The variable that a name refers to inside a function, or outside all functions. -/
def «variable» (func : Option String) (name : String) : Variable :=
  match func with
  | some f => if s.hasParam f name then .param f name else outer
  | none => outer
where
  outer : Variable := if (Special.ofName? name).isSome then .special name else .global name

def Calls (func : Option String) (name : String) (f : Function) : Prop :=
  s.isLocal func name = false ∧ f ∈ s.functions ∧ f.name = name

def CallsNative (natives : List NativeFunc) (func : Option String) (name : String) : Prop :=
  s.isLocal func name = false ∧ (∀ f ∈ s.functions, f.name ≠ name) ∧ ∃ n ∈ natives, n.name = name

/-- A variable is an argument for a parameter. -/
inductive Link : Variable → Variable → Prop
  | intro {func : Option String} {name : String} {i : Nat} {v : VarRef} {extent : Extent} {f : Function}
      {p : String} (use : (func, .passed name i v extent) ∈ s.uses) (calls : s.Calls func name f)
      (param : f.params[i]? = some p) : Link (s.variable func v.name) (.param name p)

/-- A variable that the program itself uses as an array, or one that is an array from the start. -/
inductive UsedAsArray : Variable → Prop
  | use {func : Option String} {v : VarRef} (use : (func, .array v) ∈ s.uses) :
      UsedAsArray (s.variable func v.name)
  | argv : UsedAsArray (.global "ARGV")
  | environ : UsedAsArray (.global "ENVIRON")

/-- Links, in either direction, lead from a variable to one that is used as an array. -/
def LinkedToArray (v : Variable) : Prop := ∃ w, Relation.EqvGen s.Link v w ∧ s.UsedAsArray w

/-- An assignment of kinds meets every constraint of a program. -/
structure Suits (natives : List NativeFunc) (A : Variable → Kind) : Prop where
  scalar : ∀ {func v}, (func, .scalar v) ∈ s.uses → A (s.variable func v.name) = .scalar
  array : ∀ {v}, s.UsedAsArray v → A v = .array
  special : ∀ name, A (.special name) = .scalar
  link : ∀ {v w}, s.Link v w → A v = A w
  native : ∀ {func name i v extent}, (func, .passed name i v extent) ∈ s.uses →
    s.CallsNative natives func name → A (s.variable func v.name) = .scalar
  computed : ∀ {func name i arg extent f p}, (func, .computed name i arg extent) ∈ s.uses →
    s.Calls func name f → f.params[i]? = some p → A (.param name p) = .scalar

end Script

def ResolveError.isKind : ResolveError → Bool
  | kindConflict .. | argKindMismatch .. | scalarAsArrayParam .. => true
  | _ => false

namespace Infer

variable {s : Script} {fs : Functions} {k : Knowledge} {func : Option String} {name : String}

/-! ## What is known of a variable -/

def Knowledge.kindOf (k : Knowledge) : Variable → Option Kind
  | .param f p => k.paramKind f p
  | .special _ => some .scalar
  | .global x => (k.globals[x]?).join

def Knowledge.foundOf (k : Knowledge) : Variable → Option Found
  | .param f p => some ⟨.local, k.paramKind f p⟩
  | .special _ => some ⟨.special, some .scalar⟩
  | .global x => k.globals[x]?.map (Found.mk .global)

lemma isParam_eq (hfs : fs.Of s) (hk : k.Fits fs) (f name : String) :
    k.isParam f name = s.hasParam f name := by
  rw [Bool.eq_iff_iff, hk.isParam, Script.hasParam, List.any_eq_true]
  constructor
  · rintro ⟨info, hinfo, hname⟩
    rcases hfs.cases f info hinfo with ⟨-, hp⟩ | ⟨i, g, hi, rfl, rfl⟩
    · rw [hp] at hname
      cases hname
    · exact ⟨g, List.mem_of_getElem? hi, by simpa [ownInfo] using hname⟩
  · rintro ⟨g, hg, hand⟩
    simp only [Bool.and_eq_true, beq_iff_eq, List.contains_eq_mem, decide_eq_true_eq] at hand
    obtain ⟨i, hi⟩ := List.mem_iff_getElem?.mp hg
    exact ⟨_, hand.1 ▸ (hfs.own i g hi).1, hand.2⟩

lemma isLocal_eq (hfs : fs.Of s) (hk : k.Fits fs) :
    (func.any fun f => k.isParam f name) = s.isLocal func name := by
  simp only [Script.isLocal, isParam_eq hfs hk]

/-- What a name may refer to: a parameter of the function that it stands in, a special variable or a global one. -/
lemma variable_cases (s : Script) (func : Option String) (name : String) :
    (∃ f, func = some f ∧ s.hasParam f name = true ∧ s.variable func name = .param f name) ∨
      s.isLocal func name = false ∧ ((Special.ofName? name).isSome = true ∧ s.variable func name = .special name ∨
        Special.ofName? name = none ∧ s.variable func name = .global name) := by
  have houter : (Special.ofName? name).isSome = true ∧ Script.variable.outer name = .special name ∨
      Special.ofName? name = none ∧ Script.variable.outer name = .global name := by
    rw [Script.variable.outer]
    cases Special.ofName? name <;> simp
  cases func with
  | none => exact .inr ⟨rfl, houter⟩
  | some f =>
    cases hparam : s.hasParam f name with
    | true => exact .inl ⟨f, rfl, hparam, by rw [Script.variable, if_pos hparam]⟩
    | false => exact .inr ⟨hparam, by rwa [Script.variable, hparam, if_neg Bool.false_ne_true]⟩

section

variable (hfs : fs.Of s) (hk : k.Fits fs)

include hfs hk

/-- What is found under a name is what is known of the variable that the name refers to. -/
lemma find_eq (func : Option String) (name : String) : k.find func name = k.foundOf (s.variable func name) := by
  rw [Knowledge.find]
  obtain ⟨f, rfl, hparam, hvar⟩ | ⟨hlocal, hvar⟩ := variable_cases s func name
  · rw [← isParam_eq hfs hk] at hparam
    obtain ⟨kind, hkind⟩ := Option.isSome_iff_exists.mp hparam
    rw [hvar, Option.bind_some, hkind, Knowledge.foundOf, Knowledge.paramKind, hkind, Option.join_some]
  · have hnone : (func.bind fun f => k.locals[f]?.bind fun table => table[name]?) = none := by
      cases func with
      | none => rfl
      | some f => simpa [← isLocal_eq hfs hk, Knowledge.isParam] using hlocal
    rw [hnone]
    obtain ⟨hs, hvar⟩ | ⟨hs, hvar⟩ := hvar <;> simp [hvar, hs, Knowledge.foundOf]

lemma find_kind (func : Option String) (name : String) :
    (k.find func name).bind (·.kind) = k.kindOf (s.variable func name) := by
  rw [find_eq hfs hk]
  cases s.variable func name with
  | param f p | special x => rfl
  | global x =>
    rw [Knowledge.foundOf, Knowledge.kindOf]
    cases k.globals[x]? <;> rfl

end

lemma variable_param {f : Function} {p : String} (hf : f ∈ s.functions)
    (hp : p ∈ f.params) : s.variable (some f.name) p = .param f.name p := by
  rw [Script.variable, if_pos]
  rw [Script.hasParam, List.any_eq_true]
  exact ⟨f, hf, by simpa using hp⟩

variable {kind : Option Kind} {updates : Nat} {scope : Scope}

/-! ## Learning -/

lemma kindOf_insert_global (v : Variable) :
    Knowledge.kindOf { k with globals := k.globals.insert name kind, updates } v =
      if v = .global name then kind else k.kindOf v := by
  cases v with
  | param f p | special x => rfl
  | global x =>
    rw [Knowledge.kindOf, Std.TreeMap.getElem?_insert]
    by_cases hx : name = x
    · subst hx
      simp
    · rw [if_neg (by simpa using hx), if_neg (by simpa using Ne.symm hx), Knowledge.kindOf]

lemma kindOf_learn (hfs : fs.Of s) (hk : k.Fits fs)
    (h : k.find func name = some ⟨scope, none⟩) (kind : Kind) (v : Variable) :
    (k.learn func scope name kind).kindOf v =
      if v = s.variable func name then some kind else k.kindOf v := by
  have hfind := (find_eq hfs hk func name).symm.trans h
  obtain ⟨f, rfl, -, hvar⟩ | ⟨-, ⟨-, hvar⟩ | ⟨-, hvar⟩⟩ := variable_cases s func name <;> rw [hvar] at hfind ⊢
  · obtain rfl : Scope.local = scope := congrArg Found.scope (Option.some.inj hfind)
    obtain ⟨_, table, hf, htable, -⟩ := Knowledge.find_local h
    cases hf
    have hget : k.locals.getD f {} = table := by
      rw [Std.TreeMap.getD_eq_getD_getElem?, htable, Option.getD_some]
    rw [Knowledge.learn, hget]
    cases v with
    | special x | global x => rfl
    | param g p =>
      rw [Knowledge.kindOf, Knowledge.paramKind]
      by_cases hg : f = g
      · subst hg
        rw [Std.TreeMap.getElem?_insert_self, Option.bind_some, Std.TreeMap.getElem?_insert]
        by_cases hp : name = p
        · subst hp
          simp
        · rw [if_neg (by simpa using hp), if_neg (by simpa using Ne.symm hp), Knowledge.kindOf,
            Knowledge.paramKind, htable, Option.bind_some]
      · rw [Std.TreeMap.getElem?_insert, if_neg (by simpa using hg),
          if_neg (by simpa using fun h _ => hg h.symm), Knowledge.kindOf, Knowledge.paramKind]
  · cases hfind
  · obtain ⟨_, -, heq⟩ := Option.map_eq_some_iff.mp hfind
    cases heq
    exact kindOf_insert_global v

lemma mem_globals_learn {kind : Kind} {x : String} :
    x ∈ (k.learn func scope name kind).globals ↔ x ∈ k.globals ∨ scope = .global ∧ name = x := by
  cases scope with
  | «local» => cases func <;> simp [Knowledge.learn]
  | special => simp [Knowledge.learn]
  | global => simp [Knowledge.learn, or_comm]

/-- What recording a use comes to: either all that it says was known, or it is the first to say something of its
variable. -/
lemma record_cases (hfs : fs.Of s) (hk : k.Fits fs) {extent : Extent} {k' : Knowledge}
    (h : (record fs func name kind extent).run k = .ok ((), k')) :
    (k' = k ∧ (∀ κ ∈ kind, k.kindOf (s.variable func name) = some κ) ∧
      ∀ x, s.variable func name = .global x → x ∈ k.globals) ∨
    (k.kindOf (s.variable func name) = none ∧
      (∀ v, k'.kindOf v = if v = s.variable func name then kind else k.kindOf v) ∧
      (∀ x, x ∈ k'.globals ↔ x ∈ k.globals ∨ s.variable func name = .global x) ∧
      (kind = none → ∃ x, s.variable func name = .global x ∧ x ∉ k.globals)) := by
  have hfind := find_eq hfs hk func name
  have hfound := find_kind hfs hk func name
  rw [run_record] at h
  cases hname : k.find func name with
  | none =>
    rw [hname] at hfind hfound
    obtain ⟨f, -, -, hvar⟩ | ⟨-, ⟨-, hvar⟩ | ⟨-, hvar⟩⟩ := variable_cases s func name <;> rw [hvar] at hfind
    · cases hfind
    · cases hfind
    · have hnew : name ∉ k.globals := by
        rw [Std.TreeMap.mem_iff_isSome_getElem?, Option.map_eq_none_iff.mp hfind.symm]
        exact Bool.false_ne_true
      simp only [hname] at h
      split at h
      · cases h
      · cases h
        exact .inr ⟨hfound.symm, fun v => by rw [kindOf_insert_global, hvar],
          fun x => by simp [hvar, or_comm], fun _ => ⟨name, hvar, hnew⟩⟩
  | some found =>
    obtain ⟨scope, current⟩ := found
    rw [hname] at hfind hfound
    -- what is found of a global variable is in the table
    have hglobal : ∀ x, s.variable func name = .global x ↔ scope = .global ∧ name = x := by
      intro x
      obtain ⟨f, -, -, hvar⟩ | ⟨-, ⟨-, hvar⟩ | ⟨-, hvar⟩⟩ := variable_cases s func name <;> rw [hvar] at hfind ⊢
      · cases hfind
        simp
      · cases hfind
        simp
      · obtain ⟨_, -, heq⟩ := Option.map_eq_some_iff.mp hfind.symm
        cases heq
        simp
    have hmem : ∀ x, s.variable func name = .global x → x ∈ k.globals := by
      intro x hx
      rw [hx] at hfind
      obtain ⟨_, hget, -⟩ := Option.map_eq_some_iff.mp hfind.symm
      simp [Std.TreeMap.mem_iff_isSome_getElem?, hget]
    simp only [hname] at h
    split at h
    · split at h
      · cases h
      · rename_i heq
        cases h
        refine .inl ⟨rfl, fun κ hκ => ?_, hmem⟩
        cases hκ
        exact hfound.symm.trans (congrArg some (not_not.mp heq))
    · cases h
      refine .inr ⟨hfound.symm, kindOf_learn hfs hk hname _, fun x => ?_, nofun⟩
      rw [mem_globals_learn, hglobal]
    · cases h
      exact .inl ⟨rfl, nofun, hmem⟩

/-! ## Kinds that are forced -/

/-- All that is known is as in an assignment of kinds, and the parameters are those of the program. -/
structure Knowledge.Forced (k : Knowledge) (fs : Functions) (A : Variable → Kind) : Prop where
  fits : k.Fits fs
  known : ∀ v κ, k.kindOf v = some κ → A v = κ

/-- A computation goes on from what is forced by an assignment to what is forced by it, and does not fail because of
kinds. -/
abbrev Agreeing {α : Type} (fs : Functions) (A : Variable → Kind) (x : Learn α) : Prop :=
  Maintains (·.Forced fs A) (·.isKind = false) x

/-! ## One use -/

section

variable {A : Variable → Kind}

variable {extent : Extent} {info : FuncInfo} {i : Nat}

lemma agreeing_record (hfs : fs.Of s) (hkind : ∀ κ ∈ kind, A (s.variable func name) = κ) :
    Agreeing fs A (record fs func name kind extent) := by
  intro k hk
  cases hrun : (record fs func name kind extent).run k with
  | error e =>
    have hfound := find_kind hfs hk.fits func name
    rw [run_record] at hrun
    split at hrun
    · split at hrun <;> cases hrun
      rfl
    · rename_i found hfind
      rw [hfind] at hfound
      split at hrun
      · rename_i current used hcurrent
        have heq : current = used := (hk.known _ _ (hfound.symm.trans hcurrent)).symm.trans (hkind used rfl)
        rw [if_neg (not_not.mpr heq)] at hrun
        cases hrun
      · cases hrun
      · cases hrun
  | ok r =>
    obtain ⟨⟨⟩, k'⟩ := r
    refine ⟨(careful_record _ _ _ hrun).fits hk.fits, ?_⟩
    obtain ⟨rfl, -⟩ | ⟨-, hkinds, -⟩ := record_cases hfs hk.fits hrun
    · exact hk.known
    · intro v κ hv
      rw [hkinds] at hv
      split at hv
      · rename_i heq
        rw [heq]
        exact hkind κ hv
      · exact hk.known v κ hv

lemma agreeing_mention (hfs : fs.Of s) : Agreeing fs A (record fs func name none extent) :=
  agreeing_record hfs nofun

variable {count : Nat} {e : ResolveError} {order : List String}

lemma callee_error (h : (callee fs func name count extent).run k = .error e) :
    e.isKind = false ∧ e ≠ .tooManyIterations := by
  rw [callee, StateT.run_bind, StateT.run_get, pure_bind] at h
  dsimp only at h
  split at h
  · cases h
    exact ⟨rfl, by rintro ⟨⟩⟩
  · split at h
    · cases h
      exact ⟨rfl, by rintro ⟨⟩⟩
    · split at h <;> cases h
      exact ⟨rfl, by rintro ⟨⟩⟩

/-- Finding the function of a call.  What follows may use which function it is. -/
lemma agreeing_callee_bind (hfs : fs.Of s) {f : FuncInfo → Learn Unit}
    (hf : ∀ info, s.isLocal func name = false → fs.infos[name]? = some info → Agreeing fs A (f info)) :
    Agreeing fs A (callee fs func name count extent >>= f) := by
  intro k hk
  rw [StateT.run_bind]
  cases hcallee : (callee fs func name count extent).run k with
  | error e => exact (callee_error hcallee).1
  | ok r =>
    obtain ⟨info, k'⟩ := r
    obtain ⟨rfl, hlocal, hinfo, -⟩ := run_callee.mp hcallee
    rw [isLocal_eq hfs hk.fits] at hlocal
    exact hf info hlocal hinfo k' hk

variable {natives : List NativeFunc}

/-- The functions that can be called, with the natives among them named. -/
structure Functions.From (fs : Functions) (s : Script) (natives : List NativeFunc) : Prop where
  of : fs.Of s
  native : ∀ name info, fs.infos[name]? = some info → info.native = true →
    (∀ f ∈ s.functions, f.name ≠ name) ∧ ∃ n ∈ natives, n.name = name
  defs : ∀ name f, fs.defs[name]? = some f → f ∈ s.functions ∧ f.name = name

lemma addFunctions_from (h : addFunctions s.functions 0 ⟨{}, addNatives s natives {}⟩ = .ok fs) :
    fs.From s natives := by
  have hfs := addFunctions_of h
  obtain ⟨hext, -⟩ := addFunctions_extends h
  refine ⟨hfs, fun name info hinfo hn => ?_, fun name f hf => ?_⟩
  · have hother : ∀ f ∈ s.functions, f.name ≠ name := by
      rintro f hf rfl
      obtain ⟨i, hi⟩ := List.mem_iff_getElem?.mp hf
      rw [(hfs.own i f hi).1] at hinfo
      cases hinfo
      cases hn
    rw [(hext.other name hother).1] at hinfo
    obtain ⟨i, n, hi, hname, -⟩ := addNatives_iff.mp hinfo
    exact ⟨hother, n, List.mem_of_mem_filter (List.mem_mergeSort.mp (List.mem_of_getElem? hi)), hname⟩
  · by_cases hown : ∃ g ∈ s.functions, g.name = name
    · obtain ⟨g, hg, rfl⟩ := hown
      obtain ⟨i, hi⟩ := List.mem_iff_getElem?.mp hg
      rw [(hfs.own i g hi).2] at hf
      cases hf
      exact ⟨hg, rfl⟩
    · rw [(hext.other name fun g hg heq => hown ⟨g, hg, heq⟩).2] at hf
      simp at hf

lemma Functions.From.calls (hfs : fs.From s natives) (hlocal : s.isLocal func name = false)
    (hinfo : fs.infos[name]? = some info) :
    (info.native = true ∧ info.params = [] ∧ s.CallsNative natives func name) ∨
      ∃ i f, info = ownInfo i f ∧ s.functions[i]? = some f ∧ s.Calls func name f := by
  rcases hfs.of.cases name info hinfo with ⟨hn, hp⟩ | ⟨i, f, hi, hname, rfl⟩
  · exact .inl ⟨hn, hp, hlocal, hfs.native name info hinfo hn⟩
  · exact .inr ⟨i, f, rfl, hi, hlocal, List.mem_of_getElem? hi, hname⟩

lemma agreeing_recordArg (hfs : fs.From s natives) (hA : s.Suits natives A) {v : VarRef}
    (huse : (func, .passed name i v extent) ∈ s.uses) (hlocal : s.isLocal func name = false)
    (hinfo : fs.infos[name]? = some info) : Agreeing fs A (recordArg fs func name info info.params[i]? v extent) := by
  rw [recordArg]
  rcases hfs.calls hlocal hinfo with ⟨hn, -, hcalls⟩ | ⟨j, f, rfl, -, hcalls⟩
  · rw [if_pos hn]
    exact agreeing_record hfs.of fun κ hκ => by cases hκ; exact hA.native huse hcalls
  · rw [if_neg (by simp [ownInfo])]
    refine Maintains.get_bind fun k hk => ?_
    obtain ⟨-, hf, rfl⟩ := id hcalls
    have hvar := find_kind hfs.of hk.fits func v.name
    -- the argument and its parameter have one kind in the assignment
    have hlink : ∀ p, f.params[i]? = some p → A (s.variable func v.name) = A (.param f.name p) :=
      fun p hp => hA.link (.intro huse hcalls hp)
    dsimp only [ownInfo]
    rw [hvar]
    cases hp : f.params[i]? with
    | none =>
      rw [Option.bind_none]
      cases hkind : k.kindOf (s.variable func v.name) with
      | none => exact agreeing_mention hfs.of k hk
      | some kind => exact hk
    | some p =>
      rw [Option.bind_some]
      have hparam : k.kindOf (.param f.name p) = k.paramKind f.name p := rfl
      cases hkind : k.kindOf (s.variable func v.name) with
      | none =>
        cases hpk : k.paramKind f.name p with
        | none => exact agreeing_mention hfs.of k hk
        | some kind =>
          refine agreeing_record hfs.of (fun κ hκ => ?_) k hk
          cases hκ
          rw [hlink p hp]
          exact hk.known _ _ (hparam.trans hpk)
      | some kind =>
        have hv := hk.known _ _ hkind
        cases hpk : k.paramKind f.name p with
        | none =>
          refine agreeing_record hfs.of (fun κ hκ => ?_) k hk
          cases hκ
          rw [variable_param hf (List.mem_of_getElem? hp), ← hlink p hp]
          exact hv
        | some kind' =>
          have hp' := hk.known _ _ (hparam.trans hpk)
          have heq : kind = kind' := by rw [← hv, ← hp', hlink p hp]
          dsimp only
          rw [if_neg (not_not.mpr heq)]
          exact agreeing_mention hfs.of k hk

lemma agreeing_checkArg (hfs : fs.From s natives) (hA : s.Suits natives A) {arg : Expr}
    (huse : (func, .computed name i arg extent) ∈ s.uses) (hlocal : s.isLocal func name = false)
    (hinfo : fs.infos[name]? = some info) : Agreeing fs A (checkArg name info info.params[i]? arg extent) := by
  rw [checkArg]
  refine Maintains.get_bind fun k hk => ?_
  split
  · rename_i harray
    rcases hfs.calls hlocal hinfo with ⟨hn, -, -⟩ | ⟨j, f, rfl, -, hcalls⟩
    · simp [hn] at harray
    · simp only [ownInfo, Bool.not_false, Bool.true_and] at harray
      have harray := of_decide_eq_true harray
      obtain ⟨p, hp, hpk⟩ := Option.bind_eq_some_iff.mp harray
      have hparam := hk.known (.param name p) _ hpk
      rw [hA.computed huse hcalls hp] at hparam
      cases hparam
  · exact hk

/-- One use: what it records is forced, and it does not fail because of kinds. -/
lemma agreeing_perform (hfs : fs.From s natives) (hA : s.Suits natives A) {u : Use}
    (hu : (func, u) ∈ s.uses) : Agreeing fs A (perform fs func u) := by
  cases u with
  | scalar v => exact agreeing_record hfs.of fun κ hκ => by cases hκ; exact hA.scalar hu
  | array v => exact agreeing_record hfs.of fun κ hκ => by cases hκ; exact hA.array (.use hu)
  | length v => exact agreeing_mention hfs.of
  | call name count extent => exact agreeing_callee_bind hfs.of fun _ _ _ => .pure _
  | passed name i v extent => exact agreeing_callee_bind hfs.of fun _ => agreeing_recordArg hfs hA hu
  | computed name i arg extent =>
    exact agreeing_callee_bind hfs.of fun _ => agreeing_checkArg hfs hA hu

/-! ## All walks -/

lemma mem_uses_of_mem_usesInOrder (hfs : fs.From s natives)
    {u : Option String × Use} (h : u ∈ usesInOrder fs s order) : u ∈ s.uses := by
  rw [usesInOrder, List.mem_append, List.mem_flatMap] at h
  rw [Script.uses, List.mem_append, List.mem_flatMap]
  refine h.imp ?_ id
  rintro ⟨name, -, hu⟩
  rw [usesOfFunction] at hu
  cases hf : fs.defs[name]? with
  | none =>
    rw [hf] at hu
    cases hu
  | some f =>
    rw [hf] at hu
    obtain ⟨hmem, rfl⟩ := hfs.defs name f hf
    exact ⟨f, hmem, hu⟩

section

variable (hfs : fs.From s natives) (hA : s.Suits natives A)

include hfs hA

lemma agreeing_walkScript (order : List String) : Agreeing fs A (walkScript fs s order) := by
  rw [walkScript_eq]
  exact .forM fun u hu => agreeing_perform hfs hA (mem_uses_of_mem_usesInOrder hfs hu)

lemma agreeing_settle {left : Nat} :
    Agreeing fs A (settle fs s order left updates) := by
  induction left generalizing updates with
  | zero =>
    rw [settle]
    refine .get_bind fun k hk => ?_
    split
    · rfl
    · exact hk
  | succ left ih =>
    rw [settle]
    refine .get_bind fun k hk => ?_
    split
    · exact (agreeing_walkScript hfs hA order).bind (fun _ => ih) k hk
    · exact hk

lemma agreeing_infer : Agreeing fs A (infer fs s) := by
  have hargv : Agreeing fs A (record fs none "ARGV" (some .array) provided) :=
    agreeing_record hfs.of fun κ hκ => by cases hκ; exact hA.array .argv
  have henviron : Agreeing fs A (record fs none "ENVIRON" (some .array) provided) :=
    agreeing_record hfs.of fun κ hκ => by cases hκ; exact hA.array .environ
  refine hargv.bind fun _ => henviron.bind fun _ => .get_bind fun k hk => ?_
  exact (agreeing_walkScript hfs hA _).bind (fun _ => agreeing_settle hfs hA) k hk

end

lemma start_paramKind (hn : (s.functions.map (·.name)).Nodup) (f p : String) :
    (start s).paramKind f p = none := by
  have fold : ∀ (params : List String) (table : KindTable), (table[p]?).join = none →
      ((params.foldl (fun (table : KindTable) p => table.insert p none) table)[p]?).join = none := by
    intro params
    induction params with
    | nil => exact fun _ h => h
    | cons q rest ih =>
      intro table h
      refine ih _ ?_
      rw [Std.TreeMap.getElem?_insert]
      split
      · rfl
      · exact h
  rw [Knowledge.paramKind, start_locals hn, Option.bind_map]
  cases s.functions.find? (·.name == f) with
  | none => rfl
  | some g => exact fold g.params {} (by simp)

lemma start_forced (hfs : fs.From s natives) (hA : s.Suits natives A) : (start s).Forced fs A := by
  refine ⟨start_fits hfs.of, fun v κ hv => ?_⟩
  cases v with
  | param f p =>
    rw [Knowledge.kindOf, start_paramKind hfs.of.names] at hv
    cases hv
  | special x =>
    cases hv
    exact hA.special x
  | global x => simp [Knowledge.kindOf, start] at hv

lemma addFunctions_error {l : List Function} {index : Nat} {fs₀ : Functions}
    (h : addFunctions l index fs₀ = .error e) : e.isKind = false ∧ e ≠ .tooManyIterations := by
  induction l generalizing index fs₀ with
  | nil => cases h
  | cons f rest ih =>
    rw [addFunctions] at h
    split at h
    · cases h
      exact ⟨rfl, by rintro ⟨⟩⟩
    · split at h
      · cases h
        exact ⟨rfl, by rintro ⟨⟩⟩
      · exact ih h

end

end Infer

/-- An error about kinds is never a false alarm: no assignment of kinds to the variables of the program meets
all its constraints. -/
theorem Resolution.ofScript_unsuitable {s : Script} {natives : List NativeFunc} {e : ResolveError}
    (h : Resolution.ofScript s natives = .error e) (he : e.isKind = true) :
    ¬ ∃ A, s.Suits natives A := by
  rintro ⟨A, hA⟩
  suffices hkind : e.isKind = false by rw [he] at hkind; cases hkind
  rw [Resolution.ofScript] at h
  cases hfs : Infer.addFunctions s.functions 0 ⟨{}, Infer.addNatives s natives {}⟩ with
  | error e' =>
    rw [hfs] at h
    cases h
    exact (Infer.addFunctions_error hfs).1
  | ok fs =>
    rw [hfs] at h
    have hfrom := Infer.addFunctions_from hfs
    have hresult := Infer.agreeing_infer hfrom hA _ (Infer.start_forced hfrom hA)
    cases hrun : (Infer.infer fs s).run (Infer.start s) with
    | error e' =>
      rw [hrun] at hresult
      simp only [bind, Except.bind, hrun] at h
      cases h
      exact hresult
    | ok r =>
      simp only [bind, Except.bind, hrun] at h
      cases h

/-- Two functions that call each other; the use as an array is far from the use as a scalar. -/
def conflictProgram : String :=
  "function f(a, b) { g(b, a) } function g(x, y) { if (x) f(x, y); h(y) } function h(z) { z[1] = 2 } BEGIN { f(u, v); print u }"

theorem conflictProgram_unsuitable : ∃ s e,
    (Token.lex conflictProgram).toOption.bind (fun ts => (Script.ofTokens ts).toOption) = some s ∧
      Resolution.ofScript s [] = .error e ∧ e.isKind = true ∧ ¬ ∃ A, s.Suits [] A := by
  have hsome : (((Token.lex conflictProgram).toOption.bind fun ts => (Script.ofTokens ts).toOption).any
    fun s => match Resolution.ofScript s [] with
      | .ok _ => false
      | .error e => e.isKind) = true := by decide +kernel
  rw [Option.any_eq_true] at hsome
  obtain ⟨s, hs, hkind⟩ := hsome
  split at hkind
  · cases hkind
  · rename_i e he
    exact ⟨s, e, hs, he, hkind, Resolution.ofScript_unsuitable he hkind⟩

end Awk
