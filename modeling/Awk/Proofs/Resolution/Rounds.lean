import Awk.Proofs.Resolution.Exact

/-!
# Walks come to an end

The first walk comes across every global name.  From then on a walk that changes anything finds out a kind that was not
known, and no kind is ever taken back.  So there cannot be more walks that change something than there are variables,
and a program whose walks do not come to an end has as many variables as there may be walks.
-/

namespace Awk

def Use.var? : Use → Option VarRef
  | .scalar v | .array v | .length v | .passed _ _ v _ => some v
  | .call .. | .computed .. => none

def Variable.global? : Variable → Option String
  | .global x => some x
  | _ => none

namespace Script

variable (s : Script)

/-- A use of a name as a global variable. -/
def Mentions (u : Option String × Use) (x : String) : Prop := ∃ v ∈ u.2.var?, s.variable u.1 v.name = .global x

/-- The global names: those that are used, and the arrays that every program has. -/
def globalVars : List String :=
  "ARGV" :: "ENVIRON" :: s.uses.filterMap fun u => u.2.var?.bind fun v => (s.variable u.1 v.name).global?

/-- The variables whose kinds have to be found out: the parameters of every function and the global names. -/
def vars : Finset Variable :=
  (s.functions.flatMap (fun f => f.params.map (Variable.param f.name)) ++ s.globalVars.map Variable.global).toFinset

variable {s} {x : String}

lemma mem_globalVars : x ∈ s.globalVars ↔ x = "ARGV" ∨ x = "ENVIRON" ∨ ∃ u ∈ s.uses, s.Mentions u x := by
  have hglobal : ∀ v : Variable, v.global? = some x ↔ v = .global x := by
    intro v
    cases v <;> simp [Variable.global?]
  simp [globalVars, Mentions, Option.bind_eq_some_iff, hglobal]

lemma global_mem_vars : .global x ∈ s.vars ↔ x ∈ s.globalVars := by
  simp [vars]

lemma param_mem_vars {f p : String} (h : s.hasParam f p = true) : .param f p ∈ s.vars := by
  rw [hasParam, List.any_eq_true] at h
  obtain ⟨g, hg, h⟩ := h
  simp only [Bool.and_eq_true, beq_iff_eq, List.contains_eq_mem, decide_eq_true_eq] at h
  simp only [vars, List.toFinset_append, Finset.mem_union, List.mem_toFinset, List.mem_flatMap, List.mem_map]
  exact .inl ⟨g, hg, p, h.2, by rw [h.1]⟩

end Script

namespace Infer

variable {s : Script} {natives : List NativeFunc} {fs : Functions} {k k' : Knowledge} {func : Option String}

/-! ## Names -/

/-- A computation adds the names that have a property to the global ones, and no other. -/
def Registers (fs : Functions) (N : String → Prop) (x : Learn Unit) : Prop :=
  ∀ k k', k.Fits fs → x.run k = .ok ((), k') → ∀ y, y ∈ k'.globals ↔ y ∈ k.globals ∨ N y

variable {name x : String} {kind : Option Kind} {extent : Extent} {n : Nat}

lemma registers_record (hfs : fs.Of s) :
    Registers fs (fun y => s.variable func name = .global y) (record fs func name kind extent) := by
  intro k k' hk h y
  obtain ⟨rfl, -, hold⟩ | ⟨-, -, hnames, -⟩ := record_cases hfs hk h
  · exact ⟨.inl, fun hy => hy.elim id (hold y)⟩
  · exact hnames y

/-- Where the kind of a variable is known, its name is. -/
lemma mem_globals_of_kindOf {κ : Kind} (h : k.kindOf (.global x) = some κ) : x ∈ k.globals := by
  rw [Std.TreeMap.mem_iff_isSome_getElem?]
  rw [Knowledge.kindOf] at h
  cases hx : k.globals[x]? with
  | none => simp [hx] at h
  | some kind => rfl

lemma registers_recordArg (hfs : fs.From s natives) {info : FuncInfo} {i : Nat} {v : VarRef} (hlocal : s.isLocal func name = false) (hinfo : fs.infos[name]? = some info) :
    Registers fs (fun y => s.variable func v.name = .global y)
      (recordArg fs func name info info.params[i]? v extent) := by
  rw [recordArg]
  split
  · exact registers_record hfs.of
  · rename_i hnative
    intro k k' hk h y
    rw [StateT.run_bind, StateT.run_get, pure_bind] at h
    have hknown := find_kind hfs.of hk func v.name
    -- a variable whose kind goes over to the parameter has been registered before
    have hold : ∀ {kind}, (k.find func v.name).bind (·.kind) = some kind → s.variable func v.name = .global y →
        y ∈ k.globals := fun hkind hvar => mem_globals_of_kindOf (hvar ▸ hknown.symm.trans hkind)
    split at h
    · exact registers_record hfs.of _ _ hk h y
    · rename_i hkind _
      rcases hfs.calls hlocal hinfo with ⟨hn, -⟩ | ⟨j, f, rfl, -, -, hf, rfl⟩
      · exact absurd hn hnative
      · split at h
        · rename_i p hp
          rw [registers_record hfs.of _ _ hk h y, variable_param hf (List.mem_of_getElem? hp)]
          exact ⟨fun hy => hy.imp_right (by rintro ⟨⟩), fun hy => .inl (hy.elim id (hold hkind))⟩
        · obtain ⟨-, rfl⟩ := run_pure_eq_ok.mp h
          exact ⟨.inl, fun hy => hy.elim id (hold hkind)⟩
    · dsimp only at h
      split at h
      · obtain ⟨_, _, hthrow, -⟩ := run_bind_eq_ok.mp h
        exact absurd hthrow run_throw_ne_ok
      · exact registers_record hfs.of _ _ hk h y
    · exact registers_record hfs.of _ _ hk h y

lemma registers_perform (hfs : fs.From s natives) (u : Option String × Use) :
    Registers fs (s.Mentions u) (performAt fs u) := by
  have hnothing : ∀ {u : Option String × Use} {x : Learn Unit}, u.2.var? = none →
      (∀ k k', x.run k = .ok ((), k') → k' = k) → Registers fs (s.Mentions u) x := by
    intro u x hu hx k k' _ h y
    simp [hx k k' h, Script.Mentions, hu]
  have hvar : ∀ {u : Option String × Use} {v : VarRef} {x : Learn Unit}, u.2.var? = some v →
      Registers fs (fun y => s.variable u.1 v.name = .global y) x → Registers fs (s.Mentions u) x := by
    intro u v x hu hx k k' hk h y
    simp [hx k k' hk h, Script.Mentions, hu]
  obtain ⟨func, u⟩ := u
  cases u with
  | scalar v | array v | length v => exact hvar rfl (registers_record hfs.of)
  | call name count extent =>
    refine hnothing rfl fun k k' h => ?_
    obtain ⟨_, _, hcallee, hrest⟩ := run_bind_eq_ok.mp h
    obtain ⟨rfl, -⟩ := run_callee.mp hcallee
    exact (run_pure_eq_ok.mp hrest).2.symm
  | passed name i v extent =>
    refine hvar rfl fun k k' hk h => ?_
    obtain ⟨info, _, hcallee, hrest⟩ := run_bind_eq_ok.mp h
    obtain ⟨rfl, hlocal, hinfo, -⟩ := run_callee.mp hcallee
    rw [isLocal_eq hfs.of hk] at hlocal
    exact registers_recordArg hfs hlocal hinfo _ _ hk hrest
  | computed name i arg extent =>
    refine hnothing rfl fun k k' h => ?_
    obtain ⟨_, _, hcallee, hrest⟩ := run_bind_eq_ok.mp h
    obtain ⟨rfl, -⟩ := run_callee.mp hcallee
    exact (respects_checkArg (R := Eq) _ _ _ hrest).symm

lemma registers_forM (hfs : fs.From s natives) (us : List (Option String × Use)) :
    Registers fs (fun y => ∃ u ∈ us, s.Mentions u y) (us.forM (performAt fs)) := by
  induction us with
  | nil =>
    intro k k' _ h y
    obtain ⟨-, rfl⟩ := run_pure_eq_ok.mp h
    simp
  | cons u us ih =>
    intro k k' hk h y
    obtain ⟨_, k₁, h₁, h⟩ := run_bind_eq_ok.mp h
    have hk₁ := (respects_perform careful_record u.2 _ _ _ h₁).fits hk
    rw [ih k₁ k' hk₁ h y, registers_perform hfs u k k₁ hk h₁ y]
    simp [or_assoc]

lemma registers_walkScript (hfs : fs.From s natives) :
    Registers fs (fun y => ∃ u ∈ s.uses, s.Mentions u y) (walkScript fs s s.callGraph.sorted) := by
  intro k k' hk h y
  rw [walkScript_eq] at h
  rw [registers_forM hfs _ k k' hk h y]
  exact or_congr_right ⟨fun ⟨u, hu, hy⟩ => ⟨u, mem_uses_of_mem_usesInOrder hfs hu, hy⟩,
    fun ⟨u, hu, hy⟩ => ⟨u, mem_usesInOrder hfs.of hu, hy⟩⟩

/-! ## Rounds -/

lemma variable_none (h : Special.ofName? x = none) : s.variable none x = .global x := by
  rw [Script.variable, Script.variable.outer, h]
  rfl

/-- What is known after a number of walks. -/
inductive Walked (fs : Functions) (s : Script) : Nat → Knowledge → Prop
  | provided {k k' : Knowledge} (argv : (record fs none "ARGV" (some .array) provided).run (start s) = .ok ((), k))
      (environ : (record fs none "ENVIRON" (some .array) provided).run k = .ok ((), k')) : Walked fs s 0 k'
  | walk {n : Nat} {k k' : Knowledge} (before : Walked fs s n k)
      (walk : (walkScript fs s s.callGraph.sorted).run k = .ok ((), k')) : Walked fs s (n + 1) k'

lemma Walked.fits (hfs : fs.Of s) (h : Walked fs s n k) : k.Fits fs := by
  induction h with
  | provided argv environ => exact ((careful_record _ _ _ argv).trans (careful_record _ _ _ environ)).fits (start_fits hfs)
  | walk _ walk ih => exact (respects_walkScript careful_record _ _ _ _ walk).fits ih

/-- From the first walk on the global names are those of the program. -/
lemma Walked.mem_globals (hfs : fs.From s natives) (h : Walked fs s n k) (y : String) :
    y ∈ k.globals ↔ y = "ARGV" ∨ y = "ENVIRON" ∨ 0 < n ∧ ∃ u ∈ s.uses, s.Mentions u y := by
  induction h with
  | provided argv environ =>
    have hk := (careful_record _ _ _ argv).fits (start_fits hfs.of)
    rw [registers_record hfs.of _ _ hk environ, registers_record hfs.of _ _ (start_fits hfs.of) argv,
      variable_none (x := "ARGV") (by decide), variable_none (x := "ENVIRON") (by decide)]
    simp [start, eq_comm]
  | walk before walk ih =>
    rw [registers_walkScript hfs _ _ (before.fits hfs.of) walk, ih]
    simp only [Nat.succ_pos, true_and]
    tauto

lemma mem_vars_of_kindOf (hfs : fs.From s natives) (h : Walked fs s (n + 1) k) {v : Variable}
    (hnone : k'.kindOf v = none) (hsome : (k.kindOf v).isSome = true) : v ∈ s.vars := by
  obtain ⟨κ, hκ⟩ := Option.isSome_iff_exists.mp hsome
  cases v with
  | special x => cases hnone
  | global x =>
    rw [Script.global_mem_vars, Script.mem_globalVars]
    simpa using (h.mem_globals hfs x).mp (mem_globals_of_kindOf hκ)
  | param f p =>
    refine Script.param_mem_vars ?_
    rw [← isParam_eq hfs.of (h.fits hfs.of), Knowledge.isParam]
    cases hp : k.locals[f]?.bind fun table => table[p]? with
    | none => simp [Knowledge.kindOf, Knowledge.paramKind, hp] at hκ
    | some kind => rfl

/-- Behind the first walk nothing but kinds can be new, and a walk that changes anything finds one. -/
lemma Walked.gains (hfs : fs.From s natives) (h : Walked fs s (n + 1) k)
    (hwalk : (walkScript fs s s.callGraph.sorted).run k = .ok ((), k')) :
    k.Gains k' ∧ (∀ y, y ∈ k'.globals ↔ y ∈ k.globals) ∧
      (k' ≠ k → ∃ v ∈ s.vars, k.kindOf v = none ∧ (k'.kindOf v).isSome = true) := by
  obtain ⟨-, hgains⟩ := respects_walkScript (grows_record hfs.of) _ _ _ _ hwalk (h.fits hfs.of)
  have hnames : ∀ y, y ∈ k'.globals ↔ y ∈ k.globals := fun y => by
    rw [(h.walk hwalk).mem_globals hfs, h.mem_globals hfs]
    simp
  refine ⟨hgains, hnames, fun hne => ?_⟩
  obtain ⟨x, hx, hnew⟩ | ⟨v, hnone, hsome⟩ := hgains.change hne
  · exact absurd ((hnames x).mp hx) hnew
  · exact ⟨v, mem_vars_of_kindOf hfs (h.walk hwalk) hnone hsome, hnone, hsome⟩

/-! ## How many there may be -/

/-- A computation that never fails because there were too many walks. -/
abbrev Tireless {α : Type} (x : Learn α) : Prop := Maintains (fun _ => True) (· ≠ .tooManyIterations) x

lemma Tireless.ne {x : Learn Unit} (hx : Tireless x) : x.run k ≠ .error .tooManyIterations := by
  intro h
  have hend := hx k trivial
  rw [h] at hend
  exact hend rfl

lemma tireless_record :
    Tireless (record fs func name kind extent) := by
  intro k _
  rw [run_record]
  split
  · split
    · rintro ⟨⟩
    · trivial
  · split
    · split
      · rintro ⟨⟩
      · trivial
    all_goals trivial

lemma tireless_callee {count : Nat} :
    Tireless (callee fs func name count extent) := by
  intro k _
  cases h : (callee fs func name count extent).run k with
  | error e => exact (callee_error h).2
  | ok r => trivial

lemma tireless_perform (u : Use) : Tireless (perform fs func u) := by
  cases u with
  | scalar v | array v | length v => exact tireless_record
  | call name count extent => exact tireless_callee.bind fun _ => .pure _
  | computed name i arg extent =>
    refine tireless_callee.bind fun _ => .get_bind fun k _ => ?_
    split
    · rintro ⟨⟩
    · trivial
  | passed name i v extent =>
    refine tireless_callee.bind fun info => ?_
    rw [recordArg]
    split
    · exact tireless_record
    · refine .get_bind fun k _ => ?_
      split
      · exact tireless_record k trivial
      · split
        · exact tireless_record k trivial
        · trivial
      · dsimp only
        split
        · rintro ⟨⟩
        · exact tireless_record k trivial
      · exact tireless_record k trivial

lemma tireless_walkScript {order : List String} : Tireless (walkScript fs s order) := by
  rw [walkScript_eq]
  exact .forM fun u _ => tireless_perform u.2

/-- The variables whose kinds are known. -/
def known (s : Script) (k : Knowledge) : Finset Variable := s.vars.filter fun v => (k.kindOf v).isSome

lemma Walked.card_known_lt (hfs : fs.From s natives) (h : Walked fs s (n + 1) k)
    (hwalk : (walkScript fs s s.callGraph.sorted).run k = .ok ((), k')) (hne : k' ≠ k) :
    (known s k).card < (known s k').card := by
  obtain ⟨hgains, -, hchange⟩ := h.gains hfs hwalk
  obtain ⟨v, hv, hnone, hsome⟩ := hchange hne
  refine Finset.card_lt_card (Finset.ssubset_iff_of_subset (fun w hw => ?_) |>.mpr ⟨v, ?_, ?_⟩)
  · obtain ⟨hw, hknown⟩ := Finset.mem_filter.mp hw
    obtain ⟨κ, hκ⟩ := Option.isSome_iff_exists.mp hknown
    exact Finset.mem_filter.mpr ⟨hw, by rw [hgains.known w κ hκ]; rfl⟩
  · exact Finset.mem_filter.mpr ⟨hv, hsome⟩
  · simp [known, hnone]

/-- A walk that was not the last one has changed something, so that as many kinds are known as there were walks.  The
induction is on the walks that are left. -/
lemma settle_error (hfs : fs.From s natives) {left updates : Nat} (hk : Walked fs s (n + 1) k)
    (h : (settle fs s s.callGraph.sorted left updates).run k = .error .tooManyIterations) :
    k.updates ≠ updates ∧ (known s k).card + left ≤ s.vars.card := by
  induction left generalizing n k updates with
  | zero =>
    rw [settle, StateT.run_bind, StateT.run_get, pure_bind] at h
    dsimp only at h
    split at h
    · rename_i hchanged
      exact ⟨hchanged, by rw [Nat.add_zero, known]; exact Finset.card_filter_le _ _⟩
    · cases h
  | succ left ih =>
    rw [settle, StateT.run_bind, StateT.run_get, pure_bind] at h
    dsimp only at h
    split at h
    · rename_i hchanged
      obtain hwalk | ⟨_, k', hwalk, hnext⟩ := run_bind_eq_error.mp h
      · exact absurd hwalk tireless_walkScript.ne
      · obtain ⟨hupdates, hcard⟩ := ih (hk.walk hwalk) hnext
        have hlt := hk.card_known_lt hfs hwalk fun heq => hupdates (congrArg _ heq)
        exact ⟨hchanged, by omega⟩
    · cases h

lemma infer_error (hfs : fs.From s natives) (h : (infer fs s).run (start s) = .error .tooManyIterations) :
    maxWalks ≤ s.vars.card := by
  obtain hargv | ⟨_, k₁, hargv, h⟩ := run_bind_eq_error.mp h
  · exact absurd hargv tireless_record.ne
  obtain henviron | ⟨_, k₂, henviron, h⟩ := run_bind_eq_error.mp h
  · exact absurd henviron tireless_record.ne
  rw [StateT.run_bind, StateT.run_get, pure_bind] at h
  obtain hwalk | ⟨_, k₃, hwalk, h⟩ := run_bind_eq_error.mp h
  · exact absurd hwalk tireless_walkScript.ne
  have hcard := (settle_error hfs ((Walked.provided hargv henviron).walk hwalk) h).2
  omega

end Infer

/-- Behind the first walk over a program all its global names are known.  Every later walk keeps all kinds that are
known, and if it changes anything it finds out another one.  So there are too many walks only if there are 100 variables
at least. -/
theorem Resolution.ofScript_settles (s : Script) (natives : List NativeFunc) :
    (∀ fs, Infer.addFunctions s.functions 0 ⟨{}, Infer.addNatives s natives {}⟩ = .ok fs →
      ∀ n k, Infer.Walked fs s (n + 1) k → (∀ x, x ∈ k.globals ↔ .global x ∈ s.vars) ∧
        ∀ k', (Infer.walkScript fs s s.callGraph.sorted).run k = .ok ((), k') →
          (∀ v κ, k.kindOf v = some κ → k'.kindOf v = some κ) ∧
          (k' ≠ k → ∃ v ∈ s.vars, k.kindOf v = none ∧ (k'.kindOf v).isSome = true)) ∧
      (Resolution.ofScript s natives = .error .tooManyIterations → 100 ≤ s.vars.card) := by
  refine ⟨fun fs hadd n k hk => ?_, fun h => ?_⟩
  · have hfs := Infer.addFunctions_from hadd
    refine ⟨fun x => ?_, fun k' hwalk => ?_⟩
    · rw [hk.mem_globals hfs, Script.global_mem_vars, Script.mem_globalVars]
      simp
    · obtain ⟨hgains, -, hchange⟩ := hk.gains hfs hwalk
      exact ⟨hgains.known, hchange⟩
  · rw [Resolution.ofScript] at h
    cases hadd : Infer.addFunctions s.functions 0 ⟨{}, Infer.addNatives s natives {}⟩ with
    | error e =>
      rw [hadd] at h
      cases h
      exact absurd rfl (Infer.addFunctions_error hadd).2
    | ok fs =>
      rw [hadd] at h
      refine Infer.infer_error (Infer.addFunctions_from hadd) ?_
      cases hrun : (Infer.infer fs s).run (Infer.start s) with
      | error e =>
        simp only [bind, Except.bind, hrun] at h
        cases h
        rfl
      | ok r =>
        simp only [bind, Except.bind, hrun] at h
        cases h

end Awk
