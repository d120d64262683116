import Awk.Proofs.Resolution.Params
import Awk.Proofs.Resolution.Rounds

/-!
# Tables of names

The numbers of variables and functions are the positions of their names: of a global variable in the table of its kind,
of a parameter among those of its kind, and of a function in the program.  The tables are in order, and no special
variable is in one of them.
-/

namespace Awk

namespace Infer

variable {s : Script} {natives : List NativeFunc} {fs : Functions} {k k' : Knowledge}

/-- Knowledge comes of walks if that before did. -/
def Follows (fs : Functions) (s : Script) (k k' : Knowledge) : Prop :=
  (∃ n, Walked fs s (n + 1) k) → ∃ n, Walked fs s (n + 1) k'

instance : IsPreorder Knowledge (Follows fs s) where
  refl _ := id
  trans _ _ _ h h' := h' ∘ h

lemma follows_walkScript : Respects (Follows fs s) (walkScript fs s s.callGraph.sorted) :=
  fun _ _ _ hwalk ⟨n, hn⟩ => ⟨n + 1, hn.walk hwalk⟩

lemma infer_walked (h : (infer fs s).run (start s) = .ok ((), k)) : ∃ n, Walked fs s (n + 1) k := by
  obtain ⟨_, _, hargv, h⟩ := run_bind_eq_ok.mp h
  obtain ⟨_, _, henviron, h⟩ := run_bind_eq_ok.mp h
  rw [StateT.run_bind, StateT.run_get, pure_bind] at h
  obtain ⟨_, _, hwalk, h⟩ := run_bind_eq_ok.mp h
  exact respects_settle follows_walkScript _ _ _ h ⟨0, (Walked.provided hargv henviron).walk hwalk⟩

/-! ## Global variables -/

lemma Walked.ordinary (hfs : fs.From s natives) {n : Nat} (h : Walked fs s n k) {x : String} (hx : x ∈ k.globals) :
    Special.ofName? x = none := by
  rcases (h.mem_globals hfs x).mp hx with rfl | rfl | ⟨-, u, -, v, -, hvar⟩
  · decide
  · decide
  · obtain ⟨_, -, -, hname⟩ | ⟨-, ⟨-, hname⟩ | ⟨hnone, hname⟩⟩ := variable_cases s u.1 v.name <;>
      cases hvar.symm.trans hname
    exact hnone

lemma sorted_globalNames (kind : Kind) : ((finish s fs k).globalNames kind).Pairwise (· < ·) := by
  rw [globalNames_finish, KindTable.ofKind]
  exact (Std.TreeMap.ordered_keys.filter _).imp fun h => compare_lt_iff_lt.mp h

/-- A name is in the table of its kind, at the place that its number tells. -/
lemma globalNames_iff (hordinary : ∀ x ∈ k.globals, Special.ofName? x = none) {kind : Kind} {i : Nat} {name : String} :
    ((finish s fs k).globalNames kind)[i]? = some name ↔
      (finish s fs k).lookupVar none name = some (.global, ⟨kind, i⟩) := by
  refine ⟨fun h => ?_, fun h => finish_global h⟩
  rw [globalNames_finish] at h
  obtain ⟨hmem, hkind⟩ := List.mem_filter.mp (List.mem_of_getElem? h)
  obtain ⟨j, hj, hpos⟩ := number_getElem? k.globals Std.TreeMap.nodup_keys hmem
  rw [of_decide_eq_true hkind] at hj hpos
  have hnodup : (k.globals.ofKind kind k.globals.keys).Nodup := Std.TreeMap.nodup_keys.filter _
  obtain rfl : i = j := (List.getElem?_inj (List.getElem?_eq_some_iff.mp h).1 hnodup).mp (h.trans hpos.symm)
  rw [Resolution.lookupVar, Option.bind_none, hordinary name (Std.TreeMap.mem_keys.mp hmem)]
  exact congrArg (Option.map _) hj

/-- A name that is no parameter of a function refers to the same variable inside and outside the function. -/
lemma lookupVar_outer (hfs : fs.Of s) (hk : k.Fits fs) {func : Option String} {name : String}
    (h : s.isLocal func name = false) : (finish s fs k).lookupVar func name = (finish s fs k).lookupVar none name := by
  cases func with
  | none => rfl
  | some f =>
    have hnone : (k.locals[f]?.bind fun table => table[name]?) = none := by
      have hparam : ((some f).any fun f => k.isParam f name) = false := (isLocal_eq hfs hk).trans h
      simpa [Knowledge.isParam] using hparam
    rw [Resolution.lookupVar, Option.bind_some, finish_no_param hk hnone]
    rfl

end Infer

/-- The numbers in a resolution are positions, and names are looked up from the inside to the outside. -/
structure Resolution.Numbered (r : Resolution) (s : Script) : Prop where
  sorted : r.scalarNames.Pairwise (· < ·) ∧ r.arrayNames.Pairwise (· < ·)
  disjoint : r.scalarNames.Disjoint r.arrayNames
  ordinary : ∀ kind, ∀ name ∈ r.globalNames kind, Special.ofName? name = none
  global : ∀ {kind i name}, (r.globalNames kind)[i]? = some name ↔
    r.lookupVar none name = some (.global, ⟨kind, i⟩)
  /-- A function has its position in the program for its number, and a parameter how many of its kind there are before
  it. -/
  own : ∀ {i f}, s.functions[i]? = some f → ∃ info, r.lookupFunc f.name = some info ∧ info.native = false ∧
    info.index = i ∧ info.params = f.params ∧ info.arrays.length = f.params.length ∧
    ∀ {j x}, f.params[j]? = some x → ∃ isArray, info.arrays[j]? = some isArray ∧ r.lookupVar (some f.name) x =
      some (.local, ⟨if isArray then .array else .scalar, (info.arrays.take j).count isArray⟩)
  called : ∀ {name info}, r.lookupFunc name = some info → info.native = false →
    ∃ f, s.functions[info.index]? = some f ∧ f.name = name
  special : ∀ {name v}, Special.ofName? name = some v → r.lookupVar none name = some (.special, ⟨.scalar, v.index⟩)
  outer : ∀ {func name}, s.isLocal func name = false → r.lookupVar func name = r.lookupVar none name

/-- Every number that a program is given is the position of a name: of a global variable in the table of its kind, of a
parameter among those of its kind, of a function in the program.  Parameters hide all other variables of their names. -/
theorem Resolution.ofScript_numbered {s : Script} {natives : List NativeFunc} {r : Resolution}
    (h : Resolution.ofScript s natives = .ok r) : r.Numbered s := by
  obtain ⟨hscript, hsound⟩ := Resolution.ofScript_sound h
  have hr := h
  obtain ⟨fs, hadd, h⟩ := bind_eq_ok.mp h
  obtain ⟨⟨_, k⟩, hinfer, h⟩ := bind_eq_ok.mp h
  cases h
  have hfs := Infer.addFunctions_from hadd
  obtain ⟨n, hk⟩ := Infer.infer_walked hinfer
  have hglobal : ∀ {kind i name}, ((Infer.finish s fs k).globalNames kind)[i]? = some name ↔
      (Infer.finish s fs k).lookupVar none name = some (.global, ⟨kind, i⟩) :=
    Infer.globalNames_iff fun x hx => hk.ordinary hfs hx
  constructor
  case sorted => exact ⟨Infer.sorted_globalNames _, Infer.sorted_globalNames _⟩
  case disjoint =>
    intro name hscalar harray
    obtain ⟨i, hi⟩ := List.mem_iff_getElem?.mp hscalar
    obtain ⟨j, hj⟩ := List.mem_iff_getElem?.mp harray
    cases (hglobal.mp hi).symm.trans (hglobal.mp hj)
  case ordinary =>
    intro kind name hname
    rw [Infer.globalNames_finish] at hname
    exact hk.ordinary hfs (Std.TreeMap.mem_keys.mp (List.mem_of_mem_filter hname))
  case global => exact hglobal
  case own =>
    intro i f hf
    obtain ⟨info, hinfo, hindex, hnative, hparams, hlength⟩ := hsound.own hf
    exact ⟨info, hinfo, hnative, hindex, hparams, hlength, fun hx => Resolution.ofScript_param hr hf hinfo hx⟩
  case called => exact hsound.called
  case special =>
    intro name v hv
    rw [Resolution.lookupVar, Option.bind_none, hv]
  case outer => exact Infer.lookupVar_outer hfs.of (hk.fits hfs.of)

/-- A parameter with the name of a special variable, one with that of a global variable, and arrays between scalars. -/
def hidingProgram : String :=
  "function f(NR, a, zeta, b) \x7b a[NR] = zeta; b[1] \x7d BEGIN \x7b f(1, x, 2, y); zeta = NR; m[1]; print alpha \x7d"

theorem hidingProgram_numbered : ∃ s r,
    (Token.lex hidingProgram).toOption.bind (fun ts => (Script.ofTokens ts).toOption) = some s ∧
      Resolution.ofScript s [] = .ok r ∧ r.Numbered s := by
  have hsome : (((Token.lex hidingProgram).toOption.bind fun ts => (Script.ofTokens ts).toOption).any
    fun s => (Resolution.ofScript s []).isOk) = true := by decide +kernel
  rw [Option.any_eq_true] at hsome
  obtain ⟨s, hs, hok⟩ := hsome
  cases hr : Resolution.ofScript s [] with
  | error e =>
    rw [hr] at hok
    cases hok
  | ok r => exact ⟨s, r, hs, hr, Resolution.ofScript_numbered hr⟩

end Awk
