import Mathlib
import Awk.Resolution.Infer

/-!
# Numbers of variables and functions

Variables are numbered by kind without gaps, and functions in the order of the program.  Hence a number
that the resolution gives is a position: of a name among the global names of its kind, of a parameter among
those of its kind, of a function among those of the program.
-/

namespace Awk.Infer

/-- The kind that a name gets: a scalar unless a use has told otherwise. -/
def KindTable.kindOf (kinds : KindTable) (name : String) : Kind := ((kinds[name]?).join).getD .scalar

def KindTable.ofKind (kinds : KindTable) (kind : Kind) (names : List String) : List String :=
  names.filter fun n => kinds.kindOf n = kind

section

variable (kinds : KindTable) {names : List String} {x : String}

/-- The first number of a kind, by how many of each there are before. -/
private def firstOf (scalars arrays : Nat) : Kind → Nat
  | .scalar => scalars
  | .array => arrays

lemma number_cons (name : String) (scalars arrays : Nat) (table : VarTable) :
    number kinds (name :: names) scalars arrays table =
      match kinds.kindOf name with
      | .scalar => number kinds names (scalars + 1) arrays (table.insert name ⟨.scalar, scalars⟩)
      | .array => number kinds names scalars (arrays + 1) (table.insert name ⟨.array, arrays⟩) := by
  rw [number, KindTable.kindOf]
  cases (kinds[name]?).join with
  | none => rfl
  | some kind => cases kind <;> rfl

lemma number_getElem?_of_notMem (h : x ∉ names) (scalars arrays : Nat) (table : VarTable) :
    (number kinds names scalars arrays table)[x]? = table[x]? := by
  induction names generalizing scalars arrays table with
  | nil => rfl
  | cons name names ih =>
    rw [List.mem_cons, not_or] at h
    have hne : ¬ compare name x = .eq := by simpa using Ne.symm h.1
    rw [number_cons]
    split
    · rw [ih h.2, Std.TreeMap.getElem?_insert, if_neg hne]
    · rw [ih h.2, Std.TreeMap.getElem?_insert, if_neg hne]

private lemma number_getElem?_from (hn : names.Nodup) (h : x ∈ names) (scalars arrays : Nat)
    (table : VarTable) :
    ∃ i, (number kinds names scalars arrays table)[x]? =
        some ⟨kinds.kindOf x, firstOf scalars arrays (kinds.kindOf x) + i⟩ ∧
      (kinds.ofKind (kinds.kindOf x) names)[i]? = some x := by
  induction names generalizing scalars arrays table with
  | nil => cases h
  | cons name names ih =>
    rw [List.nodup_cons] at hn
    rw [number_cons]
    rcases List.mem_cons.mp h with rfl | hx
    · refine ⟨0, ?_, by simp [KindTable.ofKind]⟩
      cases kinds.kindOf x <;>
        simp [number_getElem?_of_notMem kinds hn.1, firstOf]
    · -- the numbers behind `name` start one later if it is of the same kind
      cases hname : kinds.kindOf name with
      | scalar =>
        obtain ⟨i, hi, hpos⟩ := ih hn.2 hx (scalars + 1) arrays (table.insert name ⟨.scalar, scalars⟩)
        cases hkind : kinds.kindOf x with
        | scalar =>
          rw [hkind] at hi hpos
          exact ⟨i + 1, by rw [hi, firstOf, firstOf]; simp [Nat.add_assoc, Nat.add_comm 1],
            by simpa [KindTable.ofKind, hname] using hpos⟩
        | array =>
          rw [hkind] at hi hpos
          exact ⟨i, hi, by simpa [KindTable.ofKind, hname] using hpos⟩
      | array =>
        obtain ⟨i, hi, hpos⟩ := ih hn.2 hx scalars (arrays + 1) (table.insert name ⟨.array, arrays⟩)
        cases hkind : kinds.kindOf x with
        | scalar =>
          rw [hkind] at hi hpos
          exact ⟨i, hi, by simpa [KindTable.ofKind, hname] using hpos⟩
        | array =>
          rw [hkind] at hi hpos
          exact ⟨i + 1, by rw [hi, firstOf, firstOf]; simp [Nat.add_assoc, Nat.add_comm 1],
            by simpa [KindTable.ofKind, hname] using hpos⟩

lemma number_getElem? (hn : names.Nodup) (h : x ∈ names) :
    ∃ i, (number kinds names 0 0 {})[x]? = some ⟨kinds.kindOf x, i⟩ ∧
      (kinds.ofKind (kinds.kindOf x) names)[i]? = some x := by
  obtain ⟨i, hi, hpos⟩ := number_getElem?_from kinds hn h 0 0 {}
  refine ⟨i, ?_, hpos⟩
  rw [hi]
  cases kinds.kindOf x <;> simp [firstOf]

lemma mem_number_iff (hn : names.Nodup) : x ∈ number kinds names 0 0 {} ↔ x ∈ names := by
  rw [Std.TreeMap.mem_iff_isSome_getElem?]
  constructor
  · intro h
    by_contra hx
    rw [number_getElem?_of_notMem kinds hx] at h
    simp at h
  · intro h
    obtain ⟨i, hi, -⟩ := number_getElem? kinds hn h
    rw [hi]
    rfl

end

/-! ## Global variables -/

lemma sorted_names_ext {xs ys : List String}
    (hx : xs.Pairwise fun a b => compare a b = .lt) (hy : ys.Pairwise fun a b => compare a b = .lt)
    (h : ∀ a, a ∈ xs ↔ a ∈ ys) : xs = ys := by
  have nodup : ∀ {zs : List String}, zs.Pairwise (fun a b => compare a b = .lt) → zs.Nodup :=
    fun hz => hz.imp fun {a b} hab => by rintro rfl; simp at hab
  refine List.Perm.eq_of_pairwise ?_ hx hy ((List.perm_ext_iff_of_nodup (nodup hx) (nodup hy)).mpr h)
  intro a b _ _ hab hba
  exact absurd hba (Std.OrientedCmp.not_lt_of_lt hab)

variable {s : Script} {fs : Functions} {k : Knowledge}

lemma globalNames_finish (kind : Kind) :
    (finish s fs k).globalNames kind = k.globals.ofKind kind k.globals.keys := by
  have hkeys : (finish s fs k).globals.keys = k.globals.keys := by
    refine sorted_names_ext Std.TreeMap.ordered_keys Std.TreeMap.ordered_keys fun a => ?_
    rw [Std.TreeMap.mem_keys]
    exact mem_number_iff _ Std.TreeMap.nodup_keys
  have hkind : ∀ a ∈ (finish s fs k).globals.toList,
      (if a.2.kind = kind then some a.1 else none) =
        if k.globals.kindOf a.1 = kind then some a.1 else none := by
    rintro ⟨name, info⟩ ha
    have hget := Std.TreeMap.mem_toList_iff_getElem?_eq_some.mp ha
    have hmem : name ∈ k.globals.keys := by
      rw [← hkeys, Std.TreeMap.mem_keys, Std.TreeMap.mem_iff_isSome_getElem?, hget]
      rfl
    obtain ⟨i, hi, -⟩ := number_getElem? k.globals Std.TreeMap.nodup_keys hmem
    rw [show info = _ from Option.some.inj (hget.symm.trans hi)]
  rw [Resolution.globalNames, List.filterMap_congr hkind, KindTable.ofKind, ← hkeys,
    ← Std.TreeMap.map_fst_toList_eq_keys, ← List.filterMap_eq_filter, List.filterMap_map]
  refine List.filterMap_congr fun a _ => ?_
  simp [Option.guard]

/-! ## Functions -/

lemma nodup_of_firstRepeated {before params : List String} (hb : before.Nodup)
    (h : firstRepeated before params = none) : (before.reverse ++ params).Nodup := by
  induction params generalizing before with
  | nil => simpa using hb
  | cons p rest ih =>
    rw [firstRepeated] at h
    split at h
    · cases h
    · rename_i hp
      have := ih (List.nodup_cons.mpr ⟨by simpa using hp, hb⟩) h
      simpa using this

def ownInfo (i : Nat) (f : Function) : FuncInfo := ⟨i, false, f.params, [], some f.params.length⟩

/-- The functions of a program are found under their names, and nothing else changes. -/
structure Functions.Extends (fs₀ fs : Functions) (l : List Function) (index : Nat) : Prop where
  own : ∀ i f, l[i]? = some f →
    fs.infos[f.name]? = some (ownInfo (index + i) f) ∧ fs.defs[f.name]? = some f
  other : ∀ name, (∀ f ∈ l, f.name ≠ name) →
    fs.infos[name]? = fs₀.infos[name]? ∧ fs.defs[name]? = fs₀.defs[name]?
  params : ∀ f ∈ l, f.params.Nodup
  names : (l.map (·.name)).Nodup

lemma addFunctions_extends {l : List Function} {index : Nat} {fs₀ fs : Functions}
    (h : addFunctions l index fs₀ = .ok fs) :
    fs₀.Extends fs l index ∧ ∀ f ∈ l, fs₀.defs[f.name]? = none := by
  induction l generalizing index fs₀ with
  | nil =>
    cases h
    exact ⟨⟨nofun, fun _ _ => ⟨rfl, rfl⟩, nofun, List.nodup_nil⟩, nofun⟩
  | cons f rest ih =>
    rw [addFunctions] at h
    split at h
    · cases h
    · rename_i hnew
      rw [Std.TreeMap.contains_iff_mem, Std.TreeMap.mem_iff_isSome_getElem?,
        Option.not_isSome_iff_eq_none] at hnew
      split at h
      · cases h
      · rename_i hparams
        obtain ⟨hext, hfresh⟩ := ih h
        -- no later function has the name of the first one
        have hlater : ∀ g ∈ rest, g.name ≠ f.name := by
          intro g hg heq
          have := hfresh g hg
          simp [heq] at this
        have hf := hext.other f.name hlater
        have hget : ∀ g ∈ rest, fs₀.defs[g.name]? = none := by
          intro g hg
          have hg' := hfresh g hg
          rwa [Std.TreeMap.getElem?_insert, if_neg (by simpa using (hlater g hg).symm)] at hg'
        refine ⟨⟨?_, ?_, ?_, ?_⟩, List.forall_mem_cons.mpr ⟨hnew, hget⟩⟩
        · intro i g hi
          cases i with
          | zero =>
            cases hi
            rw [hf.1, hf.2]
            simp [ownInfo]
          | succ i =>
            have := hext.own i g hi
            rwa [Nat.add_assoc, Nat.add_comm 1] at this
        · intro name hname
          rw [List.forall_mem_cons] at hname
          have hne : ¬ compare f.name name = .eq := by simpa using hname.1
          have := hext.other name hname.2
          rwa [Std.TreeMap.getElem?_insert, if_neg hne, Std.TreeMap.getElem?_insert,
            if_neg hne] at this
        · refine List.forall_mem_cons.mpr ⟨?_, hext.params⟩
          simpa using nodup_of_firstRepeated List.nodup_nil hparams
        · rw [List.map_cons, List.nodup_cons]
          refine ⟨?_, hext.names⟩
          rw [List.mem_map]
          rintro ⟨g, hg, heq⟩
          exact hlater g hg heq

/-- The native functions that the program does not define itself, in the order of their names. -/
def freeNatives (s : Script) (natives : List NativeFunc) : List NativeFunc :=
  (natives.filter fun n => !s.functions.any (·.name == n.name)).mergeSort fun a b => a.name ≤ b.name

/-- What is known of a native function with a number. -/
def nativeInfo (i : Nat) (n : NativeFunc) : FuncInfo := ⟨i, true, [], [], n.arity⟩

variable {natives : List NativeFunc} {name : String} {info : FuncInfo}

/-- A native function has the number of its place, and of the last one if the name is repeated. -/
lemma addNatives_iff :
    (addNatives s natives {})[name]? = some info ↔ ∃ i n, (freeNatives s natives)[i]? = some n ∧ n.name = name ∧
      info = nativeInfo i n ∧ ∀ j n', (freeNatives s natives)[j]? = some n' → n'.name = name → j ≤ i := by
  change ((freeNatives s natives).zipIdx.foldl _ (∅ : Std.TreeMap String FuncInfo))[name]? = some info ↔ _
  induction freeNatives s natives using List.reverseRecOn with
  | nil => simp
  | append_singleton l a ih =>
    rw [List.zipIdx_append, List.foldl_append]
    simp only [List.zipIdx_cons, List.zipIdx_nil, List.foldl_cons, List.foldl_nil, Nat.zero_add]
    rw [Std.TreeMap.getElem?_insert]
    by_cases ha : a.name = name
    · rw [if_pos (by simp [ha])]
      constructor
      · rintro ⟨rfl⟩
        exact ⟨l.length, a, by simp, ha, rfl, fun j n' hj _ => by grind⟩
      · rintro ⟨i, n, hi, -, rfl, hlast⟩
        have hle := hlast l.length a (by simp) ha
        obtain rfl : i = l.length := by grind
        obtain rfl : a = n := by simpa using hi
        rfl
    · have hsame (i : Nat) (n : NativeFunc) (hn : n.name = name) : (l ++ [a])[i]? = some n ↔ l[i]? = some n := by grind
      rw [if_neg (by simpa using ha), ih]
      grind

/-- The functions that can be called are those of the program, numbered in their order, and native
ones. -/
structure Functions.Of (fs : Functions) (s : Script) : Prop where
  own : ∀ i f, s.functions[i]? = some f →
    fs.infos[f.name]? = some (ownInfo i f) ∧ fs.defs[f.name]? = some f
  cases : ∀ name info, fs.infos[name]? = some info → (info.native = true ∧ info.params = []) ∨
    ∃ i f, s.functions[i]? = some f ∧ f.name = name ∧ info = ownInfo i f
  params : ∀ f ∈ s.functions, f.params.Nodup
  names : (s.functions.map (·.name)).Nodup

lemma addFunctions_of
    (h : addFunctions s.functions 0 ⟨{}, addNatives s natives {}⟩ = .ok fs) : fs.Of s := by
  obtain ⟨hext, -⟩ := addFunctions_extends h
  refine ⟨fun i f hi => by simpa using hext.own i f hi, fun name info hinfo => ?_, hext.params,
    hext.names⟩
  by_cases hown : ∃ f ∈ s.functions, f.name = name
  · obtain ⟨f, hf, rfl⟩ := hown
    obtain ⟨i, hi⟩ := List.mem_iff_getElem?.mp hf
    have hget := (hext.own i f hi).1
    rw [hinfo, Nat.zero_add] at hget
    exact .inr ⟨i, f, hi, rfl, Option.some.inj hget⟩
  · have := (hext.other name fun f hf heq => hown ⟨f, hf, heq⟩).1
    rw [hinfo] at this
    obtain ⟨i, n, -, -, rfl, -⟩ := addNatives_iff.mp this.symm
    exact .inl ⟨rfl, rfl⟩

lemma Functions.Of.nodup (hfs : fs.Of s)
    (h : fs.infos[name]? = some info) : info.params.Nodup := by
  rcases hfs.cases name info h with ⟨-, hp⟩ | ⟨i, f, hi, -, rfl⟩
  · rw [hp]
    exact List.nodup_nil
  · exact hfs.params f (List.mem_of_getElem? hi)

/-! ## Parameters -/

lemma start_table (params : List String) (name : String) :
    (params.foldl (fun (table : KindTable) p => table.insert p none) {})[name]?.isSome ↔
      name ∈ params := by
  have fold : ∀ table : KindTable,
      (params.foldl (fun (table : KindTable) p => table.insert p none) table)[name]?.isSome ↔
        name ∈ params ∨ table[name]?.isSome := by
    induction params with
    | nil => simp
    | cons p rest ih =>
      intro table
      rw [List.foldl_cons, ih, Std.TreeMap.getElem?_insert, List.mem_cons]
      by_cases hp : p = name
      · subst hp
        simp
      · rw [if_neg (by simpa using hp)]
        simp [Ne.symm hp]
  simpa using fold {}

lemma start_locals (hn : (s.functions.map (·.name)).Nodup) (f : String) :
    (start s).locals[f]? = (s.functions.find? (·.name == f)).map fun g =>
      g.params.foldl (fun (table : KindTable) p => table.insert p none) {} := by
  have fold : ∀ (l : List Function) (locals : Std.TreeMap String KindTable),
      (l.map (·.name)).Nodup →
      (l.foldl (fun locals f =>
        locals.insert f.name (f.params.foldl (fun table p => table.insert p none) {})) locals)[f]? =
        ((l.find? (·.name == f)).map fun g =>
          g.params.foldl (fun (table : KindTable) p => table.insert p none) {}).or locals[f]? := by
    intro l
    induction l with
    | nil => simp
    | cons g l ih =>
      intro locals hl
      rw [List.map_cons, List.nodup_cons] at hl
      rw [List.foldl_cons, ih _ hl.2, Std.TreeMap.getElem?_insert]
      by_cases hg : g.name = f
      · subst hg
        have hnone : l.find? (·.name == g.name) = none := by
          rw [List.find?_eq_none]
          intro x hx
          have : x.name ≠ g.name := fun heq => hl.1 (heq ▸ List.mem_map_of_mem hx)
          simpa using this
        simp [hnone]
      · simp [hg]
  have := fold s.functions {} hn
  simpa [start] using this

end Awk.Infer
