import Mathlib
import Awk.CallGraph

/-!
# Callees before callers

The order of a call graph has all that can be reached from its callers, once each.  A callee stands before its caller
unless it reaches the caller again: what the walk leaves out when it comes to a callee is in the order already, or on
the path that led there.
-/

namespace Awk.CallGraph

/-- A function is another one, or it calls the other one directly or through others. -/
def Reaches (g : CallGraph) : String → String → Prop := Relation.ReflTransGen fun u v => v ∈ g.callees u

variable {g : CallGraph} {depth : Nat} {path done : List String} {name : String}

lemma mem_calls_of_mem_callees {u v : String} (h : v ∈ g.callees u) : u ∈ g.calls := by
  rw [callees] at h
  split at h
  · rename_i names hnames
    rw [Std.TreeMap.mem_iff_isSome_getElem?, hnames]
    rfl
  · cases h

/-- A path that leads to a function: callers without repetition, each of which reaches it. -/
structure Leads (g : CallGraph) (path : List String) (name : String) : Prop where
  nodup : path.Nodup
  callers : ∀ u ∈ path, u ∈ g.calls
  reaches : ∀ u ∈ path, g.Reaches u name
  start : ∃ u ∈ g.calls, g.Reaches u name

lemma Leads.callee (h : g.Leads path name) (hname : name ∉ path) {v : String} (hv : v ∈ g.callees name) :
    g.Leads (name :: path) v where
  nodup := List.nodup_cons.mpr ⟨hname, h.nodup⟩
  callers := List.forall_mem_cons.mpr ⟨mem_calls_of_mem_callees hv, h.callers⟩
  reaches := List.forall_mem_cons.mpr ⟨.single hv, fun u hu => (h.reaches u hu).tail hv⟩
  start := ⟨name, mem_calls_of_mem_callees hv, .single hv⟩

lemma Leads.length_le (h : g.Leads path name) : path.length ≤ g.calls.size := by
  have hkeys : path ⊆ g.calls.keys := fun u hu => Std.TreeMap.mem_keys.mpr (h.callers u hu)
  rw [← Std.TreeMap.length_keys]
  exact (h.nodup.subperm hkeys).length_le

/-- What is known of an order while the functions on a path are being visited. -/
structure Orders (g : CallGraph) (path done : List String) : Prop where
  nodup : done.Nodup
  apart : ∀ u ∈ done, u ∉ path
  found : ∀ u ∈ done, ∃ caller ∈ g.calls, g.Reaches caller u
  below : ∀ u ∈ done, ∀ v ∈ g.callees u, v ∈ done ∨ v ∈ path
  first : ∀ before u after, done = before ++ u :: after → ∀ v ∈ g.callees u, v ∈ before ∨ v = u ∨ g.Reaches v u

/-- A function follows its callees, but for those on the path to it, which reach it. -/
lemma Orders.snoc (h : g.Orders (name :: path) done) (hlead : g.Leads path name) (hname : name ∉ path)
    (hbelow : ∀ v ∈ g.callees name, v ∈ done ∨ v ∈ name :: path) : g.Orders path (done ++ [name]) where
  nodup := h.nodup.append (List.nodup_singleton name) (by simpa using fun hn => h.apart name hn List.mem_cons_self)
  apart := List.forall_mem_append.mpr
    ⟨fun u hu hpath => h.apart u hu (List.mem_cons_of_mem _ hpath), by simpa using hname⟩
  found := List.forall_mem_append.mpr ⟨h.found, by simpa using hlead.start⟩
  below u hu v hv := by
    have : v ∈ done ∨ v ∈ name :: path := by
      rcases List.mem_append.mp hu with hu | hu
      · exact h.below u hu v hv
      · exact hbelow v (List.mem_singleton.mp hu ▸ hv)
    simpa [or_assoc] using this
  first before u after heq v hv := by
    rcases List.eq_nil_or_concat after with rfl | ⟨after, last, rfl⟩
    · obtain ⟨rfl, hu⟩ := List.append_inj' heq rfl
      cases hu
      rcases hbelow v hv with hdone | hpath
      · exact .inl hdone
      · exact .inr ((List.mem_cons.mp hpath).imp_right (hlead.reaches v))
    · rw [List.concat_eq_append, ← List.cons_append, ← List.append_assoc] at heq
      exact h.first before u after (List.append_inj' heq rfl).1 v hv

/-- What a visit comes to: a longer order, with the function in it unless it is on the path. -/
def Visited (g : CallGraph) (path done : List String) (name : String) (done' : List String) : Prop :=
  g.Orders path done' ∧ done ⊆ done' ∧ (name ∈ done' ∨ name ∈ path)

lemma foldl_visited {names : List String} (depth : Nat)
    (hvisit : ∀ n ∈ names, ∀ done, g.Orders path done → g.Visited path done n (g.visit depth path done n))
    (hdone : g.Orders path done) :
    g.Orders path (names.foldl (fun done => g.visit depth path done) done) ∧
      done ⊆ names.foldl (fun done => g.visit depth path done) done ∧
      ∀ n ∈ names, n ∈ names.foldl (fun done => g.visit depth path done) done ∨ n ∈ path := by
  induction names generalizing done with
  | nil => exact ⟨hdone, List.Subset.refl _, nofun⟩
  | cons n rest ih =>
    rw [List.forall_mem_cons] at hvisit
    obtain ⟨horders, hsubset, hn⟩ := hvisit.1 done hdone
    obtain ⟨horders', hsubset', hrest⟩ := ih hvisit.2 horders
    exact ⟨horders', List.Subset.trans hsubset hsubset', List.forall_mem_cons.mpr ⟨hn.imp_left (hsubset' ·), hrest⟩⟩

/-- The induction is on the depth that is left, which is never used up: a path has no more functions than there are
callers. -/
lemma visit_visited (hlead : g.Leads path name) (hdepth : depth + path.length = g.calls.size + 1)
    (hdone : g.Orders path done) : g.Visited path done name (g.visit depth path done name) := by
  induction depth generalizing path done name with
  | zero =>
    have := hlead.length_le
    omega
  | succ depth ih =>
    rw [visit]
    split
    · rename_i hseen
      exact ⟨hdone, List.Subset.refl _, by simpa using hseen⟩
    · rename_i hnew
      simp only [List.contains_eq_mem, Bool.or_eq_true, decide_eq_true_eq, not_or] at hnew
      have horders : g.Orders (name :: path) done :=
        { hdone with
          apart := fun u hu => List.not_mem_cons_of_ne_of_not_mem (fun heq => hnew.1 (heq ▸ hu)) (hdone.apart u hu)
          below := fun u hu v hv => (hdone.below u hu v hv).imp_right (List.mem_cons_of_mem _) }
      obtain ⟨hfold, hsubset, hcallees⟩ := foldl_visited depth
        (fun v hv done hd => ih (hlead.callee hnew.2 hv) (by rw [List.length_cons]; omega) hd) horders
      exact ⟨hfold.snoc hlead hnew.2 hcallees, List.subset_append_of_subset_left _ hsubset, .inl (by simp)⟩

lemma sorted_visited (g : CallGraph) : g.Orders [] g.sorted ∧ ∀ u ∈ g.calls, u ∈ g.sorted := by
  have hlead : ∀ u ∈ g.calls.keys, g.Leads [] u := fun u hu =>
    ⟨List.nodup_nil, nofun, nofun, u, Std.TreeMap.mem_keys.mp hu, .refl⟩
  have hempty : g.Orders [] [] := ⟨List.nodup_nil, nofun, nofun, nofun, by simp⟩
  obtain ⟨horders, -, hkeys⟩ := foldl_visited (g.calls.size + 1)
    (fun u hu done hd => visit_visited (hlead u hu) rfl hd) hempty
  exact ⟨horders, fun u hu => (hkeys u (Std.TreeMap.mem_keys.mpr hu)).resolve_right List.not_mem_nil⟩

lemma mem_sorted (g : CallGraph) (h : name ∈ g.calls) : name ∈ g.sorted := (sorted_visited g).2 name h

lemma mem_sorted_iff (g : CallGraph) (v : String) : v ∈ g.sorted ↔ ∃ u ∈ g.calls, g.Reaches u v := by
  obtain ⟨horders, hcallers⟩ := sorted_visited g
  constructor
  · exact horders.found v
  · rintro ⟨u, hu, hreach⟩
    induction hreach with
    | refl => exact hcallers u hu
    | tail _ hv ih => exact (horders.below _ ih _ hv).resolve_right List.not_mem_nil

lemma idxOf_lt_or_reaches (g : CallGraph) {u v : String} (hv : v ∈ g.callees u) (hne : v ≠ u) :
    g.sorted.idxOf v < g.sorted.idxOf u ∨ g.Reaches v u := by
  obtain ⟨horders, hcallers⟩ := sorted_visited g
  obtain ⟨before, after, heq⟩ := List.append_of_mem (hcallers u (mem_calls_of_mem_callees hv))
  have hu : u ∉ before := fun hmem => (List.nodup_append.mp (heq ▸ horders.nodup)).2.2 u hmem u List.mem_cons_self rfl
  refine (horders.first before u after heq v hv).imp (fun hbefore => ?_) fun h => h.resolve_left hne
  rw [heq, List.idxOf_append_of_mem hbefore, List.idxOf_append_of_notMem hu, List.idxOf_cons_self, Nat.add_zero]
  exact List.idxOf_lt_length_of_mem hbefore

/-- The order of a call graph has every function that calls or can be reached, once each, and no other.  A callee stands
before its caller unless it reaches the caller; so all callees do where no function reaches itself. -/
theorem sorted_callees_first (g : CallGraph) :
    g.sorted.Nodup ∧ (∀ v, v ∈ g.sorted ↔ ∃ u ∈ g.calls, g.Reaches u v) ∧
      (∀ u v, v ∈ g.callees u → v ≠ u → g.sorted.idxOf v < g.sorted.idxOf u ∨ g.Reaches v u) ∧
      ((∀ u v, v ∈ g.callees u → ¬ g.Reaches v u) →
        ∀ u v, v ∈ g.callees u → g.sorted.idxOf v < g.sorted.idxOf u) := by
  refine ⟨(sorted_visited g).1.nodup, mem_sorted_iff g, fun u v hv hne => idxOf_lt_or_reaches g hv hne,
    fun hacyclic u v hv => ?_⟩
  have hne : v ≠ u := fun heq => hacyclic u v hv (heq ▸ .refl)
  exact (idxOf_lt_or_reaches g hv hne).resolve_right (hacyclic u v hv)

end Awk.CallGraph
