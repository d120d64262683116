import Awk.Compile.Script
import Awk.Proofs.StateExcept

/-!
# Constants keep their places

Compiling threads the pools of constants through the whole program, so that the code of a part seems to
depend on everything compiled before it.  It does not: pools only grow, and a constant that is there is
found where it is.  Hence what a part gives in the pools of the whole program is what it gave when it was
compiled.
-/

namespace Awk

/-! ## Pools within pools -/

/-- The constants of a pool stand in another one in the same places. -/
structure Pools.Within (p q : Pools) : Prop where
  nums : ∃ rest, q.nums = p.nums ++ rest
  strs : ∃ rest, q.strs = p.strs ++ rest
  regexes : ∃ rest, q.regexes = p.regexes ++ rest

/-- No pool holds a constant twice. -/
structure Pools.Distinct (p : Pools) : Prop where
  nums : p.nums.toList.Nodup
  strs : p.strs.toList.Nodup
  regexes : p.regexes.toList.Nodup

lemma Pools.Within.refl (p : Pools) : p.Within p :=
  ⟨⟨#[], by simp⟩, ⟨#[], by simp⟩, ⟨#[], by simp⟩⟩

variable {α : Type} {xs ys : Array α} {p q : Pools}

private lemma extends_trans {zs : Array α} (h : ∃ rest, ys = xs ++ rest) (h' : ∃ rest, zs = ys ++ rest) :
    ∃ rest, zs = xs ++ rest := by
  obtain ⟨r, rfl⟩ := h
  obtain ⟨s, rfl⟩ := h'
  exact ⟨r ++ s, by rw [Array.append_assoc]⟩

private lemma extends_antisymm (h : ∃ rest, ys = xs ++ rest) (h' : ∃ rest, xs = ys ++ rest) : xs = ys := by
  obtain ⟨r, hr⟩ := h
  obtain ⟨s, hs⟩ := h'
  have hsize := congrArg Array.size (hs.trans (by rw [hr]))
  simp only [Array.size_append] at hsize
  have hr0 : r = #[] := Array.eq_empty_of_size_eq_zero (by omega)
  rw [hr, hr0, Array.append_empty]

lemma Pools.Within.trans {r : Pools} (h : p.Within q) (h' : q.Within r) : p.Within r :=
  ⟨extends_trans h.nums h'.nums, extends_trans h.strs h'.strs, extends_trans h.regexes h'.regexes⟩

lemma Pools.Within.antisymm (h : p.Within q) (h' : q.Within p) : p = q := by
  cases p; cases q
  rw [Pools.mk.injEq]
  exact ⟨extends_antisymm h.nums h'.nums, extends_antisymm h.strs h'.strs,
    extends_antisymm h.regexes h'.regexes⟩

/-! ## Looking a constant up, or adding it -/

/-- A constant is found at a place of a pool, or added there at the end. -/
def Pooled (xs : Array α) (same : α → Bool) (a : α) (i : Nat) (ys : Array α) : Prop :=
  (xs.findIdx? same = some i ∧ ys = xs) ∨ (xs.findIdx? same = none ∧ i = xs.size ∧ ys = xs.push a)

namespace Pooled

variable {same : α → Bool} {a : α} {i : Nat} (h : Pooled xs same a i ys)

include h

lemma extends_pool : ∃ rest, ys = xs ++ rest := by
  obtain ⟨-, rfl⟩ | ⟨-, -, rfl⟩ := h
  · exact ⟨#[], by simp⟩
  · exact ⟨#[a], by simp⟩

lemma nodup (ha : same a = true) (hxs : xs.toList.Nodup) : ys.toList.Nodup := by
  obtain ⟨-, rfl⟩ | ⟨hnone, -, rfl⟩ := h
  · exact hxs
  rw [Array.toList_push, List.nodup_append]
  refine ⟨hxs, List.nodup_singleton a, ?_⟩
  intro b hb c hc hbc
  rw [List.mem_singleton] at hc
  have hfalse := Array.findIdx?_eq_none_iff.mp hnone b (Array.mem_toList_iff.mp hb)
  rw [hbc, hc, ha] at hfalse
  cases hfalse

/-- The constant is found in the same place if more follow. -/
lemma settled (ha : same a = true) (rest : Array α) : (ys ++ rest).findIdx? same = some i := by
  obtain ⟨hi, rfl⟩ | ⟨hnone, rfl, rfl⟩ := h
  · rw [Array.findIdx?_append, hi]
    rfl
  · rw [Array.findIdx?_append, Array.findIdx?_push, hnone]
    simp [ha]

lemma getElem? (ha : same a = true) : ∃ b, ys[i]? = some b ∧ same b = true := by
  have hi := h.settled ha #[]
  rw [Array.append_empty] at hi
  obtain ⟨hlt, hb, -⟩ := Array.findIdx?_eq_some_iff_getElem.mp hi
  exact ⟨ys[i], by rw [Array.getElem?_eq_getElem], hb⟩

end Pooled

namespace Pools

variable {c : Constant} {op : Op} {p q r : Pools}

lemma place_cases (h : p.place c = .ok (op, q)) :
    (∃ x i xs, c = .num x ∧ op = .num i ∧ Pooled p.nums (·.toBits == x.toBits) x i xs ∧ q = { p with nums := xs }) ∨
    (∃ s i xs, c = .str s ∧ op = .str i ∧ Pooled p.strs (· == s) s i xs ∧ q = { p with strs := xs }) ∨
    ∃ s i xs, c = .regex s ∧ op = .regex i ∧ Pooled p.regexes (· == s) s i xs ∧ q = { p with regexes := xs } := by
  cases c with
  | num x =>
    rw [place] at h
    split at h <;> cases h
    · exact .inl ⟨x, _, _, rfl, rfl, .inl ⟨‹_›, rfl⟩, rfl⟩
    · exact .inl ⟨x, _, _, rfl, rfl, .inr ⟨‹_›, rfl, rfl⟩, rfl⟩
  | str s =>
    rw [place] at h
    split at h <;> cases h
    · exact .inr (.inl ⟨s, _, _, rfl, rfl, .inl ⟨‹_›, rfl⟩, rfl⟩)
    · exact .inr (.inl ⟨s, _, _, rfl, rfl, .inr ⟨‹_›, rfl, rfl⟩, rfl⟩)
  | regex s =>
    rw [place] at h
    split at h
    · cases h
      exact .inr (.inr ⟨s, _, _, rfl, rfl, .inl ⟨‹_›, rfl⟩, rfl⟩)
    · split at h <;> cases h
      exact .inr (.inr ⟨s, _, _, rfl, rfl, .inr ⟨‹_›, rfl, rfl⟩, rfl⟩)

lemma place_within (h : p.place c = .ok (op, q)) : p.Within q := by
  have hsame := Within.refl p
  obtain ⟨x, i, xs, -, -, hc, rfl⟩ | ⟨s, i, xs, -, -, hc, rfl⟩ | ⟨s, i, xs, -, -, hc, rfl⟩ := place_cases h
  · exact { hsame with nums := hc.extends_pool }
  · exact { hsame with strs := hc.extends_pool }
  · exact { hsame with regexes := hc.extends_pool }

lemma place_distinct (h : p.place c = .ok (op, q)) (hd : p.Distinct) : q.Distinct := by
  obtain ⟨x, i, xs, -, -, hc, rfl⟩ | ⟨s, i, xs, -, -, hc, rfl⟩ | ⟨s, i, xs, -, -, hc, rfl⟩ := place_cases h
  · exact { hd with nums := hc.nodup (by simp) hd.nums }
  · exact { hd with strs := hc.nodup (by simp) hd.strs }
  · exact { hd with regexes := hc.nodup (by simp) hd.regexes }

/-- A constant that is there is found where it is. -/
lemma place_settled (h : p.place c = .ok (op, q)) (hr : q.Within r) : r.place c = .ok (op, r) := by
  obtain ⟨x, i, xs, rfl, rfl, hc, rfl⟩ | ⟨s, i, xs, rfl, rfl, hc, rfl⟩ | ⟨s, i, xs, rfl, rfl, hc, rfl⟩ := place_cases h
  · obtain ⟨rest, hrest⟩ := hr.nums
    rw [place, hrest, hc.settled (by simp)]
  · obtain ⟨rest, hrest⟩ := hr.strs
    rw [place, hrest, hc.settled (by simp)]
  · obtain ⟨rest, hrest⟩ := hr.regexes
    rw [place, hrest, hc.settled (by simp)]

end Pools

namespace Compile

variable {α β γ : Type} {x : Compile α} {y : Compile β} {f : α → Compile β} {a b : α} {pools p q r : Pools}

/-! ## Computations one after the other -/

instance : LawfulMonad Compile := by
  refine .mk' _ (fun x => ?_) (fun _ _ => rfl) (fun x f g => ?_)
  · induction x with
    | done | fail => rfl
    | ask c next ih => exact congrArg (ask c) (funext ih)
  · induction x with
    | done | fail => rfl
    | ask c next ih => exact congrArg (ask c) (funext ih)

lemma run_ask {c : Constant} {next : Op → Compile α} :
    (ask c next).run p = .ok (a, q) ↔ ∃ op p', p.place c = .ok (op, p') ∧ (next op).run p' = .ok (a, q) := by
  rw [run]
  split <;> simp_all

lemma run_bind {b : β} : (x >>= f).run p = .ok (b, r) ↔
    ∃ a q, x.run p = .ok (a, q) ∧ (f a).run q = .ok (b, r) := by
  induction x generalizing p with
  | done a | fail e => simp [run, bind, andThen]
  | ask c next ih =>
    change (ask c fun op => next op >>= f).run p = _ ↔ _
    simp only [run_ask, ih]
    constructor
    · rintro ⟨op, p', hp, a, q, hx, hf⟩
      exact ⟨a, q, ⟨op, p', hp, hx⟩, hf⟩
    · rintro ⟨a, q, ⟨op, p', hp, hx⟩, hf⟩
      exact ⟨op, p', hp, a, q, hx, hf⟩

/-- Pools only grow. -/
lemma run_within (h : x.run p = .ok (a, q)) : p.Within q := by
  induction x generalizing p with
  | done => cases h; exact .refl _
  | fail => cases h
  | ask c next ih =>
    obtain ⟨op, p', hp, h⟩ := run_ask.mp h
    exact (Pools.place_within hp).trans (ih op h)

lemma run_distinct (h : x.run p = .ok (a, q)) (hd : p.Distinct) : q.Distinct := by
  induction x generalizing p with
  | done => cases h; exact hd
  | fail => cases h
  | ask c next ih =>
    obtain ⟨op, p', hp, h⟩ := run_ask.mp h
    exact ih op h (Pools.place_distinct hp hd)

/-- The result is the same where more constants follow. -/
lemma run_settled (h : x.run p = .ok (a, q)) (hr : q.Within r) : x.run r = .ok (a, r) := by
  induction x generalizing p with
  | done => cases h; rfl
  | fail => cases h
  | ask c next ih =>
    obtain ⟨op, p', hp, h⟩ := run_ask.mp h
    exact run_ask.mpr ⟨op, r, Pools.place_settled hp ((run_within h).trans hr), ih op h⟩

/-! ## Results in the pools of the whole program -/

/-- The result in pools that hold all its constants. -/
def Gives (x : Compile α) (pools : Pools) (a : α) : Prop := x.run pools = .ok (a, pools)

lemma gives_of_run (h : x.run p = .ok (a, q)) (hr : q.Within r) : Gives x r a := run_settled h hr

@[simp]
lemma gives_pure : Gives (pure a : Compile α) pools b ↔ a = b := by
  change Except.ok (a, pools) = _ ↔ _
  simp

@[simp]
lemma not_gives_fail {e : CompileError} : ¬ Gives (fail e : Compile α) pools a := nofun

/-- In pools that hold all constants the parts of a result can be looked at one by one. -/
lemma gives_bind {b : β} : Gives (x >>= f) pools b ↔ ∃ a, Gives x pools a ∧ Gives (f a) pools b := by
  constructor
  · intro h
    obtain ⟨a, q, h₁, h₂⟩ := run_bind.mp h
    have hq : pools = q := (run_within h₁).antisymm (run_within h₂)
    subst hq
    exact ⟨a, h₁, h₂⟩
  · rintro ⟨a, h₁, h₂⟩
    exact run_bind.mpr ⟨a, pools, h₁, h₂⟩

lemma gives_map {g : α → β} {b : β} :
    Gives (do return g (← x)) pools b ↔ ∃ a, Gives x pools a ∧ b = g a := by
  simp only [gives_bind, gives_pure, eq_comm]

lemma gives_map₂ {g : α → β → γ} {c : γ} : Gives (do let a ← x; return g a (← y)) pools c ↔
    ∃ a, Gives x pools a ∧ ∃ b, Gives y pools b ∧ c = g a b := by
  simp only [gives_bind, gives_pure, eq_comm]

lemma gives_mapM {l : List α} {bs : List β} :
    Gives (l.mapM f) pools bs ↔ List.Forall₂ (fun a b => Gives (f a) pools b) l bs := by
  induction l generalizing bs with
  | nil =>
    rw [List.mapM_nil, gives_pure, List.forall₂_nil_left_iff]
    exact eq_comm
  | cons a l ih =>
    rw [List.mapM_cons, gives_bind, List.forall₂_cons_left_iff]
    simp only [gives_map, ih]
    constructor
    · rintro ⟨b, hb, bs', hbs, rfl⟩
      exact ⟨b, bs', hb, hbs, rfl⟩
    · rintro ⟨b, bs', hb, hbs, rfl⟩
      exact ⟨b, hb, bs', hbs, rfl⟩

lemma Gives.unique (h : Gives x pools a) (h' : Gives x pools b) : a = b := by
  have := Except.ok.inj ((Eq.symm h).trans h')
  exact (Prod.mk.inj this).1

lemma Gives.place {c : Constant} {op : Op} (h : Gives (ask c done) pools op) :
    pools.place c = .ok (op, pools) := by
  obtain ⟨op', p', hp, h⟩ := run_ask.mp h
  cases h
  exact hp

variable {op : Op} {s : String}

lemma Gives.num {x : Float} (h : Gives (num x) pools op) : ∃ i, op = .num i ∧ pools.nums[i]? = some x := by
  obtain ⟨_, i, xs, ⟨⟩, hop, h, hxs⟩ | ⟨_, _, _, ⟨⟩, -⟩ | ⟨_, _, _, ⟨⟩, -⟩ := Pools.place_cases h.place
  obtain ⟨y, hy, hxy⟩ := h.getElem? (by simp)
  rw [Float.toBits_inj.mp (beq_iff_eq.mp hxy)] at hy
  exact ⟨i, hop, by rwa [hxs]⟩

lemma Gives.str (h : Gives (str s) pools op) : ∃ i, op = .str i ∧ pools.strs[i]? = some s := by
  obtain ⟨_, _, _, ⟨⟩, -⟩ | ⟨_, i, xs, ⟨⟩, hop, h, hxs⟩ | ⟨_, _, _, ⟨⟩, -⟩ := Pools.place_cases h.place
  obtain ⟨t, ht, hst⟩ := h.getElem? (by simp)
  rw [beq_iff_eq.mp hst] at ht
  exact ⟨i, hop, by rwa [hxs]⟩

lemma Gives.regex (h : Gives (regex s) pools op) : ∃ i, op = .regex i ∧ pools.regexes[i]? = some s := by
  obtain ⟨_, _, _, ⟨⟩, -⟩ | ⟨_, _, _, ⟨⟩, -⟩ | ⟨_, i, xs, ⟨⟩, hop, h, hxs⟩ := Pools.place_cases h.place
  obtain ⟨t, ht, hst⟩ := h.getElem? (by simp)
  rw [beq_iff_eq.mp hst] at ht
  exact ⟨i, hop, by rwa [hxs]⟩

end Compile

/-! ## Programs -/

open Compile

def Program.pools (p : Program) : Pools := ⟨p.nums, p.strs, p.regexes⟩

/-- The parts of a program are those that the parts of the script give in the program's own pools. -/
structure Program.CompiledFrom (p : Program) (r : Resolution) : Prop where
  begin : List.Forall₂ (fun body code => Gives (blockCode ⟨r, none⟩ body) p.pools code)
    r.script.begin p.begin.toList
  rules : List.Forall₂ (fun rule code => Gives (ruleCode ⟨r, none⟩ rule) p.pools code)
    r.script.rules p.rules.toList
  final : List.Forall₂ (fun body code => Gives (blockCode ⟨r, none⟩ body) p.pools code)
    r.script.final p.final.toList
  functions : List.Forall₂ (fun f code => Gives (functionCode r f) p.pools code)
    r.script.functions p.functions.toList
  scalarNames : p.scalarNames = r.scalarNames.toArray
  arrayNames : p.arrayNames = r.arrayNames.toArray
  nativeNames : p.nativeNames = r.nativeNames.toArray
  distinct : p.pools.Distinct

theorem Resolution.compile_compiledFrom {r : Resolution} {source : String} {p : Program}
    (h : r.compile source = .ok p) : p.CompiledFrom r := by
  rw [Resolution.compile] at h
  cases hrun : (scriptCode r).run {} with
  | error e => rw [hrun] at h; cases h
  | ok result =>
    obtain ⟨q, pools⟩ := result
    rw [hrun] at h
    cases h
    have hq : Gives (scriptCode r) pools q := gives_of_run hrun (.refl _)
    simp only [scriptCode, gives_bind, gives_mapM, gives_pure] at hq
    obtain ⟨begin, hbegin, rules, hrules, final, hfinal, functions, hfunctions, rfl⟩ := hq
    exact
      { begin := hbegin
        rules := hrules
        final := hfinal
        functions := hfunctions
        scalarNames := rfl
        arrayNames := rfl
        nativeNames := rfl
        distinct := run_distinct hrun ⟨by simp, by simp, by simp⟩ }

end Awk
