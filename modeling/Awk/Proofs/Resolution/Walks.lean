import Awk.Resolution.Infer
import Awk.Proofs.StateExcept

/-!
# Walks that change nothing

Kinds are inferred by walks over the program until one changes nothing.  Everything that is proved about
the result comes from that last walk: each use it records is a use that the knowledge already agrees with.
-/

namespace Awk.Infer

def Knowledge.isParam (k : Knowledge) (f name : String) : Bool :=
  (k.locals[f]?.bind fun table => table[name]?).isSome

/-- What a walk may do to knowledge: it counts each change, and it adds no parameters. -/
structure Knowledge.Before (k k' : Knowledge) : Prop where
  updates : k.updates ≤ k'.updates
  eq : k.updates = k'.updates → k = k'
  isParam : ∀ f name, k'.isParam f name = k.isParam f name

lemma Knowledge.Before.refl (k : Knowledge) : k.Before k := ⟨le_rfl, fun _ => rfl, fun _ _ => rfl⟩

lemma Knowledge.Before.trans {k k' k'' : Knowledge} (h : k.Before k') (h' : k'.Before k'') :
    k.Before k'' where
  updates := h.updates.trans h'.updates
  eq e := by
    have h₁ := h.updates
    have h₂ := h'.updates
    exact (h.eq (by omega)).trans (h'.eq (by omega))
  isParam f name := (h'.isParam f name).trans (h.isParam f name)

variable {k' : Knowledge} {kind : Option Kind} {extent : Extent} {argCount : Nat} {info : FuncInfo} {param : Option String}

instance : IsPreorder Knowledge Knowledge.Before where
  refl := .refl
  trans _ _ _ := .trans

lemma Knowledge.Before.antisymm {k : Knowledge} (h : k.Before k') (h' : k'.Before k) : k = k' :=
  h.eq (le_antisymm h.updates h'.updates)

/-! ## Computations that change nothing -/

/-- What a computation does to knowledge, where it gives a result, is allowed by a relation. -/
def Respects {α : Type} (R : Knowledge → Knowledge → Prop) (x : Learn α) : Prop :=
  ∀ k a k', x.run k = .ok (a, k') → R k k'

/-- A computation that does to knowledge what a walk may do. -/
abbrev Careful {α : Type} (x : Learn α) : Prop := Respects Knowledge.Before x

/-- A computation gives a result and changes nothing. -/
def Holds {α : Type} (x : Learn α) (k : Knowledge) (a : α) : Prop := x.run k = .ok (a, k)

section

variable {α β : Type} {R : Knowledge → Knowledge → Prop}

lemma Respects.throw (e : ResolveError) : Respects R (throw e : Learn α) :=
  fun _ _ _ h => absurd h run_throw_ne_ok

variable [IsPreorder Knowledge R]

lemma Respects.pure (a : α) : Respects R (pure a : Learn α) := by
  intro k b k' h
  rw [run_pure_eq_ok] at h
  exact h.2 ▸ refl k

lemma Respects.get : Respects R (get : Learn Knowledge) := by
  rintro k a k' h
  cases h
  exact refl k

variable {x : Learn α} {f : α → Learn β} {a : α} {k : Knowledge} {b : β}

lemma Respects.bind (hx : Respects R x) (hf : ∀ a, Respects R (f a)) : Respects R (x >>= f) := by
  intro k b k' h
  obtain ⟨a, k₁, h₁, h₂⟩ := run_bind_eq_ok.mp h
  exact IsTrans.trans _ _ _ (hx _ _ _ h₁) (hf a _ _ _ h₂)

lemma Respects.forM {f : α → Learn Unit} (hf : ∀ a, Respects R (f a)) (l : List α) :
    Respects R (l.forM f) := by
  induction l with
  | nil => exact .pure _
  | cons a l ih => exact (hf a).bind fun _ => ih

/-- A result has a property, or it is a failure of a certain kind. -/
def Ends (I : Knowledge → Prop) (E : ResolveError → Prop) : Except ResolveError (α × Knowledge) → Prop
  | .ok (_, k) => I k
  | .error e => E e

/-- A computation keeps a property of knowledge, and fails only in certain ways. -/
def Maintains (I : Knowledge → Prop) (E : ResolveError → Prop) (x : Learn α) : Prop := ∀ k, I k → Ends I E (x.run k)

@[simp]
lemma holds_pure {b : α} : Holds (Pure.pure a : Learn α) k b ↔ a = b := by
  rw [Holds, run_pure_eq_ok]
  exact and_iff_left rfl

@[simp]
lemma not_holds_throw {e : ResolveError} : ¬ Holds (MonadExcept.throw e : Learn α) k a := run_throw_ne_ok

/-- Where nothing changes in the end, nothing changes in between. -/
lemma holds_bind (hx : Careful x) (hf : ∀ a, Careful (f a)) :
    Holds (x >>= f) k b ↔ ∃ a, Holds x k a ∧ Holds (f a) k b := by
  constructor
  · intro h
    obtain ⟨a, k₁, h₁, h₂⟩ := run_bind_eq_ok.mp h
    obtain rfl : k = k₁ := (hx _ _ _ h₁).antisymm (hf a _ _ _ h₂)
    exact ⟨a, h₁, h₂⟩
  · rintro ⟨a, h₁, h₂⟩
    exact run_bind_eq_ok.mpr ⟨a, k, h₁, h₂⟩

lemma holds_seq {x : Learn Unit} {y : Learn β} (hx : Careful x) (hy : Careful y) :
    Holds (x >>= fun _ => y) k b ↔ Holds x k () ∧ Holds y k b := by
  rw [holds_bind hx fun _ => hy]
  exact ⟨fun ⟨_, h⟩ => h, fun h => ⟨(), h⟩⟩

lemma holds_forM {f : α → Learn Unit} (hf : ∀ a, Careful (f a)) {l : List α} :
    Holds (l.forM f) k () ↔ ∀ a ∈ l, Holds (f a) k () := by
  induction l with
  | nil => simp
  | cons a l ih =>
    rw [List.forall_mem_cons, ← ih]
    exact holds_seq (hf a) (.forM hf l)

end

section

variable {I : Knowledge → Prop} {E : ResolveError → Prop} {α β : Type}

lemma Maintains.pure (a : α) : Maintains I E (pure a : Learn α) := fun _ hk => hk

lemma Maintains.bind {x : Learn α} {f : α → Learn β} (hx : Maintains I E x) (hf : ∀ a, Maintains I E (f a)) :
    Maintains I E (x >>= f) := by
  intro k hk
  have hrun := hx k hk
  rw [StateT.run_bind]
  cases h : x.run k with
  | error e =>
    rw [h] at hrun
    exact hrun
  | ok r =>
    rw [h] at hrun
    exact hf r.1 r.2 hrun

lemma Maintains.get_bind {f : Knowledge → Learn β} (hf : ∀ k, I k → Ends I E ((f k).run k)) :
    Maintains I E (get >>= f) := by
  intro k hk
  rw [StateT.run_bind, StateT.run_get, pure_bind]
  exact hf k hk

lemma Maintains.forM {f : α → Learn Unit} {l : List α} (hf : ∀ a ∈ l, Maintains I E (f a)) :
    Maintains I E (l.forM f) := by
  induction l with
  | nil => exact .pure _
  | cons a l ih =>
    rw [List.forall_mem_cons] at hf
    exact hf.1.bind fun _ => ih hf.2

end

/-! ## One use of a variable -/

variable {fs : Functions} {func : Option String} {name : String} {k : Knowledge}

/-- A variable that is found as a local one stands in a function that has it as a parameter. -/
lemma Knowledge.find_local (h : k.find func name = some ⟨.local, kind⟩) :
    ∃ f table, func = some f ∧ k.locals[f]? = some table ∧ table[name]? = some kind := by
  rw [Knowledge.find] at h
  split at h
  · rename_i kind' hl
    obtain ⟨f, rfl, hf⟩ := Option.bind_eq_some_iff.mp hl
    obtain ⟨table, ht, hn⟩ := Option.bind_eq_some_iff.mp hf
    cases h
    exact ⟨f, table, rfl, ht, hn⟩
  · split at h
    · cases h
    · obtain ⟨_, _, h⟩ := Option.map_eq_some_iff.mp h
      cases h

lemma Knowledge.find_special (h : k.find func name = some ⟨.special, kind⟩) : kind = some .scalar := by
  rw [Knowledge.find] at h
  split at h
  · cases h
  · split at h
    · cases h
      rfl
    · obtain ⟨_, _, h⟩ := Option.map_eq_some_iff.mp h
      cases h

lemma Knowledge.isParam_insert {f g param : String} {table : KindTable} (hf : k.locals[f]? = some table)
    (hn : table[name]? = some kind) (κ : Option Kind) :
    { k with locals := k.locals.insert f (table.insert name κ) }.isParam g param =
      k.isParam g param := by
  by_cases hg : f = g
  · subst hg
    rw [isParam, isParam, hf]
    simp only [Std.TreeMap.getElem?_insert_self, Option.bind_some]
    by_cases hp : name = param
    · subst hp
      rw [Std.TreeMap.getElem?_insert_self, hn]
      rfl
    · rw [Std.TreeMap.getElem?_insert, if_neg (by simpa using hp)]
  · rw [isParam, isParam, Std.TreeMap.getElem?_insert, if_neg (by simpa using hg)]

/-- Learning the kind of a variable whose kind is not known is one change. -/
lemma Knowledge.learn_updates {scope : Scope} (h : k.find func name = some ⟨scope, none⟩)
    (kind : Kind) : (k.learn func scope name kind).updates = k.updates + 1 ∧
      ∀ f param, (k.learn func scope name kind).isParam f param = k.isParam f param := by
  cases scope with
  | «local» =>
    obtain ⟨f, table, rfl, hf, hn⟩ := find_local h
    refine ⟨rfl, fun g param => ?_⟩
    have hget : k.locals.getD f {} = table := by
      rw [Std.TreeMap.getD_eq_getD_getElem?, hf, Option.getD_some]
    rw [learn, hget]
    exact isParam_insert hf hn _
  | special => cases find_special h
  | global => exact ⟨rfl, fun _ _ => rfl⟩

lemma run_record : (record fs func name kind extent).run k = match k.find func name with
      | none => if fs.defs.contains name then .error (.globalIsFunction name extent)
        else .ok ((), { k with globals := k.globals.insert name kind, updates := k.updates + 1 })
      | some found =>
        match found.kind, kind with
        | some current, some used =>
          if current ≠ used then .error (.kindConflict name current used extent) else .ok ((), k)
        | none, some used => .ok ((), k.learn func found.scope name used)
        | _, none => .ok ((), k) := by
  rw [record, StateT.run_bind, StateT.run_get, pure_bind]
  dsimp only
  cases k.find func name with
  | none => by_cases h : fs.defs.contains name <;> simp only [h] <;> rfl
  | some found =>
    obtain ⟨scope, current⟩ := found
    cases current with
    | none => cases kind <;> rfl
    | some current =>
      cases kind with
      | none => rfl
      | some used => cases current <;> cases used <;> rfl

lemma careful_record : Careful (record fs func name kind extent) := by
  intro k _ k' h
  rw [run_record] at h
  cases hfind : k.find func name with
  | none =>
    simp only [hfind] at h
    split at h
    · cases h
    · cases h
      exact ⟨by simp, fun e => by simp at e, fun _ _ => rfl⟩
  | some found =>
    obtain ⟨scope, current⟩ := found
    simp only [hfind] at h
    split at h
    · split at h
      · cases h
      · cases h
        exact .refl k
    · obtain ⟨hupdates, hparam⟩ := Knowledge.learn_updates hfind _
      cases h
      exact ⟨by omega, fun e => by omega, hparam⟩
    · cases h
      exact .refl k

/-- A use that changes nothing is a use of a variable that is known, and of a kind that agrees. -/
lemma record_holds (h : Holds (record fs func name kind extent) k ()) :
    ∃ found, k.find func name = some found ∧ ∀ κ ∈ kind, found.kind = some κ := by
  rw [Holds, run_record] at h
  cases hfind : k.find func name with
  | none =>
    simp only [hfind] at h
    split at h
    · cases h
    · rw [Except.ok.injEq, Prod.mk.injEq] at h
      have := congrArg Knowledge.updates h.2
      simp at this
  | some found =>
    obtain ⟨scope, current⟩ := found
    refine ⟨_, rfl, ?_⟩
    simp only [hfind] at h
    split at h
    · rename_i current used
      split at h
      · cases h
      · rename_i heq
        intro κ hκ
        cases hκ
        rw [not_not.mp heq]
    · rename_i used
      obtain ⟨hupdates, -⟩ := Knowledge.learn_updates hfind used
      rw [Except.ok.injEq, Prod.mk.injEq] at h
      have := congrArg Knowledge.updates h.2
      omega
    · simp

/-! ## Calls -/

/-- A name is found as a local variable exactly where it is a parameter. -/
lemma find_isLocal (k : Knowledge) (name : String) :
    (k.find func name).any (·.scope = .local) = func.any fun f => k.isParam f name := by
  rw [Knowledge.find]
  cases func with
  | none =>
    rw [Option.bind_none]
    dsimp only
    split
    · rfl
    · rw [Option.any_map, Option.any_none]
      cases k.globals[name]? <;> rfl
  | some f =>
    rw [Option.bind_some, Option.any_some, Knowledge.isParam]
    cases (k.locals[f]?.bind fun table => table[name]?) with
    | some kind => rfl
    | none =>
      dsimp only
      split
      · rfl
      · rw [Option.any_map]
        cases k.globals[name]? <;> rfl

/-- A call can be made where the name is no parameter, there is a function, and the arguments are not too
many. -/
lemma run_callee : (callee fs func name argCount extent).run k = .ok (info, k') ↔
    k' = k ∧ (func.any fun f => k.isParam f name) = false ∧ fs.infos[name]? = some info ∧
      ∀ n ∈ info.arity, argCount ≤ n := by
  rw [callee, StateT.run_bind, StateT.run_get, pure_bind]
  dsimp only
  rw [find_isLocal]
  cases func.any fun f => k.isParam f name with
  | true => exact iff_of_false (fun h : Except.error _ = _ => by cases h) fun h => by cases h.2.1
  | false =>
    cases fs.infos[name]? with
    | none => exact iff_of_false (fun h : Except.error _ = _ => by cases h) fun h => by cases h.2.2.1
    | some info' =>
      have harity : info'.arity.any (· < argCount) = false ↔ ∀ n ∈ info'.arity, argCount ≤ n := by
        cases info'.arity <;> simp
      rw [Option.some.injEq, if_neg Bool.false_ne_true]
      dsimp only
      constructor
      · cases hany : info'.arity.any (· < argCount) with
        | true => exact fun h : Except.error _ = _ => by cases h
        | false =>
          intro h
          obtain ⟨rfl, rfl⟩ := run_pure_eq_ok.mp h
          exact ⟨rfl, rfl, rfl, harity.mp hany⟩
      · rintro ⟨rfl, -, rfl, h⟩
        rw [harity.mpr h]
        rfl

section

variable {R : Knowledge → Knowledge → Prop} [IsPreorder Knowledge R]

lemma respects_callee : Respects R (callee fs func name argCount extent) := by
  intro k info k' h
  obtain ⟨rfl, -⟩ := run_callee.mp h
  exact refl _

lemma respects_checkArg {arg : Expr} : Respects R (checkArg name info param arg extent) := by
  rw [checkArg]
  refine Respects.get.bind fun k => ?_
  split
  · exact .throw _
  · exact .pure _

variable (hrecord : ∀ {func name kind extent}, Respects R (record fs func name kind extent))

include hrecord

lemma respects_recordArg {v : VarRef} : Respects R (recordArg fs func name info param v extent) := by
  rw [recordArg]
  split
  · exact hrecord
  · refine Respects.get.bind fun k => ?_
    split
    · exact hrecord
    · split
      · exact hrecord
      · exact .pure _
    · dsimp only
      split
      · exact (Respects.throw _).bind fun _ => hrecord
      · exact hrecord
    · exact hrecord

end

/-- The calls of builtin functions that a walk tells apart. -/
lemma builtin_cases (f : Builtin) (args : List Expr) :
    (∃ s array rest, f = .split ∧ args = s :: .place (.var array) :: rest) ∨
      (∃ v, f = .length ∧ args = [.place (.var v)]) ∨
      ((∀ s array rest, f = .split → args = s :: .place (.var array) :: rest → False) ∧
        ∀ v, f = .length → args = [.place (.var v)] → False) := by
  by_cases hsplit : ∃ s array rest, f = .split ∧ args = s :: .place (.var array) :: rest
  · exact .inl hsplit
  · by_cases hlength : ∃ v, f = .length ∧ args = [.place (.var v)]
    · exact .inr (.inl hlength)
    · exact .inr (.inr ⟨fun s array rest hf ha => hsplit ⟨s, array, rest, hf, ha⟩,
        fun v hf ha => hlength ⟨v, hf, ha⟩⟩)

end Awk.Infer
