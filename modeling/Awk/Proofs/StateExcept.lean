import Mathlib

/-!
# Computations with a state that may fail

Tokens are read, names are learned and constants are collected by computations of this kind.  What one of
them gives is taken apart with `run_bind_eq_ok`, and with `bind_eq_ok` where there is no state.
-/

namespace Awk

variable {σ ε α β : Type}

variable {x : Except ε α} {f : α → Except ε β} {b : β} {a : α} {e : ε} {s t : σ}

lemma bind_eq_ok : (x >>= f) = .ok b ↔ ∃ a, x = .ok a ∧ f a = .ok b := by
  cases x <;> simp [bind, Except.bind]

lemma mapError_eq_ok {ε' : Type} {f : ε → ε'} : x.mapError f = .ok a ↔ x = .ok a := by
  cases x <;> simp [Except.mapError]

lemma toOption_eq_some (h : x.toOption = some a) : x = .ok a := by
  cases x with
  | error e => cases h
  | ok b => exact congrArg Except.ok (Option.some.inj h)

lemma exists_eq_ok (h : x.isOk = true) : ∃ a, x = .ok a := by
  cases x with
  | error e => cases h
  | ok a => exact ⟨a, rfl⟩

lemma mapM_eq_error {l : List α} (h : l.mapM f = .error e) : ∃ a ∈ l, f a = .error e := by
  induction l with
  | nil => cases h
  | cons a l ih =>
    rw [List.mapM_cons] at h
    cases ha : f a with
    | error e' =>
      rw [ha] at h
      cases h
      exact ⟨a, List.mem_cons_self, ha⟩
    | ok b =>
      rw [ha] at h
      cases hl : l.mapM f with
      | ok bs => simp [hl, bind, Except.bind, pure, Except.pure] at h
      | error e' =>
        obtain ⟨a', ha', hf⟩ := ih (hl.trans (by simpa [hl, bind, Except.bind] using h))
        exact ⟨a', List.mem_cons_of_mem a ha', hf⟩

lemma run_bind_eq_ok {x : StateT σ (Except ε) α} {f : α → StateT σ (Except ε) β} {u : σ} :
    (x >>= f).run s = .ok (b, u) ↔ ∃ a t, x.run s = .ok (a, t) ∧ (f a).run t = .ok (b, u) := by
  rw [StateT.run_bind]
  cases h : x.run s with
  | error e => simp [bind, Except.bind]
  | ok r => obtain ⟨a, t⟩ := r; simp [bind, Except.bind]

lemma run_bind_eq_error {x : StateT σ (Except ε) α} {f : α → StateT σ (Except ε) β} :
    (x >>= f).run s = .error e ↔ x.run s = .error e ∨ ∃ a t, x.run s = .ok (a, t) ∧ (f a).run t = .error e := by
  rw [StateT.run_bind]
  cases h : x.run s with
  | error e => simp [bind, Except.bind]
  | ok r => obtain ⟨a, t⟩ := r; simp [bind, Except.bind]

lemma run_pure_eq_ok {b : α} : (pure a : StateT σ (Except ε) α).run s = .ok (b, t) ↔ a = b ∧ s = t := by
  rw [StateT.run_pure]
  simp [pure, Except.pure]

lemma run_throw_ne_ok : (throw e : StateT σ (Except ε) α).run s ≠ .ok (a, t) := by
  simp [throw, throwThe, MonadExceptOf.throw, StateT.run, StateT.lift, bind, Except.bind]

end Awk
