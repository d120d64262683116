import Awk.Proofs.Machine.Composed

/-!
# Runs that agree

Two runs from related machines agree: they give the same result, and the machines are related in the end.
The first run may stop early with certain faults.  A run with less fuel agrees with one with more in this
sense, a run that is watched with one that is not, and a run that counts its instructions with one that does
not.
-/

namespace Awk.Run

variable {α β : Type} {R : Machine → Machine → Prop} {bad : Fault → Prop}

/-- From related machines two runs give the same and leave related machines, unless the first one stops with
certain faults. -/
def Agrees (R : Machine → Machine → Prop) (bad : Fault → Prop) (x y : Run α) : Prop :=
  ∀ m m', R m m' → match x m with
    | .ok a n => ∃ n', y m' = .ok a n' ∧ R n n'
    | .error f n => bad f ∨ ∃ n', y m' = .error f n' ∧ R n n'

namespace Agrees

lemma pure (a : α) : Agrees R bad (Pure.pure a : Run α) (Pure.pure a) := fun _ m' h => ⟨m', rfl, h⟩

lemma throw (f : Fault) : Agrees R bad (MonadExcept.throw f : Run α) (MonadExcept.throw f) :=
  fun _ m' h => .inr ⟨m', rfl, h⟩

variable {f : Fault} {x y : Run α} {I : Machine → Prop}

lemma of_bad (hf : bad f) (y : Run α) : Agrees R bad (MonadExcept.throw f) y :=
  fun _ _ _ => .inl hf

section

variable {x y : Run α} {m m' n : Machine} (h : Agrees R bad x y)

include h

lemma ok (hm : R m m') {a : α} (hx : x m = .ok a n) : ∃ n', y m' = .ok a n' ∧ R n n' := by
  have hends := h m m' hm
  rwa [hx] at hends

lemma error (hm : R m m') (hx : x m = .error f n) : bad f ∨ ∃ n', y m' = .error f n' ∧ R n n' := by
  have hends := h m m' hm
  rwa [hx] at hends

lemma bind {f g : α → Run β} (hf : ∀ a, Agrees R bad (f a) (g a)) : Agrees R bad (x >>= f) (y >>= g) := by
  intro m m' hm
  rw [bind_apply, bind_apply]
  cases hr : x m with
  | ok a n =>
    obtain ⟨n', hy, hn⟩ := h.ok hm hr
    rw [hy]
    exact hf a n n' hn
  | error e n =>
    rcases h.error hm hr with hbad | ⟨n', hy, hn⟩
    · exact .inl hbad
    · rw [hy]
      exact .inr ⟨n', rfl, hn⟩

end

lemma get_bind {f g : Machine → Run β} (h : ∀ m m', R m m' → Agrees R bad (f m) (g m')) :
    Agrees R bad (get >>= f) (get >>= g) := fun m m' hm => h m m' hm m m' hm

lemma modify {f g : Machine → Machine} (h : ∀ m m', R m m' → R (f m) (g m')) :
    Agrees R bad (modify f : Run Unit) (modify g) := fun m m' hm => ⟨g m', rfl, h m m' hm⟩

/-- The second run does what the first one does, but for a change of the machine in the end. -/
lemma of_mapState (h : ∀ m m', R m m' → ∃ g, y m' = (x m).mapState g ∧ R (x m).state (g (x m).state)) :
    Agrees R bad x y := by
  intro m m' hm
  obtain ⟨g, hy, hR⟩ := h m m' hm
  rw [hy]
  cases hr : x m with
  | ok a n =>
    rw [hr] at hR
    exact ⟨_, rfl, hR⟩
  | error f n =>
    rw [hr] at hR
    exact .inr ⟨_, rfl, hR⟩

lemma refl (x : Run α) : Agrees Eq bad x x :=
  .of_mapState fun _ _ h => ⟨id, by rw [h, EStateM.Result.mapState_id], rfl⟩

/-- Runs that do the same from machines with a property, and keep it. -/
lemma of_alike (h : Alike I x y) :
    Agrees (fun m m' => m = m' ∧ I m) bad x y := by
  refine .of_mapState ?_
  rintro m _ ⟨rfl, hm⟩
  obtain ⟨hsame, hkept⟩ := h m hm
  exact ⟨id, by rw [EStateM.Result.mapState_id, hsame], rfl, hkept⟩

lemma alike (h : Agrees (fun m m' => m = m' ∧ I m) (fun _ => False) x y) :
    Alike I x y := by
  intro m hm
  cases hr : x m with
  | ok a n =>
    obtain ⟨_, hy, rfl, hn⟩ := h.ok ⟨rfl, hm⟩ hr
    exact ⟨hy.symm, hn⟩
  | error f n =>
    obtain ⟨_, hy, rfl, hn⟩ := (h.error ⟨rfl, hm⟩ hr).resolve_left id
    exact ⟨hy.symm, hn⟩

end Agrees

/-! ## Machines that no operation can tell apart -/

/-- Machines that no operation can tell apart.  In the body of a function they may be related in another way than
outside of it, as `o` says. -/
structure Indistinct {ι : Type} (R : ι → Machine → Machine → Prop) : Prop where
  part : ∀ {α : Type} {o : ι} {bad : Fault → Prop} {x : Run α}, Composed (.stepwise True) x → Agrees (R o) bad x x
  sees : ∀ {o : ι} {m m' : Machine}, R o m m' → m.program = m'.program ∧ m.config = m'.config ∧ m.base = m'.base ∧
    m.frames = m'.frames
  call : ∀ {o : ι} {m m' : Machine}, R o m m' → m.frames.length < m.config.maxCallDepth → ∀ f bound, ∃ o',
    R o' (m.calling f bound) (m'.calling f bound) ∧ ∀ {n n' : Machine}, R o' n n' →
      R o (n.leave m f.scalarCount m.arrays.size) (n'.leave m' f.scalarCount m'.arrays.size)

lemma indistinct_eq : Indistinct fun (_ : Unit) => Eq where
  part _ := .refl _
  sees h := h ▸ ⟨rfl, rfl, rfl, rfl⟩
  call h _ _ _ := h ▸ ⟨(), rfl, fun h => h ▸ rfl⟩

namespace Indistinct

variable {ι : Type} {R : ι → Machine → Machine → Prop} {o : ι} (hR : Indistinct R)

include hR

lemma overKeys (var : ScalarRef) (a : ArrayRef) {body body' : Run Completion}
    (hbody : Agrees (R o) bad body body') (keys : List String) :
    Agrees (R o) bad (overKeys var a body keys) (overKeys var a body' keys) := by
  induction keys with
  | nil => exact .pure _
  | cons key keys ih =>
    refine (hR.part (.arrayOf a)).bind fun slot => ?_
    dsimp only
    split
    · refine (hR.part (.setScalar var _)).bind fun _ => hbody.bind fun c => ?_
      cases c <;> first | exact ih | exact .pure _
    · exact ih

lemma callUser {run run' : Code → Run Completion} (hrun : ∀ o code, Agrees (R o) bad (run code) (run' code))
    (i : Nat) (args : List ArrayRef) : Agrees (R o) bad (callUser run i args) (callUser run' i args) := by
  intro m m' hm
  obtain ⟨hprogram, hconfig, -, hframes⟩ := hR.sees hm
  have hcallee : m'.callee i args = m.callee i args := by
    rw [Machine.callee, Machine.callee, hprogram, hconfig, hframes]
  rw [callUser_apply, callUser_apply, hcallee]
  cases hfound : m.callee i args with
  | error fault => exact .inr ⟨m', rfl, hm⟩
  | ok found =>
    obtain ⟨f, bound⟩ := found
    obtain ⟨o', henter, hleave⟩ := hR.call hm (Machine.callee_eq_ok.mp hfound).2.1 f bound
    dsimp only
    cases hr : run f.body (m.calling f bound) with
    | ok c n =>
      obtain ⟨n', hy, hn⟩ := (hrun o' f.body).ok henter hr
      rw [hy]
      exact hR.part (.conclude c) _ _ (hleave hn)
    | error fault n =>
      rcases (hrun o' f.body).error henter hr with h | ⟨n', hy, hn⟩
      · exact .inl h
      · rw [hy]
        exact .inr ⟨_, rfl, hleave hn⟩

lemma follow {next next' : Nat → Run Completion} {inner inner' : Code → Run Completion}
    {called called' : Nat → Code → Run Completion} (hnext : ∀ pc, Agrees (R o) bad (next pc) (next' pc))
    (hinner : ∀ code, Agrees (R o) bad (inner code) (inner' code))
    (hcalled : ∀ o i code, Agrees (R o) bad (called i code) (called' i code)) (code : Code) (pc : Nat) (op : Op) :
    Agrees (R o) bad (follow next inner called code pc op) (follow next' inner' called' code pc op) := by
  cases op
  case jump offset => exact hnext _
  case branch t offset =>
    refine (hR.part (.taken t)).bind fun b => ?_
    cases b <;> exact hnext _
  case next | nextFile | exit | returnNull | breakForIn => exact .pure _
  case exitStatus =>
    exact (hR.part .pop).bind fun v => (hR.part (composed_setExitStatus _)).bind fun _ => .pure _
  case «return» => exact (hR.part .pop).bind fun v => .pure _
  case forIn var a length =>
    refine (hR.part (.arrayOf a)).bind fun slot => (hR.part (.loopKeys slot.2)).bind fun keys => ?_
    refine (hR.overKeys var a (hinner _) keys).bind fun c => ?_
    cases c <;> first | exact hnext _ | exact .pure _
  case callUser i count =>
    refine (hR.callUser (fun o => hcalled o i) i _).bind fun c => ?_
    cases c <;> first | exact hnext _ | exact .pure _
  all_goals exact (hR.part (.step _)).bind fun _ => hnext _

/-- Runs of the same code agree if what they do before every instruction does, and if the first one has no
more fuel than the second, or running out of it does not count. -/
theorem execWith {before before' : Nat → Op → Run Unit}
    (hbefore : ∀ o floor op, Agrees (R o) bad (before floor op) (before' floor op)) {fuel fuel' : Nat}
    (hfuel : fuel = fuel' ∨ fuel ≤ fuel' ∧ bad .outOfFuel) (floor : Nat) (code : Code) (pc : Nat) :
    Agrees (R o) bad (execWith before fuel floor code pc) (execWith before' fuel' floor code pc) := by
  induction fuel generalizing o fuel' floor code pc with
  | zero =>
    rcases hfuel with rfl | ⟨-, hbad⟩
    · exact .throw _
    · exact .of_bad hbad _
  | succ fuel ih =>
    obtain ⟨fuel', rfl⟩ : ∃ k, fuel' = k + 1 := ⟨fuel' - 1, by omega⟩
    have hfuel : fuel = fuel' ∨ fuel ≤ fuel' ∧ bad .outOfFuel := hfuel.imp (by omega) (.imp_left (by omega))
    rw [Run.execWith, Run.execWith]
    cases code[pc]? with
    | none => exact .pure _
    | some op =>
      refine (hbefore o floor op).bind fun _ => hR.follow (ih hfuel floor code) (fun body => ih hfuel floor body 0)
        (fun o i body => .get_bind fun m m' hm => ?_) code pc op
      rw [(hR.sees hm).1, (hR.sees hm).2.2.1]
      exact ih hfuel _ body 0

end Indistinct

end Awk.Run
