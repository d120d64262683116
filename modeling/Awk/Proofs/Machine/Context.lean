import Mathlib
import Awk.Machine.Variables

/-!
# What the operations of the machine leave alone

Operations on values, variables, records and streams neither read nor change the stack and what else belongs
to the code at work, and they do not change how many variables there are.  What is put together from such
operations is one.
-/

namespace Awk

/-! ## Machines -/

/-- The stack and what else belongs to the code at work. -/
structure Context where
  stack : Array Value
  base : Nat
  frames : List (Array Nat)
  inRange : Array Bool
  cancelled : Bool
  ticks : Nat

namespace Machine

def context (m : Machine) : Context := ⟨m.stack, m.base, m.frames, m.inRange, m.cancelled, m.ticks⟩

def within (m : Machine) (c : Context) : Machine :=
  { m with
    stack := c.stack
    base := c.base
    frames := c.frames
    inRange := c.inRange
    cancelled := c.cancelled
    ticks := c.ticks }

@[simp] lemma within_context (m : Machine) : m.within m.context = m := rfl

end Machine

/-- The program of a machine and the sizes of its tables. -/
structure Outline where
  program : Program
  regexes : Array Regex.Pattern
  globals : Nat
  arrays : Nat

/-- There is room for all variables of the program. -/
structure Outline.Fits (o : Outline) : Prop where
  globals : o.globals = o.program.scalarNames.size
  arrays : o.program.arrayNames.size ≤ o.arrays

def Machine.outline (m : Machine) : Outline := ⟨m.program, m.regexes, m.globals.size, m.arrays.size⟩

/-- A way in which a run of a compiled program may stop: neither does a number lead nowhere nor is there a
defect in the program. -/
def Fault.Allowed : Fault → Prop
  | .error (.defect _) | .outOfRange => False
  | .error _ | .outOfFuel => True

end Awk

/-! ## Results -/

namespace EStateM.Result

variable {ε σ α : Type}

def state : Result ε σ α → σ
  | .ok _ s | .error _ s => s

def mapState (g : σ → σ) : Result ε σ α → Result ε σ α
  | .ok a s => .ok a (g s)
  | .error e s => .error e (g s)

def Fails (P : ε → Prop) : Result ε σ α → Prop
  | .ok _ _ => True
  | .error e _ => P e

lemma state_mapState (g : σ → σ) (r : Result ε σ α) : (r.mapState g).state = g r.state := by
  cases r <;> rfl

lemma mapState_congr {g g' : σ → σ} {r : Result ε σ α} (h : g r.state = g' r.state) : r.mapState g = r.mapState g' := by
  cases r <;> exact congrArg _ h

lemma mapState_id (r : Result ε σ α) : r.mapState id = r := by
  cases r <;> rfl

end EStateM.Result

namespace Awk.Run

variable {α β : Type}

lemma bind_apply (x : Run α) (f : α → Run β) (m : Machine) :
    (x >>= f) m = match x m with
      | .ok a m => f a m
      | .error e m => .error e m := by
  change EStateM.bind x f m = _
  rw [EStateM.bind]
  cases x m <;> rfl

lemma get_bind_apply (f : Machine → Run β) (m : Machine) : (get >>= f : Run β) m = f m m := rfl

/-! ## Variables -/

lemma getLocal_apply (i : Nat) (m : Machine) : getScalar (.local i) m = match m.stack[m.base + i]? with
    | some v => .ok v m
    | none => .error .outOfRange m := by
  rw [getScalar, get_bind_apply]
  cases m.stack[m.base + i]? <;> rfl

variable {m : Machine} {a : ArrayRef} {slot : Nat} {x : Run α} {f : α → Run β}

lemma setLocal_apply {i : Nat} (hi : m.base + i < m.stack.size) (value : Value) :
    setScalar (.local i) value m = .ok () { m with stack := m.stack.setIfInBounds (m.base + i) value } := by
  rw [setScalar, get_bind_apply, get_bind_apply, if_pos hi]
  rfl

/-- The slot of an array: the frame of the function at work has those of its parameters. -/
def slotIn (frames : List (Array Nat)) : ArrayRef → Except Fault Nat
  | .global i => .ok i
  | .local i => match frames.head?.bind (·[i]?) with
    | some slot => .ok slot
    | none => .error (.error (.defect (.arrayParam i)))

lemma slotOf_eq (a : ArrayRef) : slotOf a = get >>= fun m => resume (slotIn m.frames a) := by
  funext m
  cases a with
  | global i => rfl
  | «local» i =>
    rw [slotOf, get_bind_apply, get_bind_apply, slotIn]
    cases m.frames with
    | nil => rfl
    | cons frame frames =>
      rw [List.head?_cons, Option.bind_some]
      dsimp only
      cases frame[i]? <;> rfl

lemma slotOf_eq_ok :
    slotOf a m = .ok slot m ↔ slotIn m.frames a = .ok slot := by
  rw [slotOf_eq, get_bind_apply]
  cases slotIn m.frames a <;> simp [resume, pure, EStateM.pure, throw, throwThe, MonadExceptOf.throw, EStateM.throw]

lemma slotOf_congr {m' : Machine} (h : slotOf a m = .ok slot m)
    (hframes : m'.frames = m.frames) : slotOf a m' = .ok slot m' := by
  rw [slotOf_eq_ok] at h ⊢
  rw [hframes, h]

lemma arrayOf_of_slotOf (h : slotOf a m = .ok slot m)
    (hslot : slot < m.arrays.size) : arrayOf a m = .ok (slot, m.arrays[slot]) m := by
  rw [arrayOf, bind_apply, h]
  dsimp only
  rw [get_bind_apply, Array.getElem?_eq_getElem hslot]
  rfl

/-! ## Tame operations -/

def Blind (x : Run α) : Prop := ∀ m c, x (m.within c) = (x m).mapState (·.within c)

namespace Blind

lemma pure (a : α) : Blind (Pure.pure a : Run α) := fun _ _ => rfl

lemma throw (f : Fault) : Blind (MonadExcept.throw f : Run α) := fun _ _ => rfl

lemma bind (hx : Blind x) (hf : ∀ a, Blind (f a)) : Blind (x >>= f) := by
  intro m c
  rw [bind_apply, bind_apply, hx]
  cases x m with
  | ok a m' => exact hf a m' c
  | error e m' => rfl

lemma get_bind {f : Machine → Run β} (hf : ∀ m c, f (m.within c) = f m) (hb : ∀ m, Blind (f m)) :
    Blind (get >>= f : Run β) := by
  intro m c
  rw [get_bind_apply, hf]
  exact hb m m c

lemma context_eq (hx : Blind x) (m : Machine) : (x m).state.context = m.context := by
  have h := congrArg EStateM.Result.state (hx m m.context)
  rw [Machine.within_context, EStateM.Result.state_mapState] at h
  exact (congrArg Machine.context h).trans rfl

end Blind

/-- An operation keeps the outline of a machine, and stops only in an allowed way. -/
def KeepsAt (m : Machine) (x : Run α) : Prop :=
  (x m).state.outline = m.outline ∧ (x m).Fails Fault.Allowed

/-- An operation that does not look at the context and keeps the outline, and stops only in an allowed way. -/
structure Tame (x : Run α) : Prop where
  blind : Blind x
  keeps : ∀ m, m.outline.Fits → KeepsAt m x

lemma KeepsAt.bind (hm : m.outline.Fits) (hx : KeepsAt m x)
    (hf : ∀ a, Tame (f a)) : KeepsAt m (x >>= f) := by
  rw [KeepsAt, bind_apply]
  rw [KeepsAt] at hx
  cases hr : x m with
  | ok a m' =>
    rw [hr] at hx
    have ho : m'.outline = m.outline := hx.1
    have := (hf a).keeps m' (ho ▸ hm)
    rwa [KeepsAt, ho] at this
  | error e m' =>
    rw [hr] at hx
    exact hx

namespace Tame

lemma pure (a : α) : Tame (Pure.pure a : Run α) := ⟨.pure a, fun _ _ => ⟨rfl, trivial⟩⟩

lemma throw {f : Fault} (h : f.Allowed) : Tame (MonadExcept.throw f : Run α) := ⟨.throw _, fun _ _ => ⟨rfl, h⟩⟩

lemma fail {e : RunError} (h : (Fault.error e).Allowed) : Tame (Run.fail e : Run α) := .throw h

lemma bind (hx : Tame x) (hf : ∀ a, Tame (f a)) : Tame (x >>= f) :=
  ⟨hx.blind.bind fun a => (hf a).blind, fun m hm => (hx.keeps m hm).bind hm hf⟩

lemma modifyGet {f : Machine → α × Machine}
    (hf : ∀ m c, f (m.within c) = ((f m).1, (f m).2.within c))
    (hk : ∀ m, (f m).2.outline = m.outline) : Tame (modifyGet f : Run α) where
  blind m c := by
    have := hf m c
    change EStateM.Result.ok (f (m.within c)).1 (f (m.within c)).2 = _
    rw [this]
    rfl
  keeps m _ := ⟨hk m, trivial⟩

lemma modify {f : Machine → Machine} (hf : ∀ m c, f (m.within c) = (f m).within c)
    (hk : ∀ m, (f m).outline = m.outline) : Tame (modify f : Run Unit) :=
  modifyGet (fun m c => by rw [hf]) hk

lemma get_bind {f : Machine → Run β} (hf : ∀ m c, f (m.within c) = f m) (ht : ∀ m, Tame (f m)) :
    Tame (get >>= f : Run β) :=
  ⟨.get_bind hf fun m => (ht m).blind, fun m hm => (ht m).keeps m hm⟩

lemma forM {f : α → Run Unit} (hf : ∀ a, Tame (f a)) (l : List α) : Tame (l.forM f) := by
  induction l with
  | nil => exact .pure ()
  | cons a l ih => exact (hf a).bind fun _ => ih

end Tame

end Awk.Run
