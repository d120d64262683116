import Awk.Proofs.Machine.Watch

/-!
# Values that code does not reach

An instruction whose operands are on the stack of a ready machine finds all that it uses, and keeps the machine ready.
The stack is shared by all functions at work, and by the operands that wait while an expression is computed, but an
instruction does not see values below its own: whatever lies there, it does the same and leaves them as they are.
-/

namespace Awk

namespace Machine

/-- The second machine has further values in its stack, at the place `k`.  The scalars of the function at work
lie above them or below them. -/
structure Padded (k : Nat) (vs : Array Value) (room : Room) (m m' : Machine) : Prop where
  stack : ∃ lower upper : Array Value, lower.size = k ∧ m.stack = lower ++ upper ∧
    m'.stack = lower ++ vs ++ upper
  base : (k ≤ m.base ∧ m'.base = m.base + vs.size) ∨ (m.base + room.scalars ≤ k ∧ m'.base = m.base)
  rest : m' = { m with stack := m'.stack, base := m'.base }

namespace Padded

variable {k : Nat} {vs : Array Value} {room : Room} {m m' : Machine}

lemma refl (m : Machine) : m.Padded 0 #[] room m :=
  ⟨⟨#[], m.stack, rfl, by simp, by simp⟩, .inl ⟨Nat.zero_le _, rfl⟩, rfl⟩

lemma eq (hm : m.Padded k #[] room m') : m' = m := by
  obtain ⟨⟨lower, upper, -, hstack, hstack'⟩, hbase, hrest⟩ := hm
  have hstack : m'.stack = m.stack := by rw [hstack, hstack', Array.append_empty]
  have hbase : m'.base = m.base := by rcases hbase with ⟨-, h⟩ | ⟨-, h⟩ <;> exact h
  rw [hrest, hstack, hbase]

lemma le_size (hm : m.Padded k vs room m') : k ≤ m.stack.size := by
  obtain ⟨⟨lower, upper, hk, hstack, -⟩, -, -⟩ := hm
  rw [hstack, Array.size_append]
  omega

lemma size_eq (hm : m.Padded k vs room m') : m'.stack.size = m.stack.size + vs.size := by
  obtain ⟨⟨lower, upper, hk, hstack, hstack'⟩, -, -⟩ := hm
  rw [hstack, hstack']
  simp only [Array.size_append]
  omega

/-- A change that looks neither at the stack nor at the base. -/
lemma of_stack {q : Machine} (hm : m.Padded k vs room m') (hstack : q.stack = m.stack) (hbase : q.base = m.base) :
    q.Padded k vs room { q with stack := m'.stack, base := m'.base } :=
  ⟨hstack ▸ hm.stack, hbase ▸ hm.base, rfl⟩

end Padded

end Machine

namespace Run

variable {α β : Type} {p : Program} {room : Room} {floor k : Nat} {vs : Array Value} {m m' : Machine}

/-! ## Runs that are the same -/

/-- A result after which the machine is as ready as before, and in which an allowed fault or a value with a
property came out. -/
def Orderly (m : Machine) (Q : α → Machine → Prop) : EStateM.Result Fault Machine α → Prop
  | .ok a m' => m.Keeps m' ∧ Q a m'
  | .error f m' => m.Keeps m' ∧ f.Allowed

namespace Orderly

variable {Q Q' : α → Machine → Prop} {r : EStateM.Result Fault Machine α}

lemma trans (hm : m.Keeps m') (h : Orderly m' Q r) : Orderly m Q r := by
  cases r <;> exact ⟨hm.trans h.1, h.2⟩

lemma mono (h : Orderly m Q r) (hQ : ∀ a m', m.Keeps m' → Q a m' → Q' a m') : Orderly m Q' r := by
  cases r with
  | ok a m' => exact ⟨h.1, hQ a m' h.1 h.2⟩
  | error f m' => exact h

lemma keeps (h : Orderly m Q r) : m.Keeps r.state := by
  cases r <;> exact h.1

lemma fails (h : Orderly m Q r) : r.Fails Fault.Allowed := by
  cases r with
  | ok a m' => trivial
  | error f m' => exact h.2

end Orderly

/-- Two runs do the same from machines of which the second has further values in its stack, and the result is orderly. -/
structure Safely (k : Nat) (vs : Array Value) (room : Room) (m m' : Machine) (x y : Run α)
    (Q : α → Machine → Prop) : Prop where
  orderly : Orderly m Q (x m)
  same : ∃ q', (x m).state.Padded k vs room q' ∧ y m' = (x m).mapState fun _ => q'

namespace Safely

variable {x y : Run α} {Q : α → Machine → Prop} {a : α} {q q' : Machine}

lemma of_ok (hx : x m = .ok a q) (hy : y m' = .ok a q') (hkeeps : m.Keeps q) (hq : q.Padded k vs room q')
    (h : Q a q) : Safely k vs room m m' x y Q where
  orderly := by rw [hx]; exact ⟨hkeeps, h⟩
  same := by rw [hx]; exact ⟨q', hq, hy⟩

lemma of_error {f : Fault} (hx : x m = .error f q) (hy : y m' = .error f q') (hkeeps : m.Keeps q)
    (hq : q.Padded k vs room q') (h : f.Allowed) : Safely k vs room m m' x y Q where
  orderly := by rw [hx]; exact ⟨hkeeps, h⟩
  same := by rw [hx]; exact ⟨q', hq, hy⟩

lemma pure (hm : m.Padded k vs room m') (h : Q a m) : Safely k vs room m m' (Pure.pure a) (Pure.pure a) Q :=
  of_ok rfl rfl (.refl m) hm h

lemma throw {f : Fault} (hm : m.Padded k vs room m') (h : f.Allowed) :
    Safely k vs room m m' (MonadExcept.throw f : Run α) (MonadExcept.throw f) Q :=
  of_error rfl rfl (.refl m) hm h

lemma mono {Q' : α → Machine → Prop} (h : Safely k vs room m m' x y Q)
    (hQ : ∀ a q, m.Keeps q → Q a q → Q' a q) : Safely k vs room m m' x y Q' := ⟨h.orderly.mono hQ, h.same⟩

lemma bind {f g : α → Run β} {Q' : β → Machine → Prop} (hx : Safely k vs room m m' x y Q)
    (hf : ∀ a q q', m.Keeps q → q.Padded k vs room q' → Q a q → Safely k vs room q q' (f a) (g a) Q') :
    Safely k vs room m m' (x >>= f) (y >>= g) Q' := by
  obtain ⟨horderly, q', hpad, hy⟩ := hx
  cases hr : x m with
  | ok a q =>
    rw [hr] at horderly hpad hy
    have hxf : (x >>= f) m = f a q := by rw [bind_apply, hr]
    have hyg : (y >>= g) m' = g a q' := by rw [bind_apply, hy]; rfl
    obtain ⟨horderly', hsame⟩ := hf a q q' horderly.1 hpad horderly.2
    exact ⟨by rw [hxf]; exact horderly'.trans horderly.1, by rw [hxf, hyg]; exact hsame⟩
  | error e q =>
    rw [hr] at horderly hpad hy
    exact of_error (by rw [bind_apply, hr]) (by rw [bind_apply, hy]; rfl) horderly.1 hpad horderly.2

lemma get_bind {f g : Machine → Run α} (h : Safely k vs room m m' (f m) (g m') Q) :
    Safely k vs room m m' (get >>= f) (get >>= g) Q := ⟨h.orderly, h.same⟩

/-- Without further values the two runs are equal. -/
lemma eq (h : Safely k #[] room m m x y Q) : x m = y m := by
  obtain ⟨q', hq', hy⟩ := h.same
  rw [hy, hq'.eq]
  cases x m <;> rfl

end Safely

/-! ## The size of the stack -/

/-- A ready machine with `n` operands, and one with further values below them. -/
structure Poised (p : Program) (room : Room) (floor k : Nat) (vs : Array Value) (n : Nat) (m m' : Machine) : Prop where
  ready : m.Ready p room floor
  padded : m.Padded k vs room m'
  below : k ≤ floor
  size : m.stack.size = floor + n

lemma Poised.next {n l : Nat} {q q' : Machine} (hm : Poised p room floor k vs n m m') (hk : m.Keeps q)
    (hq : q.Padded k vs room q') (hl : q.stack.size = floor + l) : Poised p room floor k vs l q q' :=
  ⟨hk.ready hm.ready, hq, hm.below, hl⟩

/-- From a ready machine with `n` operands an operation leads to one with `l` operands and gives what has a property,
or it stops in an allowed way, and it does the same whatever lies below the operands. -/
def Sized (p : Program) (room : Room) (floor n : Nat) (x : Run α) (l : Nat) (P : α → Prop) : Prop :=
  ∀ ⦃k vs m m'⦄, Poised p room floor k vs n m m' →
    Safely k vs room m m' x x fun a q => q.stack.size = floor + l ∧ P a

/-- An operation of which only the size of the stack matters. -/
abbrev Resizes (p : Program) (room : Room) (floor n : Nat) (x : Run α) (l : Nat) : Prop :=
  Sized p room floor n x l fun _ => True

variable {n i l : Nat} {P : α → Prop} {Q : β → Prop}

namespace Sized

lemma pure {a : α} (h : P a) : Sized p room floor n (Pure.pure a : Run α) n P :=
  fun _ _ _ _ hm => .pure hm.padded ⟨hm.size, h⟩

lemma bind {x : Run α} {f : α → Run β} (hx : Sized p room floor n x i P)
    (hf : ∀ a, P a → Sized p room floor i (f a) l Q) : Sized p room floor n (x >>= f) l Q :=
  fun _ _ _ _ hm => (hx hm).bind fun a _ _ hk hq h => hf a h.2 (hm.next hk hq h.1)

/-- What is read of the machine depends neither on the stack nor on the base. -/
lemma get_bind {f : Machine → Run β} (hf : ∀ (m : Machine) stack base, f { m with stack, base } = f m)
    (h : ∀ m : Machine, m.Ready p room floor → Sized p room floor n (f m) l Q) :
    Sized p room floor n (get >>= f) l Q := by
  intro k vs m m' hm
  have hread : f m' = f m := by rw [hm.padded.rest, hf]
  refine .get_bind ?_
  rw [hread]
  exact h m hm.ready hm

/-- A change of the stack that only looks at operands. -/
lemma onStack {g : Array Value → α × Array Value}
    (hg : ∀ upper : Array Value, n ≤ upper.size → ∃ a upper', upper'.size + n = upper.size + l ∧
      ∀ lower, g (lower ++ upper) = (a, lower ++ upper')) :
    Resizes p room floor n (modifyGet fun m => ((g m.stack).1, { m with stack := (g m.stack).2 })) l := by
  intro k vs m m' hm
  have hsize := hm.size
  have hbelow := hm.below
  obtain ⟨⟨lower, upper, hk, hstack, hstack'⟩, hbase, hrest⟩ := hm.padded
  rw [hstack, Array.size_append] at hsize
  obtain ⟨a, upper', hl, hg⟩ := hg upper (by omega)
  have happly : ∀ m : Machine, (modifyGet fun m => ((g m.stack).1, { m with stack := (g m.stack).2 }) : Run α) m =
      .ok (g m.stack).1 { m with stack := (g m.stack).2 } := fun _ => rfl
  have hx := happly m
  have hy := happly m'
  rw [hstack, hg] at hx
  rw [hstack', hg] at hy
  refine .of_ok hx hy ⟨rfl, rfl, rfl, rfl⟩ ⟨⟨lower, upper', hk, rfl, rfl⟩, hbase, by rw [hrest]⟩ ⟨?_, trivial⟩
  change (lower ++ upper').size = floor + l
  rw [Array.size_append]
  omega

end Sized

/-- Operations that do not look at the stack keep its size. -/
lemma Tame.sized {x : Run α} (hx : Tame x) : Resizes p room floor n x n := by
  intro k vs m m' hm
  obtain ⟨ho, hfails⟩ := hx.keeps m hm.ready.fits
  have hcontext := hx.blind.context_eq m
  have hstack : (x m).state.stack = m.stack := congrArg Context.stack hcontext
  have hbase : (x m).state.base = m.base := congrArg Context.base hcontext
  have hkeeps : m.Keeps (x m).state :=
    ⟨ho, hbase, congrArg Context.frames hcontext, congrArg (·.inRange.size) hcontext⟩
  have hpad := hm.padded.of_stack hstack hbase
  have hy : x m' = (x m).mapState (·.within { m.context with stack := m'.stack, base := m'.base }) := by
    rw [← hx.blind m, hm.padded.rest]
    rfl
  cases hr : x m with
  | ok a q =>
    rw [hr] at hcontext hstack hkeeps hpad hy
    rw [← show q.context = m.context from hcontext] at hy
    exact .of_ok hr hy hkeeps hpad ⟨(congrArg Array.size hstack).trans hm.size, trivial⟩
  | error f q =>
    rw [hr] at hcontext hkeeps hpad hy hfails
    rw [← show q.context = m.context from hcontext] at hy
    exact .of_error hr hy hkeeps hpad hfails

lemma pop_sized : Resizes p room floor (n + 1) pop n := by
  refine .onStack (g := fun s => (s.back?.getD .null, s.pop)) fun upper hn => ?_
  obtain ⟨rest, v, rfl⟩ := Array.exists_push_of_size_pos (by omega : 0 < upper.size)
  refine ⟨v, rest, by rw [Array.size_push]; omega, fun lower => ?_⟩
  rw [Array.append_push, Array.back?_push, Array.pop_push]
  rfl

lemma push_sized (v : Value) : Resizes p room floor n (push v) (n + 1) :=
  .onStack (g := fun s => ((), s.push v)) fun upper _ =>
    ⟨(), upper.push v, by rw [Array.size_push]; omega, fun lower => by rw [Array.append_push]⟩

lemma shrink_append (lower upper : Array Value) (i : Nat) :
    (lower ++ upper).shrink (lower.size + i) = lower ++ upper.shrink i := by
  apply Array.toList_inj.mp
  rw [Array.toList_shrink, Array.toList_append, Array.toList_append, Array.toList_shrink, ← Array.length_toList,
    List.take_length_add_append]

lemma extract_append_above (lower upper : Array Value) (i : Nat) :
    (lower ++ upper).extract (lower.size + i) (lower ++ upper).size = upper.extract i upper.size := by
  have hbelow : lower.extract (lower.size + i) (lower ++ upper).size = #[] :=
    Array.extract_eq_empty_of_le (Nat.le_trans (Nat.min_le_right _ _) (Nat.le_add_right _ _))
  rw [Array.extract_append, hbelow, Array.empty_append, Array.size_append, Nat.add_sub_cancel_left,
    Nat.add_sub_cancel_left]

lemma popMany_sized (count : Nat) : Resizes p room floor (n + count) (popMany count) n := by
  refine .onStack (g := fun s => ((s.extract (s.size - count) s.size).toList, s.shrink (s.size - count)))
    fun upper hn => ⟨(upper.extract (upper.size - count) upper.size).toList, upper.shrink (upper.size - count),
      ?_, fun lower => ?_⟩
  · rw [Array.size_shrink]
    omega
  · have hplace : (lower ++ upper).size - count = lower.size + (upper.size - count) := by
      rw [Array.size_append]
      omega
    rw [hplace, extract_append_above, shrink_append]

lemma dupe_sized : Resizes p room floor (n + 1) (step .dupe) (n + 2) := by
  refine .onStack (g := fun s => ((), s.push (s.back?.getD .null))) fun upper hn => ?_
  obtain ⟨rest, v, rfl⟩ := Array.exists_push_of_size_pos (by omega : 0 < upper.size)
  refine ⟨(), (rest.push v).push v, by rw [Array.size_push]; omega, fun lower => ?_⟩
  rw [Array.append_push, Array.append_push, Array.append_push, Array.back?_push]
  rfl

lemma nulls_sized (count : Nat) : Resizes p room floor n (step (.nulls count)) (n + count) := by
  refine .onStack (g := fun s => ((), s ++ Array.replicate count Value.null)) fun upper _ =>
    ⟨(), upper ++ Array.replicate count Value.null, ?_, fun lower => by rw [Array.append_assoc]⟩
  rw [Array.size_append, Array.size_replicate]
  omega

lemma rotate_sized : Resizes p room floor (n + 3) rotate (n + 3) := by
  intro k vs m m' hm
  have hsize := hm.size
  have hsize' := hm.padded.size_eq
  refine .get_bind ?_
  rw [if_pos (by omega), if_pos (by omega)]
  have h : Resizes p room floor (n + 3) _ (n + 3) := pop_sized.bind fun c _ => pop_sized.bind fun b _ =>
    pop_sized.bind fun a _ => (push_sized b).bind fun _ _ => (push_sized c).bind fun _ _ => push_sized a
  exact h hm

/-! ## Variables -/

variable {a : ArrayRef} {r : ScalarRef}

lemma slotIn_of_inReach (ha : a.inReach m) : ∃ slot < m.arrays.size, slotIn m.frames a = .ok slot := by
  cases a with
  | global i => exact ⟨i, of_decide_eq_true ha, rfl⟩
  | «local» i =>
    rw [ArrayRef.inReach] at ha
    rw [slotIn]
    cases hs : m.frames.head?.bind (·[i]?) with
    | none =>
      rw [hs] at ha
      cases ha
    | some slot =>
      rw [hs] at ha
      exact ⟨slot, of_decide_eq_true ha, rfl⟩

lemma arrayOf_sized (ha : a.WellFormed p room) : Resizes p room floor n (arrayOf a) n := by
  intro k vs m m' hm
  obtain ⟨slot, hslot, h⟩ := slotIn_of_inReach (hm.ready.array_inReach ha)
  obtain ⟨stack, base, rfl⟩ : ∃ stack base, m' = { m with stack, base } := ⟨_, _, hm.padded.rest⟩
  exact .of_ok (arrayOf_of_slotOf (slotOf_eq_ok.mpr h) hslot)
    (arrayOf_of_slotOf (m := { m with stack, base }) (slotOf_eq_ok.mpr h) hslot) (.refl m) hm.padded ⟨hm.size, trivial⟩

/-- A scalar of the function at work is where it was, above the further values or below them. -/
lemma getElem?_local (hm : m.Padded k vs room m') (hi : i < room.scalars) :
    m'.stack[m'.base + i]? = m.stack[m.base + i]? := by
  obtain ⟨⟨lower, upper, hk, hstack, hstack'⟩, hbase, -⟩ := hm
  rw [hstack, hstack', Array.append_assoc]
  rcases hbase with ⟨hbase, hbase'⟩ | ⟨hbase, hbase'⟩
  · rw [hbase', Array.getElem?_append_right (by omega), Array.getElem?_append_right (by omega),
      Array.getElem?_append_right (by omega)]
    congr 1
    omega
  · rw [hbase', Array.getElem?_append_left (by omega), Array.getElem?_append_left (by omega)]

lemma padded_setLocal (hm : m.Padded k vs room m') (hi : i < room.scalars) (value : Value) :
    Machine.Padded k vs room { m with stack := m.stack.setIfInBounds (m.base + i) value }
      { m' with stack := m'.stack.setIfInBounds (m'.base + i) value } := by
  obtain ⟨⟨lower, upper, hk, hstack, hstack'⟩, hbase, hrest⟩ := hm
  refine ⟨?_, hbase, by rw [hrest]⟩
  change ∃ lower upper : Array Value, lower.size = k ∧ m.stack.setIfInBounds _ value = _ ∧
    m'.stack.setIfInBounds _ value = _
  rw [hstack, hstack']
  rcases hbase with ⟨hbase, hbase'⟩ | ⟨hbase, hbase'⟩
  · refine ⟨lower, upper.setIfInBounds (m.base + i - lower.size) value, hk, ?_, ?_⟩
    · rw [Array.setIfInBounds_append, if_neg (by omega)]
    · rw [Array.setIfInBounds_append, if_neg (by rw [Array.size_append]; omega), Array.size_append]
      congr 2
      omega
  · refine ⟨lower.setIfInBounds (m.base + i) value, upper, ?_, ?_, ?_⟩
    · rw [Array.size_setIfInBounds, hk]
    · rw [Array.setIfInBounds_append, if_pos (by omega)]
    · rw [Array.append_assoc, Array.setIfInBounds_append, if_pos (by omega), hbase', Array.append_assoc]

lemma local_lt (hm : Poised p room floor k vs n m m') (hi : i < room.scalars) : m.base + i < m.stack.size := by
  have := hm.ready.scalars
  have := hm.size
  omega

lemma getScalar_sized (hr : r.WellFormed p room) : Resizes p room floor n (getScalar r) n := by
  cases r with
  | global i =>
    refine .get_bind (fun _ _ _ => rfl) fun m hm => ?_
    rw [Array.getElem?_eq_getElem (hm.globals ▸ hr)]
    exact .pure trivial
  | «local» i =>
    intro k vs m m' hm
    have hget := Array.getElem?_eq_getElem (local_lt hm hr)
    exact .of_ok (by rw [getLocal_apply, hget]) (by rw [getLocal_apply, getElem?_local hm.padded hr, hget]) (.refl m)
      hm.padded ⟨hm.size, trivial⟩
  | special v => exact (Composed.getSpecial v).tame.sized

lemma setScalar_sized (hr : r.WellFormed p room) (value : Value) : Resizes p room floor n (setScalar r value) n := by
  cases r with
  | global i =>
    refine .get_bind (fun _ _ _ => rfl) fun m hm => ?_
    rw [if_pos (hm.globals ▸ hr)]
    exact (Tame.modify (fun _ _ => rfl) fun m => by simp [Machine.outline]).sized
  | «local» i =>
    intro k vs m m' hm
    have hi := local_lt hm hr
    have hi' : m'.base + i < m'.stack.size := by
      have := hm.padded.size_eq
      rcases hm.padded.base with ⟨-, hbase⟩ | ⟨-, hbase⟩ <;> omega
    exact .of_ok (setLocal_apply hi value) (setLocal_apply hi' value) ⟨rfl, rfl, rfl, rfl⟩
      (padded_setLocal hm.padded hr value) ⟨Array.size_setIfInBounds.trans hm.size, trivial⟩
  | special v => exact (Composed.setSpecial v value).tame.sized

lemma target_sized {c : Cell} (hc : c.WellFormed p room) :
    Sized p room floor (n + c.keys) (target c) n (Target.WellFormed p room) := by
  cases c with
  | scalar r => exact .pure hc
  | field => exact pop_sized.bind fun v _ => (Composed.fieldNumber _).tame.sized.bind fun _ _ => .pure trivial
  | element a => exact pop_sized.bind fun v _ => (Composed.textOf v).tame.sized.bind fun _ _ => .pure hc

/-! ## Instructions -/

/-- What takes values from the stack and leaves others finds what it names, and does not see what lies below. -/
lemma Works.sized {x : Run α} (hx : Works p room True n x l) : Resizes p room floor n x l := by
  induction hx with
  | pure a => exact .pure trivial
  | bind _ _ ihx ihf => exact ihx.bind fun a _ => ihf a
  | routine hx => exact hx.tame.sized
  | get_bind hf _ ih => exact .get_bind (fun m stack base => hf m (fun c => { c with stack, base }, id)) fun m _ => ih m
  | target_bind hc _ ih => exact (target_sized (hc trivial)).bind fun t ht => ih t fun _ => ht
  | pop => exact pop_sized
  | push v => exact push_sized v
  | popMany count => exact popMany_sized count
  | dupe => exact dupe_sized
  | rotate => exact rotate_sized
  | nulls count => exact nulls_sized count
  | num h =>
    refine .get_bind (fun _ _ _ => rfl) fun m hm => ?_
    rw [hm.program, Array.getElem?_eq_getElem (h trivial)]
    exact push_sized _
  | str h =>
    refine .get_bind (fun _ _ _ => rfl) fun m hm => ?_
    rw [hm.program, Array.getElem?_eq_getElem (h trivial)]
    exact push_sized _
  | regex h =>
    refine .get_bind (fun _ _ _ => rfl) fun m hm => ?_
    rw [Array.getElem?_eq_getElem (hm.regexes ▸ h trivial)]
    exact push_sized _
  | getScalar hr => exact getScalar_sized (hr trivial)
  | setScalar hr value => exact setScalar_sized (hr trivial) value
  | arrayOf ha => exact arrayOf_sized (ha trivial)
  | callBuiltin hf args => exact (Composed.callBuiltin (hf trivial) args).tame.sized

/-- An instruction that finds its operands takes them and leaves its results, whatever lies below them, and keeps the
machine ready. -/
theorem step_sized {op : Op} (hop : op.WellFormed p room) (hc : op.isControl = false) :
    Resizes p room floor (n + op.takes p) (step op) (n + op.puts) := (step_works (fun _ => hop) hc).sized

end Run

end Awk
