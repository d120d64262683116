import Awk.Proofs.Machine.Safety
import Awk.Proofs.Machine.Uncounted

/-!
# Code does not see values below its own

What instructions do not see, code does not see: code that passes the verifier does the same whatever further values
there are in the stack.  So a function could as well have a stack of its own, and so could every argument of a call
while it is computed.
-/

namespace Awk.Run

section Verified

variable {p : Program} {room : Room} {k : Nat} {vs : Array Value} {m m' n : Machine} {c : Completion} {final : Nat}
  {code : Code} {height : Nat → Nat} (hp : p.Verified) (hv : code.Verified p room final height) (fuel : Nat)
  (hm : m.Ready p room m.stack.size)

include hp hv hm

lemma proceed_safely (hpad : m.Padded k vs room m') : Safely k vs room m m' (proceed fuel code 0) (proceed fuel code 0)
    (Ends code height m.stack.size 0 code.size) := by
  rw [proceed_eq_execWith fuel m.stack.size]
  exact execWith_safely_whole (fun _ hpad => .pure hpad rfl) hp fuel _ hv ⟨hm, hpad, hpad.le_size, rfl⟩

lemma proceed_keeps : m.Keeps (proceed fuel code 0 m).state := (proceed_safely hp hv fuel hm (.refl m)).orderly.keeps

/-- Code that comes to its end leaves as many values as the verifier tells. -/
lemma proceed_size (h : proceed fuel code 0 m = .ok .normal n) : n.stack.size = m.stack.size + final := by
  have horderly := (proceed_safely hp hv fuel hm (.refl m)).orderly
  rw [h] at horderly
  rw [← hv.ends]
  exact horderly.2

/-- Code that passes the verifier does the same whatever further values there are in the stack. -/
theorem proceed_mirrors (hpad : m.Padded k vs room m') :
    (∃ c q q', proceed fuel code 0 m = .ok c q ∧ proceed fuel code 0 m' = .ok c q' ∧ q.Padded k vs room q' ∧
      m.Keeps q ∧ Ends code height m.stack.size 0 code.size c q) ∨
    ∃ f q q', proceed fuel code 0 m = .error f q ∧ proceed fuel code 0 m' = .error f q' ∧ q.Padded k vs room q' ∧
      m.Keeps q := by
  obtain ⟨horderly, q', hq', hsame⟩ := proceed_safely hp hv fuel hm hpad
  cases hr : proceed fuel code 0 m with
  | ok c q =>
    rw [hr] at horderly hq' hsame
    exact .inl ⟨c, q, q', rfl, hsame, hq', horderly⟩
  | error f q =>
    rw [hr] at horderly hq' hsame
    exact .inr ⟨f, q, q', rfl, hsame, hq', horderly.1⟩

/-- The run on the machine without the further values, told from the run on the one with them. -/
lemma proceed_without (hpad : m.Padded k vs room m') (h : proceed fuel code 0 m' = .ok c n) :
    ∃ q, proceed fuel code 0 m = .ok c q ∧ q.Padded k vs room n := by
  obtain ⟨c', q, q', hq, hq', hpad, -⟩ | ⟨f, q, q', -, hq', -⟩ := proceed_mirrors hp hv fuel hm hpad <;>
    rw [h] at hq' <;> cases hq'
  exact ⟨q, hq, hpad⟩

omit hv hp in
lemma ready_onStack (stack : Array Value) (base : Nat) (h : base + room.scalars ≤ stack.size) :
    Machine.Ready p room stack.size { m with stack, base } :=
  ⟨hm.program, hm.regexes, hm.fits, h, hm.arrays⟩

omit hv hp hm in
lemma extract_split {stack : Array Value} {place : Nat} (h : place ≤ stack.size) :
    stack = stack.extract 0 place ++ stack.extract place stack.size := by
  rw [Array.extract_append_extract, Nat.zero_min, Nat.max_eq_right h, Array.extract_size]

/-- Code that passes the verifier changes nothing in the stack but the scalars of its function. -/
lemma proceed_restores (h : proceed fuel code 0 m = .ok c n) {i : Nat} (hi : i < m.stack.size)
    (houtside : i < m.base ∨ m.base + room.scalars ≤ i) : n.stack[i]? = m.stack[i]? := by
  have hscalars := hm.scalars
  rcases houtside with hlow | hhigh
  · -- what lies below the base is not there for a machine whose stack starts at it
    have hpad : Machine.Padded 0 (m.stack.extract 0 m.base) room
        { m with stack := m.stack.extract m.base m.stack.size, base := 0 } m := by
      refine ⟨⟨#[], m.stack.extract m.base m.stack.size, rfl, Array.empty_append.symm, ?_⟩,
        .inl ⟨Nat.le_refl 0, ?_⟩, rfl⟩
      · rw [Array.empty_append]
        exact extract_split (by omega)
      · change m.base = 0 + (m.stack.extract 0 m.base).size
        rw [Array.size_extract]
        omega
    have hready := ready_onStack hm (m.stack.extract m.base m.stack.size) 0 (by rw [Array.size_extract]; omega)
    obtain ⟨q, -, ⟨lower, upper, hk, -, hn⟩, -, -⟩ := proceed_without hp hv fuel hready hpad h
    obtain rfl : lower = #[] := Array.size_eq_zero_iff.mp hk
    rw [hn, Array.empty_append, Array.getElem?_append_left (by rw [Array.size_extract]; omega), Array.getElem?_extract,
      if_pos (by omega), Nat.zero_add]
  · -- what lies above the scalars might as well have been put there in between
    have hsize : (m.stack.extract 0 (m.base + room.scalars)).size = m.base + room.scalars := by
      rw [Array.size_extract]
      omega
    have hpad : Machine.Padded (m.base + room.scalars) (m.stack.extract (m.base + room.scalars) m.stack.size) room
        { m with stack := m.stack.extract 0 (m.base + room.scalars) } m := by
      refine ⟨⟨m.stack.extract 0 (m.base + room.scalars), #[], hsize, Array.append_empty.symm, ?_⟩,
        .inr ⟨Nat.le_refl _, rfl⟩, rfl⟩
      rw [Array.append_empty]
      exact extract_split hscalars
    have hready := ready_onStack hm (m.stack.extract 0 (m.base + room.scalars)) m.base (Nat.le_of_eq hsize.symm)
    obtain ⟨q, -, ⟨lower, upper, hk, -, hn⟩, -, -⟩ := proceed_without hp hv fuel hready hpad h
    rw [hn, Array.getElem?_append_left (by rw [Array.size_append, Array.size_extract]; omega),
      Array.getElem?_append_right (by omega), Array.getElem?_extract, if_pos (by omega), hk]
    congr 1
    omega

end Verified

end Awk.Run
