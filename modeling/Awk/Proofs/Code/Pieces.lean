import Awk.Compile.Stmt
import Awk.Proofs.Code.Verified

/-!
# Pieces of code

Code is put together from parts: one behind another, a part that may be skipped, a choice of two, a loop.  The jumps out
of a loop get their targets when the loop is put together.
-/

namespace Awk.Compile

/-! ## Properties along code -/

/-- The elements of a list, which stand from an address on, have a property that depends on the address. -/
def Along {α : Type} (P : Nat → α → Prop) (o : Nat) (l : List α) : Prop :=
  ∀ i x, l[i]? = some x → P (o + i) x

section

variable {α : Type} {P : Nat → α → Prop} {o : Nat}

variable {xs : List α} {x : α}

lemma along_append {ys : List α} : Along P o (xs ++ ys) ↔ Along P o xs ∧ Along P (o + xs.length) ys := by
  constructor
  · intro h
    refine ⟨fun i x hi => h i x ?_, fun i x hi => ?_⟩
    · rw [List.getElem?_append_left (List.getElem?_eq_some_iff.mp hi).1, hi]
    · rw [Nat.add_assoc]
      refine h _ x ?_
      rw [List.getElem?_append_right (Nat.le_add_right _ _), Nat.add_sub_cancel_left, hi]
  · rintro ⟨hx, hy⟩ i x hi
    by_cases hlt : i < xs.length
    · rw [List.getElem?_append_left hlt] at hi
      exact hx i x hi
    · rw [not_lt] at hlt
      rw [List.getElem?_append_right hlt] at hi
      have := hy _ x hi
      rwa [Nat.add_assoc, Nat.add_sub_of_le hlt] at this

@[simp]
lemma along_nil : Along P o [] := fun _ _ h => by simp at h

@[simp]
lemma along_singleton : Along P o [x] ↔ P o x := by
  refine ⟨fun h => h 0 x rfl, fun hx i y hi => ?_⟩
  cases i with
  | zero => cases hi; exact hx
  | succ i => simp at hi

lemma along_cons : Along P o (x :: xs) ↔ P o x ∧ Along P (o + 1) xs := by
  rw [← List.singleton_append, along_append, along_singleton]
  rfl

end

/-! ## Parts that may be skipped -/

/-- A part that a conditional jump skips. -/
def skip (t : Test) (xs : List Piece) : List Piece := .op (.branch t xs.length) :: xs

/-- A choice of two parts; the conditional jump leads to the second one. -/
def either (t : Test) (xs ys : List Piece) : List Piece :=
  .op (.branch t (xs.length + 1)) :: (xs ++ .op (.jump ys.length) :: ys)

/-! ## Loops -/

/-- The instruction that a piece becomes when its loop is put together. -/
def Piece.close (leave : Nat → Op) (again i : Nat) : Piece → Op
  | .op o => o
  | .leave => leave i
  | .again => .jump (again - (i + 1))

section

variable {leave : Nat → Op} {again : Nat}

variable {i : Nat} {xs : List Piece}

lemma length_closeFrom : (closeFrom leave again i xs).length = xs.length := by
  fun_induction closeFrom leave again i xs <;> simp_all

lemma getElem?_closeFrom {j : Nat} :
    (closeFrom leave again i xs)[j]? = xs[j]?.map (Piece.close leave again (i + j)) := by
  induction xs generalizing i j with
  | nil => simp [closeFrom]
  | cons x xs ih =>
    cases j with
    | zero => cases x <;> rfl
    | succ j => cases x <;> simp [closeFrom, ih, Nat.add_assoc, Nat.add_comm 1]

lemma closeFrom_append {ys : List Piece} : closeFrom leave again i (xs ++ ys) =
      closeFrom leave again i xs ++ closeFrom leave again (i + xs.length) ys := by
  induction xs generalizing i with
  | nil => rfl
  | cons x xs ih => cases x <;> simp [closeFrom, ih, Nat.add_assoc, Nat.add_comm 1]

lemma closeFrom_ops {xs : List Op} : closeFrom leave again i (ops xs) = xs := by
  induction xs generalizing i with
  | nil => rfl
  | cons x xs ih =>
    rw [ops, List.map_cons, closeFrom]
    exact congrArg _ ih

lemma getElem?_ops_closeFrom :
    (ops (closeFrom leave again 0 xs))[i]? = xs[i]?.map fun x => .op (x.close leave again i) := by
  rw [ops, List.getElem?_map, getElem?_closeFrom, Option.map_map, Nat.zero_add]
  rfl

end

variable {body post : List Piece} {test : List Op} {back : Int → Op}

def loopLength (body post : List Piece) (test : List Op) : Nat :=
  body.length + post.length + test.length + 1

/-- The pieces of a loop behind its entry. -/
def openLoop (body post : List Piece) (test : List Op) (back : Int → Op) : List Piece :=
  body ++ (post ++ (ops test ++ [Piece.op (back (-loopLength body post test))]))

lemma closeLoop_eq : closeLoop body post test back =
      closeFrom (fun i => .jump (loopLength body post test - (i + 1))) body.length 0
        (openLoop body post test back) := by
  rw [openLoop, ← List.append_assoc, closeFrom_append,
    show ops test ++ [Piece.op (back (-loopLength body post test))] =
      ops (test ++ [back (-loopLength body post test)]) by simp [ops], closeFrom_ops,
    ← List.append_assoc]
  rfl

lemma length_openLoop : (openLoop body post test back).length = loopLength body post test := by
  simp only [openLoop, ops, loopLength, List.length_append, List.length_map, List.length_singleton]
  omega

lemma map_settled_ops {code : List Op} : (ops code).map Piece.settled = code := by
  rw [ops, List.map_map]
  exact List.map_id code

end Awk.Compile
