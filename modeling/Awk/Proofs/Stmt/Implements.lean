import Awk.Proofs.Stmt.Performs

/-!
# Code that implements statements

Pieces of code implement statements if they perform them wherever they are laid.  Then the loops around them
have decided where `break` and `continue` go on.
-/

namespace Awk.Run

open Stmt (Outcome)
open Compile (Along Piece along_append along_cons along_singleton closeForIn closeFrom closeLoop closeLoop_eq either
  getElem?_closeFrom length_closeFrom length_openLoop loopLength openLoop ops ops_append skip)

/-! ## Pieces in code -/

/-- A piece stands at an address.  A jump that the loop around it decides goes on there as it should. -/
def PieceAt (full : Code) (leave again : Machine → Ending → Prop) (pc : Nat) : Piece → Prop
  | .op op => full[pc]? = some op
  | .leave => ∀ m r, leave m r → RunsTo full pc m r
  | .again => ∀ m r, again m r → RunsTo full pc m r

/-- Pieces stand in code from an address on. -/
abbrev Laid (full : Code) (leave again : Machine → Ending → Prop) : Nat → List Piece → Prop :=
  Along (PieceAt full leave again)

section

variable {full : Code} {leave again : Machine → Ending → Prop} {o : Nat}

lemma laid_ops {code : List Op} : Laid full leave again o (ops code) ↔ Stands full o code := by
  constructor
  · intro h i op hi
    refine h i (.op op) ?_
    rw [ops, List.getElem?_map, hi]
    rfl
  · intro h i piece hi
    rw [ops, List.getElem?_map] at hi
    obtain ⟨op, hop, rfl⟩ := Option.map_eq_some_iff.mp hi
    exact h i op hop

lemma laid_close {leaveOp : Nat → Op} {next : Nat} {xs : List Piece}
    (hs : Stands full o (closeFrom leaveOp next 0 xs))
    (hleave : ∀ i, full[o + i]? = some (leaveOp i) → ∀ m r, leave m r → RunsTo full (o + i) m r) :
    Laid full leave (RunsTo full (o + next)) o xs := by
  intro i x hi
  have hop := hs i (x.close leaveOp next i) (by rw [getElem?_closeFrom, hi, Nat.zero_add]; rfl)
  cases x with
  | op op => exact hop
  | leave => exact hleave i hop
  | again => exact fun m r h => .jump hop (by push_cast; ring) h

end

/-- Pieces do what statements mean, wherever they are laid. -/
def Implements (code : List Piece) (x : Run Outcome) : Prop :=
  ∀ full leave again o, Laid full leave again o code →
    Performs full o ⟨RunsTo full (o + code.length), leave, again⟩ x

namespace Implements

variable {xs ys : List Piece} {x y : Run Outcome}

/-! ## One after the other -/

lemma nil : Implements [] (pure .normal) := fun _ _ _ _ _ => .here

lemma append (hx : Implements xs x) (hy : Implements ys y) : Implements (xs ++ ys) (andThen x y) := by
  intro full leave again o h
  obtain ⟨hxs, hys⟩ := along_append.mp h
  have hrest := hy full leave again _ hys
  rw [Nat.add_assoc, ← List.length_append] at hrest
  exact .andThen (hx full leave again o hxs) hrest

lemma leave : Implements [.leave] (pure .leave) := fun _ _ _ _ h => .pure (along_singleton.mp h)

lemma again : Implements [.again] (pure .again) := fun _ _ _ _ h => .pure (along_singleton.mp h)

/-! ## Instructions -/

lemma leaf {code : List Op} (hc : Closed code) (hl : ∀ op ∈ code, op.isLoop = false) (fuel : Nat) :
    Implements (ops code) (alone fuel code.toArray) := by
  intro full leave again o h
  rw [ops, List.length_map]
  exact .alone (k := ⟨leave, leave, again⟩) (laid_ops.mp h) hc hl fuel

lemma finish {op : Op} (h : ∀ full o, advance 0 full o op = (do return .stop (← x).completion))
    (hx : Ensures x fun out => out.endsBlock = true) : Implements (ops [op]) x := by
  intro full leave again o hs m
  have hop := along_singleton.mp (laid_ops.mp hs)
  have hway := congrFun (h full o) m
  rw [bind_apply] at hway
  cases hr : x m with
  | error f n =>
    rw [hr] at hway
    exact fun hf => .fault hop hf hway
  | ok out n =>
    rw [hr] at hway
    intro r hk
    rw [Exits.at_of_endsBlock (hx m out n hr)] at hk
    exact hk ▸ .stop hop hway

lemma ofValue {code : List Op} {op : Op} {f : Value → Run Outcome} (hc : Closed code)
    (hl : ∀ op ∈ code, op.isLoop = false) (fuel : Nat) (hf : Implements (ops [op]) (do f (← pop))) :
    Implements (ops (code ++ [op])) (withValue fuel code.toArray f) := by
  rw [ops_append]
  exact (leaf hc hl fuel).append hf

/-! ## Conditions -/

section

variable {test value : List Op} {t : Test} (hc : Closed test) (hl : ∀ op ∈ test, op.isLoop = false)

include hc hl

lemma skip (hf : Fused false test t value) (hx : Implements xs x) (fuel : Nat) :
    Implements (ops test ++ Compile.skip t xs)
      (withValue fuel value.toArray fun v => if v.isTrue then x else pure .normal) := by
  intro full leave again o h
  obtain ⟨htest, hskip⟩ := along_append.mp h
  rw [ops, List.length_map] at hskip
  obtain ⟨hbranch, hxs⟩ := along_cons.mp hskip
  have hyes := hx full leave again _ hxs
  have hend : o + (ops test ++ Compile.skip t xs).length = o + test.length + 1 + xs.length := by
    simp only [ops, Compile.skip, List.length_append, List.length_map, List.length_cons]
    omega
  rw [hend]
  have hstands := along_append.mpr ⟨laid_ops.mp htest, along_singleton.mpr hbranch⟩
  exact .test (b := o + test.length + 1 + xs.length) hf hc hl hstands (by push_cast; ring) hyes
    .here fuel

lemma either (hf : Fused false test t value) (hx : Implements xs x) (hy : Implements ys y) (fuel : Nat) :
    Implements (ops test ++ Compile.either t xs ys)
      (withValue fuel value.toArray fun v => if v.isTrue then x else y) := by
  intro full leave again o h
  obtain ⟨htest, heither⟩ := along_append.mp h
  rw [ops, List.length_map] at heither
  obtain ⟨hbranch, hrest⟩ := along_cons.mp heither
  obtain ⟨hxs, hrest⟩ := along_append.mp hrest
  obtain ⟨hjump, hys⟩ := along_cons.mp hrest
  have hend : o + (ops test ++ Compile.either t xs ys).length =
      o + test.length + 1 + xs.length + 1 + ys.length := by
    simp only [ops, Compile.either, List.length_append, List.length_map, List.length_cons]
    omega
  rw [hend]
  -- the first part ends with a jump behind the second one
  have hyes : Performs full (o + test.length + 1)
      ⟨RunsTo full (o + test.length + 1 + xs.length + 1 + ys.length), leave, again⟩ x := by
    refine (hx full leave again _ hxs).next fun m r h => .jump hjump ?_ h
    push_cast
    ring
  have hstands := along_append.mpr ⟨laid_ops.mp htest, along_singleton.mpr hbranch⟩
  exact .test (b := o + test.length + 1 + xs.length + 1) hf hc hl hstands (by push_cast; ring) hyes
    (hy full leave again _ hys) fuel

end

/-! ## Loops -/

/-- What stands behind a round goes back to the body if there is another round. -/
def Returns (test : List Op) (back : Int → Op) (rest : Run Outcome → Run Outcome) : Prop :=
  ∀ (full : Code) (k : Exits) (start body : Nat) (offset : Int) (y : Run Outcome),
    Stands full start (test ++ [back offset]) →
    ((start + test.length : Nat) : Int) + 1 + offset = body →
    Performs full body { k with next := RunsTo full (start + test.length + 1) } y →
    Performs full start { k with next := RunsTo full (start + test.length + 1) } (rest y)

lemma returns_jump : Returns [] .jump fun y => y :=
  fun _ _ _ _ _ _ hs hback hy => .jump (along_singleton.mp hs) hback hy

lemma returns_branch {test value : List Op} {t : Test} (hc : Closed test) (hl : ∀ op ∈ test, op.isLoop = false)
    (hf : Fused true test t value) (fuel : Nat) : Returns test (.branch t) fun y =>
      withValue fuel value.toArray fun v => if v.isTrue then y else pure .normal :=
  fun _ _ _ _ _ _ hs hback hy =>
    .test hf hc hl hs (by exact_mod_cast hback) hy .here fuel

lemma loop {round after : List Piece} {test : List Op} {back : Int → Op} {body post : Run Outcome}
    {rest : Run Outcome → Run Outcome} (hround : Implements round body) (hafter : Implements after post)
    (hstays : Ensures post Outcome.Stays) (hback : Returns test back rest) (fuel : Nat) :
    Implements (ops (closeLoop round after test back)) (rounds rest body post fuel) := by
  intro full leave again o h
  have hloop := laid_ops.mp h
  rw [closeLoop_eq] at hloop
  -- both jumps out of the body lead to places in the loop
  have hlaid : Laid full (RunsTo full (o + loopLength round after test)) (RunsTo full (o + round.length)) o
      (openLoop round after test back) :=
    laid_close hloop fun i hop m r h => .jump hop (by push_cast; ring) h
  obtain ⟨hbody, hrest⟩ := along_append.mp hlaid
  obtain ⟨hpost, htest⟩ := along_append.mp hrest
  have hstands : Stands full (o + round.length + after.length) (test ++ [back (-loopLength round after test)]) := by
    rw [show ops test ++ [Piece.op (back (-loopLength round after test))] =
      ops (test ++ [back (-loopLength round after test)]) by simp [ops]] at htest
    exact laid_ops.mp htest
  have hend : o + round.length + after.length + test.length + 1 = o + loopLength round after test := by
    rw [loopLength]
    omega
  have hlength : (ops (closeLoop round after test back)).length = loopLength round after test := by
    rw [ops, List.length_map, closeLoop_eq, length_closeFrom, length_openLoop]
  rw [hlength]
  refine .rounds (k := ⟨leave, leave, again⟩) (hround full _ _ _ hbody)
    ((hafter full _ _ _ hpost).change hstays leave again) (fun y hy => ?_) fuel
  rw [← hend] at hy ⊢
  exact hback full ⟨leave, leave, again⟩ _ o _ y hstands (by rw [loopLength]; push_cast; ring) hy

lemma forIn {round : List Piece} {body : Run Outcome} (hround : Implements round body) (var : ScalarRef)
    (a : ArrayRef) : Implements (ops (.forIn var a round.length :: closeForIn round)) (do
      let (_, array) ← arrayOf a
      let keys ← loopKeys array
      eachKey var a body keys) := by
  intro full leave again o h
  have hlength : (closeForIn round).length = round.length := length_closeFrom
  have hs := laid_ops.mp h
  rw [← hlength] at hs
  have hlaid : Laid (closeForIn round).toArray (fun n r => r = .ok .breakForIn n)
      (RunsTo (closeForIn round).toArray (0 + round.length)) 0 round :=
    laid_close (stands_self _) fun i hop m r h => h ▸ .stop hop (rfl : advance 0 _ _ _ _ = _)
  have hbody := hround _ _ _ 0 hlaid
  rw [Nat.zero_add, ← hlength] at hbody
  rw [ops, List.length_map, List.length_cons, ← Nat.add_assoc, Nat.add_right_comm]
  exact .forIn (k := ⟨leave, leave, again⟩) hs hbody

/-! ## Blocks -/

lemma laid_settled (xs : List Piece) :
    Laid (xs.map Piece.settled).toArray (fun _ _ => False) (fun _ _ => False) 0 xs := by
  intro i x hi
  cases x with
  | op op => rw [PieceAt, Nat.zero_add, List.getElem?_toArray, List.getElem?_map, hi]; rfl
  | leave | again => exact fun _ _ => False.elim

lemma runsTo (hx : Implements xs x) (hstays : Ensures x Outcome.Stays) {m : Machine}
    (hfuel : ∀ n, x m ≠ .error .outOfFuel n) :
    RunsTo (xs.map Piece.settled).toArray 0 m ((do return (← x).completion) m) := by
  have hm := hx _ _ _ 0 (laid_settled xs) m
  rw [bind_apply]
  cases hr : x m with
  | error f n =>
    rw [hr] at hm
    refine hm ?_
    rintro rfl
    exact hfuel n hr
  | ok o n =>
    rw [hr] at hm
    cases o with
    | leave => exact absurd rfl (hstays m _ n hr).1
    | again => exact absurd rfl (hstays m _ n hr).2
    | normal => exact hm _ (.finish (by simp))
    | next | nextFile | exit | «return» v => exact hm _ rfl

end Implements

end Awk.Run
