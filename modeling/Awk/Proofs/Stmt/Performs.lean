import Awk.Proofs.Stmt.Perform

/-!
# Code that performs statements

Code of a statement goes on at one of several places: behind it, or where the loop around it says.  `Performs`
says that running code from an address on does what statements mean, and goes on where their outcome tells.  The
code of statements is put together as their meaning is.
-/

namespace Awk.Run

open Stmt (Outcome)
open Compile (along_append along_cons along_singleton)

/-! ## Exits -/

/-- How runs end that go on at one of three places: behind statements, behind the loop around them, and at the
next round of that loop. -/
structure Exits where
  next : Machine → Ending → Prop
  leave : Machine → Ending → Prop
  again : Machine → Ending → Prop

/-- How runs end that go on as statements tell. -/
def Exits.at (k : Exits) : Outcome → Machine → Ending → Prop
  | .normal => k.next
  | .leave => k.leave
  | .again => k.again
  | o => fun m r => r = .ok o.completion m

variable {k : Exits} {var : ScalarRef} {a : ArrayRef} {code : Code} {keys : List String} {m n : Machine}
  {res : EStateM.Result Fault Machine Outcome}

variable {o : Outcome} {offset : Int} {full : Code} {k : Exits} {body : Run Outcome}

lemma Exits.at_of_endsBlock (h : o.endsBlock = true) : k.at o = fun m r => r = .ok o.completion m := by
  cases o with
  | normal | leave | again => cases h
  | next | nextFile | exit | «return» v => rfl

/-- Running code from an address on ends as runs do that go on as a result tells. -/
def Settles (full : Code) (start : Nat) (k : Exits) (m : Machine) : EStateM.Result Fault Machine Outcome → Prop
  | .ok o n => ∀ r, k.at o n r → RunsTo full start m r
  | .error f n => f ≠ .outOfFuel → RunsTo full start m (.error f n)

/-- Running code from an address on does what statements mean, and goes on where they tell. -/
def Performs (full : Code) (start : Nat) (k : Exits) (x : Run Outcome) : Prop :=
  ∀ m, Settles full start k m (x m)

namespace Performs

variable {full : Code} {a b e : Nat} {k : Exits} {x y : Run Outcome}

lemma pure (h : ∀ n r, k.at o n r → RunsTo full a n r) : Performs full a k (Pure.pure o) := h

lemma here {leave again : Machine → Ending → Prop} :
    Performs full a ⟨RunsTo full a, leave, again⟩ (Pure.pure .normal) := fun _ _ h => h

lemma throw_outOfFuel : Performs full a k (MonadExcept.throw .outOfFuel) := fun _ h => absurd rfl h

lemma settles (hy : Performs full b k y) {m n : Machine} (h : ∀ r, RunsTo full b n r → RunsTo full a m r) :
    Settles full a k m (y n) := by
  have hn := hy n
  cases hr : y n with
  | ok o n' =>
    rw [hr] at hn
    exact fun r hk => h r (hn r hk)
  | error f n' =>
    rw [hr] at hn
    exact fun hf => h _ (hn hf)

lemma of_agrees (hy : Performs full a k y) (h : ∀ m, (∃ n, x m = .error .outOfFuel n) ∨ x m = y m) :
    Performs full a k x := by
  intro m
  rcases h m with ⟨n, hn⟩ | heq
  · rw [hn]
    exact fun hf => absurd rfl hf
  · rw [heq]
    exact hy m

/-- What follows statements is told by how they end. -/
lemma bind {k' : Exits} {f : Outcome → Run Outcome} (hx : Performs full a k x)
    (hf : ∀ m o n, x m = .ok o n → (∀ r, k.at o n r → RunsTo full a m r) →
      Settles full a k' m (f o n)) : Performs full a k' (x >>= f) := by
  intro m
  have hm := hx m
  rw [bind_apply]
  cases hr : x m with
  | error f n =>
    rw [hr] at hm
    exact hm
  | ok o n =>
    rw [hr] at hm
    exact hf m o n hr hm

/-- What does not go on at the loop around it can stand in any loop. -/
lemma change (hx : Performs full a k x) (hs : Ensures x Outcome.Stays)
    (leave again : Machine → Ending → Prop) : Performs full a ⟨k.next, leave, again⟩ x := by
  rw [← bind_pure x]
  refine hx.bind fun m o n hr hm => ?_
  cases o with
  | leave => exact absurd rfl (hs m _ n hr).1
  | again => exact absurd rfl (hs m _ n hr).2
  | normal | next | nextFile | exit | «return» v => exact hm

/-- Code that has another way behind statements. -/
lemma next (hx : Performs full a k x) {next : Machine → Ending → Prop} (h : ∀ m r, next m r → k.next m r) :
    Performs full a { k with next := next } x := by
  rw [← bind_pure x]
  refine hx.bind fun m o n _ hm => ?_
  cases o with
  | normal => exact fun r hk => hm r (h n r hk)
  | leave | again | next | nextFile | exit | «return» v => exact hm

/-! ## One after the other -/

lemma andThen (hx : Performs full a { k with next := RunsTo full b } x) (hy : Performs full b k y) :
    Performs full a k (andThen x y) := by
  refine hx.bind fun m o n _ hm => ?_
  cases o with
  | normal => exact hy.settles hm
  | leave | again | next | nextFile | exit | «return» v => exact hm

lemma round (hx : Performs full a ⟨RunsTo full b, RunsTo full e, RunsTo full b⟩ x)
    (hy : Performs full b { k with next := RunsTo full e } y) :
    Performs full a { k with next := RunsTo full e } (round x y) := by
  refine hx.bind fun m o n _ hm => ?_
  cases o with
  | normal | again => exact hy.settles hm
  | leave | next | nextFile | exit | «return» v => exact hm

lemma rounds {test : Run Outcome → Run Outcome} {body post : Run Outcome} {c : Nat}
    (hbody : Performs full a ⟨RunsTo full b, RunsTo full e, RunsTo full b⟩ body)
    (hpost : Performs full b { k with next := RunsTo full c } post)
    (htest : ∀ y, Performs full a { k with next := RunsTo full e } y →
      Performs full c { k with next := RunsTo full e } (test y)) (fuel : Nat) :
    Performs full a { k with next := RunsTo full e } (rounds test body post fuel) := by
  induction fuel with
  | zero => exact throw_outOfFuel
  | succ fuel ih => exact hbody.round (.andThen hpost (htest _ ih))

lemma branch {t : Test} (hop : full[a]? = some (.branch t offset)) (hb : (a : Int) + 1 + offset = b)
    (hx : Performs full b k x) (hy : Performs full (a + 1) k y) :
    Performs full a k (do if ← taken t then x else y) := by
  intro m
  rw [bind_apply]
  cases ht : taken t m with
  | error f n => exact fun _ => .branchFault hop ht
  | ok c n =>
    cases c with
    | true => exact hx.settles fun r => .branch hop ht hb
    | false => exact hy.settles fun r => .branch hop ht (by simp)

lemma jump (hop : full[a]? = some (.jump offset)) (hb : (a : Int) + 1 + offset = b)
    (hx : Performs full b k x) : Performs full a k x :=
  fun _ => hx.settles fun _ => .jump hop hb

/-! ## Code by itself -/

lemma alone {code : List Op} (hs : Stands full a code) (hc : Closed code)
    (hl : ∀ op ∈ code, op.isLoop = false) (fuel : Nat) :
    Performs full a { k with next := RunsTo full (a + code.length) } (alone fuel code.toArray) := by
  intro m
  rw [Run.alone, bind_apply]
  cases h : proceed fuel code.toArray 0 m with
  | error f n =>
    intro hf
    exact .inside hs hc (Nat.zero_le _) h (by rintro n' ⟨⟩; exact hf rfl) rfl
  | ok c n =>
    intro r hr
    refine .inside hs hc (Nat.zero_le _) h (ok_ne_outOfFuel c n) ?_
    have hbreak := proceed_ne_breakForIn (by simpa using hl) fuel 0 m c n h
    cases c with
    | breakForIn => exact absurd rfl hbreak
    | normal | next | nextFile | exit | «return» v => exact hr

end Performs

/-! ## Tests -/

/-- The code of a condition that is followed by a test: more instructions behind it would push a value, and the
test decides as the truth of that value does. -/
def Fused (expected : Bool) (code : List Op) (t : Test) (value : List Op) : Prop :=
  ∃ rest, value = code ++ rest ∧ (∀ op ∈ rest, op.isControl = false) ∧
    (do rest.forM step; return (← pop).isTrue == expected) = taken t

section

variable {expected : Bool} {code value : List Op} {t : Test} (hf : Fused expected code t value) (hc : Closed code)
  (hl : ∀ op ∈ code, op.isLoop = false)

include hf hc hl

lemma withValue_agrees (yes no : Run Outcome) (fuel : Nat) (m : Machine) :
    (∃ n, withValue fuel value.toArray (fun v => if v.isTrue then yes else no) m = .error .outOfFuel n) ∨
      withValue fuel value.toArray (fun v => if v.isTrue then yes else no) m =
        andThen (alone fuel code.toArray) (do
          if ← taken t then if expected then yes else no else if expected then no else yes) m := by
  obtain ⟨rest, rfl, hrest, htaken⟩ := hf
  rw [withValue, Run.andThen, Run.andThen, bind_apply, bind_apply, Run.alone, Run.alone, bind_apply, bind_apply]
  by_cases hout : ∃ n, proceed fuel (code ++ rest).toArray 0 m = .error .outOfFuel n
  · obtain ⟨n, hn⟩ := hout
    rw [hn]
    exact .inl ⟨n, rfl⟩
  · right
    rw [proceed_append hc hrest (not_exists.mp hout), bind_apply]
    cases hcode : proceed fuel code.toArray 0 m with
    | error f n => rfl
    | ok c n =>
      have hbreak := proceed_ne_breakForIn (by simpa using hl) fuel 0 m c n hcode
      cases c with
      | breakForIn => exact absurd rfl hbreak
      | next | nextFile | exit | «return» v => rfl
      | normal =>
        have hbranch : ∀ v : Value, (if v.isTrue == expected then if expected then yes else no
            else if expected then no else yes) = if v.isTrue then yes else no := by
          intro v
          cases v.isTrue <;> cases expected <;> rfl
        rw [← htaken]
        simp only [bind_assoc, pure_bind, hbranch]
        change _ = (rest.forM step >>= fun _ => pop >>= fun v => if v.isTrue then yes else no) n
        rw [bind_apply, bind_apply]
        cases rest.forM step n <;> rfl

lemma Performs.test {a b : Nat} {yes no : Run Outcome}
    (hs : Stands full a (code ++ [Op.branch t offset])) (hb : (a + code.length : Int) + 1 + offset = b)
    (hyes : Performs full (if expected then b else a + code.length + 1) k yes)
    (hno : Performs full (if expected then a + code.length + 1 else b) k no) (fuel : Nat) :
    Performs full a k (Run.withValue fuel value.toArray fun v => if v.isTrue then yes else no) := by
  obtain ⟨hcode, hop⟩ := along_append.mp hs
  have hbranch : Performs full (a + code.length) k (do
      if ← taken t then if expected then yes else no else if expected then no else yes) := by
    refine .branch (along_singleton.mp hop) (by push_cast; exact hb) ?_ ?_
    · cases expected <;> assumption
    · cases expected <;> assumption
  exact .of_agrees (.andThen (.alone hcode hc hl fuel) hbranch) (withValue_agrees hf hc hl yes no fuel)

end

/-! ## Loops over arrays -/

/-- A loop over keys ends in a way, if there is enough fuel for its body. -/
def LoopsTo (var : ScalarRef) (a : ArrayRef) (code : Code) (keys : List String) (m : Machine) (r : Ending) : Prop :=
  ∃ bound, ∀ fuel ≥ bound, overKeys var a (proceed fuel code 0) keys m = r

/-- How a loop over keys goes on behind a round. -/
def LoopsOn (var : ScalarRef) (a : ArrayRef) (code : Code) (rest : List String) (r : Ending) : Ending → Prop
  | .ok .normal m => LoopsTo var a code rest m r
  | .ok .breakForIn m => r = .ok .normal m
  | e => r = e

section

variable {var : ScalarRef} {a : ArrayRef} {code : Code} {key : String} {rest : List String} {m n : Machine}
  {array : ArrayValue} {slot : Nat} {r : Ending} (ha : arrayOf a m = .ok (slot, array) n)

include ha

lemma LoopsTo.missing (hkey : array.contains key = false) (h : LoopsTo var a code rest n r) :
    LoopsTo var a code (key :: rest) m r := by
  obtain ⟨bound, h⟩ := h
  refine ⟨bound, fun fuel hfuel => ?_⟩
  rw [overKeys, bind_apply, ha]
  dsimp only
  rw [hkey]
  exact h fuel hfuel

variable (hkey : array.contains key = true)

include hkey

variable {n' : Machine}

lemma LoopsTo.refused {f : Fault} (hset : setScalar var (.str key) n = .error f n') :
    LoopsTo var a code (key :: rest) m (.error f n') := by
  refine ⟨0, fun fuel _ => ?_⟩
  rw [overKeys, bind_apply, ha]
  dsimp only
  rw [if_pos hkey, bind_apply, hset]

lemma overKeys_round (hset : setScalar var (.str key) n = .ok () n') (run : Run Completion) :
    overKeys var a run (key :: rest) m = match run n' with
      | .ok .normal n => overKeys var a run rest n
      | .ok .breakForIn n => .ok .normal n
      | e => e := by
  rw [overKeys, bind_apply, ha]
  dsimp only
  rw [if_pos hkey, bind_apply, hset]
  dsimp only
  rw [bind_apply]
  cases run n' with
  | error f n => rfl
  | ok c n => cases c <;> rfl

lemma LoopsTo.round (hset : setScalar var (.str key) n = .ok () n') {e : Ending} (hround : RunsTo code 0 n' e)
    (h : LoopsOn var a code rest r e) : LoopsTo var a code (key :: rest) m r := by
  obtain ⟨bound, hround⟩ := hround
  cases e with
  | error f n =>
    refine ⟨bound, fun fuel hfuel => ?_⟩
    rw [overKeys_round ha hkey hset, hround fuel hfuel]
    exact h.symm
  | ok c n =>
    cases c with
    | normal =>
      obtain ⟨bound', h⟩ := h
      refine ⟨max bound bound', fun fuel hfuel => ?_⟩
      rw [overKeys_round ha hkey hset, hround fuel (le_of_max_le_left hfuel)]
      exact h fuel (le_of_max_le_right hfuel)
    | breakForIn | next | nextFile | exit | «return» v =>
      refine ⟨bound, fun fuel hfuel => ?_⟩
      rw [overKeys_round ha hkey hset, hround fuel hfuel]
      exact h.symm

end

/-- A loop over keys ends as a result tells. -/
def LoopSettles (var : ScalarRef) (a : ArrayRef) (code : Code) (keys : List String) (m : Machine) :
    EStateM.Result Fault Machine Outcome → Prop
  | .ok o n => LoopsTo var a code keys m (.ok o.completion n)
  | .error f n => f ≠ .outOfFuel → LoopsTo var a code keys m (.error f n)

lemma LoopSettles.extend {rest : List String} (h : LoopSettles var a code rest n res)
    (hrest : ∀ r, LoopsTo var a code rest n r → LoopsTo var a code keys m r) : LoopSettles var a code keys m res := by
  cases res with
  | ok o n' => exact hrest _ h
  | error f n' => exact fun hf => hrest _ (h hf)

/-- A loop over keys goes on as the code of its body ends by itself. -/
lemma loopSettles_eachKey (var : ScalarRef) (a : ArrayRef)
    (hbody : Performs code 0 ⟨RunsTo code code.size, fun n r => r = .ok .breakForIn n, RunsTo code code.size⟩ body)
    (keys : List String) (m : Machine) : LoopSettles var a code keys m (eachKey var a body keys m) := by
  have hend : ∀ n, RunsTo code code.size n (.ok .normal n) := fun n => .finish (by simp)
  induction keys generalizing m with
  | nil => exact ⟨0, fun _ _ => rfl⟩
  | cons key rest ih =>
    rw [eachKey, bind_apply]
    cases ha : arrayOf a m with
    | error f n =>
      refine fun _ => ⟨0, fun _ _ => ?_⟩
      rw [overKeys, bind_apply, ha]
    | ok found n =>
      obtain ⟨slot, array⟩ := found
      dsimp only
      cases hkey : array.contains key with
      | false => exact (ih n).extend fun r => .missing ha hkey
      | true =>
        rw [if_pos rfl, bind_apply]
        cases hset : setScalar var (.str key) n with
        | error f n' => exact fun _ => .refused ha hkey hset
        | ok _ n' =>
          have hround := hbody n'
          dsimp only
          rw [Run.round, bind_apply]
          cases hr : body n' with
          | error f n'' =>
            rw [hr] at hround
            exact fun hf => .round ha hkey hset (hround hf) rfl
          | ok o n'' =>
            rw [hr] at hround
            cases o with
            | normal | again => exact (ih n'').extend fun r => .round ha hkey hset (hround _ (hend n''))
            | leave | next | nextFile | exit | «return» v => exact .round ha hkey hset (hround _ rfl) rfl

lemma LoopSettles.settles {o stop : Nat} {op : Op} (h : LoopSettles var a code keys n res)
    (hop : full[o]? = some op) (hrun : ∀ fuel, advance fuel full o op m =
      (do return .behind stop (← overKeys var a (proceed fuel code 0) keys) : Run Way) n)
    (hstays : ∀ out n', res = .ok out n' → out.Stays) : Settles full o { k with next := RunsTo full stop } m res := by
  cases res with
  | error f n' =>
    intro hf
    obtain ⟨bound, hbound⟩ := h hf
    refine .fault hop hf ((hrun bound).trans ?_)
    rw [bind_apply, hbound bound le_rfl]
  | ok out n' =>
    obtain ⟨bound, hbound⟩ := h
    have hway : advance bound full o op m = .ok (.behind stop out.completion) n' := by
      rw [hrun, bind_apply, hbound bound le_rfl]
      rfl
    intro r hk
    cases out with
    | leave => exact absurd rfl (hstays _ _ rfl).1
    | again => exact absurd rfl (hstays _ _ rfl).2
    | normal => exact .go hop hway hk
    | next | nextFile | exit | «return» v => exact hk ▸ .stop hop hway

/-- A loop over an array, whose body is code by itself. -/
lemma Performs.forIn {o : Nat} {var : ScalarRef} {a : ArrayRef} {code : List Op}
    (hs : Stands full o (.forIn var a code.length :: code))
    (hbody : Performs code.toArray 0 ⟨RunsTo code.toArray code.length, fun n r => r = .ok .breakForIn n,
      RunsTo code.toArray code.length⟩ body) :
    Performs full o { k with next := RunsTo full (o + 1 + code.length) } (do
      let (_, array) ← arrayOf a
      let keys ← loopKeys array
      eachKey var a body keys) := by
  obtain ⟨hop, hcode⟩ := along_cons.mp hs
  have hstop : min (o + 1 + code.length) full.size = o + 1 + code.length := by
    have hsize := Stands.le_size hs (i := code.length + 1)
    rw [List.length_cons] at hsize
    omega
  have hextract : full.extract (o + 1) (o + 1 + code.length) = code.toArray := by
    simpa using Stands.extract_eq hcode (i := 0) (j := code.length) le_rfl
  have hadvance (fuel : Nat) : advance fuel full o (.forIn var a code.length) = (do
      let (_, array) ← arrayOf a
      let keys ← loopKeys array
      return .behind (o + 1 + code.length) (← overKeys var a (proceed fuel code.toArray 0) keys)) := by
    rw [advance]
    dsimp only
    rw [hstop, hextract]
  intro m
  rw [bind_apply]
  cases ha : arrayOf a m with
  | error f n =>
    refine fun hf => .fault hop hf (?_ : advance 0 _ _ _ _ = _)
    rw [hadvance, bind_apply, ha]
  | ok found n =>
    refine (loopSettles_eachKey var a hbody (n.keyOrder.arrange n.loops found.2.keys)
      { n with loops := n.loops + 1 }).settles hop (fun fuel => ?_) (stays_eachKey var a body _ _)
    rw [hadvance, bind_apply, ha]
    rfl

end Awk.Run
