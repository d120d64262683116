import Awk.Proofs.Machine.RunsTo

/-!
# The meaning of statements

What statements mean, said without jumps.  A statement that has no statements in it runs code of its own, which
is compiled for it alone, and a condition is the truth of the value that the code of the expression pushes.  All
else is said by the structure of the statements: `break` and `continue` belong to the loop that is nearest
around them, and what ends a block early passes through everything around it.
-/

namespace Awk

open Compile (Env blockCode exprCode)

/-- How statements go on: behind them, behind the loop around them, with the next round of that loop, or they
end the block. -/
inductive Stmt.Outcome where
  | normal
  | leave
  | again
  | next
  | nextFile
  | exit
  | «return» (value : Value)

namespace Stmt.Outcome

/-- What the end of code means for the statements around it.  It leaves no loop. -/
def ofCompletion : Completion → Outcome
  | .normal | .breakForIn => normal
  | .next => next
  | .nextFile => nextFile
  | .exit => exit
  | .return v => «return» v

/-- How a block ends.  There is no loop around it. -/
def completion : Outcome → Completion
  | normal | leave | again => .normal
  | next => .next
  | nextFile => .nextFile
  | exit => .exit
  | «return» v => .return v

def endsBlock : Outcome → Bool
  | normal | leave | again => false
  | next | nextFile | exit | «return» _ => true

end Stmt.Outcome

namespace Run

open Stmt (Outcome)

/-! ## Putting statements together -/

/-- One after the other, unless the first one ends early. -/
def andThen (first rest : Run Outcome) : Run Outcome := do
  match ← first with
  | .normal => rest
  | o => return o

def round (body rest : Run Outcome) : Run Outcome := do
  match ← body with
  | .normal | .again => rest
  | .leave => return .normal
  | o => return o

/-- The rounds of a loop, of which there are at most `fuel`.  Behind each round comes `post`, and then the
test whether there is another one. -/
def rounds (test : Run Outcome → Run Outcome) (body post : Run Outcome) : (fuel : Nat) → Run Outcome
  | 0 => throw .outOfFuel
  | fuel + 1 => round body (andThen post (test (rounds test body post fuel)))

/-- A round for every key that is still there. -/
def eachKey (var : ScalarRef) (a : ArrayRef) (body : Run Outcome) : List String → Run Outcome
  | [] => return .normal
  | key :: rest => do
    let (_, array) ← arrayOf a
    if array.contains key then
      setScalar var (.str key)
      round body (eachKey var a body rest)
    else eachKey var a body rest

def alone (fuel : Nat) (code : Code) : Run Outcome := do return .ofCompletion (← proceed fuel code 0)

/-- Runs code by itself that pushes a value, and goes on with the value. -/
def withValue (fuel : Nat) (code : Code) (f : Value → Run Outcome) : Run Outcome :=
  andThen (alone fuel code) (do f (← pop))

/-- Goes on with what something is compiled to by itself. -/
def lowered {α β : Type} (pools : Pools) (x : Compile α) (f : α → Run β) : Run β :=
  match x.run pools with
  | .ok (a, _) => f a
  | .error _ => throw .outOfRange

end Run

/-! ## Statements -/

open Run
open Stmt (Outcome)

section

variable (env : Env) (pools : Pools) (fuel : Nat)

def Expr.withValue (e : Expr) (f : Value → Run Outcome) : Run Outcome :=
  lowered pools (exprCode env e).value fun code => Run.withValue fuel code.toArray f

/-- Goes on as a condition tells. -/
def Expr.choose (e : Expr) (yes no : Run Outcome) : Run Outcome :=
  e.withValue env pools fuel fun v => if v.isTrue then yes else no

/-- Goes on if a condition holds, or if there is none. -/
def whileHolds (cond : Option Expr) (rest : Run Outcome) : Run Outcome :=
  match cond with
  | none => rest
  | some e => e.choose env pools fuel rest (return .normal)

def Stmt.alone (s : Stmt) : Run Outcome := lowered pools (blockCode env [s]) (Run.alone fuel)

mutual

/-- What a statement does.  `fuel` bounds the rounds of every loop, and the instructions of all code. -/
def Stmt.perform : Stmt → Run Outcome
  | .print args redirect => (Stmt.print args redirect).alone env pools fuel
  | .printf args redirect => (Stmt.printf args redirect).alone env pools fuel
  | .expr e => (Stmt.expr e).alone env pools fuel
  | .delete array index => (Stmt.delete array index).alone env pools fuel
  | .ifElse cond body otherwise => cond.choose env pools fuel (performBody body) (performElse otherwise)
  | .whileLoop cond body =>
    let test := whileHolds env pools fuel (some cond)
    test (rounds test (performBody body) (return .normal) fuel)
  | .doWhile body cond => rounds (whileHolds env pools fuel (some cond)) (performBody body) (return .normal) fuel
  | .forLoop init cond post body =>
    let test := whileHolds env pools fuel cond
    andThen (performInit init) (test (rounds test (performBody body) (performInit post) fuel))
  | .forIn var array body =>
    lowered pools (env.scalar var) fun v => lowered pools (env.array array) fun a => do
      let (_, value) ← arrayOf a
      let keys ← loopKeys value
      eachKey v a (performBody body) keys
  | .breakLoop _ => return .leave
  | .continueLoop _ => return .again
  | .next _ => return .next
  | .nextFile _ => return .nextFile
  | .exit none => return .exit
  | .exit (some e) => e.withValue env pools fuel fun v => do
    modify fun m => { m with exitStatus := Number.toInt32 v.toNumber }
    return .exit
  | .returnValue none => return .return .null
  | .returnValue (some e) => e.withValue env pools fuel fun v => return .return v
  | .block body => performBody body

/-- What a statement in the head of a loop does. -/
def performInit : Option Stmt → Run Outcome
  | none => return .normal
  | some s => s.perform

def performElse : Option (List Stmt) → Run Outcome
  | none => return .normal
  | some body => performBody body

def performBody : List Stmt → Run Outcome
  | [] => return .normal
  | s :: rest => andThen s.perform (performBody rest)

end

end

/-! ## Jumps to loops around statements -/

mutual

/-- No `break` or `continue` stands in what a `for` loop does behind its rounds. -/
def Stmt.postsStay : Stmt → Bool
  | .ifElse _ body otherwise => postsStayBody body && postsStayElse otherwise
  | .forLoop init _ post body =>
    !escapesInit post && postsStayInit init && postsStayInit post && postsStayBody body
  | .forIn _ _ body | .whileLoop _ body | .doWhile body _ | .block body => postsStayBody body
  | _ => true

def postsStayInit : Option Stmt → Bool
  | none => true
  | some s => s.postsStay

def postsStayElse : Option (List Stmt) → Bool
  | none => true
  | some body => postsStayBody body

def postsStayBody : List Stmt → Bool
  | [] => true
  | s :: rest => s.postsStay && postsStayBody rest

end

/-- An outcome that belongs to no loop around the statement. -/
def Stmt.Outcome.Stays (o : Outcome) : Prop := o ≠ .leave ∧ o ≠ .again

lemma Stmt.Outcome.stays_normal : Outcome.normal.Stays := ⟨nofun, nofun⟩

namespace Run

variable {x y : Run Outcome}

lemma stays_andThen (hx : Ensures x Outcome.Stays) (hy : Ensures y Outcome.Stays) :
    Ensures (andThen x y) Outcome.Stays := by
  refine hx.bind fun o ho => ?_
  cases o with
  | normal => exact hy
  | leave | again | next | nextFile | exit | «return» v => exact .pure ho

lemma stays_round (hy : Ensures y Outcome.Stays) : Ensures (round x y) Outcome.Stays := by
  refine .next fun o => ?_
  cases o with
  | normal | again => exact hy
  | leave | next | nextFile | exit | «return» v => exact .pure ⟨nofun, nofun⟩

lemma stays_rounds {test : Run Outcome → Run Outcome} {body post : Run Outcome}
    (htest : ∀ y, Ensures y Outcome.Stays → Ensures (test y) Outcome.Stays) (hpost : Ensures post Outcome.Stays)
    (fuel : Nat) : Ensures (rounds test body post fuel) Outcome.Stays := by
  induction fuel with
  | zero => exact .throw
  | succ fuel ih => exact stays_round (stays_andThen hpost (htest _ ih))

lemma stays_eachKey (var : ScalarRef) (a : ArrayRef) (body : Run Outcome) (keys : List String) :
    Ensures (eachKey var a body keys) Outcome.Stays := by
  induction keys with
  | nil => exact .pure ⟨nofun, nofun⟩
  | cons key rest ih =>
    refine .next fun found => ?_
    dsimp only
    split
    · exact .next fun _ => stays_round ih
    · exact ih

lemma stays_alone (fuel : Nat) (code : Code) : Ensures (alone fuel code) Outcome.Stays := by
  refine .next fun c => .pure ?_
  cases c <;> exact ⟨nofun, nofun⟩

lemma stays_lowered {α : Type} {pools : Pools} {x : Compile α} {f : α → Run Outcome}
    (hf : ∀ a, Ensures (f a) Outcome.Stays) : Ensures (lowered pools x f) Outcome.Stays := by
  rw [lowered]
  split
  · exact hf _
  · exact .throw

end Run

section

variable {env : Env} {pools : Pools} {fuel : Nat}

lemma Expr.stays_withValue {e : Expr} {f : Value → Run Outcome} (hf : ∀ v, Ensures (f v) Outcome.Stays) :
    Ensures (e.withValue env pools fuel f) Outcome.Stays :=
  stays_lowered fun _ => stays_andThen (stays_alone _ _) (.next hf)

lemma Expr.stays_choose {e : Expr} {yes no : Run Outcome} (hyes : Ensures yes Outcome.Stays)
    (hno : Ensures no Outcome.Stays) : Ensures (e.choose env pools fuel yes no) Outcome.Stays := by
  refine Expr.stays_withValue fun v => ?_
  split <;> assumption

lemma stays_whileHolds (cond : Option Expr) {rest : Run Outcome} (hrest : Ensures rest Outcome.Stays) :
    Ensures (whileHolds env pools fuel cond rest) Outcome.Stays := by
  cases cond with
  | none => exact hrest
  | some e => exact Expr.stays_choose hrest (.pure ⟨nofun, nofun⟩)

lemma Stmt.stays_alone (s : Stmt) : Ensures (s.alone env pools fuel) Outcome.Stays :=
  stays_lowered fun _ => Run.stays_alone _ _

mutual

/-- Statements without a `break` or `continue` for a loop around them go on at no such loop. -/
lemma Stmt.perform_stays : ∀ {s : Stmt}, s.escapes = false → Ensures (s.perform env pools fuel) Outcome.Stays
  | .print _ _, _ | .printf _ _, _ | .expr _, _ | .delete _ _, _ => by
    rw [Stmt.perform]
    exact Stmt.stays_alone _
  | .ifElse cond body otherwise, h => by
    obtain ⟨hbody, hotherwise⟩ := Bool.or_eq_false_iff.mp h
    rw [Stmt.perform]
    exact Expr.stays_choose (performBody_stays hbody) (performElse_stays hotherwise)
  | .whileLoop cond body, _ => by
    rw [Stmt.perform]
    exact stays_whileHolds _ (stays_rounds (fun _ => stays_whileHolds _) (.pure Outcome.stays_normal) fuel)
  | .doWhile body cond, _ => by
    rw [Stmt.perform]
    exact stays_rounds (fun _ => stays_whileHolds _) (.pure Outcome.stays_normal) fuel
  | .forLoop init cond post body, h => by
    obtain ⟨hinit, hpost⟩ := Bool.or_eq_false_iff.mp h
    rw [Stmt.perform]
    exact stays_andThen (performInit_stays hinit)
      (stays_whileHolds _ (stays_rounds (fun _ => stays_whileHolds _) (performInit_stays hpost) fuel))
  | .forIn var array body, _ => by
    rw [Stmt.perform]
    exact stays_lowered fun v => stays_lowered fun a => .next fun _ => .next fun keys => stays_eachKey v a _ keys
  | .breakLoop _, h | .continueLoop _, h => by cases h
  | .next _, _ | .nextFile _, _ | .exit none, _ | .returnValue none, _ => by
    rw [Stmt.perform]
    exact .pure ⟨nofun, nofun⟩
  | .exit (some e), _ => by
    rw [Stmt.perform]
    exact Expr.stays_withValue fun v => .next fun _ => .pure ⟨nofun, nofun⟩
  | .returnValue (some e), _ => by
    rw [Stmt.perform]
    exact Expr.stays_withValue fun v => .pure ⟨nofun, nofun⟩
  | .block body, h => by
    rw [Stmt.perform]
    exact performBody_stays h

lemma performInit_stays : ∀ {s : Option Stmt}, escapesInit s = false →
    Ensures (performInit env pools fuel s) Outcome.Stays
  | none, _ => by
    rw [performInit]
    exact .pure ⟨nofun, nofun⟩
  | some s, h => by
    rw [performInit]
    exact Stmt.perform_stays h

lemma performElse_stays : ∀ {body : Option (List Stmt)}, escapesElse body = false →
    Ensures (performElse env pools fuel body) Outcome.Stays
  | none, _ => by
    rw [performElse]
    exact .pure ⟨nofun, nofun⟩
  | some body, h => by
    rw [performElse]
    exact performBody_stays h

lemma performBody_stays : ∀ {body : List Stmt}, escapesBody body = false →
    Ensures (performBody env pools fuel body) Outcome.Stays
  | [], _ => by
    rw [performBody]
    exact .pure ⟨nofun, nofun⟩
  | s :: rest, h => by
    obtain ⟨hs, hrest⟩ := Bool.or_eq_false_iff.mp h
    rw [performBody]
    exact stays_andThen (Stmt.perform_stays hs) (performBody_stays hrest)

end

end

end Awk
