import Awk.Machine.Host
import Awk.Proofs.Compile.Verified
import Awk.Proofs.Machine.Operations

/-!
# What programs do besides running their code

A program runs its parts one after the other, each on an empty stack, and those of its rules for every record.  It does
so in the same way however its code is run.
-/

namespace Awk

/-- Code that is a part of a program. -/
inductive Program.Part (p : Program) (code : Code) : Prop
  | begin (h : code ∈ p.begin)
  | guard {r : CompiledRule} (hr : r ∈ p.rules) (h : code ∈ r.guard.codes)
  | body {r : CompiledRule} (hr : r ∈ p.rules) (h : code ∈ r.body)
  | final (h : code ∈ p.final)

namespace Run

/-- What is put together from parts of a program, for every way to run code. -/
inductive Managed (p : Program) : {α : Type} → ((Code → Run Completion) → Run α) → Prop
  | pure {α : Type} (a : α) : Managed p fun _ => Pure.pure a
  | outOfFuel {α : Type} : Managed p fun _ => (throw .outOfFuel : Run α)
  | bind {α β : Type} {x : (Code → Run Completion) → Run α} {f : (Code → Run Completion) → α → Run β}
      (hx : Managed p x) (hf : ∀ a, Managed p (f · a)) : Managed p fun run => x run >>= f run
  | routine {α : Type} {x : Run α} (hx : Composed (.routine True) x) : Managed p fun _ => x
  | code_bind {β : Type} {code : Code} {f : (Code → Run Completion) → Completion → Run β} (h : p.Part code)
      (hf : ∀ c, Managed p (f · c)) : Managed p fun run =>
        (modify fun m => { m with stack := #[], base := 0 }) >>= fun _ => run code >>= f run
  | emptied : Managed p fun _ => modify fun m => { m with stack := #[] }
  | pop : Managed p fun _ => pop
  | getInRange {i : Nat} (hi : i < p.rules.size) : Managed p fun _ => getInRange i
  | setInRange {i : Nat} (hi : i < p.rules.size) (b : Bool) : Managed p fun _ => setInRange i b

variable {p : Program} {code : Code} {i : Nat}

lemma runBlock_managed (h : p.Part code) : Managed p (runBlock · code) :=
  .code_bind h fun c => .bind .emptied fun _ => .pure c

lemma test_managed (h : p.Part code) : Managed p (test · code) := by
  refine .code_bind h fun c => ?_
  cases c with
  | normal => exact .bind .pop fun _ => .pure _
  | next | nextFile | exit | «return» v | breakForIn => exact .pure _

/-! ## Rules -/

lemma testStop_managed {stop : Code} (hstop : p.Part stop) (hi : i < p.rules.size) :
    Managed p (testStop · i stop) := by
  refine .bind (test_managed hstop) fun v => ?_
  obtain (_ | _) | c := v
  · exact .pure _
  · exact .bind (.setInRange hi false) fun _ => .pure _
  · exact .pure _

lemma testGuard_managed {g : Guard} (hg : ∀ code ∈ g.codes, p.Part code) (hi : i < p.rules.size) :
    Managed p (testGuard · i g) := by
  cases g with
  | all => exact .pure _
  | expr code => exact test_managed (hg code List.mem_cons_self)
  | range start stop =>
    have hstop := testStop_managed (hg stop (List.mem_cons_of_mem _ List.mem_cons_self)) hi
    refine .bind (.getInRange hi) fun inside => ?_
    cases inside with
    | true => exact hstop
    | false =>
      refine .bind (test_managed (hg start List.mem_cons_self)) fun v => ?_
      obtain (_ | _) | c := v
      · exact .pure _
      · exact .bind (.setInRange hi true) fun _ => hstop
      · exact .pure _

lemma applyRule_managed {r : CompiledRule} (hr : r ∈ p.rules) (hi : i < p.rules.size) :
    Managed p (applyRule · i r) := by
  refine .bind (testGuard_managed (fun code hcode => .guard hr hcode) hi) fun v => ?_
  obtain (_ | _) | c := v
  · exact .pure _
  · dsimp only
    cases hbody : r.body with
    | some code => exact runBlock_managed (.body hr hbody)
    | none =>
      have hprint : Composed (.routine True) (do
          let m ← get
          writeText none (m.record.line ++ m.specials.ors)
          return Completion.normal) := .get_bind (fun _ _ => rfl) fun m => (Composed.writeText _ _).bind fun _ => .pure _
      exact .routine hprint
  · exact .pure _

lemma applyRules_managed {rules : List (CompiledRule × Nat)} (h : ∀ r ∈ rules, r.1 ∈ p.rules ∧ r.2 < p.rules.size) :
    Managed p (applyRules · rules) := by
  induction rules with
  | nil => exact .pure _
  | cons r rules ih =>
    obtain ⟨hr, hi⟩ := h r List.mem_cons_self
    refine .bind (applyRule_managed hr hi) fun c => ?_
    have hrest := ih fun r hr => h r (List.mem_cons_of_mem _ hr)
    cases c with
    | next | nextFile | exit => exact .pure _
    | normal | «return» v | breakForIn => exact hrest

lemma recordLoop_managed {rules : List (CompiledRule × Nat)} (h : ∀ r ∈ rules, r.1 ∈ p.rules ∧ r.2 < p.rules.size)
    (bound : Nat) : Managed p (recordLoop · rules bound) := by
  induction bound with
  | zero => exact .outOfFuel
  | succ bound ih =>
    refine .bind (.routine .nextMainRecord) fun record => ?_
    cases record with
    | none => exact .pure _
    | some line =>
      refine .bind (.routine (composed_setLine line)) fun _ => .bind (applyRules_managed h) fun c => ?_
      cases c with
      | exit => exact .pure _
      | nextFile => exact .bind (.routine .skipFile) fun _ => ih
      | normal | next | «return» v | breakForIn => exact ih

/-! ## Whole programs -/

lemma runBlocks_managed {blocks : List Code} (h : ∀ code ∈ blocks, p.Part code) : Managed p (runBlocks · blocks) := by
  induction blocks with
  | nil => exact .pure _
  | cons code blocks ih =>
    refine .bind (runBlock_managed (h code List.mem_cons_self)) fun c => ?_
    have hrest := ih fun code hcode => h code (List.mem_cons_of_mem _ hcode)
    cases c with
    | exit => exact .pure _
    | normal | next | nextFile | «return» v | breakForIn => exact hrest

lemma runRules_managed (p : Program) (bound : Nat) (exited : Bool) : Managed p (runRules · bound p exited) := by
  unfold runRules
  split
  · refine recordLoop_managed (fun r hr => ?_) bound
    obtain ⟨-, hi, hget⟩ := List.mem_zipIdx hr
    refine ⟨?_, by simpa using hi⟩
    rw [hget]
    exact Array.mem_toList_iff.mp (List.getElem_mem _)
  · exact .pure _

def partsOf (p : Program) (bound : Nat) (run : Code → Run Completion) : Run Unit := do
  let exited ← runBlocks run p.begin.toList
  runRules run bound p exited
  let _ ← runBlocks run p.final.toList

lemma parts_managed (p : Program) (bound : Nat) : Managed p (partsOf p bound) :=
  .bind (runBlocks_managed fun _ h => .begin (Array.mem_toList_iff.mp h)) fun exited =>
    .bind (runRules_managed p bound exited) fun _ =>
      .bind (runBlocks_managed fun _ h => .final (Array.mem_toList_iff.mp h)) fun _ => .pure _

lemma runParts_eq (run : Code → Run Completion) (bound : Nat) :
    runParts run bound = get >>= fun m => partsOf m.program bound run := rfl

end Run

end Awk
