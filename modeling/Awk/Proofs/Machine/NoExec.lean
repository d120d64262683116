import Awk.Proofs.Machine.Lasting
import Awk.Proofs.Machine.Sealed

/-!
# Hosts that allow no commands

A machine whose host forbids commands and written files is sealed when it is made, and whatever the program is
and the host does, it stays so.
-/

namespace Awk

namespace Run

variable {o : Outside}

/-! ## Code -/

lemma sealed_lasting : Lasting (Machine.Sealed o) where
  toStable := sealed_stable
  withArrays _ hm := { hm with }
  enter _ _ hm _ := { hm with }
  leave _ _ _ hm := { hm with }

open Classical in
/-- Counts an instruction, and raises an alarm if the machine is not sealed. -/
noncomputable def guard (o : Outside) (alarm : Run Unit) : Run Unit := do
  tick
  if (← get).Sealed o then pure () else alarm

/-- Runs code, with an alarm before every instruction at which the machine is not sealed. -/
noncomputable def guarded (o : Outside) (alarm : Run Unit) (steps : Nat) (code : Code) : Run Completion :=
  execWith (fun _ _ => guard o alarm) steps 0 code 0

lemma guarded_alike (alarm : Run Unit) (steps : Nat) (code : Code) :
    Alike (Machine.Sealed o) (guarded o alarm steps code) (exec steps code 0) :=
  execAlarmed_alike sealed_lasting id alarm steps code

/-! ## Before a run -/

lemma sealed_cleared {m : Machine} (hm : m.config.noExec = true) : (cleared m).Sealed m.world.outside where
  noExec := hm
  outputs name stream h := by
    change (∅ : Std.TreeMap String OutputStream)[name]? = some stream at h
    rw [Std.TreeMap.getElem?_emptyc] at h
    cases h
  inputs name stream h := by
    change (∅ : Std.TreeMap String InputStream)[name]? = some stream at h
    rw [Std.TreeMap.getElem?_emptyc] at h
    cases h
  outside := rfl

lemma sealed_reset {m : Machine} (hm : m.config.noExec = true) : (reset m).state.Sealed m.world.outside :=
  reset_keeps sealed_robust (sealed_cleared hm)

end Run

/-! ## Calls of the host -/

namespace Machine.Sealed

variable {o : Outside} {m : Machine}

lemma serve (hm : m.Sealed o) (call : HostCall) : (m.serve call).Sealed (call.outside o) := by
  refine serve_cases ?_ ?_ ?_ ?_
  · rintro steps rfl
    obtain ⟨hsame, hsealed⟩ := Run.runProgram_alike Run.sealed_stable (fun hm => { hm with })
      (Run.guarded_alike (pure ()) steps) steps m hm
    exact hsame ▸ hsealed
  · rintro rfl
    exact hm.outside ▸ Run.sealed_reset hm.noExec
  · rintro args rfl
    have hargs : ({ m with args } : Machine).Sealed o := { hm with }
    exact (Run.sealed_robust.keeping .initArgs _ hargs).2
  · intro natives output stdin cancelled world hworld
    exact { hm with outside := hm.outside ▸ hworld }

lemma after (hm : m.Sealed o) (calls : List HostCall) :
    (m.after calls).Sealed (calls.foldl HostCall.outside o) := by
  induction calls generalizing m o with
  | nil => exact hm
  | cons call calls ih => exact ih (hm.serve call)

end Machine.Sealed

lemma Machine.sealed_create {p : Program} {config : Config} {world : World} {keyOrder : KeyOrder} {m : Machine}
    (hconfig : config.noExec = true) (hm : Machine.create p config world keyOrder = .ok m) :
    m.Sealed world.outside := by
  obtain ⟨start, -, -, hsame, hworld, hreset⟩ := create_eq_ok hm
  have hsealed := Run.sealed_reset (m := start) (by rw [hsame]; exact hconfig)
  rw [hworld, hreset] at hsealed
  exact hsealed

/-- A host that forbids commands and written files is obeyed.  Whatever the program is, in any world, and
whatever the host does in any order: of the streams that are written all are the standard error, no stream that
is read is a command, no command was run, and no file was opened for writing or is changed.  So it is between
two calls of the host, and before every single instruction of a run, where no alarm would be raised. -/
theorem Machine.create_sealed {p : Program} {config : Config} {world : World} {keyOrder : KeyOrder} {m : Machine}
    (hconfig : config.noExec = true) (hm : Machine.create p config world keyOrder = .ok m)
    (calls : List HostCall) :
    (m.after calls).Sealed (calls.foldl HostCall.outside world.outside) ∧
      ∀ (alarm : Run Unit) (steps : Nat),
        Run.runParts (Run.guarded (calls.foldl HostCall.outside world.outside) alarm steps) steps (m.after calls) =
          Run.runParts (Run.exec steps · 0) steps (m.after calls) := by
  have hsealed := (Machine.sealed_create hconfig hm).after calls
  exact ⟨hsealed, fun alarm steps =>
    (Run.runParts_alike Run.sealed_stable (fun hm => { hm with }) (Run.guarded_alike alarm steps) steps _ hsealed).1⟩

/-- A program that tries to reach out in all ways, also under names that are in use. -/
def reachingProgram : String :=
  "BEGIN \x7b print 1 > \"/dev/stderr\"; print 2 | \"/dev/stderr\"; getline < \"f\"; \"f\" | getline \x7d" ++
    "END \x7b print 3 >> \"f\" \x7d"

theorem reachingProgram_sealed : ∃ p m, Program.ofSource reachingProgram [] = .ok p ∧
    Machine.create p { noExec := true } {} {} = .ok m ∧
    (m.after [.run 1000, .setStdin [[120, 10]], .reset, .run 20]).Sealed ⟨{}, [], []⟩ := by
  obtain ⟨p, m, hp, hm, -⟩ :=
    Machine.exists_of_tried reachingProgram { noExec := true } {} (fun _ _ => True) (by decide +kernel)
  exact ⟨p, m, hp, hm,
    (Machine.create_sealed rfl hm [.run 1000, .setStdin [[120, 10]], .reset, .run 20]).1⟩

end Awk
