import Awk.Proofs.Machine.Keeping

/-!
# Machines that may not reach out

A host may forbid a program to run commands and to write files.  Streams are kept by their names, whatever
they were opened for, and what is forbidden is looked at only when a stream is opened; so no stream of a kind
that is forbidden must ever come into being, under any name.
-/

namespace Awk

/-- A machine that may not run commands or write files and has none of the streams for that, while nothing has
happened outside. -/
structure Machine.Sealed (outside : Outside) (m : Machine) : Prop where
  noExec : m.config.noExec = true
  outputs : ∀ (name : String) (stream : OutputStream), m.streams.outputs[name]? = some stream → stream = .stderr
  inputs : ∀ (name : String) (stream : InputStream), m.streams.inputs[name]? = some stream → stream.ending = none
  outside : m.world.outside = outside

namespace Run

variable {o : Outside} {α β : Type}

abbrev Seals (o : Outside) (x : Run α) : Prop := Keeping (Machine.Sealed o) x

/-- Values, variables and the main input open no streams. -/
lemma sealed_robust : Robust (Machine.Sealed o) where
  quiet {m n} hm hcore hreach := by
    obtain ⟨-, houtputs, hinputs, houtside⟩ := Reach.mk.inj hreach
    have hconfig : n.config = m.config := congrArg Core.config hcore
    refine ⟨hconfig ▸ hm.noExec, ?_, ?_, houtside.trans hm.outside⟩
    · exact houtputs ▸ hm.outputs
    · exact hinputs ▸ hm.inputs
  cache _ hm := { hm with }
  fieldSep _ hm := { hm with }
  recordSep _ hm := { hm with }

namespace Seals

/-! ## Other streams -/

lemma openInput (source : GetlineSource) (name : String) : Seals o (openInput source name) := by
  rw [Run.openInput]
  split
  · refine .get_bind fun m hm => ?_
    rw [if_pos hm.noExec]
    exact .fail _
  · split
    · exact (sealed_robust.keeping Composed.takeStdin.stepwise).bind fun _ => .pure _
    · refine (sealed_robust.keeping (Composed.openSource name).stepwise).bind fun result => ?_
      cases result <;> exact .pure _

lemma openInput_ending {source : GetlineSource} {name : String} {m m' : Machine} {stream : InputStream}
    (hm : m.Sealed o) (h : Run.openInput source name m = .ok (some stream) m') : stream.ending = none := by
  rw [Run.openInput] at h
  split at h
  · change (if m.config.noExec then _ else _ : Run (Option InputStream)) m = _ at h
    rw [if_pos hm.noExec] at h
    cases h
  · split at h
    · rw [bind_apply] at h
      cases hsource : Run.takeStdin m with
      | error f m₁ =>
        rw [hsource] at h
        cases h
      | ok source m₁ =>
        rw [hsource] at h
        cases h
        rfl
    · rw [bind_apply] at h
      cases hsource : Run.openSource name m with
      | error f m₁ =>
        rw [hsource] at h
        cases h
      | ok result m₁ =>
        rw [hsource] at h
        cases result <;> cases h
        rfl

lemma readStream (source : GetlineSource) (name : String) {stream : InputStream} (h : stream.ending = none) :
    Seals o (readStream source name stream) := by
  refine .get_bind fun m hm => .bind (.modify fun m' hm' => ?_) fun _ => ?_
  · refine { hm' with inputs := fun name' stream' h' => ?_, outside := ?_ }
    · dsimp only at h'
      rw [Std.TreeMap.getElem?_insert] at h'
      split at h'
      · cases h'
        exact h
      · exact hm'.inputs name' stream' h'
    · exact (stream.input.read_outside m.world m.recordSep).trans hm.outside
  · split
    · exact .pure _
    · exact .pure _
    · exact .bind (.modify fun _ hm => { hm with }) fun _ => .pure _

lemma readRecord (source : GetlineSource) (name : String) : Seals o (readRecord source name) := by
  rw [Run.readRecord]
  split
  · refine (sealed_robust.keeping Composed.nextMainRecord.stepwise).bind fun record => ?_
    cases record <;> exact .pure _
  · refine .get_bind fun m hm => ?_
    split
    · rename_i stream hstream
      exact readStream _ _ (hm.inputs name stream hstream)
    · refine (openInput source name).bind_of fun m stream m' hm h => ?_
      cases stream with
      | none => exact .pure _
      | some stream => exact readStream _ _ (openInput_ending hm h)

lemma writeOut (bytes : ByteArray) : Seals o (writeOut bytes) := Alike.modify fun _ hm => { hm with }

lemma openOutput_apply {m : Machine} (hm : m.Sealed o) (kind : RedirectKind) (name : String) :
    openOutput kind name m = .ok .stderr m ∨ openOutput kind name m = .error (.error (.noExec name)) m := by
  rw [openOutput]
  split
  · exact .inl rfl
  · right
    change (if m.config.noExec then _ else _ : Run OutputStream) m = _
    rw [if_pos hm.noExec]
    rfl

lemma writeError (name : String) (bytes : ByteArray) : Seals o (writeStream name .stderr bytes) :=
  .get_bind fun _ _ => .modify fun _ hm => { hm with }

lemma writeText (dest : Option (RedirectKind × String)) (text : String) : Seals o (writeText dest text) := by
  cases dest with
  | none => exact writeOut _
  | some dest =>
    obtain ⟨kind, name⟩ := dest
    rw [Run.writeText]
    split
    · exact writeOut _
    · refine .get_bind fun m hm => ?_
      split
      · rename_i stream hstream
        rw [hm.outputs name stream hstream]
        exact writeError _ _
      · have hopen : Seals o (openOutput kind name) := by
          intro m hm
          obtain h | h := openOutput_apply hm kind name <;> rw [h] <;> exact ⟨rfl, hm⟩
        refine hopen.bind_of fun m stream m' hm h => ?_
        obtain rfl : stream = .stderr := by
          obtain h' | h' := openOutput_apply hm kind name <;> rw [h'] at h <;> cases h
          rfl
        refine .bind (.modify fun m hm => { hm with outputs := fun name' stream' h' => ?_ }) fun _ => writeError _ _
        dsimp only at h'
        rw [Std.TreeMap.getElem?_insert] at h'
        split at h'
        · cases h'
          rfl
        · exact hm.outputs name' stream' h'

/-! ## The end of streams -/

lemma eraseOutput (name : String) :
    Seals o (Run.modifyStreams fun s => { s with outputs := s.outputs.erase name }) := by
  refine Alike.modify fun m hm => { hm with outputs := fun name' stream h => ?_ }
  dsimp only at h
  rw [Std.TreeMap.getElem?_erase] at h
  split at h
  · cases h
  · exact hm.outputs name' stream h

lemma eraseInput (name : String) :
    Seals o (Run.modifyStreams fun s => { s with inputs := s.inputs.erase name }) := by
  refine Alike.modify fun m hm => { hm with inputs := fun name' stream h => ?_ }
  dsimp only at h
  rw [Std.TreeMap.getElem?_erase] at h
  split at h
  · cases h
  · exact hm.inputs name' stream h

lemma endError : Seals o (endOutput .stderr) := .get_bind fun _ _ => .pure _

lemma closeStream (name : String) : Seals o (closeStream name) := by
  refine .get_bind fun m hm => ?_
  dsimp only
  split
  · rename_i stream hstream
    rw [hm.outputs name stream hstream]
    exact (eraseOutput name).bind fun _ => endError
  · split
    · exact (eraseInput name).bind fun _ => .pure _
    · exact .pure _

lemma eq_stderr {m : Machine} (hm : m.Sealed o) {e : String × OutputStream} (h : e ∈ m.streams.outputs.toList) :
    e.2 = .stderr :=
  hm.outputs e.1 e.2 (Std.TreeMap.mem_toList_iff_getElem?_eq_some.mp h)

lemma flushAll : Seals o flushAll := by
  refine .get_bind fun m hm => .forM fun e he => ?_
  obtain ⟨name, stream⟩ := e
  obtain rfl : stream = .stderr := eq_stderr hm he
  exact .bind (.pure _) fun _ => .pure _

lemma flushStream (name : Option String) : Seals o (flushStream name) := by
  cases name with
  | none => exact flushAll.bind fun _ => .pure _
  | some name =>
    rw [Run.flushStream]
    split
    · exact .pure _
    · refine .get_bind fun m hm => ?_
      split
      · rename_i stream hstream
        rw [hm.outputs name stream hstream]
        exact .pure _
      · exact .pure _

lemma closeAll : Seals o closeAll := by
  refine .get_bind fun m hm => .bind (.forM fun e he => ?_) fun _ => ?_
  · obtain ⟨name, stream⟩ := e
    obtain rfl : stream = .stderr := eq_stderr hm he
    exact (eraseOutput name).bind fun _ => endError.bind fun _ => .pure _
  · refine Alike.modify fun m hm => { hm with inputs := fun name stream h => ?_ }
    dsimp only at h
    rw [Std.TreeMap.getElem?_emptyc] at h
    cases h

lemma runCommand (command : String) : Seals o (runCommand command) := by
  refine .get_bind fun m hm => ?_
  rw [if_pos hm.noExec]
  exact .fail _

end Seals

lemma sealed_stable : Stable (Machine.Sealed o) where
  toRobust := sealed_robust
  readRecord := Seals.readRecord
  writeText := Seals.writeText
  closeStream := Seals.closeStream
  flushStream := Seals.flushStream
  closeAll := Seals.closeAll
  runCommand := Seals.runCommand

end Run

end Awk
