import Awk.Proofs.Machine.Lasting
import Awk.Proofs.Regex.Cache

/-!
# Separators follow their variables

The text of a separator is a variable, and what it stands for is kept beside it: the field separator with the record,
the record separator with the machine, and with the record also whether records are paragraphs.  Whatever happens,
these are what the texts stand for.  A text that stands for nothing is refused before anything has changed.
-/

namespace Awk

open Regex (PatternCache)

variable {cache : PatternCache}

/-- What is looked up does not depend on the patterns that are kept, which stay those of their texts. -/
lemma Finds.coherent {α : Type} {text : String} {find : PatternCache → Except Regex.RegexError α × PatternCache}
    (hfind : Finds text find) (h : cache.Coherent) : (find cache).1 = (find {}).1 ∧ (find cache).2.Coherent := by
  cases hfind with
  | known r => exact ⟨rfl, h⟩
  | pattern g =>
    refine ⟨?_, (h.get text).2⟩
    dsimp only
    rw [(h.get text).1, (PatternCache.coherent_empty.get text).1]

lemma RecordSep.isParagraph_ofText {text : String} {sep : RecordSep} (h : (RecordSep.ofText cache text).1 = .ok sep) :
    sep.isParagraph = true ↔ text = "" := by
  rw [← String.toList_eq_nil_iff]
  rw [RecordSep.ofText] at h
  split at h
  · rename_i heq
    cases h
    simp [heq, RecordSep.isParagraph]
  · rename_i heq
    cases h
    simp [heq, RecordSep.isParagraph]
  · rename_i hnil _
    obtain ⟨p, -, rfl⟩ : ∃ p, (cache.get text).1 = .ok p ∧ RecordSep.pattern p = sep := by
      cases hp : (cache.get text).1 <;> simp_all [Except.map]
    simpa [RecordSep.isParagraph] using fun h => hnil (String.toList_eq_nil_iff.mpr h)

/-! ## Separators and their variables -/

/-- The separators are what their variables stand for. -/
structure Machine.Synced (m : Machine) : Prop where
  fieldSep : (FieldSep.ofText {} m.specials.fs).1 = .ok m.record.sep
  recordSep : (RecordSep.ofText {} m.specials.rs).1 = .ok m.recordSep
  paragraph : m.record.paragraph = true ↔ m.specials.rs = ""
  cache : m.cache.Coherent

namespace Run

variable {m n : Machine} {fault : Fault}

lemma synced_core (hm : m.Synced) (h : n.core = m.core) : n.Synced := by
  have hfs : n.specials.fs = m.specials.fs := congrArg Core.fs h
  have hrs : n.specials.rs = m.specials.rs := congrArg Core.rs h
  have hsep : n.record.sep = m.record.sep := congrArg Core.fieldSep h
  have hrecordSep : n.recordSep = m.recordSep := congrArg Core.recordSep h
  have hparagraph : n.record.paragraph = m.record.paragraph := congrArg Core.paragraph h
  have hcache : n.cache = m.cache := congrArg Core.cache h
  refine ⟨?_, ?_, ?_, hcache ▸ hm.cache⟩
  · rw [hfs, hsep, hm.fieldSep]
  · rw [hrs, hrecordSep, hm.recordSep]
  · rw [hrs, hparagraph, hm.paragraph]

lemma synced_robust : Robust Machine.Synced where
  quiet hm h _ := synced_core hm h
  cache source hm := { hm with cache := (hm.cache.get source).2 }
  fieldSep {m fs sep} h hm := by
    obtain ⟨hsep, hcache⟩ := (FieldSep.finds fs).coherent hm.cache
    refine ⟨hsep.symm.trans h, hm.recordSep, ?_, hcache⟩
    change m.record.ensureSplit.paragraph = true ↔ _
    rw [Record.paragraph_ensureSplit]
    exact hm.paragraph
  recordSep {m rs sep} h hm := by
    obtain ⟨hsep, hcache⟩ := (RecordSep.finds rs).coherent hm.cache
    refine ⟨?_, hsep.symm.trans h, RecordSep.isParagraph_ofText h, hcache⟩
    change _ = Except.ok m.record.ensureSplit.sep
    rw [Record.sep_ensureSplit]
    exact hm.fieldSep

lemma synced_lasting : Lasting Machine.Synced where
  toStable := synced_robust.stable synced_core
  withArrays _ hm := { hm with }
  enter _ _ hm _ := { hm with }
  leave _ _ _ hm := { hm with }

/-- When everything is cleared the separators are the first ones, and so are their variables. -/
lemma synced_cleared (hm : m.cache.Coherent) : (cleared m).Synced where
  fieldSep := by simp [cleared, FieldSep.ofText]
  recordSep := by simp [cleared, RecordSep.ofText]
  paragraph := by simp [cleared]
  cache := hm

/-- An assignment to a special variable that fails changes nothing but the patterns that are kept. -/
lemma setSpecial_fault {v : Special} {value : Value} (h : setSpecial v value m = .error fault n) :
    n = { m with cache := n.cache } := by
  cases v
  case nf =>
    change (fieldNumber value.toNumber >>= _) m = _ at h
    rw [fieldNumber_bind_apply] at h
    split at h <;> cases h
    rfl
  case fs =>
    change setFieldSep _ m = _ at h
    rw [setFieldSep_apply] at h
    split at h <;> cases h
    rfl
  case rs =>
    change setRecordSep _ m = _ at h
    rw [setRecordSep_apply] at h
    split at h <;> cases h
    rfl
  all_goals cases h

end Run

namespace Machine

variable {p : Program} {config : Config} {world : World} {keyOrder : KeyOrder} {m : Machine}

lemma synced_create (hm : create p config world keyOrder = .ok m) : m.Synced := by
  obtain ⟨regexes, -, hreset⟩ := create_reset hm
  have hsynced {start : Machine} (h : Run.reset start = .ok () m) (hcache : start.cache = {}) : m.Synced := by
    have hstart := Run.reset_keeps Run.synced_robust (Run.synced_cleared (hcache ▸ PatternCache.coherent_empty))
    rwa [h] at hstart
  exact hsynced hreset rfl

lemma Synced.after (hm : m.Synced) (calls : List HostCall) : (m.after calls).Synced :=
  after_keeps Run.synced_robust Run.synced_core (fun hm => { hm with }) (fun hm => Run.synced_cleared hm.cache)
    Run.synced_lasting.exec (fun hm => { hm with }) calls hm

/-- The separators never drift from their variables.  Whatever the program is, and whatever the host does with a new
machine: the field separator is what the text of its variable stands for, so is the record separator, and records are
paragraphs exactly if the text of that one is empty.  So it is between two calls of the host, before every single
instruction of a run, where no alarm would be raised, and after every assignment that the command line makes, also if it
fails.  An assignment to a special variable that fails changes nothing but the patterns that are kept. -/
theorem separators_synced (hm : create p config world keyOrder = .ok m) (calls : List HostCall) :
    (m.after calls).Synced ∧
    (∀ (alarm : Run Unit) (steps : Nat),
      Run.runParts (Run.execAlarmed Synced alarm steps) steps (m.after calls) =
        Run.runParts (Run.exec steps · 0) steps (m.after calls)) ∧
    (∀ n : Machine, n.Synced → (∀ op, (Run.step op n).state.Synced) ∧
      (∀ name value, (Run.assignNamed name value n).state.Synced) ∧ (Run.reset n).state.Synced) ∧
    ∀ (n q : Machine) (v : Special) (value : Value) (fault : Fault),
      Run.setSpecial v value n = .error fault q → q = { n with cache := q.cache } := by
  have hsynced := (synced_create hm).after calls
  refine ⟨hsynced, fun alarm steps => ?_, fun n hn => ⟨fun op => ?_, fun name value => ?_, ?_⟩, ?_⟩
  · exact (Run.runParts_alike Run.synced_lasting.toStable (fun hm => { hm with })
      (Run.execAlarmed_alike Run.synced_lasting id alarm steps) steps _ hsynced).1
  · exact (Run.synced_lasting.step op n hn).2
  · exact (Run.synced_robust.assignNamed name value n hn).2
  · exact Run.reset_keeps Run.synced_robust (Run.synced_cleared hn.cache)
  · exact fun n q v value fault h => Run.setSpecial_fault h

/-- A program that assigns separators in several ways, also one that is refused. -/
def assigningProgram : String :=
  "BEGIN \x7b RS = \"\"; getline FS; FS = \"(\" \x7d \x7b for (RS in a) FS = RS \x7d"

theorem assigningProgram_synced : ∃ p m, Program.ofSource assigningProgram [] = .ok p ∧
    create p { fieldSep := some ":" } {} {} = .ok m ∧
    (m.after [.setArgs ["FS=(", "RS=x"], .run 1000, .reset, .run 20]).Synced := by
  obtain ⟨p, m, hp, hm, -⟩ :=
    exists_of_tried assigningProgram { fieldSep := some ":" } {} (fun _ _ => True) (by decide +kernel)
  exact ⟨p, m, hp, hm, (separators_synced hm [.setArgs ["FS=(", "RS=x"], .run 1000, .reset, .run 20]).1⟩

end Machine

end Awk
