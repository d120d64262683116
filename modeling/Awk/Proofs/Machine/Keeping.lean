import Awk.Proofs.Machine.Composed

/-!
# What instructions leave alone

An instruction changes the stack, variables and streams, and most of a machine stays as it was.  A property that
looks only at what stays is kept by every instruction; one that looks at separators or open streams is kept if the
few operations that change those keep it.
-/

namespace Awk

open Regex (PatternCache)

namespace Machine

/-- The machine after an assignment to the field separator. -/
def withFieldSep (m : Machine) (fs : String) (sep : FieldSep) (cache : PatternCache) : Machine :=
  { m with cache, record := m.record.setFieldSep sep, specials := { m.specials with fs } }

/-- The machine after an assignment to the record separator. -/
def withRecordSep (m : Machine) (rs : String) (sep : RecordSep) (cache : PatternCache) : Machine :=
  { m with
    cache
    recordSep := sep
    record := m.record.setParagraph sep.isParagraph
    specials := { m.specials with rs } }

end Machine

namespace Run

variable {α : Type} {I : Machine → Prop}

lemma setFieldSep_apply (fs : String) (m : Machine) :
    setFieldSep fs m = match (FieldSep.ofText m.cache fs).1 with
      | .error _ => .error (.error .regex) (m.withCache (FieldSep.ofText m.cache fs).2)
      | .ok sep => .ok () (m.withFieldSep fs sep (FieldSep.ofText m.cache fs).2) := by
  rw [setFieldSep, bind_apply, lookUp_apply]
  cases (FieldSep.ofText m.cache fs).1 <;> rfl

lemma setRecordSep_apply (rs : String) (m : Machine) :
    setRecordSep rs m = match (RecordSep.ofText m.cache rs).1 with
      | .error _ => .error (.error .regex) (m.withCache (RecordSep.ofText m.cache rs).2)
      | .ok sep => .ok () (m.withRecordSep rs sep (RecordSep.ofText m.cache rs).2) := by
  rw [setRecordSep, bind_apply, lookUp_apply]
  cases (RecordSep.ofText m.cache rs).1 <;> rfl

lemma fieldNumber_bind_apply (x : Float) (f : Nat → Run Unit) (m : Machine) :
    (fieldNumber x >>= f) m = if 0 ≤ x ∧ x ≤ Float.ofNat maxField then f (Number.toNat64 x) m
      else .error (.error (.fieldIndex x)) m := by
  rw [fieldNumber]
  split <;> rfl

/-! ## Values, variables and the main input -/

/-- A property that no operation on values, variables and the main input breaks.  Such operations may keep patterns
and assign separators, and leave all else of the core and of what is out of reach. -/
structure Robust (I : Machine → Prop) : Prop where
  quiet : ∀ {m n : Machine}, I m → n.core = m.core → n.reach = m.reach → I n
  cache : ∀ {m : Machine} (source : String), I m → I { m with cache := (m.cache.get source).2 }
  fieldSep : ∀ {m : Machine} {fs : String} {sep : FieldSep}, (FieldSep.ofText m.cache fs).1 = .ok sep → I m →
    I (m.withFieldSep fs sep (FieldSep.ofText m.cache fs).2)
  recordSep : ∀ {m : Machine} {rs : String} {sep : RecordSep}, (RecordSep.ofText m.cache rs).1 = .ok sep → I m →
    I (m.withRecordSep rs sep (RecordSep.ofText m.cache rs).2)

namespace Robust

variable (hI : Robust I)

include hI

lemma found {text : String} {find : PatternCache → Except Regex.RegexError α × PatternCache} (h : Finds text find)
    {m : Machine} (hm : I m) : I (m.withCache (find m.cache).2) := by
  cases h with
  | known r => exact hm
  | pattern g => exact hI.cache text hm

lemma primitive {x : Run α} (hx : Primitive x) : Keeping I x := by
  cases hx with
  | @lookUp _ _ find h =>
    refine fun m hm => ⟨rfl, ?_⟩
    rw [lookUp_apply]
    cases (find m.cache).1 <;> exact hI.found h hm
  | setFieldSep fs =>
    refine fun m hm => ⟨rfl, ?_⟩
    rw [setFieldSep_apply]
    cases hsep : (FieldSep.ofText m.cache fs).1 with
    | error e => exact hI.found (FieldSep.finds fs) hm
    | ok sep => exact hI.fieldSep hsep hm
  | setRecordSep rs =>
    refine fun m hm => ⟨rfl, ?_⟩
    rw [setRecordSep_apply]
    cases hsep : (RecordSep.ofText m.cache rs).1 with
    | error e => exact hI.found (RecordSep.finds rs) hm
    | ok sep => exact hI.recordSep hsep hm
  | argument i =>
    refine .get_bind fun m _ => ?_
    split
    · exact .pure _
    · split
      · exact .pure _
      · exact .throw _
  | assignGlobal name value =>
    refine .get_bind fun m _ => ?_
    split
    · refine .get_bind fun m _ => ?_
      split
      · exact .modify fun _ hm => hI.quiet hm (Machine.core_globals _ value) rfl
      · exact .throw _
    · exact .pure _

lemma keeping {x : Run α} (hx : Composed (.stepwise False) x) : Keeping I x :=
  hx.keeps (fun h hm => hI.quiet hm (congrArg Prod.fst h) (congrArg Prod.snd h)) (fun _ _ _ => hI.primitive) False.elim

lemma assignNamed (name value : String) : Keeping I (assignNamed name value) :=
  hI.keeping (Composed.assignNamed name value).stepwise

end Robust

/-! ## Instructions -/

/-- A property that no instruction breaks: what other streams do keeps it too. -/
structure Stable (I : Machine → Prop) : Prop extends Robust I where
  readRecord : ∀ source name, Keeping I (readRecord source name)
  writeText : ∀ dest text, Keeping I (writeText dest text)
  closeStream : ∀ name, Keeping I (closeStream name)
  flushStream : ∀ name, Keeping I (flushStream name)
  closeAll : Keeping I closeAll
  runCommand : ∀ command, Keeping I (runCommand command)

namespace Stable

variable (hI : Stable I)

include hI

lemma service {x : Run α} (hx : Service x) : Keeping I x := by
  cases hx with
  | readRecord _ name => exact hI.readRecord _ name
  | writeText dest text => exact hI.writeText dest text
  | closeStream name => exact hI.closeStream name
  | flushStream name => exact hI.flushStream name
  | runCommand command => exact hI.runCommand command

lemma keeping {x : Run α} (hx : Composed (.stepwise True) x) : Keeping I x :=
  hx.keeps (fun h hm => hI.quiet hm (congrArg Prod.fst h) (congrArg Prod.snd h)) (fun _ _ _ => hI.primitive)
    fun _ _ _ => hI.service

lemma step (op : Op) : Keeping I (step op) := hI.keeping (.step op)

lemma tick : Keeping I tick := by
  refine .get_bind fun m hm => ?_
  split
  · exact fun _ _ => ⟨rfl, hI.quiet hm rfl rfl⟩
  · refine .bind (fun _ _ => ⟨rfl, hI.quiet hm rfl rfl⟩) fun _ => ?_
    split
    · exact .fail _
    · exact .pure _

end Stable

/-- No instruction breaks a property that looks only at the core, if assignments to separators do not. -/
lemma Robust.stable (hcore : ∀ {m n : Machine}, I m → n.core = m.core → I n) (hI : Robust I) : Stable I := by
  have hplain {α : Type} {x : Run α} (hx : Plain x) : Keeping I x := fun m hm => ⟨rfl, hcore hm (hx.core_eq m)⟩
  refine { hI with
    readRecord := fun source name => ?_
    writeText := fun dest text => hplain (.writeText dest text)
    closeStream := fun name => hplain (.closeStream name)
    flushStream := fun name => hplain (.flushStream name)
    closeAll := hplain .closeAll
    runCommand := fun command => hplain (.runCommand command) }
  by_cases h : source = .main
  · rw [readRecord, if_pos h]
    refine (hI.keeping Composed.nextMainRecord.stepwise).bind fun record => ?_
    cases record with
    | none | some record => exact .pure _
  · exact hplain (.readRecord h name)

end Run

end Awk
