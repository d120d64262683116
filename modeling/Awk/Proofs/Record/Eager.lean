import Mathlib
import Awk.Record.Fields

/-!
# Records with their fields made at once

The fields of a record are made when they are first asked for, and it does not show.  An eager record has them as
soon as it has a line, made as the separators are at that moment.  Whatever is asked of a record, in any order, is
answered as the eager record answers it.
-/

namespace Awk

/-! ## Requests -/

namespace Record

/-- What a record can be asked or told. -/
inductive Request where
  | setLine (line : String)
  | setFieldSep (sep : FieldSep)
  | setParagraph (paragraph : Bool)
  | setField (i : Nat) (text ofs : String)
  | setFieldCount (n : Nat) (ofs : String)
  | fieldCount
  | field (i : Nat)
  | line

/-- What a record answers. -/
inductive Answer where
  | done
  | count (n : Nat)
  | text (s : Option String)
deriving DecidableEq

/-- The answers of something that has a state, one to each request. -/
def answers {σ : Type} (serve : σ → Request → Answer × σ) : σ → List Request → List Answer
  | _, [] => []
  | s, request :: rest => (serve s request).1 :: answers serve (serve s request).2 rest

def serve (r : Record) : Request → Answer × Record
  | .setLine line => (.done, r.setLine line)
  | .setFieldSep sep => (.done, r.setFieldSep sep)
  | .setParagraph paragraph => (.done, r.setParagraph paragraph)
  | .setField i text ofs => (.done, r.setField i text ofs)
  | .setFieldCount n ofs => (.done, r.setFieldCount n ofs)
  | .fieldCount => (.count r.fieldCount.1, r.fieldCount.2)
  | .field i => (.text (r.field? i).1, (r.field? i).2)
  | .line => (.text (some r.line), r)

end Record

/-! ## Eager records -/

/-- A record that always has its fields. -/
structure EagerRecord where
  line : String := ""
  fields : List String := []
  sep : FieldSep := .blanks
  paragraph : Bool := false

namespace EagerRecord

/-- A new line is split at once, as the separators are now. -/
def setLine (r : EagerRecord) (line : String) : EagerRecord :=
  { r with line, fields := (r.sep.split line.toList r.paragraph).map String.ofList }

/-- Fields that are assigned make the line. -/
def ofFields (r : EagerRecord) (fields : List String) (ofs : String) : EagerRecord :=
  { r with fields, line := ofs.intercalate fields }

/-- Assigns a field, with empty ones before it as far as they are missing. -/
def setField (r : EagerRecord) (i : Nat) (text ofs : String) : EagerRecord :=
  match i with
  | 0 => r.setLine text
  | i + 1 => r.ofFields ((r.fields ++ List.replicate (i + 1 - r.fields.length) "").set i text) ofs

/-- Leaves out the last fields, or adds empty ones. -/
def setFieldCount (r : EagerRecord) (n : Nat) (ofs : String) : EagerRecord :=
  r.ofFields (r.fields.take n ++ List.replicate (n - r.fields.length) "") ofs

/-- The line for number zero, a field for others, nothing past the last field. -/
def field? (r : EagerRecord) : Nat → Option String
  | 0 => some r.line
  | i + 1 => r.fields[i]?

open Record in
/-- How an eager record answers.  Other separators are for the lines to come. -/
def serve (r : EagerRecord) : Request → Answer × EagerRecord
  | .setLine line => (.done, r.setLine line)
  | .setFieldSep sep => (.done, { r with sep })
  | .setParagraph paragraph => (.done, { r with paragraph })
  | .setField i text ofs => (.done, r.setField i text ofs)
  | .setFieldCount n ofs => (.done, r.setFieldCount n ofs)
  | .fieldCount => (.count r.fields.length, r)
  | .field i => (.text (r.field? i), r)
  | .line => (.text (some r.line), r)

end EagerRecord

namespace Record

/-! ## What a record stands for -/

def eager (r : Record) : EagerRecord :=
  { line := r.line, fields := r.ensureSplit.fields.toList, sep := r.sep, paragraph := r.paragraph }

lemma ensureSplit_of_isSplit {r : Record} (h : r.isSplit = true) : r.ensureSplit = r := if_pos h

@[simp] lemma line_ensureSplit (r : Record) : r.ensureSplit.line = r.line := by
  rw [ensureSplit]
  split <;> rfl

@[simp] lemma sep_ensureSplit (r : Record) : r.ensureSplit.sep = r.sep := by
  rw [ensureSplit]
  split <;> rfl

@[simp] lemma paragraph_ensureSplit (r : Record) : r.ensureSplit.paragraph = r.paragraph := by
  rw [ensureSplit]
  split <;> rfl

@[simp] lemma isSplit_ensureSplit (r : Record) : r.ensureSplit.isSplit = true := by
  rw [ensureSplit]
  split
  · assumption
  · rfl

@[simp] lemma ensureSplit_ensureSplit (r : Record) : r.ensureSplit.ensureSplit = r.ensureSplit :=
  ensureSplit_of_isSplit (isSplit_ensureSplit r)

/-- Making the fields shows nowhere. -/
@[simp] lemma eager_ensureSplit (r : Record) : r.ensureSplit.eager = r.eager := by
  simp [eager]

lemma eager_of_isSplit {r : Record} (h : r.isSplit = true) :
    r.eager = ⟨r.line, r.fields.toList, r.sep, r.paragraph⟩ := by
  rw [eager, ensureSplit_of_isSplit h]

/-! ## Changes -/

lemma eager_setLine (r : Record) (line : String) : (r.setLine line).eager = r.eager.setLine line := by
  simp [eager, setLine, ensureSplit, EagerRecord.setLine, FieldSep.splitText]

lemma eager_setFieldSep (r : Record) (sep : FieldSep) : (r.setFieldSep sep).eager = { r.eager with sep } := by
  rw [setFieldSep, eager_of_isSplit (by exact isSplit_ensureSplit r)]
  simp [eager]

lemma eager_setParagraph (r : Record) (paragraph : Bool) :
    (r.setParagraph paragraph).eager = { r.eager with paragraph } := by
  rw [setParagraph, eager_of_isSplit (by exact isSplit_ensureSplit r)]
  simp [eager]

lemma eager_rebuild (r : Record) (fields : Array String) (ofs : String) :
    ({ r.ensureSplit with fields }.rebuild ofs).eager = r.eager.ofFields fields.toList ofs := by
  rw [rebuild, eager_of_isSplit (by exact isSplit_ensureSplit r)]
  simp [eager, EagerRecord.ofFields]

lemma toList_resize (fields : Array String) (n : Nat) :
    (resize fields n).toList = fields.toList.take n ++ List.replicate (n - fields.size) "" := by
  rw [resize]
  split
  · rename_i h
    simp [Nat.sub_eq_zero_of_le h]
  · rename_i h
    have hlen : fields.toList.length ≤ n := by
      rw [Array.length_toList]
      omega
    simp [List.take_of_length_le hlen]

lemma eager_setField (r : Record) (i : Nat) (text ofs : String) :
    (r.setField i text ofs).eager = r.eager.setField i text ofs := by
  cases i with
  | zero => exact eager_setLine r text
  | succ i =>
    rw [setField, eager_rebuild, EagerRecord.setField]
    congr 1
    rw [Array.toList_setIfInBounds]
    congr 1
    have hfields : r.eager.fields = r.ensureSplit.fields.toList := rfl
    rw [hfields]
    split
    · rename_i h
      have hlen : r.ensureSplit.fields.toList.length ≤ i + 1 := by
        rw [Array.length_toList]
        omega
      rw [toList_resize, List.take_of_length_le hlen, Array.length_toList]
    · rename_i h
      rw [Array.length_toList, Nat.sub_eq_zero_of_le (by omega), List.replicate_zero, List.append_nil]

lemma eager_setFieldCount (r : Record) (n : Nat) (ofs : String) :
    (r.setFieldCount n ofs).eager = r.eager.setFieldCount n ofs := by
  rw [setFieldCount, eager_rebuild, toList_resize, EagerRecord.setFieldCount]
  simp [eager]

/-! ## Runs -/

/-- One request is answered as the eager record answers it, and leaves the record that it leaves. -/
lemma serve_eager (r : Record) (request : Request) :
    ((r.serve request).1, (r.serve request).2.eager) = r.eager.serve request := by
  cases request with
  | setLine line => exact congrArg (Prod.mk _) (eager_setLine r line)
  | setFieldSep sep => exact congrArg (Prod.mk _) (eager_setFieldSep r sep)
  | setParagraph paragraph => exact congrArg (Prod.mk _) (eager_setParagraph r paragraph)
  | setField i text ofs => exact congrArg (Prod.mk _) (eager_setField r i text ofs)
  | setFieldCount n ofs => exact congrArg (Prod.mk _) (eager_setFieldCount r n ofs)
  | fieldCount => exact congrArg (Prod.mk _) (eager_ensureSplit r)
  | field i =>
    cases i with
    | zero => rfl
    | succ i => simp [serve, field?, EagerRecord.serve, EagerRecord.field?, eager]
  | line => rfl

/-- Two things answer alike if a view of the first serves as the second does. -/
lemma answers_view {σ τ : Type} {serve : σ → Request → Answer × σ} {serve' : τ → Request → Answer × τ}
    {view : σ → τ} (h : ∀ s request, ((serve s request).1, view (serve s request).2) = serve' (view s) request)
    (requests : List Request) (s : σ) : answers serve s requests = answers serve' (view s) requests := by
  induction requests generalizing s with
  | nil => rfl
  | cons request rest ih => rw [answers, answers, ih, ← h]

/-- A record that has just been made has an empty line and no fields. -/
lemma eager_default : ({} : Record).eager = {} := by
  simp [eager, ensureSplit, FieldSep.splitText, FieldSep.split, FieldSep.splitLine]

/-- That fields are made late is not to be seen: whatever is asked of a record, and in whatever order, it answers as
the record does that makes them as soon as it has a line. -/
theorem answers_eager (r : Record) (requests : List Request) :
    answers serve r requests = answers EagerRecord.serve r.eager requests ∧
      answers serve {} requests = answers EagerRecord.serve {} requests := by
  refine ⟨answers_view serve_eager requests r, ?_⟩
  rw [answers_view serve_eager, eager_default]

end Record

end Awk
