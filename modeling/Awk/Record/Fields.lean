import Awk.Record.Separator

/-!
# The current record

A record is a line of text and its fields.  The fields are made when they are first asked for; a change
of the separator lets the record at hand keep the fields it would have had before.  Assigning a field
makes the line anew from the fields, with the output separator between them.
-/

namespace Awk

/-- The greatest number of a field that a program may use. -/
def maxField : Nat := 1000000

/-- The current record.  `fields` counts only if `isSplit`. -/
structure Record where
  line : String := ""
  fields : Array String := #[]
  isSplit : Bool := false
  sep : FieldSep := .blanks
  paragraph : Bool := false

namespace Record

def setLine (r : Record) (line : String) : Record :=
  { r with line, fields := #[], isSplit := false }

def ensureSplit (r : Record) : Record :=
  if r.isSplit then r
  else { r with fields := r.sep.splitText r.line r.paragraph, isSplit := true }

def setFieldSep (r : Record) (sep : FieldSep) : Record := { r.ensureSplit with sep }

def setParagraph (r : Record) (paragraph : Bool) : Record := { r.ensureSplit with paragraph }

def fieldCount (r : Record) : Nat × Record :=
  let r := r.ensureSplit
  (r.fields.size, r)

/-- The line for number zero, a field for others, nothing past the last field. -/
def field? (r : Record) (i : Nat) : Option String × Record :=
  match i with
  | 0 => (some r.line, r)
  | i + 1 =>
    let r := r.ensureSplit
    (r.fields[i]?, r)

/-- Makes a list of fields longer with empty ones, or shorter. -/
def resize (fields : Array String) (n : Nat) : Array String :=
  if n ≤ fields.size then fields.take n
  else fields ++ Array.replicate (n - fields.size) ""

def rebuild (r : Record) (ofs : String) : Record :=
  { r with line := ofs.intercalate r.fields.toList }

/-- Assigns the line for number zero, a field for others. -/
def setField (r : Record) (i : Nat) (text ofs : String) : Record :=
  match i with
  | 0 => r.setLine text
  | i + 1 =>
    let r := r.ensureSplit
    let fields := if r.fields.size ≤ i then resize r.fields (i + 1) else r.fields
    { r with fields := fields.setIfInBounds i text }.rebuild ofs

def setFieldCount (r : Record) (n : Nat) (ofs : String) : Record :=
  let r := r.ensureSplit
  { r with fields := resize r.fields n }.rebuild ofs

end Record

end Awk
