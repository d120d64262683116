import Awk.CommandLine.Escape
import Awk.Machine.State

/-!
# Variables of the machine

Special variables have effects: a new field separator or record separator is compiled, and a new number
of fields makes the record anew.  When an assignment fails nothing has changed.
-/

namespace Awk.Run

open Regex (PatternCache)

/-! ## Special variables -/

def fieldNumber (x : Float) : Run Nat :=
  if 0 ≤ x ∧ x ≤ Float.ofNat maxField then return Number.toNat64 x else fail (.fieldIndex x)

def getSpecial (v : Special) : Run Value := do
  let m ← get
  let s := m.specials
  match v with
  | .nf =>
    let (count, record) := m.record.fieldCount
    modify fun m => { m with record }
    return .ofNat count
  | .nr => return .num s.nr
  | .fnr => return .num s.fnr
  | .rstart => return .num s.rstart
  | .rlength => return .num s.rlength
  | .argc => return .num s.argc
  | .fs => return .str s.fs
  | .ofs => return .str s.ofs
  | .ors => return .str s.ors
  | .rs => return .str s.rs
  | .subsep => return .str s.subsep
  | .convfmt => return .str s.convfmt
  | .ofmt => return .str s.ofmt
  | .filename => return .str s.filename
  | .rt => return .str s.rt

def modifySpecials (f : Specials → Specials) : Run Unit :=
  modify fun m => { m with specials := f m.specials }

def setFieldSep (fs : String) : Run Unit := do
  let sep ← lookUp (FieldSep.ofText · fs)
  modify fun m => { m with record := m.record.setFieldSep sep, specials := { m.specials with fs } }

def setRecordSep (rs : String) : Run Unit := do
  let sep ← lookUp (RecordSep.ofText · rs)
  modify fun m => { m with
    recordSep := sep
    record := m.record.setParagraph sep.isParagraph
    specials := { m.specials with rs } }

def setSpecial (v : Special) (value : Value) : Run Unit := do
  let number := value.toNumber
  let text := value.text (← get).specials.convfmt
  match v with
  | .nf =>
    let n ← fieldNumber number
    modify fun m => { m with record := m.record.setFieldCount n m.specials.ofs }
  | .nr => modifySpecials fun s => { s with nr := number }
  | .fnr => modifySpecials fun s => { s with fnr := number }
  | .rstart => modifySpecials fun s => { s with rstart := number }
  | .rlength => modifySpecials fun s => { s with rlength := number }
  | .argc => modifySpecials fun s => { s with argc := number }
  | .fs => setFieldSep text
  | .rs => setRecordSep text
  | .ofs => modifySpecials fun s => { s with ofs := text }
  | .ors => modifySpecials fun s => { s with ors := text }
  | .subsep => modifySpecials fun s => { s with subsep := text }
  | .convfmt => modifySpecials fun s => { s with convfmt := text }
  | .ofmt => modifySpecials fun s => { s with ofmt := text }
  | .filename => modifySpecials fun s => { s with filename := text }
  | .rt => modifySpecials fun s => { s with rt := text }

/-! ## Scalars -/

def getScalar (r : ScalarRef) : Run Value := do
  match r with
  | .global i =>
    match (← get).globals[i]? with
    | some v => return v
    | none => throw .outOfRange
  | .local i =>
    let m ← get
    match m.stack[m.base + i]? with
    | some v => return v
    | none => throw .outOfRange
  | .special v => getSpecial v

def setScalar (r : ScalarRef) (value : Value) : Run Unit := do
  match r with
  | .global i =>
    if i < (← get).globals.size then
      modify fun m => { m with globals := m.globals.setIfInBounds i value }
    else throw .outOfRange
  | .local i =>
    if (← get).base + i < (← get).stack.size then
      modify fun m => { m with stack := m.stack.setIfInBounds (m.base + i) value }
    else throw .outOfRange
  | .special v => setSpecial v value

/-! ## Fields -/

def getField (n : Nat) : Run Value := modifyGet fun m =>
  let (field, record) := m.record.field? n
  (field.elim .null .input, { m with record })

def setField (n : Nat) (value : Value) : Run Unit := modify fun m =>
  { m with record := m.record.setField n (value.text m.specials.convfmt) m.specials.ofs }

/-! ## Arrays -/

def slotOf (a : ArrayRef) : Run Nat := do
  match a with
  | .global i => return i
  | .local i =>
    match (← get).frames with
    | frame :: _ =>
      match frame[i]? with
      | some slot => return slot
      | none => fail (.defect (.arrayParam i))
    | [] => fail (.defect (.arrayParam i))

def arrayOf (a : ArrayRef) : Run (Nat × ArrayValue) := do
  let slot ← slotOf a
  match (← get).arrays[slot]? with
  | some value => return (slot, value)
  | none => fail (.defect (.noArray slot))

def setArray (slot : Nat) (value : ArrayValue) : Run Unit :=
  modify fun m => { m with arrays := m.arrays.setIfInBounds slot value }

def setElement (a : ArrayRef) (key : String) (value : Value) : Run Unit := do
  let (slot, array) ← arrayOf a
  setArray slot (array.insert key value)

/-- The value of an element, which comes into being if there is none. -/
def getElement (a : ArrayRef) (key : String) : Run Value := do
  let (slot, array) ← arrayOf a
  match array[key]? with
  | some v => return v
  | none =>
    setArray slot (array.insert key .null)
    return .null

/-! ## Cells -/

/-- A cell with its key: what an instruction works on. -/
inductive Target where
  | scalar (r : ScalarRef)
  | field (n : Nat)
  | element (a : ArrayRef) (key : String)

def target (c : Cell) : Run Target := do
  match c with
  | .scalar r => return .scalar r
  | .field =>
    let v ← pop
    return .field (← fieldNumber v.toNumber)
  | .element a =>
    let v ← pop
    return .element a (← textOf v)

def load : Target → Run Value
  | .scalar r => getScalar r
  | .field n => getField n
  | .element a key => getElement a key

def store (t : Target) (value : Value) : Run Unit :=
  match t with
  | .scalar r => setScalar r value
  | .field n => setField n value
  | .element a key => setElement a key value

/-! ## Arguments of the program -/

def namedArray (m : Machine) (name : String) : Option Nat := m.program.arrayNames.findIdx? (· == name)

def initArray (slot : Nat) (value : ArrayValue) : Run Unit := do
  if slot < (← get).arrays.size then setArray slot value else throw .outOfRange

/-- An operand of the program; empty if there is none. -/
def argument (i : Nat) : Run String := do
  let m ← get
  match namedArray m "ARGV" with
  | none => return ""
  | some slot =>
    match m.arrays[slot]? with
    | some argv => return (argv[Number.natText i]?).elim "" (·.text m.specials.convfmt)
    | none => throw .outOfRange

def assignNamed (name value : String) : Run Unit := do
  let value := Value.input (CommandLine.unescape value)
  match Special.ofName? name with
  | some v => setSpecial v value
  | none =>
    let m ← get
    match m.program.scalarNames.findIdx? (· == name) with
    | some i => setScalar (.global i) value
    | none => pure ()

end Awk.Run
