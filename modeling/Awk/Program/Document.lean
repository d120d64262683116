import Awk.Document.Read
import Awk.Document.Write
import Awk.Program.Listing

/-!
# Programs as documents

A compiled program can be kept as a document and loaded again.  An instruction is an alternative under the
name that listings show; what it works on belongs to it.
-/

namespace Awk

open Document

/-! ## Names -/

/-- A name with a capital letter first and small ones behind. -/
def capitalized (s : String) : String :=
  match s.toList with
  | [] => ""
  | c :: rest => String.ofList (c.toUpper :: rest.map Char.toLower)

def Special.documentName (v : Special) : String := capitalized v.name

def Builtin.documentName (f : Builtin) : String := capitalized f.name

def Arith.documentName : Arith → String
  | add => "Add"
  | sub => "Sub"
  | mul => "Mul"
  | div => "Div"
  | mod => "Mod"
  | pow => "Pow"

def destinationName : Option RedirectKind → String
  | none => "Stdout"
  | some .file => "File"
  | some .append => "Append"
  | some .pipe => "Pipe"

def GetlineSource.documentName : GetlineSource → String
  | main => "Main"
  | file => "File"
  | command => "Command"

def Arith.all : List Arith := [add, sub, mul, div, mod, pow]

def Comparison.all : List Comparison :=
  [equal, notEqual, less, greater, lessOrEqual, greaterOrEqual]

def allDestinations : List (Option RedirectKind) := [none, some .file, some .append, some .pipe]

def GetlineSource.all : List GetlineSource := [main, file, command]

/-! ## Writing -/

def Special.toDocument (v : Special) : Document := ofText v.documentName

def ScalarRef.toDocument (r : ScalarRef) : Document :=
  ofVariant r.kindName (match r with
    | global i | «local» i => ofNat i
    | special v => v.toDocument)

def ArrayRef.toDocument (a : ArrayRef) : Document :=
  ofVariant a.kindName (match a with
    | global i | «local» i => ofNat i)

/-- The variable of a cell under its field; a field has none. -/
def Cell.entry : Cell → Option (String × Document)
  | scalar (.global i) | scalar (.local i) => some ("index", ofNat i)
  | scalar (.special v) => some ("var", v.toDocument)
  | field => none
  | element (.global i) | element (.local i) => some ("index", ofNat i)

/-- What belongs to an instruction that works on a cell: the variable, and something else beside it. -/
def Cell.payload (c : Cell) (other : Option (String × Document)) : Option Document :=
  match other, c.entry with
  | none, none => none
  | none, some (_, d) | some (_, d), none => some d
  | some f, some e => some (ofFields [f, e])

def Op.payload : Op → Option Document
  | num i | str i | regex i | indexMulti i | concatMulti i | nulls i | fieldInt i => some (ofNat i)
  | load c | store c => c.payload none
  | member (.global i) | member (.local i) => some (ofNat i)
  | delete a | deleteAll a | callLengthArray a | arrayArg a => some a.toDocument
  | incr amount c => c.payload (some ("amount", ofInt amount))
  | aug op c => c.payload (some ("op", ofText op.documentName))
  | jump offset | branch _ offset => some (ofInt offset)
  | forIn var a length => some (ofFields
      [("var", var.toDocument), ("array", a.toDocument), ("body_len", ofNat length)])
  | callBuiltin f n => some (ofFields [("func", ofText f.documentName), ("num_args", ofNat n)])
  | callSplit a sep => some (ofFields [("array", a.toDocument), ("sep", .bool sep)])
  | callSub global => some (ofFields [("global", .bool global)])
  | callUser f n => some (ofFields [("func", ofNat f), ("num_array_args", ofNat n)])
  | callNative f n => some (ofFields [("func", ofNat f), ("num_args", ofNat n)])
  | output _ n dest => some (ofFields
      [("num_args", ofNat n), ("redirect", ofText (destinationName dest))])
  | getline source none | getline source (some .field) => some (ofText source.documentName)
  | getline source (some (.scalar r)) => some (ofFields
      [("kind", ofText source.documentName), ("var", r.toDocument)])
  | getline source (some (.element a)) => some (ofFields
      [("kind", ofText source.documentName), ("array", a.toDocument)])
  | _ => none

def Op.toDocument (op : Op) : Document :=
  match op.payload with
  | none => ofText op.name
  | some d => ofVariant op.name d

def Code.toDocument (code : Code) : Document := ofList Op.toDocument code.toList

def Guard.toDocument : Guard → Document
  | all => ofText "All"
  | expr code => ofVariant "Expr" (Code.toDocument code)
  | range start stop => ofVariant "Range" (.arr [Code.toDocument start, Code.toDocument stop])

def CompiledRule.toDocument (r : CompiledRule) : Document :=
  ofFields [("pattern", r.guard.toDocument), ("body", r.body.elim .null Code.toDocument)]

def CompiledFunction.toDocument (f : CompiledFunction) : Document :=
  ofFields [("name", ofText f.name), ("params", ofList ofText f.params),
    ("arrays", ofList .bool f.arrays), ("num_scalars", ofNat f.scalarCount),
    ("num_arrays", ofNat f.arrayCount), ("body", Code.toDocument f.body)]

def Program.toDocument (p : Program) : Document :=
  ofFields [("begin", ofList Code.toDocument p.begin.toList),
    ("actions", ofList CompiledRule.toDocument p.rules.toList),
    ("end", ofList Code.toDocument p.final.toList),
    ("functions", ofList CompiledFunction.toDocument p.functions.toList),
    ("nums", ofList ofFloat p.nums.toList), ("strs", ofList ofText p.strs.toList),
    ("regexes", ofList ofText p.regexes.toList),
    ("scalar_names", ofList ofText p.scalarNames.toList),
    ("array_names", ofList ofText p.arrayNames.toList),
    ("native_names", ofList ofText p.nativeNames.toList), ("source_hash", ofText p.sourceHash)]

/-! ## Reading -/

/-- The bits of a number of a constant, a variable or a count. -/
def indexBits : Nat := 32

/-- The bits of the number of a function's parameters. -/
def sizeBits : Nat := 64

/-- A number of a constant or a variable, or a count. -/
def index? (d : Document) : Option Nat := d.nat? indexBits

def offset? (d : Document) : Option Int := d.int? (-Number.twoPow 31) (Number.twoPow 31 - 1)

def amount? (d : Document) : Option Int := d.int? (-128) 127

def Special.ofDocument? (d : Document) : Option Special := d.oneOf? documentName all

def Arith.ofDocument? (d : Document) : Option Arith := d.oneOf? documentName all

def Builtin.ofDocument? (d : Document) : Option Builtin := d.oneOf? documentName all

def destination? (d : Document) : Option (Option RedirectKind) := d.oneOf? destinationName allDestinations

def GetlineSource.ofDocument? (d : Document) : Option GetlineSource := d.oneOf? documentName all

def ScalarRef.ofDocument? (d : Document) : Option ScalarRef :=
  match d.variant? with
  | some ("Global", some i) => (index? i).map .global
  | some ("Local", some i) => (index? i).map .local
  | some ("Special", some v) => (Special.ofDocument? v).map .special
  | _ => none

def ArrayRef.ofDocument? (d : Document) : Option ArrayRef :=
  match d.variant? with
  | some ("Global", some i) => (index? i).map .global
  | some ("Local", some i) => (index? i).map .local
  | _ => none

def Op.bare : List Op :=
  [Op.dupe, .drop, .swap, .rote, .load .field, .store .field] ++ Arith.all.map Op.arith ++
    Comparison.all.map Op.compare ++
    [Op.concat, .match false, .match true, .not, .minus, .plus, .boolean, .next, .nextFile, .exit,
      .exitStatus, .return, .returnNull, .breakForIn]

/-- The field that the variable of a cell stands in, and the cell for it. -/
def cellKind? : (kind : String) → Option (String × (Document → Option Cell))
  | "Global" => some ("index", fun d => (index? d).map (.scalar ∘ .global))
  | "Local" => some ("index", fun d => (index? d).map (.scalar ∘ .local))
  | "Special" => some ("var", fun d => (Special.ofDocument? d).map (.scalar ∘ .special))
  | "ArrayGlobal" => some ("index", fun d => (index? d).map (.element ∘ .global))
  | "ArrayLocal" => some ("index", fun d => (index? d).map (.element ∘ .local))
  | _ => none

def cellOnly? (op : Cell → Op) (kind : String) (d : Document) : Option Op :=
  (cellKind? kind).bind fun (_, cell?) => (cell? d).map op

/-- What the values of two fields make. -/
def pair? {α β γ : Type} (make : α → β → γ) (name₁ : String) (first? : Document → Option α)
    (name₂ : String) (second? : Document → Option β) (d : Document) : Option γ := do
  match ← d.fields? [name₁, name₂] with
  | [a, b] => return make (← first? a) (← second? b)
  | _ => none

/-- An instruction that works on a cell with something else, whose field and value are given. -/
def cellWith? {α : Type} (op : α → Cell → Op) (field : String) (value? : Document → Option α)
    (kind : String) (d : Document) : Option Op :=
  if kind = "Field" then (value? d).map (op · .field)
  else (cellKind? kind).bind fun (name, cell?) => pair? op field value? name cell? d

/-- The instruction of a name, with what belongs to it, that is not named after a cell. -/
def Op.ofTag? (tag : String) (d : Document) : Option Op :=
  match tag with
  | "Num" => (index? d).map .num
  | "Str" => (index? d).map .str
  | "FieldInt" => (index? d).map .fieldInt
  | "InGlobal" => (index? d).map (.member ∘ .global)
  | "InLocal" => (index? d).map (.member ∘ .local)
  | "Delete" => (ArrayRef.ofDocument? d).map .delete
  | "DeleteAll" => (ArrayRef.ofDocument? d).map .deleteAll
  | "Regex" => (index? d).map .regex
  | "IndexMulti" => (index? d).map .indexMulti
  | "ConcatMulti" => (index? d).map .concatMulti
  | "Jump" => (offset? d).map .jump
  | "JumpTrue" => (offset? d).map (.branch (.truth true))
  | "JumpFalse" => (offset? d).map (.branch (.truth false))
  | "JumpEquals" => (offset? d).map (.branch (.compare .equal))
  | "JumpNotEquals" => (offset? d).map (.branch (.compare .notEqual))
  | "JumpLess" => (offset? d).map (.branch (.compare .less))
  | "JumpGreater" => (offset? d).map (.branch (.compare .greater))
  | "JumpLessOrEqual" => (offset? d).map (.branch (.compare .lessOrEqual))
  | "JumpGreaterOrEqual" => (offset? d).map (.branch (.compare .greaterOrEqual))
  | "CallLengthArray" => (ArrayRef.ofDocument? d).map .callLengthArray
  | "ArrayArg" => (ArrayRef.ofDocument? d).map .arrayArg
  | "Nulls" => (index? d).map .nulls
  | "Getline" => (GetlineSource.ofDocument? d).map (.getline · none)
  | "GetlineField" => (GetlineSource.ofDocument? d).map (.getline · (some .field))
  | "GetlineVar" => pair? (.getline · <| some <| .scalar ·) "kind" GetlineSource.ofDocument? "var" ScalarRef.ofDocument? d
  | "GetlineArray" => pair? (.getline · <| some <| .element ·) "kind" GetlineSource.ofDocument? "array" ArrayRef.ofDocument? d
  | "CallBuiltin" => pair? .callBuiltin "func" Builtin.ofDocument? "num_args" index? d
  | "CallSplit" => pair? .callSplit "array" ArrayRef.ofDocument? "sep" bool? d
  | "CallUser" => pair? .callUser "func" index? "num_array_args" index? d
  | "CallNative" => pair? .callNative "func" index? "num_args" index? d
  | "Print" => pair? (.output false) "num_args" index? "redirect" destination? d
  | "Printf" => pair? (.output true) "num_args" index? "redirect" destination? d
  | "CallSub" => do
    match ← d.fields? ["global"] with
    | [b] => return .callSub (← b.bool?)
    | _ => none
  | "ForIn" => do
    match ← d.fields? ["var", "array", "body_len"] with
    | [v, a, n] => return .forIn (← ScalarRef.ofDocument? v) (← ArrayRef.ofDocument? a) (← index? n)
    | _ => none
  | _ => none

def behind? (word tag : String) : Option String :=
  if word.toList.isPrefixOf tag.toList then some (String.ofList (tag.toList.drop word.length)) else none

def Op.ofCell? (tag : String) (d : Document) : Option Op :=
  match behind? "Assign" tag, behind? "Incr" tag, behind? "AugAssign" tag with
  | some kind, _, _ => cellOnly? .store kind d
  | _, some kind, _ => cellWith? .incr "amount" amount? kind d
  | _, _, some kind => cellWith? .aug "op" Arith.ofDocument? kind d
  | _, _, _ => cellOnly? .load tag d

def Op.ofDocument? (d : Document) : Option Op :=
  match d.oneOf? Op.name Op.bare with
  | some op => some op
  | none =>
    match d.variant? with
    | some (tag, some d) => (Op.ofTag? tag d).or (Op.ofCell? tag d)
    | _ => none

def Code.ofDocument? (d : Document) : Option Code := (d.list? Op.ofDocument?).map List.toArray

def Guard.ofDocument? (d : Document) : Option Guard :=
  match d.variant? with
  | some ("All", none) | some ("All", some .null) => some .all
  | some ("Expr", some code) => (Code.ofDocument? code).map .expr
  | some ("Range", some (.arr [start, stop])) => do
    return .range (← Code.ofDocument? start) (← Code.ofDocument? stop)
  | _ => none

def body? : Document → Option (Option Code)
  | .null => some none
  | d => (Code.ofDocument? d).map some

def CompiledRule.ofDocument? (d : Document) : Option CompiledRule := do
  match ← d.fieldsOrNone? ["pattern", "body"] with
  | [some guard, body] => return ⟨← Guard.ofDocument? guard, ← body? (body.getD .null)⟩
  | _ => none

def CompiledFunction.ofDocument? (d : Document) : Option CompiledFunction := do
  match ← d.fields? ["name", "params", "arrays", "num_scalars", "num_arrays", "body"] with
  | [name, params, arrays, scalars, arrayCount, body] =>
    return {
      name := ← name.text?
      params := ← params.list? text?
      arrays := ← arrays.list? bool?
      scalarCount := ← scalars.nat? sizeBits
      arrayCount := ← arrayCount.nat? sizeBits
      body := ← Code.ofDocument? body }
  | _ => none

def array? {α : Type} (f : Document → Option α) (d : Document) : Option (Array α) :=
  (d.list? f).map List.toArray

def Program.ofDocument? (d : Document) : Option Program := do
  match ← d.fields? ["begin", "actions", "end", "functions", "nums", "strs", "regexes",
      "scalar_names", "array_names", "native_names", "source_hash"] with
  | [begin, rules, final, functions, nums, strs, regexes, scalars, arrays, natives, hash] =>
    return {
      begin := ← array? Code.ofDocument? begin
      rules := ← array? CompiledRule.ofDocument? rules
      final := ← array? Code.ofDocument? final
      functions := ← array? CompiledFunction.ofDocument? functions
      nums := ← array? float? nums
      strs := ← array? text? strs
      regexes := ← array? text? regexes
      scalarNames := ← array? text? scalars
      arrayNames := ← array? text? arrays
      nativeNames := ← array? text? natives
      sourceHash := ← hash.text? }
  | _ => none

/-! ## Text -/

def Program.emit (p : Program) : String := p.toDocument.render

def Program.load? (text : String) : Option Program := (Document.parse? text).bind Program.ofDocument?

end Awk
