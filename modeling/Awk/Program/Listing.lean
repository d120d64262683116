import Awk.Program

/-!
# Listings of programs

A listing shows the instructions of a program, one a line with its address, its name and what it works
on.  Numbers of variables and constants are shown as what they stand for.
-/

namespace Awk

/-! ## Names of instructions -/

def ScalarRef.kindName : ScalarRef → String
  | global _ => "Global"
  | «local» _ => "Local"
  | special _ => "Special"

def ArrayRef.kindName : ArrayRef → String
  | global _ => "Global"
  | «local» _ => "Local"

def Cell.kindName : Cell → String
  | scalar r => r.kindName
  | field => "Field"
  | element a => "Array" ++ a.kindName

def Arith.name : Arith → String
  | add => "Add"
  | sub => "Subtract"
  | mul => "Multiply"
  | div => "Divide"
  | mod => "Modulo"
  | pow => "Power"

def Comparison.name : Comparison → String
  | equal => "Equals"
  | notEqual => "NotEquals"
  | less => "Less"
  | greater => "Greater"
  | lessOrEqual => "LessOrEqual"
  | greaterOrEqual => "GreaterOrEqual"

def Test.name : Test → String
  | truth expected => if expected then "True" else "False"
  | compare c => c.name

def getlineTargetName : Option Cell → String
  | none => ""
  | some (.scalar _) => "Var"
  | some .field => "Field"
  | some (.element _) => "Array"

def Op.name : Op → String
  | num _ => "Num"
  | str _ => "Str"
  | dupe => "Dupe"
  | drop => "Drop"
  | swap => "Swap"
  | rote => "Rote"
  | load c => c.kindName
  | fieldInt _ => "FieldInt"
  | member a => "In" ++ a.kindName
  | store c => "Assign" ++ c.kindName
  | delete _ => "Delete"
  | deleteAll _ => "DeleteAll"
  | incr _ c => "Incr" ++ c.kindName
  | aug _ c => "AugAssign" ++ c.kindName
  | regex _ => "Regex"
  | indexMulti _ => "IndexMulti"
  | concatMulti _ => "ConcatMulti"
  | arith op => op.name
  | compare c => c.name
  | concat => "Concat"
  | «match» negated => if negated then "NotMatch" else "Match"
  | not => "Not"
  | minus => "UnaryMinus"
  | plus => "UnaryPlus"
  | boolean => "Boolean"
  | jump _ => "Jump"
  | branch t _ => "Jump" ++ t.name
  | next => "Next"
  | nextFile => "NextFile"
  | exit => "Exit"
  | exitStatus => "ExitStatus"
  | «return» => "Return"
  | returnNull => "ReturnNull"
  | forIn _ _ _ => "ForIn"
  | breakForIn => "BreakForIn"
  | callBuiltin _ _ => "CallBuiltin"
  | callLengthArray _ => "CallLengthArray"
  | callSplit _ _ => "CallSplit"
  | callSub _ => "CallSub"
  | callUser _ _ => "CallUser"
  | arrayArg _ => "ArrayArg"
  | callNative _ _ => "CallNative"
  | nulls _ => "Nulls"
  | output formatted _ _ => if formatted then "Printf" else "Print"
  | getline _ target => "Getline" ++ getlineTargetName target

namespace Listing

/-! ## What instructions work on -/

/-- The names of the parameters of a function, by kind. -/
structure Locals where
  scalars : Array String := #[]
  arrays : Array String := #[]

def Locals.of (f : CompiledFunction) : Locals :=
  let params := f.params.zip f.arrays
  { scalars := (params.filterMap fun (p, isArray) => if isArray then none else some p).toArray
    arrays := (params.filterMap fun (p, isArray) => if isArray then some p else none).toArray }

def unknown (i : Nat) : String := "?" ++ Number.natText i

def nameAt (names : Array String) (i : Nat) : String := names.getD i (unknown i)

def scalar (p : Program) (ls : Locals) : ScalarRef → String
  | .global i => nameAt p.scalarNames i
  | .local i => nameAt ls.scalars i
  | .special v => v.name

def array (p : Program) (ls : Locals) : ArrayRef → String
  | .global i => nameAt p.arrayNames i
  | .local i => nameAt ls.arrays i

def cell? (p : Program) (ls : Locals) : Cell → Option String
  | .scalar r => some (scalar p ls r)
  | .field => none
  | .element a => some (array p ls a)

/-- An address: at least four digits, the sign counted. -/
def address (n : Int) : String :=
  if n < 0 then "-" ++ Number.zeroFill 3 (Number.natText n.natAbs)
  else Number.zeroFill 4 (Number.natText n.natAbs)

/-- A number of the pool: whole if it is small enough to be written so. -/
def number (x : Float) : String :=
  match Number.whole? x with
  | some n => if n.natAbs < Number.tenPow 16 then Number.intText n else Number.plainText x
  | none => Number.plainText x

def signedText (n : Int) : String :=
  if n < 0 then Number.intText n else "+" ++ Number.natText n.natAbs

def words (texts : List (Option String)) : String := " ".intercalate (texts.filterMap id)

def destination : RedirectKind → String
  | .file => ">"
  | .append => ">>"
  | .pipe => "|"

def source : GetlineSource → String
  | .main => "main"
  | .file => "<"
  | .command => "|"

def operands (p : Program) (ls : Locals) (pc : Nat) : Op → String
  | .num i => (p.nums[i]?).elim (unknown i) number
  | .str i => (p.strs[i]?).elim (unknown i) Text.quoted
  | .regex i => (p.regexes[i]?).elim (unknown i) fun r => "/" ++ r ++ "/"
  | .fieldInt n => "$" ++ Number.natText n
  | .load c | .store c => (cell? p ls c).getD ""
  | .member a | .delete a | .deleteAll a | .callLengthArray a | .arrayArg a => array p ls a
  | .incr amount c => words [cell? p ls c, some (signedText amount)]
  | .aug op c => words [cell? p ls c, some (op.sign ++ "=")]
  | .indexMulti n | .concatMulti n | .nulls n => Number.natText n
  | .jump offset | .branch _ offset => address (pc + 1 + offset)
  | .forIn var a length =>
    scalar p ls var ++ " in " ++ array p ls a ++ " (body " ++ address (pc + 1) ++ ".." ++
      address (pc + 1 + length) ++ ")"
  | .callBuiltin f n => f.name ++ "/" ++ Number.natText n
  | .callSplit a sep => array p ls a ++ if sep then " sep" else ""
  | .callSub global => if global then "gsub" else "sub"
  | .callUser f n =>
    (p.functions[f]?).elim (unknown f) (·.name) ++ " arrays=" ++ Number.natText n
  | .callNative f n => nameAt p.nativeNames f ++ "/" ++ Number.natText n
  | .output _ n dest => words [some (Number.natText n), dest.map destination]
  | .getline s target => words [some (source s), target.bind (cell? p ls)]
  | _ => ""

/-! ## Listings -/

def line (p : Program) (ls : Locals) (pc : Nat) (op : Op) : String :=
  let rest := operands p ls pc op
  address pc ++ "    " ++ op.name ++ (if rest.isEmpty then "" else " " ++ rest) ++ "\n"

def block (p : Program) (ls : Locals) (code : Code) : String :=
  String.join (code.toList.zipIdx.map fun (op, pc) => line p ls pc op)

/-- The line above a stretch of code. -/
def head (text : String) : String := "        // " ++ text ++ "\n"

def numbered (title : String) (p : Program) (parts : Array Code) : String :=
  String.join (parts.toList.zipIdx.map fun (code, i) =>
    head (title ++ " " ++ Number.natText (i + 1)) ++ block p {} code ++ "\n")

/-- The code that decides whether a rule applies. -/
def guard (p : Program) (i : String) : Guard → String
  | .all => ""
  | .expr code => head ("pattern " ++ i) ++ block p {} code
  | .range start stop =>
    head ("range start " ++ i) ++ block p {} start ++ head ("range stop " ++ i) ++ block p {} stop

def rule (p : Program) (r : CompiledRule) (i : String) : String :=
  guard p i r.guard ++ head ("action " ++ i) ++
    r.body.elim "        print $0\n" (block p {}) ++ "\n"

def function (p : Program) (f : CompiledFunction) : String :=
  head ("function " ++ f.name ++ "(" ++ ", ".intercalate f.params ++ ")") ++
    block p (Locals.of f) f.body ++ "\n"

end Listing

def Program.listing (p : Program) : String :=
  Listing.numbered "BEGIN" p p.begin ++
    String.join (p.rules.toList.zipIdx.map fun (r, i) => Listing.rule p r (Number.natText (i + 1))) ++
    Listing.numbered "END" p p.final ++
    String.join (p.functions.toList.map (Listing.function p))

end Awk
