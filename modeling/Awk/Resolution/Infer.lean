import Awk.CallGraph
import Awk.Resolution
import Awk.Script.Show
import Awk.Token.Lexer

/-!
# Finding out what names refer to

A program does not say which variables are arrays; their uses tell.  The program is walked, functions in
the order of the call graph first, and every use is recorded.  Calls carry what is known of an argument
to the parameter and back.  Walks are repeated until one changes nothing; then the variables get their
numbers.
-/

namespace Awk

/-- Why the names of a program cannot be resolved. -/
inductive ResolveError where
  | kindConflict (name : String) (current used : Kind) (extent : Extent)
  | globalIsFunction (name : String) (extent : Extent)
  | duplicateFunction (name : String) (extent : Extent)
  | duplicateParam (func param : String) (extent : Extent)
  | undefinedFunction (name : String) (extent : Extent)
  | callLocal (name : String) (extent : Extent)
  | tooManyArgs (name : String) (extent : Extent)
  | scalarAsArrayParam (arg : Expr) (extent : Extent)
  | argKindMismatch (name : String) (arg param : Kind) (extent : Extent)
  | tooManyIterations

def Extent.placeText (e : Extent) : String := " at " ++ Awk.placeText e.line e.col

def ResolveError.message : ResolveError → String
  | kindConflict name current used extent =>
    "can't use " ++ current.text ++ " " ++ Text.quoted name ++ " as " ++ used.text ++ extent.placeText
  | globalIsFunction name extent =>
    "global var " ++ Text.quoted name ++ " can't also be a function" ++ extent.placeText
  | duplicateFunction name extent =>
    "function " ++ Text.quoted name ++ " already defined" ++ extent.placeText
  | duplicateParam func param extent =>
    "duplicate parameter name " ++ Text.quoted param ++ " in function " ++ Text.quoted func ++
      extent.placeText
  | undefinedFunction name extent => "undefined function " ++ Text.quoted name ++ extent.placeText
  | callLocal name extent =>
    "can't call local variable " ++ Text.quoted name ++ " as function" ++ extent.placeText
  | tooManyArgs name extent =>
    Text.quoted name ++ " called with more arguments than declared" ++ extent.placeText
  | scalarAsArrayParam arg extent =>
    "can't pass scalar " ++ arg.show ++ " as array param" ++ extent.placeText
  | argKindMismatch name arg param extent =>
    "can't pass " ++ arg.text ++ " " ++ Text.quoted name ++ " as " ++ param.text ++ " param" ++
      extent.placeText
  | tooManyIterations => "too many iterations trying to resolve variable types"

/-! ## Calls in a program -/

mutual

def Place.calls : Place → List String
  | .var _ => []
  | .index _ index => callsOfAll index
  | .field e => e.calls

def Expr.calls : Expr → List String
  | .num _ | .str _ | .regex _ => []
  | .place p => p.calls
  | .assign target value | .augAssign target _ value => target.calls ++ value.calls
  | .incr target _ _ => target.calls
  | .unary _ e => e.calls
  | .binary left _ right => left.calls ++ right.calls
  | .cond test yes no => test.calls ++ yes.calls ++ no.calls
  | .member index _ => callsOfAll index
  | .call _ args _ => callsOfAll args
  | .userCall name args _ => name :: callsOfAll args
  | .getline target => callsOfTarget target
  | .getlineFile e target | .getlineCommand e target => e.calls ++ callsOfTarget target

def callsOfTarget : Option Place → List String
  | none => []
  | some p => p.calls

def callsOfAll : List Expr → List String
  | [] => []
  | e :: rest => e.calls ++ callsOfAll rest

end

mutual

def Stmt.calls : Stmt → List String
  | .print args redirect | .printf args redirect =>
    callsOfAll args ++ redirect.elim [] (·.dest.calls)
  | .expr e => e.calls
  | .ifElse cond body otherwise => cond.calls ++ callsOfBody body ++ callsOfElse otherwise
  | .forLoop init cond post body =>
    callsOfInit init ++ cond.elim [] Expr.calls ++ callsOfInit post ++ callsOfBody body
  | .forIn _ _ body | .block body => callsOfBody body
  | .whileLoop cond body | .doWhile body cond => cond.calls ++ callsOfBody body
  | .exit e | .returnValue e => e.elim [] Expr.calls
  | .delete _ index => index.elim [] callsOfAll
  | .breakLoop _ | .continueLoop _ | .next _ | .nextFile _ => []

/-- The functions that a statement in the head of a loop calls. -/
def callsOfInit : Option Stmt → List String
  | none => []
  | some s => s.calls

def callsOfElse : Option (List Stmt) → List String
  | none => []
  | some body => callsOfBody body

def callsOfBody : List Stmt → List String
  | [] => []
  | s :: rest => s.calls ++ callsOfBody rest

end

def RulePattern.exprs : RulePattern → List Expr
  | all => []
  | expr e => [e]
  | range start stop => [start, stop]

/-- The functions that the program calls outside its functions. -/
def Script.mainCalls (s : Script) : List String :=
  (s.begin.map callsOfBody).flatten ++
    (s.rules.map fun r => callsOfAll r.pattern.exprs ++ r.body.elim [] callsOfBody).flatten ++
    (s.final.map callsOfBody).flatten

/-- The call graph of a program; the empty name stands for what is outside all functions. -/
def Script.callGraph (s : Script) : CallGraph :=
  let g : CallGraph := s.functions.foldl (fun g f => g.add f.name (callsOfBody f.body)) {}
  g.add "" s.mainCalls

namespace Infer

/-! ## What is known -/

/-- What is known of a variable: its kind, once a use has told. -/
abbrev KindTable := Std.TreeMap String (Option Kind)

/-- What is known of the variables so far. -/
structure Knowledge where
  globals : KindTable := {}
  locals : Std.TreeMap String KindTable := {}
  /-- How often something new was recorded. -/
  updates : Nat := 0

/-- The functions of a program: where each is defined, and how each can be called. -/
structure Functions where
  defs : Std.TreeMap String Function := {}
  infos : Std.TreeMap String FuncInfo := {}

abbrev Learn := StateT Knowledge (Except ResolveError)

/-- Where knowledge of a variable is kept, and what is known. -/
structure Found where
  scope : Scope
  kind : Option Kind

/-- What is known of a name inside a function, or outside all functions. -/
def Knowledge.find (k : Knowledge) (func : Option String) (name : String) : Option Found :=
  match func.bind fun f => k.locals[f]?.bind fun table => table[name]? with
  | some kind => some ⟨.local, kind⟩
  | none =>
    if (Special.ofName? name).isSome then some ⟨.special, some .scalar⟩
    else k.globals[name]?.map fun kind => ⟨.global, kind⟩

def Knowledge.paramKind (k : Knowledge) (func param : String) : Option Kind :=
  (k.locals[func]?.bind fun table => table[param]?).join

def Knowledge.learn (k : Knowledge) (func : Option String) (scope : Scope) (name : String)
    (kind : Kind) : Knowledge :=
  match scope, func with
  | .local, some f =>
    { k with
      locals := k.locals.insert f ((k.locals.getD f {}).insert name (some kind))
      updates := k.updates + 1 }
  | .global, _ => { k with globals := k.globals.insert name (some kind), updates := k.updates + 1 }
  | _, _ => k

/-- Records a use of a variable: as a scalar, as an array, or as one of them.  A name that is new is a
global variable, which no function of the program may share. -/
def record (fs : Functions) (func : Option String) (name : String) (kind : Option Kind)
    (extent : Extent) : Learn Unit := do
  let k ← get
  match k.find func name with
  | none =>
    set { k with globals := k.globals.insert name kind, updates := k.updates + 1 }
    if fs.defs.contains name then throw (.globalIsFunction name extent)
  | some found =>
    match found.kind, kind with
    | some current, some used =>
      if current ≠ used then throw (.kindConflict name current used extent)
    | none, some used => set (k.learn func found.scope name used)
    | _, none => pure ()

def recordRef (fs : Functions) (func : Option String) (v : VarRef) (kind : Option Kind) : Learn Unit :=
  record fs func v.name kind v.extent

/-! ## Calls -/

def callee (fs : Functions) (func : Option String) (name : String) (argCount : Nat) (extent : Extent) :
    Learn FuncInfo := do
  let k ← get
  if (k.find func name).any (·.scope = .local) then throw (.callLocal name extent)
  match fs.infos[name]? with
  | none => throw (.undefinedFunction name extent)
  | some info =>
    if info.arity.any (· < argCount) then throw (.tooManyArgs name extent)
    return info

/-- Records a variable as an argument: it and the parameter are of one kind. -/
def recordArg (fs : Functions) (func : Option String) (name : String) (info : FuncInfo)
    (param : Option String) (v : VarRef) (extent : Extent) : Learn Unit := do
  if info.native then recordRef fs func v (some .scalar)
  else
    let k ← get
    match (k.find func v.name).bind (·.kind), param.bind (k.paramKind name) with
    | none, some kind => recordRef fs func v (some kind)
    | some kind, none =>
      match param with
      | some p => record fs (some name) p (some kind) ((fs.defs[name]?).elim extent (·.extent))
      | none => pure ()
    | some arg, some kind =>
      if arg ≠ kind then throw (.argKindMismatch v.name arg kind v.extent)
      recordRef fs func v none
    | none, none => recordRef fs func v none

/-- Checks that a parameter may get an argument that is no variable. -/
def checkArg (name : String) (info : FuncInfo) (param : Option String) (arg : Expr) (extent : Extent) :
    Learn Unit := do
  let k ← get
  if !info.native && param.bind (k.paramKind name) = some .array then
    throw (.scalarAsArrayParam arg extent)

/-! ## Walks -/

mutual

def walkPlace (fs : Functions) (func : Option String) : Place → Learn Unit
  | .var v => recordRef fs func v (some .scalar)
  | .index array index => do
    walkAll fs func index
    recordRef fs func array (some .array)
  | .field e => walkExpr fs func e

/-- Records the uses of variables in an expression. -/
def walkExpr (fs : Functions) (func : Option String) : Expr → Learn Unit
  | .num _ | .str _ | .regex _ => pure ()
  | .place p => walkPlace fs func p
  | .assign target value | .augAssign target _ value => do
    walkPlace fs func target
    walkExpr fs func value
  | .incr target _ _ => walkPlace fs func target
  | .unary _ e => walkExpr fs func e
  | .binary left _ right => do
    walkExpr fs func left
    walkExpr fs func right
  | .cond test yes no => do
    walkExpr fs func test
    walkExpr fs func yes
    walkExpr fs func no
  | .member index array => do
    walkAll fs func index
    recordRef fs func array (some .array)
  | .call .split (s :: .place (.var array) :: rest) _ => do
    walkExpr fs func s
    recordRef fs func array (some .array)
    walkAll fs func rest
  | .call .length [.place (.var v)] _ => recordRef fs func v none
  | .call _ args _ => walkAll fs func args
  | .userCall name args extent => do
    let info ← callee fs func name args.length extent
    walkArgs fs func name info extent info.params args
  | .getline target => walkTarget fs func target
  | .getlineFile e target | .getlineCommand e target => do
    walkExpr fs func e
    walkTarget fs func target

/-- Records the uses of variables in the place of a record. -/
def walkTarget (fs : Functions) (func : Option String) : Option Place → Learn Unit
  | none => pure ()
  | some p => walkPlace fs func p

/-- Records the uses of variables in some expressions. -/
def walkAll (fs : Functions) (func : Option String) : List Expr → Learn Unit
  | [] => pure ()
  | e :: rest => do
    walkExpr fs func e
    walkAll fs func rest

/-- Records the uses of variables in arguments, of which each goes to the next parameter. -/
def walkArgs (fs : Functions) (func : Option String) (name : String) (info : FuncInfo)
    (extent : Extent) : List String → List Expr → Learn Unit
  | _, [] => pure ()
  | params, .place (.var v) :: rest => do
    recordArg fs func name info params.head? v extent
    walkArgs fs func name info extent params.tail rest
  | params, arg :: rest => do
    checkArg name info params.head? arg extent
    walkExpr fs func arg
    walkArgs fs func name info extent params.tail rest

end

mutual

/-- Records the uses of variables in a statement. -/
def walkStmt (fs : Functions) (func : Option String) : Stmt → Learn Unit
  | .print args redirect | .printf args redirect => do
    walkAll fs func args
    match redirect with
    | some r => walkExpr fs func r.dest
    | none => pure ()
  | .expr e => walkExpr fs func e
  | .ifElse cond body otherwise => do
    walkExpr fs func cond
    walkBody fs func body
    walkElse fs func otherwise
  | .forLoop init cond post body => do
    walkInit fs func init
    match cond with
    | some e => walkExpr fs func e
    | none => pure ()
    walkInit fs func post
    walkBody fs func body
  | .forIn var array body => do
    recordRef fs func var (some .scalar)
    recordRef fs func array (some .array)
    walkBody fs func body
  | .whileLoop cond body | .doWhile body cond => do
    walkExpr fs func cond
    walkBody fs func body
  | .breakLoop _ | .continueLoop _ | .next _ | .nextFile _ => pure ()
  | .exit e | .returnValue e =>
    match e with
    | some e => walkExpr fs func e
    | none => pure ()
  | .delete array index => do
    recordRef fs func array (some .array)
    match index with
    | some es => walkAll fs func es
    | none => pure ()
  | .block body => walkBody fs func body

/-- Records the uses of variables in the head of a loop. -/
def walkInit (fs : Functions) (func : Option String) : Option Stmt → Learn Unit
  | none => pure ()
  | some s => walkStmt fs func s

/-- Records the uses of variables in the other branch of a condition. -/
def walkElse (fs : Functions) (func : Option String) : Option (List Stmt) → Learn Unit
  | none => pure ()
  | some body => walkBody fs func body

/-- Records the uses of variables in some statements. -/
def walkBody (fs : Functions) (func : Option String) : List Stmt → Learn Unit
  | [] => pure ()
  | s :: rest => do
    walkStmt fs func s
    walkBody fs func rest

end

def walkRule (fs : Functions) (r : Rule) : Learn Unit := do
  walkAll fs none r.pattern.exprs
  match r.body with
  | some body => walkBody fs none body
  | none => pure ()

/-- Records the uses of variables in a function; a name without a definition is reported where it is
called. -/
def walkFunction (fs : Functions) (name : String) : Learn Unit :=
  match fs.defs[name]? with
  | some f => walkBody fs (some name) f.body
  | none => pure ()

/-- Records the uses of variables in a program, its functions in the given order. -/
def walkScript (fs : Functions) (s : Script) (order : List String) : Learn Unit := do
  order.forM (walkFunction fs)
  s.begin.forM (walkBody fs none)
  s.rules.forM (walkRule fs)
  s.final.forM (walkBody fs none)

def maxWalks : Nat := 100

/-- Repeats walks until one changes nothing; `updates` counts what was known before the last one. -/
def settle (fs : Functions) (s : Script) (order : List String) :
    (left : Nat) → (updates : Nat) → Learn Unit
  | left, updates => do
    let k ← get
    if k.updates ≠ updates then
      match left with
      | 0 => throw .tooManyIterations
      | left + 1 =>
        walkScript fs s order
        settle fs s order left k.updates

/-! ## Functions -/

/-- Adds the native functions, numbered in the order of their names; one that the program defines itself
is left out. -/
def addNatives (s : Script) (natives : List NativeFunc) (infos : Std.TreeMap String FuncInfo) :
    Std.TreeMap String FuncInfo :=
  let free := natives.filter fun n => !s.functions.any (·.name == n.name)
  let ordered := free.mergeSort fun a b => a.name ≤ b.name
  ordered.zipIdx.foldl (fun infos (n, i) =>
    infos.insert n.name ⟨i, true, [], [], n.arity⟩) infos

def firstRepeated : List String → List String → Option String
  | _, [] => none
  | before, p :: rest => if before.contains p then some p else firstRepeated (p :: before) rest

/-- Adds the functions of a program, numbered in their order. -/
def addFunctions : List Function → (index : Nat) → Functions → Except ResolveError Functions
  | [], _, fs => .ok fs
  | f :: rest, index, fs =>
    if fs.defs.contains f.name then .error (.duplicateFunction f.name f.extent)
    else
      match firstRepeated [] f.params with
      | some p => .error (.duplicateParam f.name p f.extent)
      | none =>
        addFunctions rest (index + 1)
          ⟨fs.defs.insert f.name f,
            fs.infos.insert f.name ⟨index, false, f.params, [], some f.params.length⟩⟩

/-! ## Numbers -/

/-- Numbers names by kind, in the given order; a kind that no use has told is a scalar's. -/
def number (kinds : KindTable) : List String → (scalars arrays : Nat) → VarTable → VarTable
  | [], _, _, table => table
  | name :: rest, scalars, arrays, table =>
    match (kinds[name]?).join with
    | some .array => number kinds rest scalars (arrays + 1) (table.insert name ⟨.array, arrays⟩)
    | some .scalar | none => number kinds rest (scalars + 1) arrays (table.insert name ⟨.scalar, scalars⟩)

def withArrays (locals : Std.TreeMap String VarTable) (name : String) (f : FuncInfo) : FuncInfo :=
  if f.native then f
  else
    let table := locals.getD name {}
    { f with arrays := f.params.map fun p => (table[p]?).any (·.kind = .array) }

/-- The resolution that knowledge gives.  Globals are numbered in the order of their names, parameters in
their own order. -/
def finish (s : Script) (fs : Functions) (k : Knowledge) : Resolution :=
  let locals := k.locals.map fun name kinds =>
    number kinds ((fs.infos[name]?).elim [] (·.params)) 0 0 {}
  { script := s
    globals := number k.globals k.globals.keys 0 0 {}
    locals
    funcs := fs.infos.map (withArrays locals) }

def provided : Extent := ⟨0, 0, 1, 1⟩

def infer (fs : Functions) (s : Script) : Learn Unit := do
  record fs none "ARGV" (some .array) provided
  record fs none "ENVIRON" (some .array) provided
  let updates := (← get).updates
  let order := s.callGraph.sorted
  walkScript fs s order
  settle fs s order maxWalks updates

/-- Every function's parameters, of which nothing is known yet. -/
def start (s : Script) : Knowledge :=
  { locals := s.functions.foldl (fun locals f =>
      locals.insert f.name (f.params.foldl (fun table p => table.insert p none) {})) {} }

end Infer

/-- Finds out what the names of a program refer to. -/
def Resolution.ofScript (s : Script) (natives : List NativeFunc) : Except ResolveError Resolution := do
  let fs ← Infer.addFunctions s.functions 0 ⟨{}, Infer.addNatives s natives {}⟩
  let (_, k) ← (Infer.infer fs s).run (Infer.start s)
  return Infer.finish s fs k

end Awk
