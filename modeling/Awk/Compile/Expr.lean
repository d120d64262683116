import Awk.Compile.Pools

/-!
# Code of expressions

The code of an expression leaves its value on the stack.  In some surroundings other code does as well
or better, so that every expression gives several forms:

* `ExprCode.value`: pushes the value,
* `ExprCode.branch`: jumps on its truth, where a comparison and a jump become one instruction,
* `ExprCode.operands`: pushes the operands of a chain of texts side by side, and their number,
* `ExprCode.key`: pushes the value as a key, where a whole number becomes a text at once,
* `ExprCode.store`: stores the top of the stack into it.

A place gives the code for its key, which is empty for a variable, and the cell.
-/

namespace Awk

def Comparison.negated : Comparison → Comparison
  | equal => notEqual
  | notEqual => equal
  | less => greaterOrEqual
  | greater => lessOrEqual
  | lessOrEqual => greater
  | greaterOrEqual => less

namespace Compile

/-- The forms of an expression's code. -/
structure ExprCode where
  value : Compile (List Op)
  branch : (expected : Bool) → Compile (List Op × Test)
  operands : Compile (List Op × Nat)
  key : Compile (List Op)
  store : Compile (List Op)

/-- The parts of a place's code. -/
structure PlaceCode where
  key : Compile (List Op)
  cell : Compile Cell
  value : Compile (List Op)

def ExprCode.ofValue (value : Compile (List Op)) : ExprCode where
  value
  branch expected := return (← value, .truth expected)
  operands := return (← value, 1)
  key := value
  store := return [.drop]

def PlaceCode.store (p : PlaceCode) : Compile (List Op) := do
  let key ← p.key
  return key ++ [Op.store (← p.cell)]

/-- The code that pushes the values of some expressions, the first one lowest. -/
def valuesOf : List ExprCode → Compile (List Op)
  | [] => return []
  | e :: rest => do
    let code ← e.value
    return code ++ (← valuesOf rest)

def keyOf : List ExprCode → Compile (List Op)
  | [e] => e.key
  | es => return (← valuesOf es) ++ [Op.indexMulti es.length]

/-- The code that changes what a place holds and pushes the new value.  The key is computed once. -/
def modifyCode (p : PlaceCode) (change : Compile (List Op)) : Compile (List Op) := do
  let key ← p.key
  let cell ← p.cell
  match cell with
  | .scalar _ => return [Op.load cell] ++ (← change) ++ [Op.dupe, .store cell]
  | _ => return key ++ [Op.dupe, .load cell] ++ (← change) ++ [Op.dupe, .rote, .store cell]

/-- The code that changes what a place holds and pushes the old value as a number. -/
def modifyKeepCode (p : PlaceCode) (change : Compile (List Op)) : Compile (List Op) := do
  let key ← p.key
  let cell ← p.cell
  match cell with
  | .scalar _ => return [Op.load cell, .plus, .dupe] ++ (← change) ++ [Op.store cell]
  | _ => return key ++ [Op.dupe, .load cell, .plus, .dupe] ++ (← change) ++ [Op.rote, .store cell]

def stepCode (decr : Bool) : Compile (List Op) := do
  return [← num 1, .arith (if decr then .sub else .add)]

def choiceCode (test : List Op × Test) (yes no : List Op) : List Op :=
  test.1 ++ [Op.branch test.2 (yes.length + 1)] ++ yes ++ [Op.jump no.length] ++ no

def shortCode (decides : Bool) (left right : List Op) : List Op :=
  left ++ [Op.dupe, .branch (.truth decides) (right.length + 1), .drop] ++ right ++ [Op.boolean]

/-- The code of a substitution.  The text is stored only if something was replaced. -/
def subCode (pattern replacement text : List Op) (global : Bool) (store : List Op) : List Op :=
  pattern ++ replacement ++ text ++
    [Op.callSub global, .dupe, .branch (.truth true) 3, .swap, .drop, .jump (store.length + 1), .swap] ++
    store

/-- The arguments of a function, of which each goes to the next parameter: the code of the scalars, and
the arrays. -/
def argsCode (env : Env) : (arrays : List Bool) → List Expr → List ExprCode →
    Compile (List Op × List ArrayRef)
  | true :: arrays, .place (.var v) :: args, _ :: codes => do
    let a ← env.array v
    let (code, refs) ← argsCode env arrays args codes
    return (code, a :: refs)
  | true :: arrays, _ :: args, _ :: codes => argsCode env arrays args codes
  | arrays, _ :: args, c :: codes => do
    let first ← c.value
    let (code, refs) ← argsCode env arrays.tail args codes
    return (first ++ code, refs)
  | _, _, _ => return ([], [])

/-- The code of a call.  Scalars without an argument are not assigned yet. -/
def userCallCode (env : Env) (name : String) (args : List Expr) (codes : List ExprCode) :
    Compile (List Op) := do
  match env.resolution.lookupFunc name with
  | none => .fail (.unresolved name)
  | some info =>
    if info.native then
      return (← valuesOf codes) ++ [Op.callNative info.index args.length]
    else
      let (code, refs) ← argsCode env info.arrays args codes
      let missing := (info.arrays.drop args.length).count false
      let nulls := if missing = 0 then [] else [.nulls missing]
      return code ++ nulls ++ [Op.callUser info.index refs.length] ++ refs.map .arrayArg

def plainCallCode (f : Builtin) (codes : List ExprCode) : Compile (List Op) :=
  return (← valuesOf codes) ++ [Op.callBuiltin f codes.length]

def callCode (env : Env) (f : Builtin) (args : List Expr) (codes : List ExprCode) :
    Compile (List Op) := do
  match f, args, codes with
  | .length, [.place (.var v)], _ =>
    if env.isArray v then return [.callLengthArray (← env.array v)] else plainCallCode f codes
  | .split, _ :: .place (.var v) :: _, s :: _ :: rest =>
    let code ← s.value
    let sep ← valuesOf rest
    return code ++ sep ++ [Op.callSplit (← env.array v) (!rest.isEmpty)]
  | .sub, _, p :: r :: rest | .gsub, _, p :: r :: rest =>
    let pattern ← p.value
    let replacement ← r.value
    match rest with
    | t :: _ => return subCode pattern replacement (← t.value) (f == .gsub) (← t.store)
    | [] => return subCode pattern replacement [.fieldInt 0] (f == .gsub) [← num 0, .store .field]
  | _, _, _ => plainCallCode f codes

def smallField? (x : Float) : Option Nat :=
  match Number.whole? x with
  | some n => if 0 ≤ n ∧ n < Number.twoPow 32 then some n.toNat else none
  | none => none

def getlineCode (source : GetlineSource) (name : Compile (List Op)) (target : Option PlaceCode) :
    Compile (List Op) := do
  let code ← name
  match target with
  | none => return code ++ [Op.getline source none]
  | some p =>
    let key ← p.key
    return code ++ key ++ [Op.getline source (some (← p.cell))]

mutual

def placeCode (env : Env) : Place → PlaceCode
  | .var v =>
    { key := return []
      cell := return .scalar (← env.scalar v)
      value := return [Op.load (.scalar (← env.scalar v))] }
  | .index array index =>
    let key := keyOf (exprCodes env index)
    { key
      cell := return .element (← env.array array)
      value := do
        let code ← key
        return code ++ [Op.load (.element (← env.array array))] }
  | .field e =>
    let number := (exprCode env e).value
    { key := number
      cell := return .field
      value :=
        match e with
        | .num x =>
          match smallField? x with
          | some n => return [.fieldInt n]
          | none => return (← number) ++ [Op.load .field]
        | _ => return (← number) ++ [Op.load .field] }

def exprCode (env : Env) : Expr → ExprCode
  | .num x =>
    { ExprCode.ofValue (return [← num x]) with
      key :=
        match Number.whole? x with
        | some n => return [← str (Number.intText n)]
        | none => return [← num x] }
  | .str s => .ofValue (return [← str s])
  | .regex s => .ofValue (return [← regex s])
  | .place p =>
    let code := placeCode env p
    { ExprCode.ofValue code.value with store := code.store }
  | .assign target value =>
    let target := placeCode env target
    let value := exprCode env value
    .ofValue do
      let code ← value.value
      return code ++ [Op.dupe] ++ (← target.store)
  | .augAssign target op value =>
    let target := placeCode env target
    let value := exprCode env value
    .ofValue (modifyCode target (return (← value.value) ++ [Op.arith op]))
  | .incr target decr pre =>
    let target := placeCode env target
    .ofValue (if pre then modifyCode target (stepCode decr) else modifyKeepCode target (stepCode decr))
  | .unary op e =>
    let operand := exprCode env e
    match op with
    | .not =>
      { ExprCode.ofValue (return (← operand.value) ++ [Op.not]) with
        branch := fun expected => operand.branch (!expected) }
    | .minus => .ofValue (return (← operand.value) ++ [Op.minus])
    | .plus => .ofValue (return (← operand.value) ++ [Op.plus])
  | .binary left op right =>
    let l := exprCode env left
    let r := exprCode env right
    let both : Compile (List Op) := do
      let code ← l.value
      return code ++ (← r.value)
    match op with
    | .and => .ofValue do
      let code ← l.value
      return shortCode false code (← r.value)
    | .or => .ofValue do
      let code ← l.value
      return shortCode true code (← r.value)
    | .concat =>
      let operands : Compile (List Op × Nat) := do
        let (code, count) ← l.operands
        return (code ++ (← r.value), count + 1)
      { ExprCode.ofValue do
          let (code, count) ← operands
          return code ++ [if count = 2 then .concat else .concatMulti count] with operands }
    | .compare c =>
      { ExprCode.ofValue (return (← both) ++ [Op.compare c]) with
        branch := fun expected => return (← both, .compare (if expected then c else c.negated)) }
    | .arith op => .ofValue (return (← both) ++ [Op.arith op])
    | .match negated => .ofValue (return (← both) ++ [Op.match negated])
  | .cond test yes no =>
    let test := exprCode env test
    let yes := exprCode env yes
    let no := exprCode env no
    .ofValue do
      let test ← test.branch false
      let yes ← yes.value
      return choiceCode test yes (← no.value)
  | .member index array =>
    let key := keyOf (exprCodes env index)
    .ofValue do
      let code ← key
      return code ++ [Op.member (← env.array array)]
  | .call f args _ => .ofValue (callCode env f args (exprCodes env args))
  | .userCall name args _ => .ofValue (userCallCode env name args (exprCodes env args))
  | .getline target => .ofValue (getlineCode .main (return []) (targetCode env target))
  | .getlineFile file target =>
    .ofValue (getlineCode .file (exprCode env file).value (targetCode env target))
  | .getlineCommand command target =>
    .ofValue (getlineCode .command (exprCode env command).value (targetCode env target))

def targetCode (env : Env) : Option Place → Option PlaceCode
  | none => none
  | some p => some (placeCode env p)

def exprCodes (env : Env) : List Expr → List ExprCode
  | [] => []
  | e :: rest => exprCode env e :: exprCodes env rest

end

end Compile

end Awk
