import Awk.Script.Grammar

/-!
# The grammar of expressions

From the loosest to the tightest: assignment and `?:`, which group to the right; `||`; `&&`; `in`; `~`
and `!~`; comparisons, which do not group; `|` before `getline`; operands side by side; `+` and `-`;
`*`, `/` and `%`; the signs `!`, `-`, `+`; `^`, which groups to the right; `++` and `--`; `$`.

Each level is written over `Inner`, the readers for what stands deeper inside.  They are used only
after a token has been taken, so that a nesting as deep as there are tokens is enough.  Where `>` sends
output to a file it is no comparison, which the flag `noGreater` tells.
-/

namespace Awk.Reader

/-- Readers for what stands deeper inside an expression. -/
structure Inner where
  expr : (noGreater : Bool) → Reader Expr
  unary : Reader Expr
  primary : Reader Expr

/-! ## Operands -/

def arrayName : Reader VarRef := do
  let tok ← current
  match tok.kind with
  | .name name =>
    let _ ← advance
    return ⟨name, tok.extent⟩
  | _ => refuse "array name"

/-- One step through a list of expressions with commas between them; the list may end with a comma. -/
def exprListStep (r : Inner) (close : Mark) (before : List Expr) : Reader (Step (List Expr)) := do
  skipNewlines
  if ← at? close then return .done before
  let e ← r.expr false
  skipNewlines
  if ← accept .comma then return .more (e :: before) else return .done (e :: before)

/-- Expressions with commas between them up to a closing mark, which is taken too. -/
def exprList (r : Inner) (close : Mark) : Reader (List Expr) := do
  let es ← loop (exprListStep r close) []
  expect close
  return es.reverse

/-- Where `getline` puts what it reads, if that is told. -/
def getlineTarget (r : Inner) : Reader (Option Place) := do
  match ← peek with
  | .name _ | .mark .dollar =>
    match (← r.primary).place? with
    | some p => return some p
    | none => refuse "variable"
  | _ => return none

def increment (r : Inner) (sign : Mark) (decr : Bool) : Reader Expr := do
  let tok ← advance
  match (← r.primary).place? with
  | some p => return .incr p decr true
  | none => misuse (.noPlaceAfter sign) tok.extent

def fieldNumber (r : Inner) : Reader Expr := do
  match ← peekMark with
  | some .incr => increment r .incr false
  | some .decr => increment r .decr true
  | some .minus =>
    let _ ← advance
    return .unary .minus (← r.primary)
  | some .plus =>
    let _ ← advance
    return .unary .plus (← r.primary)
  | some .not =>
    let _ ← advance
    return .unary .not (← r.primary)
  | _ => r.primary

/-- An expression in parentheses, or several as the index in front of `in`. -/
def parenthesized (r : Inner) (extent : Extent) : Reader Expr := do
  match ← exprList r .rParen with
  | [] => misuse .emptyParens extent
  | [e] => return e
  | es =>
    if ← accept .in then return .member es (← arrayName) else misuse .commaInParens extent

/-- Puts the text of a regex in the place of a pattern argument. -/
def patternArgs (f : Builtin) (args : List Expr) : List Expr :=
  match f.patternArg with
  | some i => args.modify i Expr.asPattern
  | none => args

/-- Why a builtin function cannot be called with the given arguments. -/
def callMisuse (f : Builtin) (args : List Expr) : Option Misuse :=
  if !f.takes args.length then some (.argCount f)
  else
    match f, args with
    | .split, _ :: .place (.var _) :: _ => none
    | .split, _ => some .splitWithoutArray
    | .sub, [_, _, e] | .gsub, [_, _, e] =>
      if e.place?.isSome then none else some (.subWithoutPlace f)
    | _, _ => none

/-- A call of a builtin function; `length` may stand without parentheses. -/
def builtinCall (r : Inner) (f : Builtin) (extent : Extent) : Reader Expr := do
  if f == .length && !(← at? .lParen) then return .call f [] extent
  expect .lParen
  let args ← exprList r .rParen
  match callMisuse f args with
  | some why => misuse why extent
  | none => return .call f (patternArgs f args) extent

def primary (r : Inner) : Reader Expr := do
  let tok ← current
  match tok.kind with
  | .number x =>
    let _ ← advance
    return .num x
  | .str s =>
    let _ ← advance
    return .str s
  | .regex s =>
    let _ ← advance
    return .regex s
  | .name name =>
    let _ ← advance
    if ← accept .lBracket then
      match ← exprList r .rBracket with
      | [] => misuse .emptyIndex tok.extent
      | index => return .place (.index ⟨name, tok.extent⟩ index)
    else return .place (.var ⟨name, tok.extent⟩)
  | .funcName name =>
    let _ ← advance
    expect .lParen
    return .userCall name (← exprList r .rParen) tok.extent
  | .builtin f =>
    let _ ← advance
    builtinCall r f tok.extent
  | .mark .dollar =>
    let _ ← advance
    return .place (.field (← fieldNumber r))
  | .mark .lParen =>
    let _ ← advance
    parenthesized r tok.extent
  | .mark .getline =>
    let _ ← advance
    let target ← getlineTarget r
    if ← accept .less then return .getlineFile (← r.primary) target else return .getline target
  | _ => refuse "expression"

/-! ## Signs and powers -/

def incremented (r : Inner) : Reader Expr := do
  match ← peekMark with
  | some .incr => increment r .incr false
  | some .decr => increment r .decr true
  | _ =>
    let e ← primary r
    match e.place? with
    | none => return e
    | some p =>
      if ← accept .incr then return .incr p false false
      else if ← accept .decr then return .incr p true false
      else return e

def power (r : Inner) : Reader Expr := do
  let base ← incremented r
  if ← accept .caret then return .binary base (.arith .pow) (← r.unary) else return base

def unaryOp? : Mark → Option UnaryOp
  | .not => some .not
  | .minus => some .minus
  | .plus => some .plus
  | _ => none

def unary (r : Inner) : Reader Expr := do
  match (← peekMark).bind unaryOp? with
  | some op =>
    let _ ← advance
    return .unary op (← r.unary)
  | none => power r

/-! ## Operators between operands -/

def leftGrouped (op? : Mark → Option BinaryOp) (afterOp : Reader Unit) (first right : Reader Expr) :
    Reader Expr := do
  let e ← first
  loop (fun left => do
    match (← peekMark).bind op? with
    | none => return .done left
    | some op =>
      let _ ← advance
      afterOp
      return .more (.binary left op (← right))) e

def multiplicative (r : Inner) : Reader Expr :=
  leftGrouped (fun
    | .star => some (.arith .mul)
    | .slash => some (.arith .div)
    | .percent => some (.arith .mod)
    | _ => none) (pure ()) (unary r) (unary r)

def additive (r : Inner) : Reader Expr :=
  leftGrouped (fun
    | .plus => some (.arith .add)
    | .minus => some (.arith .sub)
    | _ => none) (pure ()) (multiplicative r) (multiplicative r)

/-- Whether a token may start an operand that stands beside another one. -/
def startsOperand : Token.Kind → Bool
  | .mark m => m == .dollar || m == .not || m == .lParen || m == .incr || m == .decr
  | _ => true

def concatenation (r : Inner) : Reader Expr := do
  let e ← additive r
  loop (fun left => do
    if startsOperand (← peek) then return .more (.binary left .concat (← additive r))
    else return .done left) e

def atPipeGetline : Reader Bool := fun ts =>
  .ok (match ts with
    | a :: b :: _ => a.kind.isMark .pipe && b.kind.isMark .getline
    | _ => false, ts)

def pipeGetline (r : Inner) : Reader Expr := do
  let e ← concatenation r
  loop (fun left => do
    if ← atPipeGetline then
      let _ ← advance
      let _ ← advance
      return .more (.getlineCommand left (← getlineTarget r))
    else return .done left) e

def comparison? (noGreater : Bool) : Mark → Option Comparison
  | .equals => some .equal
  | .notEquals => some .notEqual
  | .less => some .less
  | .lessOrEqual => some .lessOrEqual
  | .greater => if noGreater then none else some .greater
  | .greaterOrEqual => some .greaterOrEqual
  | _ => none

def comparison (r : Inner) (noGreater : Bool) : Reader Expr := do
  let left ← pipeGetline r
  match (← peekMark).bind (comparison? noGreater) with
  | none => return left
  | some op =>
    let _ ← advance
    return .binary left (.compare op) (← pipeGetline r)

def matching (r : Inner) (noGreater : Bool) : Reader Expr :=
  leftGrouped (fun
    | .match => some (.match false)
    | .notMatch => some (.match true)
    | _ => none) (pure ()) (comparison r noGreater) (Expr.asPattern <$> comparison r noGreater)

def membership (r : Inner) (noGreater : Bool) : Reader Expr := do
  let e ← matching r noGreater
  loop (fun left => do
    if ← accept .in then return .more (.member [left] (← arrayName)) else return .done left) e

/-- Conjunctions; the line may end behind the operator. -/
def conjunction (r : Inner) (noGreater : Bool) : Reader Expr :=
  leftGrouped (fun
    | .and => some .and
    | _ => none) skipNewlines (membership r noGreater) (membership r noGreater)

/-- Disjunctions; the line may end behind the operator. -/
def disjunction (r : Inner) (noGreater : Bool) : Reader Expr :=
  leftGrouped (fun
    | .or => some .or
    | _ => none) skipNewlines (conjunction r noGreater) (conjunction r noGreater)

def ternary (r : Inner) (noGreater : Bool) : Reader Expr := do
  let test ← disjunction r noGreater
  if ← accept .question then
    skipNewlines
    let yes ← r.expr noGreater
    skipNewlines
    expect .colon
    skipNewlines
    return .cond test yes (← r.expr noGreater)
  else return test

def assignment? : Mark → Option (Option Arith)
  | .assign => some none
  | .addAssign => some (some .add)
  | .subAssign => some (some .sub)
  | .mulAssign => some (some .mul)
  | .divAssign => some (some .div)
  | .modAssign => some (some .mod)
  | .powAssign => some (some .pow)
  | _ => none

/-- An expression.  Only behind a place an assignment may follow. -/
def assignment (r : Inner) (noGreater : Bool) : Reader Expr := do
  let e ← ternary r noGreater
  match e.place?, (← peekMark).bind assignment? with
  | some target, some op =>
    let _ ← advance
    skipNewlines
    let value ← r.expr noGreater
    match op with
    | none => return .assign target value
    | some op => return .augAssign target op value
  | _, _ => return e

/-! ## Nesting -/

def Inner.ofDepth : Nat → Inner
  | 0 => ⟨fun _ => throw .exhausted, throw .exhausted, throw .exhausted⟩
  | depth + 1 =>
    let r := ofDepth depth
    ⟨assignment r, Reader.unary r, Reader.primary r⟩

end Awk.Reader

namespace Awk

/-- The expression that some tokens start with, and the tokens behind it. -/
def Expr.ofTokens (tokens : List Token) : Except ParseError (Expr × List Token) :=
  (Reader.Inner.ofDepth (tokens.length + 1)).expr false tokens

end Awk
