import Awk.Script.ExprGrammar

/-!
# The grammar of statements and programs

Simple statements end with a line end, a semicolon, or before a closing brace.  What surrounds a
statement decides whether `break`, `return` or `next` may stand there.
-/

namespace Awk.Reader

structure Surroundings where
  inLoop : Bool := false
  inFunction : Bool := false
  inBeginOrEnd : Bool := false
deriving DecidableEq, Repr

/-! ## Output -/

def redirect? : Mark → Option RedirectKind
  | .greater => some .file
  | .append => some .append
  | .pipe => some .pipe
  | _ => none

/-- Whether the arguments of an output statement may end before the next token. -/
def atOutputEnd : Reader Bool := do
  return (← atTerminator) || ((← peekMark).bind redirect?).isSome

def outputArgsStep (r : Inner) (before : List Expr) : Reader (Step (List Expr)) := do
  let e ← r.expr true
  if ← accept .comma then
    skipNewlines
    return .more (e :: before)
  else return .done (e :: before)

def outputArgs (r : Inner) : Reader (List Expr) := do
  return (← loop (outputArgsStep r) []).reverse

/-- The arguments of an output statement that starts with a parenthesis: all of them between
parentheses, or else expressions of which the first starts with one. -/
def groupedArgs (r : Inner) : Reader (List Expr) := fun ts =>
  match (do
      let _ ← advance
      let args ← exprList r .rParen
      return (args, ← atOutputEnd) : Reader (List Expr × Bool)) ts with
  | .ok ((args, true), rest) => .ok (args, rest)
  | _ => outputArgs r ts

/-- Where output goes, if it is sent elsewhere. -/
def redirection (r : Inner) : Reader (Option Redirect) := do
  match (← peekMark).bind redirect? with
  | none => return none
  | some kind =>
    let _ ← advance
    return some ⟨kind, ← concatenation r⟩

def output (r : Inner) (formatted : Bool) : Reader Stmt := do
  let tok ← advance
  let args ←
    if ← atOutputEnd then pure []
    else if ← at? .lParen then groupedArgs r
    else outputArgs r
  if formatted && args.isEmpty then misuse .printfWithoutFormat tok.extent
  let dest ← redirection r
  return if formatted then .printf args dest else .print args dest

/-! ## Simple statements -/

/-- An expression unless the statement ends here. -/
def optionalExpr (r : Inner) : Reader (Option Expr) := do
  if ← atTerminator then return none else return some (← r.expr false)

def simple (r : Inner) (s : Surroundings) : Reader Stmt := do
  let tok ← current
  match tok.kind with
  | .mark .print => output r false
  | .mark .printf => output r true
  | .mark .delete =>
    let _ ← advance
    let array ← arrayName
    if ← accept .lBracket then return .delete array (some (← exprList r .rBracket))
    else return .delete array none
  | .mark .break =>
    let _ ← advance
    if s.inLoop then return .breakLoop tok.extent else misuse (.outsideLoop .break) tok.extent
  | .mark .continue =>
    let _ ← advance
    if s.inLoop then return .continueLoop tok.extent else misuse (.outsideLoop .continue) tok.extent
  | .mark .next =>
    let _ ← advance
    if s.inBeginOrEnd then misuse (.inBeginOrEnd .next) tok.extent else return .next tok.extent
  | .mark .nextFile =>
    let _ ← advance
    if s.inBeginOrEnd then misuse (.inBeginOrEnd .nextFile) tok.extent else return .nextFile tok.extent
  | .mark .exit =>
    let _ ← advance
    return .exit (← optionalExpr r)
  | .mark .return =>
    let _ ← advance
    if s.inFunction then return .returnValue (← optionalExpr r) else misuse .returnOutside tok.extent
  | _ => return .expr (← r.expr false)

def endSimple : Reader Unit := do
  match ← peekMark with
  | some .newline | some .semicolon =>
    let _ ← advance
    return ()
  | some .rBrace | some .eof => return ()
  | _ => refuse "end of statement"

/-! ## Statements around statements -/

def blockStep (nested : Reader Stmt) (before : List Stmt) : Reader (Step (List Stmt)) := do
  skipTerminators
  match ← peekMark with
  | some .rBrace =>
    let _ ← advance
    return .done before
  | some .eof => refuse "'\x7d'"
  | _ => return .more ((← nested) :: before)

def block (nested : Reader Stmt) : Reader (List Stmt) := do
  expect .lBrace
  return (← loop (blockStep nested) []).reverse

def body (nested : Reader Stmt) : Reader (List Stmt) := do
  if ← accept .semicolon then return []
  skipNewlines
  return (← nested).asBody

def condition (r : Inner) : Reader Expr := do
  expect .lParen
  let e ← r.expr false
  expect .rParen
  return e

/-- Goes on behind terminators if `else` stands there, and stays where it is otherwise. -/
def acceptElse : Reader Bool := fun ts =>
  match (do skipTerminators; accept .else : Reader Bool) ts with
  | .ok (true, rest) => .ok (true, rest)
  | _ => .ok (false, ts)

def conditional (r : Inner) (nested : Reader Stmt) : Reader Stmt := do
  let _ ← advance
  let cond ← condition r
  let yes ← body nested
  if ← acceptElse then
    skipNewlines
    return .ifElse cond yes (some (← nested).asBody)
  else return .ifElse cond yes none

/-- The names in the head of a loop over an array. -/
def forInHead : Reader (Option (VarRef × VarRef)) := fun ts =>
  match ts with
  | ⟨.name var, varAt⟩ :: ⟨.mark .in, _⟩ :: ⟨.name array, arrayAt⟩ :: ⟨.mark .rParen, _⟩ :: rest =>
    .ok (some (⟨var, varAt⟩, ⟨array, arrayAt⟩), rest)
  | _ => .ok (none, ts)

def unless? {α : Type} (m : Mark) (p : Reader α) : Reader (Option α) := do
  if ← at? m then return none else return some (← p)

def forLoop (r : Inner) (s : Surroundings) (nested : Reader Stmt) : Reader Stmt := do
  let _ ← advance
  expect .lParen
  match ← forInHead with
  | some (var, array) => return .forIn var array (← body nested)
  | none =>
    let init ← unless? .semicolon (simple r s)
    expect .semicolon
    skipNewlines
    let cond ← unless? .semicolon (r.expr false)
    expect .semicolon
    skipNewlines
    let post ← unless? .rParen (simple r s)
    expect .rParen
    return .forLoop init cond post (← body nested)

def doLoop (r : Inner) (nested : Reader Stmt) : Reader Stmt := do
  let _ ← advance
  skipNewlines
  let body := (← nested).asBody
  skipTerminators
  expect .while
  let cond ← condition r
  endSimple
  return .doWhile body cond

def stmt (r : Inner) : (depth : Nat) → Surroundings → Reader Stmt
  | 0, _ => throw .exhausted
  | depth + 1, s => do
    let nested := stmt r depth s
    let looped := stmt r depth { s with inLoop := true }
    match ← peekMark with
    | some .lBrace => return .block (← block nested)
    | some .if => conditional r nested
    | some .while =>
      let _ ← advance
      let cond ← condition r
      return .whileLoop cond (← body looped)
    | some .do => doLoop r looped
    | some .for => forLoop r s looped
    | some .semicolon =>
      let _ ← advance
      return .block []
    | _ =>
      let st ← simple r s
      endSimple
      return st

/-! ## Programs -/

/-- The readers for the parts of a program. -/
structure Parts where
  inner : Inner
  stmt : Surroundings → Reader Stmt

def paramsStep (before : List String) : Reader (Step (List String)) := do
  match ← peek with
  | .mark .rParen => return .done before
  | .name param =>
    let _ ← advance
    if ← accept .comma then
      skipNewlines
      return .more (param :: before)
    else return .done (param :: before)
  | _ => refuse "parameter name"

def functionName : Reader String := do
  let tok ← current
  match tok.kind with
  | .name name | .funcName name =>
    let _ ← advance
    return name
  | .builtin f => misuse (.builtinAsFunction f) tok.extent
  | _ => refuse "function name"

def function (p : Parts) : Reader Function := do
  let tok ← advance
  let name ← functionName
  expect .lParen
  let params ← loop paramsStep []
  expect .rParen
  skipNewlines
  let body ← block (p.stmt { inFunction := true })
  return ⟨name, params.reverse, body, tok.extent⟩

def rule (p : Parts) : Reader Rule := do
  if ← at? .lBrace then return ⟨.all, some (← block (p.stmt {}))⟩
  let start ← p.inner.expr false
  let pattern ←
    if ← accept .comma then do
      skipNewlines
      pure (RulePattern.range start (← p.inner.expr false))
    else pure (RulePattern.expr start)
  if ← at? .lBrace then return ⟨pattern, some (← block (p.stmt {}))⟩
  unless ← atTerminator do refuse "'\x7b' or end of pattern"
  return ⟨pattern, none⟩

/-- Adds the next part of a program; the parts before it are in the script, the last one first. -/
def part (p : Parts) (s : Script) : Reader Script := do
  match ← peekMark with
  | some .begin =>
    let _ ← advance
    let body ← block (p.stmt { inBeginOrEnd := true })
    return { s with begin := body :: s.begin }
  | some .final =>
    let _ ← advance
    let body ← block (p.stmt { inBeginOrEnd := true })
    return { s with final := body :: s.final }
  | some .function =>
    let f ← function p
    return { s with functions := f :: s.functions }
  | _ =>
    let r ← rule p
    return { s with rules := r :: s.rules }

def programStep (p : Parts) (s : Script) : Reader (Step Script) := do
  skipTerminators
  if ← at? .eof then return .done s else return .more (← part p s)

def program (p : Parts) : Reader Script := do
  let s ← loop (programStep p) {}
  return ⟨s.begin.reverse, s.rules.reverse, s.final.reverse, s.functions.reverse⟩

end Awk.Reader

namespace Awk

def Script.ofTokens (tokens : List Token) : Except ParseError Script := do
  let r := Reader.Inner.ofDepth (tokens.length + 1)
  let p : Reader.Parts := ⟨r, Reader.stmt r (tokens.length + 1)⟩
  return (← Reader.program p tokens).1

end Awk
