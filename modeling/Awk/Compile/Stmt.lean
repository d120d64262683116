import Awk.Compile.Expr

/-!
# Code of statements

The code of a statement leaves the stack as it was.  `break` and `continue` become jumps when the loop
around them is put together, because only then their distance is known.
-/

namespace Awk.Compile

/-- An instruction, or a jump that the loop around it decides. -/
inductive Piece where
  | op (o : Op)
  | leave
  | again
deriving DecidableEq, Repr

/-- Code outside all loops has no jumps left to decide. -/
def Piece.settled : Piece → Op
  | op o => o
  | leave | again => .jump 0

/-- The instructions of pieces from an address on: `leave` makes the instruction that leaves the loop
from an address, and `again` is the address of the next round. -/
def closeFrom (leave : Nat → Op) (again : Nat) : Nat → List Piece → List Op
  | _, [] => []
  | i, .op o :: rest => o :: closeFrom leave again (i + 1) rest
  | i, .leave :: rest => leave i :: closeFrom leave again (i + 1) rest
  | i, .again :: rest => .jump (again - (i + 1)) :: closeFrom leave again (i + 1) rest

def ops (code : List Op) : List Piece := code.map .op

/-- The part of a loop behind its entry: the body, what follows each round, and the jump back to the
body.  It is left by a jump behind it. -/
def closeLoop (body post : List Piece) (test : List Op) (back : Int → Op) : List Op :=
  let length := body.length + post.length + test.length + 1
  closeFrom (fun i => .jump (length - (i + 1))) body.length 0 (body ++ post) ++ test ++ [back (-length)]

def closeForIn (body : List Piece) : List Op :=
  closeFrom (fun _ => .breakForIn) body.length 0 body

/-- The code of an expression whose value is not used.  Assignments store the value at once. -/
def effectCode (env : Env) : Expr → Compile (List Op)
  | .assign target value => do
    let code ← (exprCode env value).value
    return code ++ (← (placeCode env target).store)
  | .augAssign target op value => do
    let code ← (exprCode env value).value
    let p := placeCode env target
    let key ← p.key
    return code ++ key ++ [.aug op (← p.cell)]
  | .incr target decr _ => do
    let p := placeCode env target
    let key ← p.key
    return key ++ [.incr (if decr then -1 else 1) (← p.cell)]
  | e => return (← (exprCode env e).value) ++ [.drop]

def outputCode (env : Env) (formatted : Bool) (args : List Expr) (redirect : Option Redirect) :
    Compile (List Op) := do
  let code ← valuesOf (exprCodes env args)
  match redirect with
  | none => return code ++ [.output formatted args.length none]
  | some r =>
    let dest ← (exprCode env r.dest).value
    return code ++ dest ++ [.output formatted args.length (some r.kind)]

mutual

def stmtCode (env : Env) : Stmt → Compile (List Piece)
  | .print args redirect => return ops (← outputCode env false args redirect)
  | .printf args redirect => return ops (← outputCode env true args redirect)
  | .expr e => return ops (← effectCode env e)
  | .ifElse cond body otherwise => do
    let (test, t) ← (exprCode env cond).branch false
    let yes ← bodyCode env body
    match otherwise with
    | none => return ops (test ++ [.branch t yes.length]) ++ yes
    | some body =>
      let no ← bodyCode env body
      return ops (test ++ [.branch t (yes.length + 1)]) ++ yes ++ [.op (.jump no.length)] ++ no
  | .forLoop init cond post body => do
    let first ← initCode env init
    match cond with
    | none =>
      let round ← bodyCode env body
      let after ← initCode env post
      return first ++ ops (closeLoop round after [] .jump)
    | some cond =>
      let (entry, t) ← (exprCode env cond).branch false
      let round ← bodyCode env body
      let after ← initCode env post
      let (test, u) ← (exprCode env cond).branch true
      let loop := closeLoop round after test (.branch u)
      return first ++ ops (entry ++ [.branch t loop.length] ++ loop)
  | .whileLoop cond body => do
    let (entry, t) ← (exprCode env cond).branch false
    let round ← bodyCode env body
    let (test, u) ← (exprCode env cond).branch true
    let loop := closeLoop round [] test (.branch u)
    return ops (entry ++ [.branch t loop.length] ++ loop)
  | .doWhile body cond => do
    let round ← bodyCode env body
    let (test, u) ← (exprCode env cond).branch true
    return ops (closeLoop round [] test (.branch u))
  | .forIn var array body => do
    let v ← env.scalar var
    let a ← env.array array
    let round ← bodyCode env body
    return ops (.forIn v a round.length :: closeForIn round)
  | .breakLoop _ => return [.leave]
  | .continueLoop _ => return [.again]
  | .next _ => return ops [.next]
  | .nextFile _ => return ops [.nextFile]
  | .exit none => return ops [.exit]
  | .exit (some e) => return ops ((← (exprCode env e).value) ++ [.exitStatus])
  | .returnValue none => return ops [.returnNull]
  | .returnValue (some e) => return ops ((← (exprCode env e).value) ++ [.return])
  | .delete array none => return ops [.deleteAll (← env.array array)]
  | .delete array (some index) => do
    let a ← env.array array
    return ops ((← keyOf (exprCodes env index)) ++ [.delete a])
  | .block body => bodyCode env body

def initCode (env : Env) : Option Stmt → Compile (List Piece)
  | none => return []
  | some s => stmtCode env s

def bodyCode (env : Env) : List Stmt → Compile (List Piece)
  | [] => return []
  | s :: rest => do
    let code ← stmtCode env s
    return code ++ (← bodyCode env rest)

end

def blockCode (env : Env) (body : List Stmt) : Compile Code := do
  return ((← bodyCode env body).map Piece.settled).toArray

end Awk.Compile
