import Awk.Token
import Awk.Value.Compare

/-!
# Programs as parsed

A script is what a program text says: blocks to run before and after the input, rules to apply to every
record, and functions.  Variables are given by name only; what a name refers to is found out later.
-/

namespace Awk

/-- A variable's name and where it stands. -/
structure VarRef where
  name : String
  extent : Extent
deriving DecidableEq, Repr

/-- An operation on two numbers. -/
inductive Arith where
  | add | sub | mul | div | mod | pow
deriving DecidableEq, Repr

def Arith.sign : Arith → String
  | add => "+"
  | sub => "-"
  | mul => "*"
  | div => "/"
  | mod => "%"
  | pow => "^"

/-- An operator between two operands. -/
inductive BinaryOp where
  | arith (op : Arith)
  | concat
  | compare (op : Comparison)
  /-- Whether the left text matches the right pattern, or does not. -/
  | «match» (negated : Bool)
  | and
  | or
deriving DecidableEq, Repr

def Comparison.sign : Comparison → String
  | equal => "=="
  | notEqual => "!="
  | less => "<"
  | lessOrEqual => "<="
  | greater => ">"
  | greaterOrEqual => ">="

/-- The sign of an operator; operands side by side have a blank between them. -/
def BinaryOp.sign : BinaryOp → String
  | arith op => op.sign
  | concat => " "
  | compare op => op.sign
  | «match» negated => if negated then "!~" else "~"
  | and => "&&"
  | or => "||"

/-- An operator before one operand. -/
inductive UnaryOp where
  | minus | plus | not
deriving DecidableEq, Repr

def UnaryOp.sign : UnaryOp → String
  | minus => "-"
  | plus => "+"
  | not => "!"

mutual

inductive Place where
  | var (v : VarRef)
  | index (array : VarRef) (index : List Expr)
  | field (number : Expr)

inductive Expr where
  | num (value : Float)
  | str (text : String)
  /-- A regex by itself, which is matched against the record. -/
  | regex (text : String)
  | place (p : Place)
  | assign (target : Place) (value : Expr)
  | augAssign (target : Place) (op : Arith) (value : Expr)
  | incr (target : Place) (decr pre : Bool)
  | unary (op : UnaryOp) (operand : Expr)
  | binary (left : Expr) (op : BinaryOp) (right : Expr)
  | cond (test yes no : Expr)
  | member (index : List Expr) (array : VarRef)
  | call (func : Builtin) (args : List Expr) (extent : Extent)
  | userCall (name : String) (args : List Expr) (extent : Extent)
  /-- The next record of the main input. -/
  | getline (target : Option Place)
  | getlineFile (file : Expr) (target : Option Place)
  | getlineCommand (command : Expr) (target : Option Place)

end

def Expr.place? : Expr → Option Place
  | place p => some p
  | _ => none

/-- A regex where a pattern is wanted stands for its text. -/
def Expr.asPattern : Expr → Expr
  | regex s => str s
  | e => e

/-- Where output goes. -/
inductive RedirectKind where
  | file | append | pipe
deriving DecidableEq, Repr

structure Redirect where
  kind : RedirectKind
  dest : Expr

inductive Stmt where
  | print (args : List Expr) (redirect : Option Redirect)
  | printf (args : List Expr) (redirect : Option Redirect)
  | expr (e : Expr)
  | ifElse (cond : Expr) (body : List Stmt) (otherwise : Option (List Stmt))
  | forLoop (init : Option Stmt) (cond : Option Expr) (post : Option Stmt) (body : List Stmt)
  | forIn (var array : VarRef) (body : List Stmt)
  | whileLoop (cond : Expr) (body : List Stmt)
  | doWhile (body : List Stmt) (cond : Expr)
  | breakLoop (extent : Extent)
  | continueLoop (extent : Extent)
  | next (extent : Extent)
  | nextFile (extent : Extent)
  | exit (status : Option Expr)
  | returnValue (value : Option Expr)
  | delete (array : VarRef) (index : Option (List Expr))
  | block (body : List Stmt)

/-- The statements that a statement stands for as the body of another. -/
def Stmt.asBody : Stmt → List Stmt
  | block body => body
  | s => [s]

/-- Which records a rule applies to. -/
inductive RulePattern where
  | all
  | expr (e : Expr)
  /-- From a record that meets the first expression to one that meets the second. -/
  | range (start stop : Expr)

/-- A rule; without a body it prints the record. -/
structure Rule where
  pattern : RulePattern
  body : Option (List Stmt)

structure Function where
  name : String
  params : List String
  body : List Stmt
  extent : Extent

/-- A program, its parts grouped by kind and in the order of the text. -/
structure Script where
  begin : List (List Stmt) := []
  rules : List Rule := []
  final : List (List Stmt) := []
  functions : List Function := []

end Awk
