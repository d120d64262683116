import Awk.Number.Decimal
import Awk.Text.Escape
import Std.Data.TreeMap

/-!
# Arithmetic of the shell

Expressions over 64-bit integers with the operators of C.  A name stands for the number its variable
holds.
-/

namespace Awk.Shell.Arithmetic

/-- Why an expression has no value. -/
inductive Mistake where
  /-- Something else should stand in the expression. -/
  | expected (what : String)
  | divisionByZero
  | notANumber (text : String)
deriving DecidableEq, Repr

inductive Expr where
  | number (n : Int64)
  | name (x : String)
  | unary (op : String) (e : Expr)
  | binary (op : String) (a b : Expr)
  | condition (c a b : Expr)
  | assign (x : String) (op : String) (e : Expr)
deriving Repr

inductive Token where
  | number (n : Int64)
  | name (x : String)
  | sign (s : String)
deriving DecidableEq, Repr

/-! ## Reading -/

def digit? (base : Nat) (c : Char) : Option Nat := (Text.hexDigit? c).filter (· < base)

/-- The number of the digits at the start of a text, and what follows; no number exceeds the greatest. -/
def takeDigits (base : Nat) (s : List Char) : Int64 × List Char :=
  let digits := s.takeWhile fun c => (digit? base c).isSome
  let n := digits.foldl (fun n c => n * base + (digit? base c).getD 0) 0
  (Int64.ofNat (min n Int64.maxValue.toInt.toNat), s.drop digits.length)

/-- The number at the start of a text that starts with a digit, and what follows: hexadecimal, octal or
decimal. -/
def takeNumber : List Char → Int64 × List Char
  | '0' :: x :: d :: s =>
    if (x = 'x' ∨ x = 'X') ∧ (digit? 16 d).isSome then takeDigits 16 (d :: s)
    else takeDigits 8 ('0' :: x :: d :: s)
  | '0' :: s => takeDigits 8 ('0' :: s)
  | s => takeDigits 10 s

/-- The number that a text without a sign writes. -/
def number? (s : List Char) : Option Int64 :=
  if s.head?.any Char.isDigit then
    match takeNumber s with
    | (n, []) => some n
    | _ => none
  else none

/-- The number that the value of a variable writes; zero if it is empty. -/
def value? (s : String) : Option Int64 :=
  match s.toList.filter fun c => c != ' ' && c != '\t' && c != '\n' with
  | [] => some 0
  | '-' :: s => (number? s).map fun n => -n
  | '+' :: s => number? s
  | s => number? s

def signs : List String :=
  ["<<=", ">>=", "<<", ">>", "<=", ">=", "==", "!=", "&&", "||", "*=", "/=", "%=", "+=", "-=", "&=", "^=", "|=",
   "+", "-", "*", "/", "%", "<", ">", "!", "~", "&", "|", "^", "?", ":", "(", ")", "="]

/-- The tokens of a text.  A character that is no part of any is one of its own.  `bound` is the length of
the text. -/
def tokens : (bound : Nat) → List Char → List Token
  | 0, _ | _, [] => []
  | bound + 1, c :: s =>
    if c = ' ' ∨ c = '\t' ∨ c = '\n' then tokens bound s
    else if c.isDigit then
      let (n, rest) := takeNumber (c :: s)
      .number n :: tokens bound rest
    else if c.isAlpha ∨ c = '_' then
      let name := (c :: s).takeWhile fun d => d.isAlphanum || d == '_'
      .name (String.ofList name) :: tokens bound ((c :: s).drop name.length)
    else
      let sign := (signs.find? fun sign => sign.toList.isPrefixOf (c :: s)).getD c.toString
      .sign sign :: tokens bound ((c :: s).drop sign.length)

/-- How tight an operator binds its operands; zero for signs that are none. -/
def strength : String → Nat
  | "||" => 1
  | "&&" => 2
  | "|" => 3
  | "^" => 4
  | "&" => 5
  | "==" | "!=" => 6
  | "<" | ">" | "<=" | ">=" => 7
  | "<<" | ">>" => 8
  | "+" | "-" => 9
  | "*" | "/" | "%" => 10
  | _ => 0

def assignment? (sign : String) : Option String :=
  if ["=", "<<=", ">>=", "*=", "/=", "%=", "+=", "-=", "&=", "^=", "|="].contains sign then
    some (String.ofList sign.toList.dropLast)
  else none

abbrev Reading := Except Mistake (Expr × List Token)

mutual

def readExpr : (bound : Nat) → List Token → Reading
  | 0, _ => .error (.expected "primary")
  | bound + 1, .name x :: .sign s :: rest => do
    match assignment? s with
    | some op =>
      let (e, rest) ← readExpr bound rest
      return (.assign x op e, rest)
    | none => readCondition bound (.name x :: .sign s :: rest)
  | bound + 1, ts => readCondition bound ts

/-- A condition with what it chooses between, or what stands for one. -/
def readCondition : (bound : Nat) → List Token → Reading
  | 0, _ => .error (.expected "primary")
  | bound + 1, ts => do
    let (c, rest) ← readBinary bound 1 ts
    match rest with
    | .sign "?" :: rest =>
      let (a, rest) ← readExpr bound rest
      match rest with
      | .sign ":" :: rest =>
        let (b, rest) ← readCondition bound rest
        return (.condition c a b, rest)
      | _ => .error (.expected "':'")
    | rest => return (c, rest)

/-- Operands with operators between them that bind at least this tight. -/
def readBinary : (bound : Nat) → (least : Nat) → List Token → Reading
  | 0, _, _ => .error (.expected "primary")
  | bound + 1, least, ts => do
    let (a, rest) ← readUnary bound ts
    readMore bound least a rest

/-- More operators and operands behind an expression. -/
def readMore : (bound : Nat) → (least : Nat) → Expr → List Token → Reading
  | 0, _, _, _ => .error (.expected "primary")
  | bound + 1, least, a, ts =>
    match ts with
    | .sign op :: rest =>
      if strength op = 0 ∨ strength op < least then .ok (a, ts)
      else do
        let (b, rest) ← readBinary bound (strength op + 1) rest
        readMore bound least (.binary op a b) rest
    | _ => .ok (a, ts)

/-- A number, a name, an expression in brackets, or an operator before one of them. -/
def readUnary : (bound : Nat) → List Token → Reading
  | 0, _ => .error (.expected "primary")
  | _, .number n :: rest => .ok (.number n, rest)
  | _, .name x :: rest => .ok (.name x, rest)
  | bound + 1, .sign "(" :: rest => do
    let (e, rest) ← readExpr bound rest
    match rest with
    | .sign ")" :: rest => return (e, rest)
    | _ => .error (.expected "')'")
  | bound + 1, .sign op :: rest => do
    if op = "-" ∨ op = "+" ∨ op = "!" ∨ op = "~" then
      let (e, rest) ← readUnary bound rest
      return (.unary op e, rest)
    else .error (.expected "primary")
  | _, [] => .error (.expected "primary")

end

/-- The expression of a text; zero for one without tokens. -/
def read (s : String) : Except Mistake Expr := do
  match tokens s.length s.toList with
  | [] => return .number 0
  | ts =>
    let (e, rest) ← readExpr (8 * ts.length + 8) ts
    if rest.isEmpty then return e else .error (.expected "EOF")

/-! ## Values -/

abbrev Variables := Std.TreeMap String String

def text (n : Int64) : String :=
  if n.toInt < 0 then "-" ++ Number.natText (-n.toInt).toNat else Number.natText n.toInt.toNat

def truth (b : Bool) : Int64 := if b then 1 else 0

/-- The value of an operator that needs both of its operands. -/
def apply (op : String) (a b : Int64) : Except Mistake Int64 :=
  match op with
  | "|" => .ok (a ||| b)
  | "^" => .ok (a ^^^ b)
  | "&" => .ok (a &&& b)
  | "==" => .ok (truth (a == b))
  | "!=" => .ok (truth (a != b))
  | "<" => .ok (truth (a < b))
  | ">" => .ok (truth (b < a))
  | "<=" => .ok (truth (a ≤ b))
  | ">=" => .ok (truth (b ≤ a))
  | "<<" => .ok (a <<< b)
  | ">>" => .ok (a >>> b)
  | "+" => .ok (a + b)
  | "-" => .ok (a - b)
  | "*" => .ok (a * b)
  | "/" => if b = 0 then .error .divisionByZero else .ok (a / b)
  | "%" => if b = 0 then .error .divisionByZero else .ok (a % b)
  | _ => .ok b

def lookup (vars : Variables) (x : String) : Except Mistake Int64 :=
  let s := vars.getD x ""
  (value? s).elim (.error (.notANumber s)) .ok

def eval (vars : Variables) : Expr → Except Mistake (Int64 × Variables)
  | .number n => .ok (n, vars)
  | .name x => do return (← lookup vars x, vars)
  | .unary op e => do
    let (n, vars) ← eval vars e
    return (match op with
      | "-" => -n
      | "!" => truth (n == 0)
      | "~" => ~~~n
      | _ => n, vars)
  | .binary op a b => do
    let (m, vars) ← eval vars a
    if op = "&&" ∧ m = 0 then return (0, vars)
    else if op = "||" ∧ m ≠ 0 then return (1, vars)
    else
      let (n, vars) ← eval vars b
      if op = "&&" ∨ op = "||" then return (truth (n != 0), vars)
      else return (← apply op m n, vars)
  | .condition c a b => do
    let (n, vars) ← eval vars c
    if n ≠ 0 then eval vars a else eval vars b
  | .assign x op e => do
    let (n, vars) ← eval vars e
    let n ← if op.isEmpty then pure n else apply op (← lookup vars x) n
    return (n, vars.insert x (text n))

end Awk.Shell.Arithmetic
