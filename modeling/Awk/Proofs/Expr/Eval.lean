import Awk.Machine.Exec
import Awk.Compile.Expr
import Awk.Proofs.Script.Subexpr

/-!
# The meaning of expressions

What an expression means, said without code and without a stack for values that are still needed: operands
are evaluated from left to right, and every effect on the machine comes where the expression says.  Subscripts
and numbers of fields are values like all others, and become texts and numbers where they are used.
-/

namespace Awk

open Compile (Env)

/-- Expressions but for calls of functions of the program or the host, `getline` and substitutions. -/
def Expr.Simple : Expr → Prop
  | .userCall _ _ _ | .getline _ | .getlineFile _ _ | .getlineCommand _ _ => False
  | .call f _ _ => f ≠ .sub ∧ f ≠ .gsub
  | _ => True

/-! ## Names, texts and cells -/

namespace Run

def named {α : Type} (x : Compile α) : Run α :=
  match x.run {} with
  | .ok (a, _) => return a
  | .error _ => throw .outOfRange

def joined (values : List Value) : Run Value := do
  let convfmt := (← get).specials.convfmt
  return .str (String.join (values.map (·.text convfmt)))

/-- The key of some subscripts: one by itself, or the texts of several with the separator between them. -/
def subscript : List Value → Run Value
  | [v] => return v
  | values => do
    let s := (← get).specials
    return .str (s.subsep.intercalate (values.map (·.text s.convfmt)))

def matchesRecord (source : String) : Run Value := do
  match Regex.Pattern.compile source with
  | .ok p => return .ofBool (p.isMatch (← get).record.line)
  | .error _ => fail .regex

end Run

open Run

def Cell.at : Cell → (key : Value) → Run Target
  | .scalar r, _ => return .scalar r
  | .field, key => return .field (← fieldNumber key.toNumber)
  | .element a, key => return .element a (← textOf key)

variable (env : Env)

def Place.cell : Place → Run Cell
  | .var v => return .scalar (← named (env.scalar v))
  | .index array _ => return .element (← named (env.array array))
  | .field _ => return .field

/-! ## Expressions -/

mutual

def Place.key : Place → Run Value
  | .var _ => return .null
  | .index _ index => do subscript (← evalAll index)
  | .field e => e.eval
termination_by p => (sizeOf p, 0)
decreasing_by all_goals (simp_wf; omega)

def Expr.eval : Expr → Run Value
  | .num x => return .num x
  | .str s => return .str s
  | .regex s => matchesRecord s
  | .place p => do
    let key ← p.key
    let cell ← p.cell env
    load (← cell.at key)
  | .assign target e => do
    let value ← e.eval
    let key ← target.key
    let cell ← target.cell env
    store (← cell.at key) value
    return value
  | .augAssign target op e => do
    let key ← target.key
    let cell ← target.cell env
    let old ← load (← cell.at key)
    let right ← e.eval
    let new := .num (← arith op old.toNumber right.toNumber)
    store (← cell.at key) new
    return new
  | .incr target decr pre => do
    let key ← target.key
    let cell ← target.cell env
    let old ← load (← cell.at key)
    let new := .num (← arith (if decr then .sub else .add) old.toNumber 1)
    store (← cell.at key) new
    return if pre then new else .num old.toNumber
  | .unary .not e => do return .ofBool !(← e.eval).isTrue
  | .unary .minus e => do return .num (-(← e.eval).toNumber)
  | .unary .plus e => do return .num (← e.eval).toNumber
  | .binary left .and right => do
    if (← left.eval).isTrue then return .ofBool (← right.eval).isTrue else return .ofBool false
  | .binary left .or right => do
    if (← left.eval).isTrue then return .ofBool true else return .ofBool (← right.eval).isTrue
  | .binary left .concat right => do
    let values ← left.operands
    let last ← right.eval
    joined (values ++ [last])
  | .binary left (.compare c) right => do
    let a ← left.eval
    let b ← right.eval
    return .ofBool (c.holds (a.compare (← get).specials.convfmt b))
  | .binary left (.arith op) right => do
    let a ← left.eval
    let b ← right.eval
    return .num (← arith op a.toNumber b.toNumber)
  | .binary left (.match negated) right => do
    let text ← left.eval
    let source ← right.eval
    let p ← pattern (← textOf source)
    return .ofBool (p.isMatch (← textOf text) != negated)
  | .cond test yes no => do
    if (← test.eval).isTrue then yes.eval else no.eval
  | .member index array => do
    let key ← textOf (← subscript (← evalAll index))
    let (_, value) ← arrayOf (← named (env.array array))
    return .ofBool (value.contains key)
  | .call .split (text :: .place (.var array) :: separator) _ => do
    let text ← text.eval
    let separator ← evalAll separator
    return .ofNat (← splitInto (← named (env.array array)) text separator.head?)
  | .call .length [.place (.var v)] _ => do
    if env.isArray v then
      let (_, value) ← arrayOf (← named (env.array v))
      return .ofNat value.size
    else callBuiltin .length [← (Expr.place (.var v)).eval]
  | .call f args _ => do callBuiltin f (← evalAll args)
  -- these have no meaning here
  | .userCall _ _ _ | .getline _ | .getlineFile _ _ | .getlineCommand _ _ => throw .outOfRange
termination_by e => (sizeOf e, 0)
decreasing_by all_goals (simp_wf; omega)

/-- The values of the operands of a chain of texts; any other expression is an operand by itself. -/
def Expr.operands : Expr → Run (List Value)
  | .binary left .concat right => do
    let values ← left.operands
    let last ← right.eval
    return values ++ [last]
  | e => do return [← e.eval]
termination_by e => (sizeOf e, 1)
decreasing_by all_goals (simp_wf; omega)

def evalAll : List Expr → Run (List Value)
  | [] => return []
  | e :: rest => do
    let value ← e.eval
    return value :: (← evalAll rest)
termination_by es => (sizeOf es, 0)
decreasing_by all_goals (simp_wf; omega)

end

end Awk
