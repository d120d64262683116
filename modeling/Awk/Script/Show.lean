import Awk.Script

/-!
# Expressions as text

Messages show an expression as text in which every operator with two or three operands stands in
parentheses.
-/

namespace Awk

mutual

def Place.show : Place → String
  | .var v => v.name
  | .index array index => array.name ++ "[" ++ ", ".intercalate (showAll index) ++ "]"
  | .field e => "$" ++ e.show

def Expr.show : Expr → String
  | .num x => Number.plainText x
  | .str s => Text.quoted s
  | .regex s => "/" ++ s ++ "/"
  | .place p => p.show
  | .assign target value => target.show ++ " = " ++ value.show
  | .augAssign target op value => target.show ++ " " ++ op.sign ++ "= " ++ value.show
  | .incr target decr pre =>
    let sign := if decr then "--" else "++"
    if pre then sign ++ target.show else target.show ++ sign
  | .unary op e => op.sign ++ e.show
  | .binary left op right => "(" ++ left.show ++ op.sign ++ right.show ++ ")"
  | .cond test yes no => "(" ++ test.show ++ " ? " ++ yes.show ++ " : " ++ no.show ++ ")"
  | .member index array => "((" ++ ", ".intercalate (showAll index) ++ ") in " ++ array.name ++ ")"
  | .call func args _ => func.name ++ "(" ++ ", ".intercalate (showAll args) ++ ")"
  | .userCall name args _ => name ++ "(" ++ ", ".intercalate (showAll args) ++ ")"
  | .getline target => "getline" ++ showTarget target
  | .getlineFile file target => "getline" ++ showTarget target ++ " < " ++ file.show
  | .getlineCommand command target => command.show ++ " | getline" ++ showTarget target

/-- The place a record is read into, after a blank. -/
def showTarget : Option Place → String
  | none => ""
  | some p => " " ++ p.show

def showAll : List Expr → List String
  | [] => []
  | e :: rest => e.show :: showAll rest

end

end Awk
