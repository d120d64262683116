import Mathlib
import Awk.Resolution.Infer

/-!
# Properties of all parts of a script

`Expr.All P` says that an expression and all expressions in it have a property, and `Stmt.All P` that all
expressions of a statement do.  `Stmt.escapes` tells whether a `break` or `continue` stands outside its
loops.
-/

namespace Awk

variable (P : Expr → Prop)

/-! ## Expressions -/

mutual

def Place.All : Place → Prop
  | .var _ => True
  | .index _ index => AllIn index
  | .field e => e.All

/-- An expression and all expressions in it have a property. -/
def Expr.All : Expr → Prop
  | .num x => P (.num x)
  | .str s => P (.str s)
  | .regex s => P (.regex s)
  | .place p => P (.place p) ∧ p.All
  | .assign target value => P (.assign target value) ∧ target.All ∧ value.All
  | .augAssign target op value => P (.augAssign target op value) ∧ target.All ∧ value.All
  | .incr target decr pre => P (.incr target decr pre) ∧ target.All
  | .unary op e => P (.unary op e) ∧ e.All
  | .binary left op right => P (.binary left op right) ∧ left.All ∧ right.All
  | .cond test yes no => P (.cond test yes no) ∧ test.All ∧ yes.All ∧ no.All
  | .member index array => P (.member index array) ∧ AllIn index
  | .call f args extent => P (.call f args extent) ∧ AllIn args
  | .userCall name args extent => P (.userCall name args extent) ∧ AllIn args
  | .getline target => P (.getline target) ∧ AllTarget target
  | .getlineFile file target => P (.getlineFile file target) ∧ file.All ∧ AllTarget target
  | .getlineCommand command target =>
    P (.getlineCommand command target) ∧ command.All ∧ AllTarget target

/-- All expressions of the place of a record have a property. -/
def AllTarget : Option Place → Prop
  | none => True
  | some p => p.All

/-- All expressions of a list, and those in them, have a property. -/
def AllIn : List Expr → Prop
  | [] => True
  | e :: rest => e.All ∧ AllIn rest

end

variable {P}

lemma allIn_iff {es : List Expr} : AllIn P es ↔ ∀ e ∈ es, e.All P := by
  induction es with
  | nil => simp [AllIn]
  | cons e rest ih => simp [AllIn, ih]

lemma allTarget_iff {t : Option Place} : AllTarget P t ↔ ∀ p ∈ t, p.All P := by
  cases t <;> simp [AllTarget]

lemma Expr.All.self {e : Expr} (h : e.All P) : P e := by
  cases e <;> first | exact h | exact h.1

/-! ## Statements -/

variable (P)

mutual

/-- All expressions of a statement have a property. -/
def Stmt.All : Stmt → Prop
  | .print args redirect | .printf args redirect => AllIn P args ∧ ∀ r ∈ redirect, r.dest.All P
  | .expr e => e.All P
  | .ifElse cond body otherwise => cond.All P ∧ AllBody body ∧ AllElse otherwise
  | .forLoop init cond post body =>
    AllInit init ∧ (∀ e ∈ cond, e.All P) ∧ AllInit post ∧ AllBody body
  | .forIn _ _ body => AllBody body
  | .whileLoop cond body => cond.All P ∧ AllBody body
  | .doWhile body cond => AllBody body ∧ cond.All P
  | .breakLoop _ | .continueLoop _ | .next _ | .nextFile _ => True
  | .exit e | .returnValue e => ∀ e' ∈ e, e'.All P
  | .delete _ index => ∀ es ∈ index, AllIn P es
  | .block body => AllBody body

/-- All expressions of a statement in the head of a loop have a property. -/
def AllInit : Option Stmt → Prop
  | none => True
  | some s => s.All

/-- All expressions of the other branch of a condition have a property. -/
def AllElse : Option (List Stmt) → Prop
  | none => True
  | some body => AllBody body

/-- All expressions of some statements have a property. -/
def AllBody : List Stmt → Prop
  | [] => True
  | s :: rest => s.All ∧ AllBody rest

end

mutual

/-- Whether a `break` or `continue` belongs to a loop around the statement. -/
def Stmt.escapes : Stmt → Bool
  | .breakLoop _ | .continueLoop _ => true
  | .ifElse _ body otherwise => escapesBody body || escapesElse otherwise
  | .forLoop init _ post _ => escapesInit init || escapesInit post
  | .block body => escapesBody body
  | _ => false

def escapesInit : Option Stmt → Bool
  | none => false
  | some s => s.escapes

def escapesElse : Option (List Stmt) → Bool
  | none => false
  | some body => escapesBody body

def escapesBody : List Stmt → Bool
  | [] => false
  | s :: rest => s.escapes || escapesBody rest

end

variable {P}

lemma allBody_iff {body : List Stmt} : AllBody P body ↔ ∀ s ∈ body, s.All P := by
  induction body with
  | nil => simp [AllBody]
  | cons s rest ih => simp [AllBody, ih]

/-! ## Scripts -/

/-- The blocks and patterns of a script have properties; that of a block may depend on the function it
belongs to. -/
structure Script.Each (B : Option String → List Stmt → Prop) (P : Expr → Prop) (s : Script) : Prop where
  begin : ∀ body ∈ s.begin, B none body
  patterns : ∀ r ∈ s.rules, ∀ e ∈ r.pattern.exprs, P e
  bodies : ∀ r ∈ s.rules, ∀ body ∈ r.body, B none body
  final : ∀ body ∈ s.final, B none body
  functions : ∀ f ∈ s.functions, B (some f.name) f.body

lemma Script.Each.and {B B' : Option String → List Stmt → Prop} {P P' : Expr → Prop} {s : Script} (h : s.Each B P)
    (h' : s.Each B' P') : s.Each (fun func body => B func body ∧ B' func body) fun e => P e ∧ P' e where
  begin body hbody := ⟨h.begin body hbody, h'.begin body hbody⟩
  patterns r hr e he := ⟨h.patterns r hr e he, h'.patterns r hr e he⟩
  bodies r hr body hbody := ⟨h.bodies r hr body hbody, h'.bodies r hr body hbody⟩
  final body hbody := ⟨h.final body hbody, h'.final body hbody⟩
  functions f hf := ⟨h.functions f hf, h'.functions f hf⟩

end Awk
