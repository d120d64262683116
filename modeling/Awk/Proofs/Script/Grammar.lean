import Awk.Script.StmtGrammar
import Awk.Proofs.StateExcept
import Awk.Proofs.Script.Subexpr

/-!
# What the grammar accepts

What a program text must obey is checked while it is read, and the rest of the compiler relies on it: how
builtin functions are called, that an index is not empty, and where `break`, `next` and `return` stand.
-/

namespace Awk

/-- The arguments of a call suit the builtin function: there are as many as it takes, and `split` gets the
name of an array. -/
def Expr.CallFits : Expr → Prop
  | .call f args _ => f.takes args.length = true ∧
    (f = .split → ∃ s v rest, args = s :: .place (.var v) :: rest)
  | _ => True

/-- All calls of builtin functions in an expression suit. -/
abbrev Expr.Proper (e : Expr) : Prop := e.All Expr.CallFits

/-- All calls in some statements suit, and all their jumps stand in loops. -/
structure ProperBody (body : List Stmt) : Prop where
  calls : AllBody Expr.CallFits body
  bound : escapesBody body = false

/-! ## What may be read -/

/-- The place that an expression itself changes. -/
def Expr.target? : Expr → Option Place
  | .assign target _ | .augAssign target _ _ | .incr target _ _ => some target
  | .getline target | .getlineFile _ target | .getlineCommand _ target => target
  | _ => none

/-- A property of all expressions that the grammar gives: calls are checked, and so are indices, also of the
places that are changed. -/
structure Grammatical (P : Expr → Prop) : Prop where
  index : ∀ {array index}, index ≠ [] → P (.place (.index array index))
  member : ∀ {index array}, index ≠ [] → P (.member index array)
  call : ∀ {f args}, Reader.callMisuse f args = none → ∀ extent, P (.call f (Reader.patternArgs f args) extent)
  other : ∀ {e}, (match e with | .place (.index ..) | .member .. | .call .. => False | _ => True) →
    (∀ p ∈ e.target?, P (.place p)) → P e

open Reader (Surroundings)

mutual

/-- What surrounds a statement allows the jumps in it. -/
def Stmt.Suits (s : Surroundings) : Stmt → Prop
  | .breakLoop _ | .continueLoop _ => s.inLoop = true
  | .next _ | .nextFile _ => s.inBeginOrEnd = false
  | .returnValue _ => s.inFunction = true
  | .ifElse _ body otherwise => SuitsBody s body ∧ SuitsElse s otherwise
  | .forLoop init _ post body => SuitsInit s init ∧ SuitsInit s post ∧ SuitsBody { s with inLoop := true } body
  | .forIn _ _ body | .whileLoop _ body | .doWhile body _ => SuitsBody { s with inLoop := true } body
  | .block body => SuitsBody s body
  | .print _ _ | .printf _ _ | .expr _ | .exit _ | .delete _ _ => True

def SuitsInit (s : Surroundings) : Option Stmt → Prop
  | none => True
  | some st => st.Suits s

def SuitsElse (s : Surroundings) : Option (List Stmt) → Prop
  | none => True
  | some body => SuitsBody s body

def SuitsBody (s : Surroundings) : List Stmt → Prop
  | [] => True
  | st :: rest => st.Suits s ∧ SuitsBody s rest

end

section

variable {s : Surroundings} (hs : s.inLoop = false)

include hs

-- the linter does not look at what recursive calls use
set_option linter.unusedSectionVars false

mutual

/-- Outside all loops a `break` or `continue` belongs to a loop of its own. -/
lemma Stmt.Suits.escapes_eq : ∀ {st : Stmt}, st.Suits s → st.escapes = false
  | .breakLoop _, h | .continueLoop _, h => by cases hs.symm.trans h
  | .ifElse _ _ _, h => Bool.or_eq_false_iff.mpr ⟨escapesBody_of_suits h.1, escapesElse_of_suits h.2⟩
  | .forLoop _ _ _ _, h => Bool.or_eq_false_iff.mpr ⟨escapesInit_of_suits h.1, escapesInit_of_suits h.2.1⟩
  | .block _, h => escapesBody_of_suits h
  | .forIn _ _ _, _ | .whileLoop _ _, _ | .doWhile _ _, _ | .print _ _, _ | .printf _ _, _ | .expr _, _
  | .next _, _ | .nextFile _, _ | .exit _, _ | .returnValue _, _ | .delete _ _, _ => rfl

lemma escapesInit_of_suits : ∀ {st : Option Stmt}, SuitsInit s st → escapesInit st = false
  | none, _ => rfl
  | some _, h => Stmt.Suits.escapes_eq h

lemma escapesElse_of_suits : ∀ {body : Option (List Stmt)}, SuitsElse s body → escapesElse body = false
  | none, _ => rfl
  | some _, h => escapesBody_of_suits h

lemma escapesBody_of_suits : ∀ {body : List Stmt}, SuitsBody s body → escapesBody body = false
  | [], _ => rfl
  | _ :: _, h => Bool.or_eq_false_iff.mpr ⟨Stmt.Suits.escapes_eq h.1, escapesBody_of_suits h.2⟩

end

end

lemma suitsBody_iff {s : Surroundings} {body : List Stmt} : SuitsBody s body ↔ ∀ st ∈ body, st.Suits s := by
  induction body with
  | nil => simp [SuitsBody]
  | cons st rest ih => simp [SuitsBody, ih]

/-- All expressions of a statement have a property, and its jumps may stand where it stands. -/
structure Stmt.Read (P : Expr → Prop) (s : Surroundings) (st : Stmt) : Prop where
  calls : st.All P
  suits : st.Suits s

/-- All expressions of some statements have a property, and their jumps may stand where they stand. -/
structure ReadBody (P : Expr → Prop) (s : Surroundings) (body : List Stmt) : Prop where
  calls : AllBody P body
  suits : SuitsBody s body

/-- All expressions of a program have a property, and all its jumps stand where they may. -/
structure Script.Read (P : Expr → Prop) (s : Script) : Prop where
  begin : ∀ body ∈ s.begin, ReadBody P { inBeginOrEnd := true } body
  patterns : ∀ r ∈ s.rules, ∀ e ∈ r.pattern.exprs, e.All P
  bodies : ∀ r ∈ s.rules, ∀ body ∈ r.body, ReadBody P {} body
  final : ∀ body ∈ s.final, ReadBody P { inBeginOrEnd := true } body
  functions : ∀ f ∈ s.functions, ReadBody P { inFunction := true } f.body

namespace Reader

def Yields {α : Type} (r : Reader α) (P : α → Prop) : Prop :=
  ∀ ts a rest, r.run ts = .ok (a, rest) → P a

section

variable {α β : Type} {P : α → Prop} {Q : β → Prop}

lemma Yields.any (r : Reader α) : r.Yields fun _ => True :=
  fun _ _ _ _ => trivial

lemma Yields.pure {a : α} (h : P a) : (Pure.pure a : Reader α).Yields P := by
  intro ts b rest hb
  rw [run_pure_eq_ok] at hb
  exact hb.1 ▸ h

lemma Yields.throw (e : ParseError) : (MonadExcept.throw e : Reader α).Yields P :=
  fun _ _ _ h => absurd h run_throw_ne_ok

variable {r : Reader α} {f : α → Reader β}

lemma Yields.bind (hr : r.Yields P) (hf : ∀ a, P a → (f a).Yields Q) : (r >>= f).Yields Q := by
  intro ts b rest h
  obtain ⟨a, u, h₁, h₂⟩ := run_bind_eq_ok.mp h
  exact hf a (hr _ _ _ h₁) _ _ _ h₂

lemma Yields.next (hf : ∀ a, (f a).Yields Q) : (r >>= f).Yields Q :=
  (Yields.any r).bind fun a _ => hf a

lemma Yields.refuse (wanted : String) : (refuse wanted : Reader α).Yields P :=
  .next fun _ => .throw _

lemma Yields.misuse (why : Misuse) (extent : Extent) : (misuse why extent : Reader α).Yields P :=
  .throw _

/-- The result of a step has a property, whether it is the last one or not. -/
def Step.All (P : α → Prop) : Step α → Prop
  | .done a | .more a => P a

lemma Yields.repeatSteps {step : α → Reader (Step α)} (hs : ∀ a, P a → (step a).Yields (Step.All P))
    (bound : Nat) {a : α} (ha : P a) : (repeatSteps step bound a).Yields P := by
  induction bound generalizing a with
  | zero => exact .throw _
  | succ bound ih =>
    refine (hs a ha).bind fun s hs' => ?_
    cases s with
    | done b => exact .pure hs'
    | more b => exact ih hs'

lemma Yields.loop {step : α → Reader (Step α)} (hs : ∀ a, P a → (step a).Yields (Step.All P))
    {a : α} (ha : P a) : (loop step a).Yields P := fun _ _ _ h => Yields.repeatSteps hs _ ha _ _ _ h

end

/-! ## Expressions -/

/-- All readers for what stands deeper give expressions with a property. -/
structure Inner.Yields (P : Expr → Prop) (r : Inner) : Prop extends Grammatical P where
  expr : ∀ noGreater, (r.expr noGreater).Yields (Expr.All P)
  unary : r.unary.Yields (Expr.All P)
  primary : r.primary.Yields (Expr.All P)

variable {P : Expr → Prop} {e : Expr} {args : List Expr}

lemma all_of_place? (h : e.All P) {p : Place} (hp : e.place? = some p) : P (.place p) ∧ p.All P := by
  cases e <;> cases hp
  exact h

lemma all_asPattern (hP : Grammatical P) (h : e.All P) : e.asPattern.All P := by
  cases e with
  | regex s => exact hP.other trivial nofun
  | _ => exact h

lemma patternArgs_length (f : Builtin) (args : List Expr) :
    (patternArgs f args).length = args.length := by
  rw [patternArgs]
  split
  · exact List.length_modify _ _ _
  · rfl

lemma all_patternArgs (hP : Grammatical P) (f : Builtin) (h : AllIn P args) : AllIn P (patternArgs f args) := by
  rw [allIn_iff] at h ⊢
  rw [patternArgs]
  split
  · rename_i i _
    intro e he
    obtain ⟨j, hj⟩ := List.mem_iff_getElem?.mp he
    rw [List.getElem?_modify] at hj
    obtain ⟨e', he', rfl⟩ := Option.map_eq_some_iff.mp hj
    have := h e' (List.mem_of_getElem? he')
    split
    · exact all_asPattern hP this
    · exact this
  · exact h

section

variable {r : Inner} (hr : r.Yields P) (noGreater : Bool)

include hr

lemma exprList_yields (close : Mark) : (exprList r close).Yields (AllIn P) := by
  have step : ∀ before : List Expr, (∀ e ∈ before, e.All P) →
      (exprListStep r close before).Yields (Step.All fun es => ∀ e ∈ es, e.All P) := by
    intro before hb
    rw [exprListStep]
    refine .next fun _ => .next fun stop => ?_
    split
    · exact .pure hb
    · refine (hr.expr false).bind fun e he => .next fun _ => .next fun more => ?_
      have : ∀ e' ∈ e :: before, e'.All P := List.forall_mem_cons.mpr ⟨he, hb⟩
      split
      · exact .pure this
      · exact .pure this
  rw [exprList]
  refine (Yields.loop step (by simp)).bind fun es hes => .next fun _ => .pure ?_
  rw [allIn_iff]
  simpa using hes

lemma getlineTarget_yields :
    (getlineTarget r).Yields fun t => (∀ p ∈ t, P (.place p)) ∧ AllTarget P t := by
  rw [getlineTarget]
  refine .next fun kind => ?_
  split
  case h_3 => exact .pure ⟨by rintro _ ⟨⟩, trivial⟩
  all_goals
    refine hr.primary.bind fun e he => ?_
    split
    · rename_i p hp
      obtain ⟨hp, hall⟩ := all_of_place? he hp
      exact .pure ⟨by rintro _ ⟨⟩; exact hp, hall⟩
    · exact .refuse _

lemma increment_yields (sign : Mark) (decr : Bool) : (increment r sign decr).Yields (Expr.All P) := by
  rw [increment]
  refine .next fun tok => hr.primary.bind fun e he => ?_
  split
  · rename_i p hp
    obtain ⟨hp, hall⟩ := all_of_place? he hp
    exact .pure ⟨hr.other trivial (by rintro _ ⟨⟩; exact hp), hall⟩
  · exact .misuse _ _

lemma fieldNumber_yields : (fieldNumber r).Yields (Expr.All P) := by
  rw [fieldNumber]
  refine .next fun mark => ?_
  split
  · exact increment_yields hr _ _
  · exact increment_yields hr _ _
  · exact .next fun _ => hr.primary.bind fun e he => .pure ⟨hr.other trivial nofun, he⟩
  · exact .next fun _ => hr.primary.bind fun e he => .pure ⟨hr.other trivial nofun, he⟩
  · exact .next fun _ => hr.primary.bind fun e he => .pure ⟨hr.other trivial nofun, he⟩
  · exact hr.primary

lemma parenthesized_yields (extent : Extent) : (parenthesized r extent).Yields (Expr.All P) := by
  rw [parenthesized]
  refine (exprList_yields hr _).bind fun es hes => ?_
  split
  · exact .misuse _ _
  · exact .pure hes.1
  · refine .next fun found => ?_
    split
    · exact .next fun _ => .pure ⟨hr.member (by rintro rfl; contradiction), hes⟩
    · exact .misuse _ _

lemma builtinCall_yields (f : Builtin) (extent : Extent) : (builtinCall r f extent).Yields (Expr.All P) := by
  rw [builtinCall]
  refine .next fun parens => ?_
  split
  · rename_i h
    rw [Bool.and_eq_true, beq_iff_eq] at h
    obtain ⟨rfl, -⟩ := h
    have hfits : callMisuse .length [] = none := rfl
    exact .pure ⟨hr.call hfits extent, trivial⟩
  · refine .next fun _ => (exprList_yields hr _).bind fun args hargs => ?_
    split
    · exact .misuse _ _
    · rename_i hnone
      exact .pure ⟨hr.call hnone extent, all_patternArgs hr.toGrammatical f hargs⟩

lemma primary_yields : (primary r).Yields (Expr.All P) := by
  rw [primary]
  refine .next fun tok => ?_
  split
  · exact .next fun _ => .pure (hr.other trivial nofun)
  · exact .next fun _ => .pure (hr.other trivial nofun)
  · exact .next fun _ => .pure (hr.other trivial nofun)
  · refine .next fun _ => .next fun bracket => ?_
    split
    · refine (exprList_yields hr _).bind fun index hindex => ?_
      split
      · exact .misuse _ _
      · rename_i hne
        exact .pure ⟨hr.index hne, hindex⟩
    · exact .pure ⟨hr.other trivial nofun, trivial⟩
  · exact .next fun _ => .next fun _ => (exprList_yields hr _).bind fun args hargs =>
      .pure ⟨hr.other trivial nofun, hargs⟩
  · exact .next fun _ => builtinCall_yields hr _ _
  · exact .next fun _ => (fieldNumber_yields hr).bind fun e he => .pure ⟨hr.other trivial nofun, he⟩
  · exact .next fun _ => parenthesized_yields hr _
  · refine .next fun _ => (getlineTarget_yields hr).bind fun target ht => .next fun fromFile => ?_
    split
    · exact hr.primary.bind fun e he => .pure ⟨hr.other trivial ht.1, he, ht.2⟩
    · exact .pure ⟨hr.other trivial ht.1, ht.2⟩
  · exact .refuse _

lemma incremented_yields : (incremented r).Yields (Expr.All P) := by
  rw [incremented]
  refine .next fun mark => ?_
  split
  · exact increment_yields hr _ _
  · exact increment_yields hr _ _
  · refine (primary_yields hr).bind fun e he => ?_
    split
    · exact .pure he
    · rename_i p hp
      have hplace : ∀ decr, (Expr.incr p decr false).All P :=
        fun _ => ⟨hr.other trivial (by rintro _ ⟨⟩; exact (all_of_place? he hp).1), (all_of_place? he hp).2⟩
      refine .next fun incr => ?_
      split
      · exact .pure (hplace _)
      · refine .next fun decr => ?_
        split
        · exact .pure (hplace _)
        · exact .pure he

lemma power_yields : (power r).Yields (Expr.All P) := by
  rw [power]
  refine (incremented_yields hr).bind fun base hbase => .next fun caret => ?_
  split
  · exact hr.unary.bind fun e he => .pure ⟨hr.other trivial nofun, hbase, he⟩
  · exact .pure hbase

lemma unary_yields : (unary r).Yields (Expr.All P) := by
  rw [Reader.unary]
  refine .next fun mark => ?_
  split
  · exact .next fun _ => hr.unary.bind fun e he => .pure ⟨hr.other trivial nofun, he⟩
  · exact power_yields hr

lemma leftGrouped_yields {op? : Mark → Option BinaryOp} {afterOp : Reader Unit} {first right : Reader Expr}
    (hfirst : first.Yields (Expr.All P)) (hright : right.Yields (Expr.All P)) :
    (leftGrouped op? afterOp first right).Yields (Expr.All P) := by
  rw [leftGrouped]
  refine hfirst.bind fun e he => .loop (fun left hleft => .next fun mark => ?_) he
  split
  · exact .pure hleft
  · exact .next fun _ => .next fun _ => hright.bind fun e he => .pure ⟨hr.other trivial nofun, hleft, he⟩

lemma multiplicative_yields : (multiplicative r).Yields (Expr.All P) :=
  leftGrouped_yields hr (unary_yields hr) (unary_yields hr)

lemma additive_yields : (additive r).Yields (Expr.All P) :=
  leftGrouped_yields hr (multiplicative_yields hr) (multiplicative_yields hr)

lemma concatenation_yields : (concatenation r).Yields (Expr.All P) := by
  rw [concatenation]
  refine (additive_yields hr).bind fun e he => .loop (fun left hleft => .next fun kind => ?_) he
  split
  · exact (additive_yields hr).bind fun e he => .pure ⟨hr.other trivial nofun, hleft, he⟩
  · exact .pure hleft

lemma pipeGetline_yields : (pipeGetline r).Yields (Expr.All P) := by
  rw [pipeGetline]
  refine (concatenation_yields hr).bind fun e he => .loop (fun left hleft => .next fun pipe => ?_) he
  split
  · exact .next fun _ => .next fun _ => (getlineTarget_yields hr).bind fun t ht =>
      .pure ⟨hr.other trivial ht.1, hleft, ht.2⟩
  · exact .pure hleft

lemma comparison_yields : (comparison r noGreater).Yields (Expr.All P) := by
  rw [comparison]
  refine (pipeGetline_yields hr).bind fun left hleft => .next fun mark => ?_
  split
  · exact .pure hleft
  · exact .next fun _ => (pipeGetline_yields hr).bind fun e he => .pure ⟨hr.other trivial nofun, hleft, he⟩

lemma matching_yields : (matching r noGreater).Yields (Expr.All P) := by
  refine leftGrouped_yields hr (comparison_yields hr noGreater) ?_
  rw [map_eq_pure_bind]
  exact (comparison_yields hr noGreater).bind fun e he => .pure (all_asPattern hr.toGrammatical he)

lemma membership_yields : (membership r noGreater).Yields (Expr.All P) := by
  rw [membership]
  refine (matching_yields hr noGreater).bind fun e he =>
    .loop (fun left hleft => .next fun found => ?_) he
  split
  · exact .next fun _ => .pure ⟨hr.member (List.cons_ne_nil _ _), hleft, trivial⟩
  · exact .pure hleft

lemma conjunction_yields : (conjunction r noGreater).Yields (Expr.All P) :=
  leftGrouped_yields hr (membership_yields hr noGreater) (membership_yields hr noGreater)

lemma disjunction_yields : (disjunction r noGreater).Yields (Expr.All P) :=
  leftGrouped_yields hr (conjunction_yields hr noGreater) (conjunction_yields hr noGreater)

lemma ternary_yields : (ternary r noGreater).Yields (Expr.All P) := by
  rw [ternary]
  refine (disjunction_yields hr noGreater).bind fun test htest => .next fun question => ?_
  split
  · exact .next fun _ => (hr.expr noGreater).bind fun yes hyes => .next fun _ => .next fun _ =>
      .next fun _ => (hr.expr noGreater).bind fun no hno => .pure ⟨hr.other trivial nofun, htest, hyes, hno⟩
  · exact .pure htest

lemma assignment_yields : (assignment r noGreater).Yields (Expr.All P) := by
  rw [assignment]
  refine (ternary_yields hr noGreater).bind fun e he => .next fun mark => ?_
  split
  · rename_i target op htarget _
    obtain ⟨hp, ht⟩ := all_of_place? he htarget
    have htarget : ∀ p ∈ some target, P (.place p) := by rintro _ ⟨⟩; exact hp
    refine .next fun _ => .next fun _ => (hr.expr noGreater).bind fun value hvalue => ?_
    split
    · exact .pure ⟨hr.other trivial htarget, ht, hvalue⟩
    · exact .pure ⟨hr.other trivial htarget, ht, hvalue⟩
  · exact .pure he

end

lemma Inner.ofDepth_reads (hP : Grammatical P) (depth : Nat) : (Inner.ofDepth depth).Yields P := by
  induction depth with
  | zero => exact ⟨hP, fun _ => .throw _, .throw _, .throw _⟩
  | succ depth ih => exact ⟨hP, assignment_yields ih, unary_yields ih, primary_yields ih⟩

/-! ## Statements -/

section

variable {r : Inner} (hr : r.Yields P)

include hr

lemma outputArgs_yields : (outputArgs r).Yields (AllIn P) := by
  have step : ∀ before : List Expr, (∀ e ∈ before, e.All P) →
      (outputArgsStep r before).Yields (Step.All fun es => ∀ e ∈ es, e.All P) := by
    intro before hb
    rw [outputArgsStep]
    refine (hr.expr true).bind fun e he => .next fun comma => ?_
    have : ∀ e' ∈ e :: before, e'.All P := List.forall_mem_cons.mpr ⟨he, hb⟩
    split
    · exact .next fun _ => .pure this
    · exact .pure this
  rw [outputArgs]
  refine (Yields.loop step (by simp)).bind fun es hes => .pure ?_
  rw [allIn_iff]
  simpa using hes

lemma groupedArgs_yields : (groupedArgs r).Yields (AllIn P) := by
  have hgroup : (do
      let _ ← advance
      let args ← exprList r .rParen
      return (args, ← atOutputEnd) : Reader (List Expr × Bool)).Yields
        fun a => AllIn P a.1 :=
    .next fun _ => (exprList_yields hr _).bind fun args hargs => .next fun _ => .pure hargs
  intro ts args rest h
  change groupedArgs r ts = _ at h
  rw [groupedArgs] at h
  split at h
  · rename_i args' rest' heq
    cases h
    exact hgroup _ _ _ heq
  · exact outputArgs_yields hr _ _ _ h

lemma redirection_yields :
    (redirection r).Yields fun d => ∀ r ∈ d, r.dest.All P := by
  rw [redirection]
  refine .next fun mark => ?_
  split
  · exact .pure (by simp)
  · exact .next fun _ => (concatenation_yields hr).bind fun e he => .pure (by simpa using he)

lemma output_yields (formatted : Bool) (s : Surroundings) :
    (output r formatted).Yields (Stmt.Read P s) := by
  have hdest : ∀ args, AllIn P args → (do
      let dest ← redirection r
      return if formatted then .printf args dest else .print args dest : Reader Stmt).Yields
        (Stmt.Read P s) := by
    intro args hargs
    refine (redirection_yields hr).bind fun dest hdest => .pure ?_
    split
    · exact ⟨⟨hargs, hdest⟩, trivial⟩
    · exact ⟨⟨hargs, hdest⟩, trivial⟩
  have hrest : ∀ (tok : Token) args, AllIn P args → (do
      if formatted && args.isEmpty then misuse .printfWithoutFormat tok.extent
      let dest ← redirection r
      return if formatted then .printf args dest else .print args dest : Reader Stmt).Yields
        (Stmt.Read P s) := by
    intro tok args hargs
    dsimp only
    split
    · exact .next fun _ => hdest args hargs
    · exact hdest args hargs
  rw [output]
  refine .next fun tok => .next fun atEnd => ?_
  dsimp only
  split
  · exact hrest tok [] trivial
  · refine .next fun paren => ?_
    split
    · exact (groupedArgs_yields hr).bind fun args hargs => hrest tok args hargs
    · exact (outputArgs_yields hr).bind fun args hargs => hrest tok args hargs

lemma optionalExpr_yields :
    (optionalExpr r).Yields fun e => ∀ e' ∈ e, e'.All P := by
  rw [optionalExpr]
  refine .next fun atEnd => ?_
  split
  · exact .pure (by simp)
  · exact (hr.expr false).bind fun e he => .pure (by simpa using he)

lemma simple_yields (s : Surroundings) :
    (simple r s).Yields (Stmt.Read P s) := by
  rw [simple]
  refine .next fun tok => ?_
  split
  · exact output_yields hr _ _
  · exact output_yields hr _ _
  · refine .next fun _ => .next fun array => .next fun bracket => ?_
    split
    · exact (exprList_yields hr _).bind fun index hindex =>
        .pure ⟨fun es hes => by cases hes; exact hindex, trivial⟩
    · exact .pure ⟨nofun, trivial⟩
  · refine .next fun _ => ?_
    split
    · rename_i h
      exact .pure ⟨trivial, h⟩
    · exact .misuse _ _
  · refine .next fun _ => ?_
    split
    · rename_i h
      exact .pure ⟨trivial, h⟩
    · exact .misuse _ _
  · refine .next fun _ => ?_
    split
    · exact .misuse _ _
    · rename_i h
      exact .pure ⟨trivial, Bool.eq_false_iff.mpr h⟩
  · refine .next fun _ => ?_
    split
    · exact .misuse _ _
    · rename_i h
      exact .pure ⟨trivial, Bool.eq_false_iff.mpr h⟩
  · exact .next fun _ => (optionalExpr_yields hr).bind fun e he => .pure ⟨he, trivial⟩
  · refine .next fun _ => ?_
    split
    · rename_i h
      exact (optionalExpr_yields hr).bind fun e he => .pure ⟨he, h⟩
    · exact .misuse _ _
  · exact (hr.expr false).bind fun e he => .pure ⟨he, trivial⟩

end

variable {r : Inner} {nested : Reader Stmt} {s : Surroundings}

lemma readBody_of_forall {body : List Stmt} (h : ∀ st ∈ body, st.Read P s) : ReadBody P s body :=
  ⟨allBody_iff.mpr fun st hst => (h st hst).calls, suitsBody_iff.mpr fun st hst => (h st hst).suits⟩

lemma read_asBody {st : Stmt} (h : st.Read P s) : ReadBody P s st.asBody := by
  cases st with
  | block body => exact ⟨h.calls, h.suits⟩
  | _ => exact readBody_of_forall (by simpa [Stmt.asBody] using h)

lemma block_yields (hn : nested.Yields (Stmt.Read P s)) :
    (block nested).Yields (ReadBody P s) := by
  have step : ∀ before : List Stmt, (∀ st ∈ before, st.Read P s) →
      (blockStep nested before).Yields (Step.All fun body => ∀ st ∈ body, st.Read P s) := by
    intro before hb
    rw [blockStep]
    refine .next fun _ => .next fun mark => ?_
    split
    · exact .next fun _ => .pure hb
    · exact .refuse _
    · exact hn.bind fun s hs => .pure (List.forall_mem_cons.mpr ⟨hs, hb⟩)
  rw [block]
  refine .next fun _ => (Yields.loop step (by simp)).bind fun body hbody => .pure ?_
  exact readBody_of_forall (by simpa using hbody)

lemma body_yields (hn : nested.Yields (Stmt.Read P s)) :
    (body nested).Yields (ReadBody P s) := by
  rw [body]
  refine .next fun semicolon => ?_
  split
  · exact .pure ⟨trivial, trivial⟩
  · exact .next fun _ => hn.bind fun s hs => .pure (read_asBody hs)

lemma condition_yields (hr : r.Yields P) : (condition r).Yields (Expr.All P) :=
  .next fun _ => (hr.expr false).bind fun _ he => .next fun _ => .pure he

lemma conditional_yields (hr : r.Yields P) (hn : nested.Yields (Stmt.Read P s)) :
    (conditional r nested).Yields (Stmt.Read P s) := by
  rw [conditional]
  refine .next fun _ => (condition_yields hr).bind fun cond hcond => (body_yields hn).bind
    fun yes hyes => .next fun hasElse => ?_
  split
  · exact .next fun _ => hn.bind fun s hs =>
      have hno := read_asBody hs
      .pure ⟨⟨hcond, hyes.calls, hno.calls⟩, hyes.suits, hno.suits⟩
  · exact .pure ⟨⟨hcond, hyes.calls, trivial⟩, hyes.suits, trivial⟩

lemma unless?_yields {α : Type} {P : α → Prop} {m : Mark} {p : Reader α} (hp : p.Yields P) :
    (unless? m p).Yields fun a => ∀ b ∈ a, P b := by
  rw [unless?]
  refine .next fun found => ?_
  split
  · exact .pure (by simp)
  · exact hp.bind fun a ha => .pure (by simpa using ha)

lemma allInit_of_read {st : Option Stmt} (h : ∀ st' ∈ st, st'.Read P s) : AllInit P st ∧ SuitsInit s st := by
  cases st with
  | none => exact ⟨trivial, trivial⟩
  | some st => exact ⟨(h st rfl).calls, (h st rfl).suits⟩

lemma forLoop_yields (hr : r.Yields P) (s : Surroundings) (hn : nested.Yields (Stmt.Read P { s with inLoop := true })) :
    (forLoop r s nested).Yields (Stmt.Read P s) := by
  rw [forLoop]
  refine .next fun _ => .next fun _ => .next fun head => ?_
  split
  · exact (body_yields hn).bind fun body hbody => .pure ⟨hbody.calls, hbody.suits⟩
  · refine (unless?_yields (simple_yields hr s)).bind fun init hinit => .next fun _ =>
      .next fun _ => (unless?_yields (hr.expr false)).bind fun cond hcond => .next fun _ =>
        .next fun _ => (unless?_yields (simple_yields hr s)).bind fun post hpost => .next fun _ =>
          (body_yields hn).bind fun body hbody => .pure ?_
    have hinit := allInit_of_read hinit
    have hpost := allInit_of_read hpost
    exact ⟨⟨hinit.1, hcond, hpost.1, hbody.calls⟩, hinit.2, hpost.2, hbody.suits⟩

lemma doLoop_yields (hr : r.Yields P) (hn : nested.Yields (Stmt.Read P { s with inLoop := true })) :
    (doLoop r nested).Yields (Stmt.Read P s) :=
  .next fun _ => .next fun _ => hn.bind fun _ hs => .next fun _ => .next fun _ =>
    (condition_yields hr).bind fun _ hcond => .next fun _ =>
      have hbody := read_asBody hs
      .pure ⟨⟨hbody.calls, hcond⟩, hbody.suits⟩

lemma stmt_yields (hr : r.Yields P) (depth : Nat) (s : Surroundings) :
    (stmt r depth s).Yields (Stmt.Read P s) := by
  induction depth generalizing s with
  | zero => exact .throw _
  | succ depth ih =>
    have looped := ih { s with inLoop := true }
    rw [stmt]
    refine .next fun mark => ?_
    split
    · exact (block_yields (ih s)).bind fun body hbody => .pure ⟨hbody.calls, hbody.suits⟩
    · exact conditional_yields hr (ih s)
    · exact .next fun _ => (condition_yields hr).bind fun cond hcond =>
        (body_yields looped).bind fun body hbody => .pure ⟨⟨hcond, hbody.calls⟩, hbody.suits⟩
    · exact doLoop_yields hr looped
    · exact forLoop_yields hr s looped
    · exact .next fun _ => .pure ⟨trivial, trivial⟩
    · exact (simple_yields hr s).bind fun st hst => .next fun _ => .pure hst

/-! ## Programs -/

/-- The readers for the parts of a program give parts with a property. -/
structure Parts.Yields (P : Expr → Prop) (p : Parts) : Prop where
  inner : p.inner.Yields P
  stmt : ∀ s, (p.stmt s).Yields (Stmt.Read P s)

variable {p : Parts}

lemma function_yields (hp : p.Yields P) : (function p).Yields fun f => ReadBody P { inFunction := true } f.body :=
  .next fun _ => .next fun _ => .next fun _ => .next fun _ => .next fun _ => .next fun _ =>
    (block_yields (hp.stmt { inFunction := true })).bind fun _ hbody => .pure hbody

lemma rule_yields (hp : p.Yields P) :
    (rule p).Yields fun r => (∀ e ∈ r.pattern.exprs, e.All P) ∧
      ∀ body ∈ r.body, ReadBody P {} body := by
  have hblock := block_yields (hp.stmt {})
  have hrest : ∀ pattern : RulePattern, (∀ e ∈ pattern.exprs, e.All P) → (do
      if ← at? .lBrace then return ⟨pattern, some (← block (p.stmt {}))⟩
      unless ← atTerminator do refuse "'\x7b' or end of pattern"
      return ⟨pattern, none⟩ : Reader Rule).Yields fun r => (∀ e ∈ r.pattern.exprs, e.All P) ∧
        ∀ body ∈ r.body, ReadBody P {} body := by
    intro pattern hpattern
    refine .next fun brace => ?_
    split
    · exact hblock.bind fun body hbody => .pure ⟨hpattern, by simpa using hbody⟩
    · refine .next fun atEnd => ?_
      dsimp only
      split
      · exact .pure ⟨hpattern, by simp⟩
      · exact .next fun _ => .pure ⟨hpattern, by simp⟩
  rw [rule]
  refine .next fun brace => ?_
  split
  · exact hblock.bind fun body hbody => .pure ⟨by simp [RulePattern.exprs], by simpa using hbody⟩
  · refine (hp.inner.expr false).bind fun start hstart => .next fun comma => ?_
    dsimp only
    split
    · exact .next fun _ => (hp.inner.expr false).bind fun stop hstop =>
        hrest _ (by simpa [RulePattern.exprs] using ⟨hstart, hstop⟩)
    · exact hrest _ (by simpa [RulePattern.exprs] using hstart)

lemma part_yields (hp : p.Yields P) {s : Script} (hs : s.Read P) : (part p s).Yields (Script.Read P) := by
  rw [part]
  refine .next fun mark => ?_
  split
  · exact .next fun _ => (block_yields (hp.stmt { inBeginOrEnd := true })).bind fun body hbody =>
      .pure { hs with begin := List.forall_mem_cons.mpr ⟨hbody, hs.begin⟩ }
  · exact .next fun _ => (block_yields (hp.stmt { inBeginOrEnd := true })).bind fun body hbody =>
      .pure { hs with final := List.forall_mem_cons.mpr ⟨hbody, hs.final⟩ }
  · exact (function_yields hp).bind fun f hf =>
      .pure { hs with functions := List.forall_mem_cons.mpr ⟨hf, hs.functions⟩ }
  · exact (rule_yields hp).bind fun r hr =>
      .pure { hs with
        patterns := List.forall_mem_cons.mpr ⟨hr.1, hs.patterns⟩
        bodies := List.forall_mem_cons.mpr ⟨hr.2, hs.bodies⟩ }

lemma program_yields (hp : p.Yields P) : (program p).Yields (Script.Read P) := by
  have step : ∀ s : Script, s.Read P → (programStep p s).Yields (Step.All (Script.Read P)) := by
    intro s hs
    rw [programStep]
    refine .next fun _ => .next fun atEnd => ?_
    split
    · exact .pure hs
    · exact (part_yields hp hs).bind fun s' hs' => .pure hs'
  have empty : ({} : Script).Read P := ⟨nofun, nofun, nofun, nofun, nofun⟩
  rw [program]
  refine (Yields.loop step empty).bind fun s hs => .pure ?_
  exact ⟨by simpa using hs.begin, by simpa using hs.patterns, by simpa using hs.bodies,
    by simpa using hs.final, by simpa using hs.functions⟩

end Reader

/-- All expressions of a program that was read have a property of the grammar, and all its jumps stand where they
may. -/
lemma Script.ofTokens_read {P : Expr → Prop} (hP : Grammatical P) {tokens : List Token} {s : Script}
    (h : Script.ofTokens tokens = .ok s) : s.Read P := by
  have hinner := Reader.Inner.ofDepth_reads hP (tokens.length + 1)
  rw [Script.ofTokens] at h
  cases hp : Reader.program _ tokens with
  | error e => rw [hp] at h; cases h
  | ok a =>
    rw [hp] at h
    cases h
    exact Reader.program_yields ⟨hinner, Reader.stmt_yields hinner _⟩ tokens _ _ hp

/-! ## Calls of builtin functions -/

/-- A call without misuse suits, also with the text of a regex in the place of its pattern. -/
lemma callFits_of_callMisuse {f : Builtin} {args : List Expr} (h : Reader.callMisuse f args = none) (extent : Extent) :
    (Expr.call f (Reader.patternArgs f args) extent).CallFits := by
  rw [Reader.callMisuse.eq_def] at h
  split at h
  · cases h
  · rename_i htakes
    refine ⟨by rw [Reader.patternArgs_length]; simpa using htakes, ?_⟩
    rintro rfl
    split at h
    · rename_i s v rest _
      exact ⟨s, v, rest.modify 0 Expr.asPattern, rfl⟩
    all_goals simp_all

lemma grammatical_callFits : Grammatical Expr.CallFits where
  index _ := trivial
  member _ := trivial
  call := callFits_of_callMisuse
  other {e} _ _ := by cases e <;> trivial

/-- All calls of builtin functions in a program suit, and all its jumps stand in loops. -/
abbrev Script.Proper (s : Script) : Prop := s.Each (fun _ => ProperBody) Expr.Proper

/-- All calls of builtin functions in a parsed program suit, and all its jumps stand in loops. -/
theorem Script.ofTokens_proper {tokens : List Token} {s : Script}
    (h : Script.ofTokens tokens = .ok s) : s.Proper := by
  have hread := Script.ofTokens_read grammatical_callFits h
  have hbody : ∀ {t : Surroundings} {body}, t.inLoop = false → ReadBody Expr.CallFits t body →
      ProperBody body := fun ht hb => ⟨hb.calls, escapesBody_of_suits ht hb.suits⟩
  exact ⟨fun body hb => hbody rfl (hread.begin body hb), hread.patterns,
    fun r hr body hb => hbody rfl (hread.bodies r hr body hb), fun body hb => hbody rfl (hread.final body hb),
    fun f hf => hbody rfl (hread.functions f hf)⟩

end Awk
