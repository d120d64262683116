import Mathlib
import Awk.Script.ExprGrammar

/-!
# Levels of the expression grammar

The readers of the grammar are numbered by how tightly their operators bind, and what a level reads is
described once for all tokens that may stand behind it.
-/

namespace Awk.Reader

/-! ## Single tokens -/

section

variable {α β : Type} {ts us rest : List Token} {t : Token} {m : Mark}

variable {a b : α} {step : α → Reader (Step α)} {result : Except ParseError (α × List Token)}

lemma bind_eq {x : Reader α} {f : α → Reader β} (h : x ts = .ok (a, us)) : (x >>= f) ts = f a us := by
  change (x ts >>= fun p => f p.1 p.2) = f a us
  rw [h]
  rfl

lemma bind_error {x : Reader α} {f : α → Reader β} {err : ParseError} (h : x ts = .error err) :
    (x >>= f) ts = .error err := by
  change (x ts >>= fun p => f p.1 p.2) = .error err
  rw [h]
  rfl

def headKind (ts : List Token) : Token.Kind := (ts.headD endToken).kind

def headMark (ts : List Token) : Option Mark :=
  match headKind ts with
  | .mark m => some m
  | _ => none

lemma headMark_cons (h : t.kind = .mark m) : headMark (t :: ts) = some m := by
  simp [headMark, headKind, h]

lemma headKind_of_headMark (h : headMark ts = some m) : headKind ts = .mark m := by
  revert h
  rw [headMark]
  split <;> simp_all

lemma peek_eq : peek ts = .ok (headKind ts, ts) := rfl

lemma current_cons : current (t :: ts) = .ok (t, t :: ts) := rfl

lemma advance_cons : advance (t :: ts) = .ok (t, ts) := rfl

lemma peekMark_eq : peekMark ts = .ok (headMark ts, ts) := by
  rw [peekMark, bind_eq peek_eq, headMark]
  cases headKind ts <;> rfl

lemma isMark_iff {k : Token.Kind} : k.isMark m = true ↔ k = .mark m := by
  cases k <;> simp [Token.Kind.isMark]

lemma isMark_headKind : (headKind ts).isMark m = decide (headMark ts = some m) := by
  rw [headMark]
  cases headKind ts <;> simp [Token.Kind.isMark, Bool.beq_eq_decide_eq]

lemma at?_eq : at? m ts = .ok (decide (headMark ts = some m), ts) := by
  rw [at?, bind_eq peek_eq, isMark_headKind]
  rfl

lemma accept_eq_true (h : t.kind = .mark m) : accept m (t :: ts) = .ok (true, ts) := by
  rw [accept, bind_eq at?_eq, headMark_cons h]
  simp only [decide_true, ↓reduceIte]
  rfl

lemma accept_eq_false (h : headMark ts ≠ some m) : accept m ts = .ok (false, ts) := by
  rw [accept, bind_eq at?_eq]
  simp only [h, decide_false, Bool.false_eq_true, ↓reduceIte]
  rfl

lemma expect_eq (h : t.kind = .mark m) : expect m (t :: ts) = .ok ((), ts) := by
  rw [expect, bind_eq (accept_eq_true h)]
  rfl

lemma skipNewlines_eq (h : headMark ts ≠ some .newline) : skipNewlines ts = .ok ((), ts) := by
  have hdrop : ts.dropWhile (·.kind.isMark .newline) = ts := by
    cases ts with
    | nil => rfl
    | cons t ts =>
      rw [List.dropWhile_cons_of_neg]
      have hne : (headKind (t :: ts)).isMark .newline = false := by simp [isMark_headKind, h]
      simpa [headKind] using hne
  change Except.ok ((), ts.dropWhile (·.kind.isMark .newline)) = _
  rw [hdrop]

lemma arrayName_eq {a : String} (h : t.kind = .name a) :
    arrayName (t :: ts) = .ok (⟨a, t.extent⟩, ts) := by
  rw [arrayName, bind_eq current_cons, h]
  rfl

lemma repeatSteps_mono {n k : Nat} (hnk : n ≤ k) (hne : result ≠ .error .exhausted)
    (h : repeatSteps step n a ts = result) : repeatSteps step k a ts = result := by
  induction n generalizing k a ts with
  | zero => exact absurd h.symm hne
  | succ n ih =>
    obtain ⟨k, rfl⟩ : ∃ j, k = j + 1 := ⟨k - 1, by omega⟩
    rw [repeatSteps] at h ⊢
    cases hs : step a ts with
    | error e =>
      rw [bind_error hs] at h ⊢
      exact h
    | ok s =>
      obtain ⟨s, us⟩ := s
      rw [bind_eq hs] at h ⊢
      cases s with
      | done b => exact h
      | more b => exact ih (by omega) h

lemma loop_done (h : step a ts = .ok (.done b, us)) : loop step a ts = .ok (b, us) := by
  rw [loop, repeatSteps, bind_eq h]
  rfl

lemma loop_more (h : step a ts = .ok (.more b, us)) (hlen : us.length < ts.length) (hne : result ≠ .error .exhausted)
    (hp : loop step b us = result) : loop step a ts = result := by
  rw [loop, repeatSteps, bind_eq h]
  exact repeatSteps_mono hlen hne hp

end

/-! ## What may stand around an expression -/

/-- The level at which a mark behind an expression carries it on. -/
def markJoins : Mark → Option Nat
  | .assign | .addAssign | .subAssign | .mulAssign | .divAssign | .modAssign | .powAssign => some 0
  | .question => some 1
  | .or => some 2
  | .and => some 3
  | .in => some 4
  | .match | .notMatch => some 5
  | .equals | .notEquals | .less | .lessOrEqual | .greater | .greaterOrEqual => some 6
  | .dollar | .not | .lParen => some 8
  | .plus | .minus => some 9
  | .star | .slash | .percent => some 10
  | .caret => some 12
  | .incr | .decr => some 13
  | .lBracket => some 14
  | _ => none

/-- The level at which the tokens behind an expression carry it on, if they can.  A pipe does so only
before `getline`, and any operand by standing beside the expression. -/
def joins (ts : List Token) : Option Nat :=
  match headKind ts with
  | .mark .pipe => if headMark ts.tail = some .getline then some 7 else none
  | .mark m => markJoins m
  | _ => some 8

/-- Tokens that carry an expression on at no level from the given one on. -/
def Stops (level : Nat) (ts : List Token) : Prop := ∀ l, joins ts = some l → l < level

/-- Tokens that start with an operand without a sign. -/
def Opens (ts : List Token) : Prop :=
  match headKind ts with
  | .name _ | .funcName _ => True
  | .mark m => m = .dollar ∨ m = .lParen
  | _ => False

section

variable {ts us rest : List Token} {t : Token} {m : Mark} {l k : Nat}

lemma Stops.mono (h : Stops l ts) (hlk : l ≤ k) : Stops k ts :=
  fun j hj => (h j hj).trans_le hlk

lemma joins_of_headMark (h : headMark ts = some m) (hm : m ≠ .pipe) : joins ts = markJoins m := by
  rw [joins, headKind_of_headMark h]
  cases m <;> first | rfl | exact absurd rfl hm

lemma Stops.headMark_ne (h : Stops l ts) (hm : m ≠ .pipe) (hj : ∃ j, markJoins m = some j ∧ l ≤ j) :
    headMark ts ≠ some m := by
  obtain ⟨j, hj, hlj⟩ := hj
  intro hts
  have := h j ((joins_of_headMark hts hm).trans hj)
  omega

/-- Where all marks that stand for something carry an expression on, none is next. -/
lemma Stops.bind_eq_none {β : Type} {what? : Mark → Option β} (h : Stops l ts)
    (hwhat : ∀ m b, what? m = some b → m ≠ .pipe ∧ ∃ j, markJoins m = some j ∧ l ≤ j) :
    (headMark ts).bind what? = none := by
  by_contra hne
  obtain ⟨b, hb⟩ := Option.ne_none_iff_exists'.mp hne
  obtain ⟨m, hm, hb⟩ := Option.bind_eq_some_iff.mp hb
  obtain ⟨hpipe, hj⟩ := hwhat m b hb
  exact h.headMark_ne hpipe hj hm

lemma stops_cons (h : t.kind = .mark m) (hm : m ≠ .pipe) (hl : ∀ j, markJoins m = some j → j < l) :
    Stops l (t :: ts) :=
  fun j hj => hl j ((joins_of_headMark (headMark_cons h) hm).symm.trans hj)

lemma Stops.startsOperand (h : Stops 8 ts) : startsOperand (headKind ts) = false := by
  cases hk : headKind ts with
  | mark m =>
    have hm : headMark ts = some m := by simp [headMark, hk]
    have hne : ∀ m', m' ≠ .pipe → (∃ j, markJoins m' = some j ∧ 8 ≤ j) → m ≠ m' :=
      fun m' hp hj hm' => h.headMark_ne hp hj (hm' ▸ hm)
    simp [Reader.startsOperand, hne .dollar, hne .not, hne .lParen, hne .incr, hne .decr, markJoins]
  | _ => exact absurd (h 8 (by rw [joins, hk])) (by omega)

lemma Stops.atPipeGetline (h : Stops 7 ts) : atPipeGetline ts = .ok (false, ts) := by
  match ts with
  | [] | [_] => rfl
  | a :: b :: ts =>
    have hab : (a.kind.isMark .pipe && b.kind.isMark .getline) = false := by
      by_contra hab
      obtain ⟨ha, hb⟩ := Bool.and_eq_true_iff.mp (Bool.eq_true_of_not_eq_false hab)
      have hj : joins (a :: b :: ts) = some 7 := by
        simp [joins, headMark, headKind, isMark_iff.mp ha, isMark_iff.mp hb]
      exact absurd (h 7 hj) (by omega)
    rw [Reader.atPipeGetline, hab]

lemma Opens.append (h : Opens ts) : Opens (ts ++ us) := by
  cases ts with
  | nil => exact h.elim (by simp) (by simp)
  | cons t ts => exact h

lemma Opens.headMark (h : Opens ts) :
    headMark ts = none ∨ headMark ts = some .dollar ∨ headMark ts = some .lParen := by
  revert h
  rw [Opens, Reader.headMark]
  cases headKind ts <;> simp

lemma Opens.joins (h : Opens ts) : joins ts = some 8 := by
  revert h
  rw [Opens, Reader.joins]
  cases headKind ts with
  | mark m =>
    rintro (rfl | rfl)
    · rfl
    · rfl
  | _ => simp

lemma Opens.startsOperand (h : Opens ts) : startsOperand (headKind ts) = true := by
  revert h
  rw [Opens]
  cases headKind ts with
  | mark m =>
    rintro (rfl | rfl)
    · rfl
    · rfl
  | _ => simp [Reader.startsOperand]

lemma Opens.skipNewlines (h : Opens ts) : skipNewlines ts = .ok ((), ts) := by
  refine skipNewlines_eq ?_
  rcases h.headMark with hm | hm | hm <;> simp [hm]

lemma Opens.length_pos (h : Opens ts) : 0 < ts.length := by
  cases ts with
  | nil => exact h.elim (by simp) (by simp)
  | cons t ts => simp

end

/-! ## The levels -/

def level (r : Inner) : Nat → Reader Expr
  | 0 => assignment r false
  | 1 => ternary r false
  | 2 => disjunction r false
  | 3 => conjunction r false
  | 4 => membership r false
  | 5 => matching r false
  | 6 => comparison r false
  | 7 => pipeGetline r
  | 8 => concatenation r
  | 9 => additive r
  | 10 => multiplicative r
  | 11 => unary r
  | 12 => power r
  | 13 => incremented r
  | _ => primary r

/-- The levels that take operators one after the other. -/
def loops (l : Nat) : Bool := l ∈ [2, 3, 4, 5, 7, 8, 9, 10]

/-- The operator that a mark stands for at a level that groups to the left. -/
def operatorAt : Nat → Mark → Option BinaryOp
  | 2, .or => some .or
  | 3, .and => some .and
  | 5, .match => some (.match false)
  | 5, .notMatch => some (.match true)
  | 9, .plus => some (.arith .add)
  | 9, .minus => some (.arith .sub)
  | 10, .star => some (.arith .mul)
  | 10, .slash => some (.arith .div)
  | 10, .percent => some (.arith .mod)
  | _, _ => none

/-- Behind `||` and `&&` the line may end. -/
def afterOperator (l : Nat) : Reader Unit := if l < 4 then skipNewlines else pure ()

/-- The right operand of an operator that groups to the left. -/
def rightOf (r : Inner) (l : Nat) : Reader Expr :=
  if l = 5 then Expr.asPattern <$> level r 6 else level r (l + 1)

/-- One operator with its right operand, at a level that takes them one after the other. -/
def stepAt (r : Inner) : Nat → Expr → Reader (Step Expr)
  | 4, left => do
    if ← accept .in then return .more (.member [left] (← arrayName)) else return .done left
  | 7, left => do
    if ← atPipeGetline then
      let _ ← advance
      let _ ← advance
      return .more (.getlineCommand left (← getlineTarget r))
    else return .done left
  | 8, left => do
    if startsOperand (← peek) then return .more (.binary left .concat (← additive r))
    else return .done left
  | l, left => do
    match (← peekMark).bind (operatorAt l) with
    | none => return .done left
    | some op =>
      let _ ← advance
      afterOperator l
      return .more (.binary left op (← rightOf r l))

variable {r : Inner} {l k : Nat} {ts us rest : List Token} {t : Token} {m : Mark} {e f : Expr}

lemma leftGrouped_eq (hl : l ∈ [2, 3, 5, 9, 10]) {op? : Mark → Option BinaryOp} {first : Reader Expr}
    (h : ∀ m, op? m = operatorAt l m) :
    leftGrouped op? (afterOperator l) first (rightOf r l) = first >>= loop (stepAt r l) := by
  obtain rfl : op? = operatorAt l := funext h
  fin_cases hl <;> rfl

lemma loops_iff : loops l = true ↔ l ∈ [2, 3, 5, 9, 10] ∨ l = 4 ∨ l = 7 ∨ l = 8 := by
  simp only [loops, List.mem_cons, List.not_mem_nil, or_false, decide_eq_true_eq]
  omega

lemma level_eq_loop (hl : loops l = true) : level r l = level r (l + 1) >>= loop (stepAt r l) := by
  obtain hgrouped | rfl | rfl | rfl := loops_iff.mp hl
  · have hop : ∃ op?, level r l = leftGrouped op? (afterOperator l) (level r (l + 1)) (rightOf r l) ∧
        ∀ m, op? m = operatorAt l m := by
      fin_cases hgrouped <;> exact ⟨_, rfl, fun m => by cases m <;> rfl⟩
    obtain ⟨op?, hlevel, hop⟩ := hop
    rw [hlevel, leftGrouped_eq hgrouped hop]
  · rfl
  · rfl
  · rfl

/-- How a level goes on behind an expression. -/
def resume (r : Inner) (l : Nat) (e : Expr) : Reader Expr :=
  if loops l then loop (stepAt r l) e else pure e

lemma resume_loops (hl : loops l = true) : resume r l e = loop (stepAt r l) e := if_pos hl

/-- The tokens are read as the expression at a level, whatever stands behind them: a level that takes
operators one after the other goes on with that, and any other one stops there. -/
structure Reads (l : Nat) (ts : List Token) (e : Expr) : Prop where
  opens : Opens ts
  reads : ∀ depth rest p, ts.length ≤ depth → Stops (if loops l then l + 1 else l) rest →
    resume (.ofDepth depth) l e rest = .ok p → level (.ofDepth depth) l (ts ++ rest) = .ok p

variable {op : BinaryOp} {depth : Nat} {es : List Expr} {a : String} {c : Token}

lemma operatorAt_joins (h : operatorAt l m = some op) : markJoins m = some l ∧ m ≠ .pipe := by
  revert h
  unfold operatorAt
  split <;> simp [markJoins]

lemma stepAt_grouped (hl : l ∈ [2, 3, 5, 9, 10]) : stepAt r l e = (do
    match (← peekMark).bind (operatorAt l) with
    | none => return .done e
    | some op =>
      let _ ← advance
      afterOperator l
      return .more (.binary e op (← rightOf r l))) := by
  fin_cases hl <;> rfl

lemma stepAt_stops (hl : loops l = true) (h : Stops l rest) :
    stepAt r l e rest = .ok (.done e, rest) := by
  obtain hgrouped | rfl | rfl | rfl := loops_iff.mp hl
  · have hnone : (headMark rest).bind (operatorAt l) = none := by
      refine h.bind_eq_none fun m op hop => ?_
      obtain ⟨hj, hpipe⟩ := operatorAt_joins hop
      exact ⟨hpipe, l, hj, le_rfl⟩
    rw [stepAt_grouped hgrouped, bind_eq peekMark_eq, hnone]
    rfl
  · have hin : headMark rest ≠ some .in := h.headMark_ne (by decide) ⟨4, rfl, le_rfl⟩
    rw [stepAt, bind_eq (accept_eq_false hin)]
    rfl
  · rw [stepAt, bind_eq h.atPipeGetline]
    rfl
  · rw [stepAt, bind_eq peek_eq, h.startsOperand]
    rfl

/-- What stands behind the tokens does not carry the expression on, so it is left. -/
lemma Reads.closed (h : Reads l ts e) (hlen : ts.length ≤ depth) (hrest : Stops l rest) :
    level (.ofDepth depth) l (ts ++ rest) = .ok (e, rest) := by
  refine h.reads depth rest _ hlen (hrest.mono (by split <;> omega)) ?_
  rw [resume]
  split
  next hl => exact loop_done (stepAt_stops hl hrest)
  next => rfl

lemma Reads.of_closed (hl : loops l = false) (hopens : Opens ts)
    (h : ∀ d rest, ts.length ≤ d + 1 → Stops l rest →
      level (.ofDepth (d + 1)) l (ts ++ rest) = .ok (e, rest)) : Reads l ts e := by
  refine ⟨hopens, fun depth rest p hlen hrest hp => ?_⟩
  simp only [hl, Bool.false_eq_true, ↓reduceIte, resume] at hrest hp
  cases hp
  obtain ⟨d, rfl⟩ := Nat.exists_eq_add_one.mpr (hopens.length_pos.trans_le hlen)
  exact h d rest hlen hrest

/-! ## From a level to the next -/

lemma assignment_stops (h : ternary r false ts = .ok (e, rest)) (hrest : Stops 0 rest) :
    assignment r false ts = .ok (e, rest) := by
  have hnone : (headMark rest).bind assignment? = none := by
    refine hrest.bind_eq_none fun m op hop => ?_
    cases m <;> cases hop <;> exact ⟨by decide, 0, rfl, le_rfl⟩
  rw [assignment, bind_eq h, bind_eq peekMark_eq, hnone]
  cases e.place? <;> rfl

lemma ternary_stops (h : disjunction r false ts = .ok (e, rest)) (hrest : Stops 1 rest) :
    ternary r false ts = .ok (e, rest) := by
  have hq : headMark rest ≠ some .question := hrest.headMark_ne (by decide) ⟨1, rfl, le_rfl⟩
  rw [ternary, bind_eq h, bind_eq (accept_eq_false hq)]
  rfl

lemma comparison_stops (h : pipeGetline r ts = .ok (e, rest)) (hrest : Stops 6 rest) :
    comparison r false ts = .ok (e, rest) := by
  have hnone : (headMark rest).bind (comparison? false) = none := by
    refine hrest.bind_eq_none fun m op hop => ?_
    cases m <;> cases hop <;> exact ⟨by decide, 6, rfl, le_rfl⟩
  rw [comparison, bind_eq h, bind_eq peekMark_eq, hnone]
  rfl

lemma unary_opens (h : Opens ts) : unary r ts = power r ts := by
  rw [unary, bind_eq peekMark_eq]
  rcases h.headMark with hm | hm | hm <;> rw [hm] <;> rfl

lemma power_stops (h : incremented r ts = .ok (e, rest)) (hrest : Stops 12 rest) :
    power r ts = .ok (e, rest) := by
  have hc : headMark rest ≠ some .caret := hrest.headMark_ne (by decide) ⟨12, rfl, le_rfl⟩
  rw [power, bind_eq h, bind_eq (accept_eq_false hc)]
  rfl

lemma incremented_stops (hopens : Opens ts) (h : primary r ts = .ok (e, rest)) (hrest : Stops 13 rest) :
    incremented r ts = .ok (e, rest) := by
  have hi : headMark rest ≠ some .incr := hrest.headMark_ne (by decide) ⟨13, rfl, le_rfl⟩
  have hd : headMark rest ≠ some .decr := hrest.headMark_ne (by decide) ⟨13, rfl, le_rfl⟩
  rw [incremented, bind_eq peekMark_eq]
  rcases hopens.headMark with hm | hm | hm
  all_goals
    simp only [hm]
    rw [bind_eq h]
    cases e.place? with
    | none => rfl
    | some p =>
      simp only
      rw [bind_eq (accept_eq_false hi)]
      simp only [Bool.false_eq_true, ↓reduceIte]
      rw [bind_eq (accept_eq_false hd)]
      rfl

lemma Reads.down (h : Reads (l + 1) ts e) (hl : l < 14) : Reads l ts e := by
  cases hloops : loops l with
  | true =>
    refine ⟨h.opens, fun depth rest p hlen hrest hp => ?_⟩
    simp only [hloops, if_true, resume_loops] at hrest hp
    rw [level_eq_loop hloops, bind_eq (h.closed hlen hrest), hp]
  | false =>
    refine .of_closed hloops h.opens fun d rest hlen hrest => ?_
    have hread := h.closed hlen (hrest.mono (by omega : l ≤ l + 1))
    have : l = 0 ∨ l = 1 ∨ l = 6 ∨ l = 11 ∨ l = 12 ∨ l = 13 := by
      simp [loops] at hloops
      omega
    obtain rfl | rfl | rfl | rfl | rfl | rfl := this
    · exact assignment_stops hread hrest
    · exact ternary_stops hread hrest
    · exact comparison_stops hread hrest
    · exact (unary_opens h.opens.append).trans hread
    · exact power_stops hread hrest
    · exact incremented_stops h.opens.append hread hrest

lemma Reads.mono (h : Reads k ts e) (hlk : l ≤ k) (hk : k ≤ 14) : Reads l ts e := by
  induction hlk using Nat.decreasingInduction with
  | self => exact h
  | of_succ j hj ih => exact ih.down (by omega)

/-! ## Operators -/

lemma afterOperator_eq (h : Opens ts) : afterOperator l ts = .ok ((), ts) := by
  rw [afterOperator]
  split
  · exact h.skipNewlines
  · rfl

lemma rightOf_eq (h : level r (l + 1) ts = .ok (f, rest)) (hf : f.asPattern = f) :
    rightOf r l ts = .ok (f, rest) := by
  rw [rightOf]
  split
  next hl =>
    subst hl
    rw [map_eq_pure_bind, bind_eq h, hf]
    rfl
  next => exact h

lemma Reads.left (hl : l ∈ [2, 3, 5, 9, 10]) (hop : operatorAt l m = some op) (ht : t.kind = .mark m)
    (he : Reads l ts e) (hf : Reads (l + 1) us f) (hpattern : f.asPattern = f) :
    Reads l (ts ++ t :: us) (.binary e op f) := by
  have hloops : loops l = true := loops_iff.mpr (.inl hl)
  obtain ⟨hjoins, hpipe⟩ := operatorAt_joins hop
  refine ⟨he.opens.append, fun depth rest p hlen hrest hp => ?_⟩
  simp only [hloops, if_true, resume_loops, List.length_append, List.length_cons] at hrest hp hlen
  rw [List.append_assoc]
  refine he.reads depth _ p (by omega) (stops_cons ht hpipe fun j hj => ?_) ?_
  · rw [if_pos hloops]
    simp_all
  · have hright : level (.ofDepth depth) (l + 1) (us ++ rest) = .ok (f, rest) :=
      hf.closed (by omega) hrest
    rw [resume_loops hloops]
    refine loop_more (b := .binary e op f) ?_ (by simp) nofun hp
    rw [List.cons_append, stepAt_grouped hl, bind_eq peekMark_eq, headMark_cons ht, Option.bind_some, hop]
    simp only
    rw [bind_eq advance_cons, bind_eq (afterOperator_eq hf.opens.append),
      bind_eq (rightOf_eq hright hpattern)]
    rfl

lemma Reads.concat (he : Reads 8 ts e) (hf : Reads 9 us f) :
    Reads 8 (ts ++ us) (.binary e .concat f) := by
  refine ⟨he.opens.append, fun depth rest p hlen hrest hp => ?_⟩
  have hopens : Opens (us ++ rest) := hf.opens.append
  have hpos := hf.opens.length_pos
  rw [List.length_append] at hlen
  rw [List.append_assoc]
  refine he.reads depth _ p (by omega) (fun j hj => ?_) ?_
  · rw [hopens.joins] at hj
    cases hj
    decide
  · have hright : additive (.ofDepth depth) (us ++ rest) = .ok (f, rest) := hf.closed (by omega) hrest
    rw [resume_loops rfl] at hp ⊢
    refine loop_more (b := .binary e .concat f) ?_ (by simp; omega) nofun hp
    rw [stepAt, bind_eq peek_eq, hopens.startsOperand]
    simp only [if_true]
    rw [bind_eq hright]
    rfl

lemma Reads.member {n : Token} (ht : t.kind = .mark .in) (hn : n.kind = .name a)
    (he : Reads 4 ts e) : Reads 4 (ts ++ [t, n]) (.member [e] ⟨a, n.extent⟩) := by
  refine ⟨he.opens.append, fun depth rest p hlen hrest hp => ?_⟩
  rw [List.length_append] at hlen
  rw [List.append_assoc]
  refine he.reads depth _ p (by omega) (stops_cons ht (by decide) (by simp [markJoins, loops])) ?_
  rw [resume_loops rfl] at hp ⊢
  refine loop_more (b := .member [e] ⟨a, n.extent⟩) ?_ (by simp) nofun hp
  rw [List.cons_append, List.cons_append, List.nil_append, stepAt, bind_eq (accept_eq_true ht)]
  simp only [if_true]
  rw [bind_eq (arrayName_eq hn)]
  rfl

lemma Reads.compare {op : Comparison} (hop : comparison? false m = some op) (ht : t.kind = .mark m)
    (he : Reads 7 ts e) (hf : Reads 7 us f) : Reads 6 (ts ++ t :: us) (.binary e (.compare op) f) := by
  have hjoins : markJoins m = some 6 ∧ m ≠ .pipe := by
    cases m <;> cases hop <;> exact ⟨rfl, by decide⟩
  refine .of_closed rfl he.opens.append fun d rest hlen hrest => ?_
  rw [List.length_append, List.length_cons] at hlen
  have hleft : pipeGetline (.ofDepth (d + 1)) (ts ++ t :: (us ++ rest)) = .ok (e, t :: (us ++ rest)) :=
    he.closed (by omega) (stops_cons ht hjoins.2 (by simp [hjoins]))
  have hright : pipeGetline (.ofDepth (d + 1)) (us ++ rest) = .ok (f, rest) :=
    hf.closed (by omega) (hrest.mono (by omega))
  rw [List.append_assoc, List.cons_append, level, comparison, bind_eq hleft, bind_eq peekMark_eq,
    headMark_cons ht, Option.bind_some, hop]
  simp only
  rw [bind_eq advance_cons, bind_eq hright]
  rfl

lemma Reads.pow (ht : t.kind = .mark .caret) (he : Reads 13 ts e) (hf : Reads 12 us f) :
    Reads 12 (ts ++ t :: us) (.binary e (.arith .pow) f) := by
  refine .of_closed rfl he.opens.append fun d rest hlen hrest => ?_
  rw [List.length_append, List.length_cons] at hlen
  have hleft : incremented (.ofDepth (d + 1)) (ts ++ t :: (us ++ rest)) = .ok (e, t :: (us ++ rest)) :=
    he.closed (by omega) (stops_cons ht (by decide) (by simp [markJoins]))
  have hright : (Inner.ofDepth (d + 1)).unary (us ++ rest) = .ok (f, rest) :=
    (unary_opens hf.opens.append).trans (hf.closed (by omega) hrest)
  rw [List.append_assoc, List.cons_append, level, power, bind_eq hleft, bind_eq (accept_eq_true ht)]
  simp only [if_true]
  rw [bind_eq hright]
  rfl

lemma Reads.cond {g : Expr} {vs : List Token} (ht : t.kind = .mark .question)
    (hc : c.kind = .mark .colon) (he : Reads 2 ts e) (hf : Reads 0 us f) (hg : Reads 0 vs g) :
    Reads 0 (ts ++ t :: (us ++ c :: vs)) (.cond e f g) := by
  refine .of_closed rfl he.opens.append fun d rest hlen hrest => ?_
  simp only [List.length_append, List.length_cons] at hlen
  have htest : disjunction (.ofDepth (d + 1)) false (ts ++ t :: (us ++ (c :: (vs ++ rest)))) =
      .ok (e, t :: (us ++ (c :: (vs ++ rest)))) :=
    he.closed (by omega) (stops_cons ht (by decide) (by simp [markJoins]))
  have hyes : (Inner.ofDepth (d + 1)).expr false (us ++ (c :: (vs ++ rest))) = .ok (f, c :: (vs ++ rest)) :=
    hf.closed (by omega) (stops_cons hc (by decide) (by simp [markJoins]))
  have hno : (Inner.ofDepth (d + 1)).expr false (vs ++ rest) = .ok (g, rest) := hg.closed (by omega) hrest
  have hcolon : skipNewlines (c :: (vs ++ rest)) = .ok ((), c :: (vs ++ rest)) :=
    skipNewlines_eq (by rw [headMark_cons hc]; decide)
  have hternary : ternary (.ofDepth (d + 1)) false (ts ++ (t :: (us ++ (c :: (vs ++ rest))))) =
      .ok (.cond e f g, rest) := by
    rw [ternary, bind_eq htest, bind_eq (accept_eq_true ht)]
    simp only [if_true]
    rw [bind_eq hf.opens.append.skipNewlines, bind_eq hyes, bind_eq hcolon, bind_eq (expect_eq hc),
      bind_eq hg.opens.append.skipNewlines, bind_eq hno]
    rfl
  rw [List.append_assoc, List.cons_append, List.append_assoc, List.cons_append]
  exact assignment_stops hternary hrest

/-- The assignment of a value, or of what an operation makes of the old one and it. -/
def assigned (p : Place) (op : Option Arith) (value : Expr) : Expr :=
  match op with
  | none => .assign p value
  | some op => .augAssign p op value

lemma Reads.assign {p : Place} {op : Option Arith} (hop : assignment? m = some op) (ht : t.kind = .mark m)
    (hp : Reads 14 ts (.place p)) (hf : Reads 0 us f) :
    Reads 0 (ts ++ t :: us) (assigned p op f) := by
  have hjoins : markJoins m = some 0 ∧ m ≠ .pipe := by
    cases m <;> cases hop <;> exact ⟨rfl, by decide⟩
  refine .of_closed rfl hp.opens.append fun d rest hlen hrest => ?_
  simp only [List.length_append, List.length_cons] at hlen
  have hplace : ternary (.ofDepth (d + 1)) false (ts ++ t :: (us ++ rest)) =
      .ok (.place p, t :: (us ++ rest)) :=
    (hp.mono (by omega) le_rfl : Reads 1 ts _).closed (by omega)
      (stops_cons ht hjoins.2 (by simp [hjoins]))
  have hvalue : (Inner.ofDepth (d + 1)).expr false (us ++ rest) = .ok (f, rest) :=
    hf.closed (by omega) hrest
  rw [List.append_assoc, List.cons_append, level, assignment, bind_eq hplace, bind_eq peekMark_eq,
    headMark_cons ht, Option.bind_some, hop]
  simp only [Expr.place?]
  rw [bind_eq advance_cons, bind_eq hf.opens.append.skipNewlines, bind_eq hvalue]
  cases op <;> rfl

/-! ## Operands -/

/-- The tokens are read as the expressions, with commas between them, up to a closing mark. -/
def ReadsList (ts : List Token) (es : List Expr) : Prop :=
  ∀ depth close c rest before, ts.length ≤ depth → close = .rParen ∨ close = .rBracket →
    c.kind = .mark close → loop (exprListStep (.ofDepth (depth + 1)) close) before (ts ++ c :: rest) =
      .ok (es.reverse ++ before, c :: rest)

lemma ReadsList.exprList (h : ReadsList ts es) (depth : Nat) (rest : List Token)
    (hlen : ts.length ≤ depth) {close : Mark}
    (hclose : close = .rParen ∨ close = .rBracket) (hc : c.kind = .mark close) :
    exprList (.ofDepth (depth + 1)) close (ts ++ c :: rest) = .ok (es, rest) := by
  rw [Reader.exprList, bind_eq (h depth close c rest [] hlen hclose hc), bind_eq (expect_eq hc)]
  simp only [List.append_nil, List.reverse_reverse]
  rfl

lemma readsList_nil : ReadsList [] [] := by
  intro depth close c rest before _ hclose hc
  refine loop_done ?_
  have hline : headMark (c :: rest) ≠ some .newline := by
    rw [headMark_cons hc]
    rcases hclose with rfl | rfl <;> decide
  rw [List.nil_append, exprListStep, bind_eq (skipNewlines_eq hline), bind_eq at?_eq, headMark_cons hc]
  simp only [decide_true, if_true]
  rfl

/-- The next expression of a list is read up to the comma or the closing mark behind it. -/
lemma exprListStep_eq {before : List Expr} {close : Mark} (hclose : close = .rParen ∨ close = .rBracket)
    (h : Reads 0 ts e) (hlen : ts.length ≤ depth) (hrest : Stops 0 rest) (hline : headMark rest ≠ some .newline) :
    exprListStep (.ofDepth (depth + 1)) close before (ts ++ rest) = (do
      if ← accept .comma then return Step.more (e :: before)
      else return Step.done (e :: before)) rest := by
  have hne : headMark (ts ++ rest) ≠ some close := by
    rcases (h.opens.append : Opens (ts ++ rest)).headMark with hm | hm | hm <;> rw [hm] <;>
      rcases hclose with rfl | rfl <;> decide
  have hexpr : (Inner.ofDepth (depth + 1)).expr false (ts ++ rest) = .ok (e, rest) := h.closed hlen hrest
  rw [exprListStep, bind_eq h.opens.append.skipNewlines, bind_eq at?_eq]
  simp only [hne, decide_false, Bool.false_eq_true, ↓reduceIte]
  rw [bind_eq hexpr, bind_eq (skipNewlines_eq hline)]

lemma Reads.single (h : Reads 0 ts e) : ReadsList ts [e] := by
  intro depth close c rest before hlen hclose hc
  have hcomma : headMark (c :: rest) ≠ some .comma ∧ headMark (c :: rest) ≠ some .newline ∧
      Stops 0 (c :: rest) := by
    rw [headMark_cons hc]
    rcases hclose with rfl | rfl <;>
      exact ⟨by decide, by decide, stops_cons hc (by decide) (by simp [markJoins])⟩
  obtain ⟨hcomma, hline, hstops⟩ := hcomma
  refine loop_done ?_
  rw [exprListStep_eq hclose h hlen hstops hline, bind_eq (accept_eq_false hcomma)]
  rfl

lemma Reads.more (ht : t.kind = .mark .comma) (h : Reads 0 ts e) (hes : ReadsList us es) :
    ReadsList (ts ++ t :: us) (e :: es) := by
  intro depth close c rest before hlen hclose hc
  rw [List.length_append, List.length_cons] at hlen
  have hloop := hes depth close c rest (e :: before) (by omega) hclose hc
  have hstops : Stops 0 (t :: (us ++ c :: rest)) := stops_cons ht (by decide) (by simp [markJoins])
  have hline : headMark (t :: (us ++ c :: rest)) ≠ some .newline := by rw [headMark_cons ht]; decide
  rw [List.append_assoc, List.cons_append, List.reverse_cons, List.append_assoc]
  refine loop_more ?_ (by simp; omega) nofun hloop
  rw [exprListStep_eq hclose h (by omega) hstops hline, bind_eq (accept_eq_true ht)]
  rfl

lemma Reads.of_primary (hopens : Opens [t]) (h : ∀ d rest, ts.length ≤ d → Stops 14 rest →
    primary (.ofDepth (d + 1)) (t :: (ts ++ rest)) = .ok (e, rest)) : Reads 14 (t :: ts) e :=
  .of_closed rfl hopens fun d rest hlen hrest => h d rest (Nat.le_of_succ_le_succ hlen) hrest

/-- An opening parenthesis is the start of an operand in parentheses. -/
lemma primary_lParen (ht : t.kind = .mark .lParen) : primary r (t :: ts) = parenthesized r t.extent ts := by
  rw [primary, bind_eq current_cons]
  simp only [ht]
  rw [bind_eq advance_cons]

lemma reads_var (ht : t.kind = .name a) : Reads 14 [t] (.place (.var ⟨a, t.extent⟩)) := by
  refine .of_primary (by simp [Opens, headKind, ht]) fun d rest _ hrest => ?_
  have hne : headMark rest ≠ some .lBracket := hrest.headMark_ne (by decide) ⟨14, rfl, le_rfl⟩
  rw [List.nil_append, primary, bind_eq current_cons]
  simp only [ht]
  rw [bind_eq advance_cons, bind_eq (accept_eq_false hne)]
  rfl

lemma ReadsList.index {b : Token} (ht : t.kind = .name a)
    (hb : b.kind = .mark .lBracket) (hc : c.kind = .mark .rBracket) (h : ReadsList ts es) (hes : es ≠ []) :
    Reads 14 (t :: b :: (ts ++ [c])) (.place (.index ⟨a, t.extent⟩ es)) := by
  refine .of_primary (by simp [Opens, headKind, ht]) fun d rest hlen _ => ?_
  simp only [List.length_append, List.length_cons] at hlen
  have hlist := h.exprList d rest (by omega) (.inr rfl) hc
  simp only [List.cons_append, List.append_assoc, List.nil_append]
  rw [primary, bind_eq current_cons]
  simp only [ht]
  rw [bind_eq advance_cons, bind_eq (accept_eq_true hb)]
  simp only [if_true]
  rw [bind_eq hlist]
  cases es with
  | nil => exact absurd rfl hes
  | cons e es => rfl

lemma ReadsList.call {b : Token} (ht : t.kind = .funcName a) (hb : b.kind = .mark .lParen)
    (hc : c.kind = .mark .rParen) (h : ReadsList ts es) :
    Reads 14 (t :: b :: (ts ++ [c])) (.userCall a es t.extent) := by
  refine .of_primary (by simp [Opens, headKind, ht]) fun d rest hlen _ => ?_
  simp only [List.length_append, List.length_cons] at hlen
  have hlist := h.exprList d rest (by omega) (.inl rfl) hc
  simp only [List.cons_append, List.append_assoc, List.nil_append]
  rw [primary, bind_eq current_cons]
  simp only [ht]
  rw [bind_eq advance_cons, bind_eq (expect_eq hb), bind_eq hlist]
  rfl

lemma Reads.field (ht : t.kind = .mark .dollar) (h : Reads 14 ts e) :
    Reads 14 (t :: ts) (.place (.field e)) := by
  refine .of_primary (by simp [Opens, headKind, ht]) fun d rest hlen hrest => ?_
  have hprimary : (Inner.ofDepth (d + 1)).primary (ts ++ rest) = .ok (e, rest) := h.closed (by omega) hrest
  have hnumber : fieldNumber (.ofDepth (d + 1)) (ts ++ rest) = .ok (e, rest) := by
    rw [fieldNumber, bind_eq peekMark_eq]
    rcases (h.opens.append : Opens (ts ++ rest)).headMark with hm | hm | hm <;> rw [hm] <;> exact hprimary
  rw [primary, bind_eq current_cons]
  simp only [ht]
  rw [bind_eq advance_cons, bind_eq hnumber]
  rfl

lemma Reads.parens (ht : t.kind = .mark .lParen) (hc : c.kind = .mark .rParen) (h : Reads 0 ts e) :
    Reads 14 (t :: (ts ++ [c])) e := by
  refine .of_primary (by simp [Opens, headKind, ht]) fun d rest hlen _ => ?_
  simp only [List.length_append, List.length_cons] at hlen
  have hlist := h.single.exprList d rest (by omega) (.inl rfl) hc
  rw [List.append_assoc, List.singleton_append, primary_lParen ht, parenthesized, bind_eq hlist]
  rfl

lemma ReadsList.member {i n : Token} (ht : t.kind = .mark .lParen)
    (hc : c.kind = .mark .rParen) (hi : i.kind = .mark .in) (hn : n.kind = .name a)
    (h : ReadsList ts es) (hes : 2 ≤ es.length) :
    Reads 14 (t :: (ts ++ [c, i, n])) (.member es ⟨a, n.extent⟩) := by
  refine .of_primary (by simp [Opens, headKind, ht]) fun d rest hlen _ => ?_
  simp only [List.length_append, List.length_cons] at hlen
  have hlist := h.exprList d (i :: n :: rest) (by omega) (.inl rfl) hc
  simp only [List.append_assoc, List.cons_append, List.nil_append]
  rw [primary_lParen ht, parenthesized, bind_eq hlist]
  match es, hes with
  | e :: f :: es, _ =>
    simp only
    rw [bind_eq (accept_eq_true hi)]
    simp only [if_true]
    rw [bind_eq (arrayName_eq hn)]
    rfl

end Awk.Reader
