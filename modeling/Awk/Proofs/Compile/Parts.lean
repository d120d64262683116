import Awk.Proofs.Code.Pieces
import Awk.Proofs.Compile.Pools
import Awk.Proofs.Script.Grammar

/-!
# The parts of code

What code consists of, in pools that hold all its constants: the codes of the parts, and the instructions
between them.  Everything that is shown of code by going through its parts starts from these lemmas.
-/

namespace Awk.Compile

variable {env : Env} {pools : Pools}

/-! ## Expressions that are only computed -/

section

variable {value : Compile (List Op)} {code : List Op}

lemma gives_ofValue_branch {expected : Bool} {t : Test} :
    Gives ((ExprCode.ofValue value).branch expected) pools (code, t) ↔
      Gives value pools code ∧ t = .truth expected := by
  rw [ExprCode.ofValue, gives_map]
  simp

lemma gives_ofValue_operands {n : Nat} :
    Gives (ExprCode.ofValue value).operands pools (code, n) ↔ Gives value pools code ∧ n = 1 := by
  rw [ExprCode.ofValue, gives_map]
  simp

lemma gives_ofValue_store : Gives (ExprCode.ofValue value).store pools code ↔ code = [.drop] := by
  rw [ExprCode.ofValue, gives_pure, eq_comm]

end

/-! ## Several expressions -/

variable {codes : List ExprCode} {code : List Op} {f : Builtin} {args : List Expr} {s : Stmt}

lemma exprCodes_eq_map (env : Env) (es : List Expr) : exprCodes env es = es.map (exprCode env) := by
  induction es with
  | nil => rfl
  | cons e rest ih => rw [exprCodes, ih, List.map_cons]

lemma gives_valuesOf_cons {c : ExprCode} :
    Gives (valuesOf (c :: codes)) pools code ↔
      ∃ first, Gives c.value pools first ∧ ∃ rest, Gives (valuesOf codes) pools rest ∧
        code = first ++ rest :=
  gives_map₂

lemma gives_keyOf (h : Gives (keyOf codes) pools code) :
    (∃ c, codes = [c] ∧ Gives c.key pools code) ∨
      ∃ values, Gives (valuesOf codes) pools values ∧ code = values ++ [Op.indexMulti codes.length] := by
  rw [keyOf.eq_def] at h
  split at h
  · exact .inl ⟨_, rfl, h⟩
  · exact .inr (gives_map.mp h)

/-! ## Places -/

section

variable {p : PlaceCode} {code : List Op}

lemma gives_store (h : Gives p.store pools code) : ∃ key cell, Gives p.key pools key ∧
    Gives p.cell pools cell ∧ code = key ++ [Op.store cell] := by
  obtain ⟨key, hkey, cell, hcell, rfl⟩ := gives_map₂.mp h
  exact ⟨key, cell, hkey, hcell, rfl⟩

end

/-- The code that fetches a cell whose key is on the stack, and leaves the key there. -/
def fetchCode : Cell → List Op
  | .scalar r => [.load (.scalar r)]
  | c => [.dupe, .load c]

/-- The code that puts the top of the stack into a cell whose key is below the value under it. -/
def putCode : Cell → List Op
  | .scalar r => [.store (.scalar r)]
  | c => [.rote, .store c]

/-- What stands between them: it leaves the new value on top, above the old one as a number or above itself. -/
def amendCode (keep : Bool) (new : List Op) : List Op := bif keep then [.plus, .dupe] ++ new else new ++ [.dupe]

section

variable {pl : Place} {key : List Op} {c : Cell}

lemma gives_key_bare (hkey : Gives (placeCode env pl).key pools key) (hcell : Gives (placeCode env pl).cell pools c)
    (hc : c.keys = 0) : key = [] := by
  cases pl with
  | var v => exact (gives_pure.mp hkey).symm
  | index array index =>
    obtain ⟨a, -, rfl⟩ := gives_map.mp hcell
    cases hc
  | field e =>
    rw [← gives_pure.mp hcell] at hc
    cases hc

lemma gives_modify (keep : Bool) {change : Compile (List Op)}
    (h : Gives (bif keep then modifyKeepCode (placeCode env pl) change else modifyCode (placeCode env pl) change)
      pools code) :
    ∃ key cell new, Gives (placeCode env pl).key pools key ∧ Gives (placeCode env pl).cell pools cell ∧
      Gives change pools new ∧ code = key ++ (fetchCode cell ++ (amendCode keep new ++ putCode cell)) := by
  cases keep with
  | true | false =>
    obtain ⟨key, hkey, h⟩ := gives_bind.mp h
    obtain ⟨cell, hcell, h⟩ := gives_bind.mp h
    cases cell with
    | scalar r =>
      obtain ⟨new, hnew, rfl⟩ := gives_map.mp h
      obtain rfl := gives_key_bare hkey hcell rfl
      exact ⟨[], _, new, hkey, hcell, hnew, by simp [fetchCode, putCode, amendCode]⟩
    | field | element a =>
      obtain ⟨new, hnew, rfl⟩ := gives_map.mp h
      exact ⟨key, _, new, hkey, hcell, hnew, by simp [fetchCode, putCode, amendCode]⟩

end

lemma gives_stepCode {decr : Bool} (h : Gives (stepCode decr) pools code) :
    ∃ i, pools.nums[i]? = some 1 ∧ code = [.num i, .arith (if decr then .sub else .add)] := by
  obtain ⟨op, hop, rfl⟩ := gives_map.mp h
  obtain ⟨i, rfl, hi⟩ := hop.num
  exact ⟨i, hi, rfl⟩

/-! ## Calls -/

/-- The code of a call of a builtin function: three functions have instructions of their own, and so has the
length of an array. -/
inductive CallParts (env : Env) (pools : Pools) : Builtin → List Expr → List ExprCode → List Op → Prop where
  | lengthArray {v : VarRef} {codes : List ExprCode} {a : ArrayRef} (isArray : env.isArray v = true)
      (array : Gives (env.array v) pools a) :
      CallParts env pools .length [.place (.var v)] codes [.callLengthArray a]
  | split {e : Expr} {v : VarRef} {es : List Expr} {s c : ExprCode} {rest : List ExprCode}
      {text sep : List Op} {a : ArrayRef} (value : Gives s.value pools text)
      (separator : Gives (valuesOf rest) pools sep) (array : Gives (env.array v) pools a) :
      CallParts env pools .split (e :: .place (.var v) :: es) (s :: c :: rest)
        (text ++ sep ++ [Op.callSplit a (!rest.isEmpty)])
  | sub {f : Builtin} {args : List Expr} {p r t : ExprCode} {rest : List ExprCode}
      {pattern replacement text store : List Op} (hf : f = .sub ∨ f = .gsub)
      (hp : Gives p.value pools pattern) (hr : Gives r.value pools replacement)
      (ht : Gives t.value pools text) (hs : Gives t.store pools store) :
      CallParts env pools f args (p :: r :: t :: rest)
        (subCode pattern replacement text (f == .gsub) store)
  | subRecord {f : Builtin} {args : List Expr} {p r : ExprCode} {pattern replacement : List Op} {i : Nat}
      (hf : f = .sub ∨ f = .gsub) (hp : Gives p.value pools pattern)
      (hr : Gives r.value pools replacement) (hi : pools.nums[i]? = some 0) :
      CallParts env pools f args [p, r]
        (subCode pattern replacement [.fieldInt 0] (f == .gsub) [.num i, .store .field])
  | plain {f : Builtin} {args : List Expr} {codes : List ExprCode} {values : List Op} (hf : f.IsPlain)
      (isScalar : f = .length → ∀ v, args = [.place (.var v)] → env.isArray v = false)
      (hvalues : Gives (valuesOf codes) pools values) :
      CallParts env pools f args codes (values ++ [Op.callBuiltin f codes.length])

lemma gives_plainCallCode (h : Gives (plainCallCode f codes) pools code) :
    ∃ values, Gives (valuesOf codes) pools values ∧ code = values ++ [Op.callBuiltin f codes.length] :=
  gives_map.mp h

lemma gives_subCode (hf : f = .sub ∨ f = .gsub) {p r : ExprCode} {rest : List ExprCode}
    (h : Gives (callCode env f args (p :: r :: rest)) pools code) :
    CallParts env pools f args (p :: r :: rest) code := by
  cases rest with
  | nil =>
    have hcall : callCode env f args [p, r] = (do
        let pattern ← p.value
        let replacement ← r.value
        return subCode pattern replacement [.fieldInt 0] (f == .gsub) [← num 0, .store .field]) := by
      rcases hf with rfl | rfl <;> rfl
    rw [hcall] at h
    obtain ⟨pattern, hpattern, h⟩ := gives_bind.mp h
    obtain ⟨replacement, hrepl, op, hop, rfl⟩ := gives_map₂.mp h
    obtain ⟨i, rfl, hi⟩ := hop.num
    exact .subRecord hf hpattern hrepl hi
  | cons t rest =>
    have hcall : callCode env f args (p :: r :: t :: rest) = (do
        let pattern ← p.value
        let replacement ← r.value
        return subCode pattern replacement (← t.value) (f == .gsub) (← t.store)) := by
      rcases hf with rfl | rfl <;> rfl
    rw [hcall] at h
    obtain ⟨pattern, hpattern, h⟩ := gives_bind.mp h
    obtain ⟨replacement, hrepl, h⟩ := gives_bind.mp h
    obtain ⟨text, htext, store, hstore, rfl⟩ := gives_map₂.mp h
    exact .sub hf hpattern hrepl htext hstore

lemma gives_callCode {extent : Extent} (hfits : (Expr.call f args extent).CallFits)
    (hlen : codes.length = args.length)
    (h : Gives (callCode env f args codes) pools code) : CallParts env pools f args codes code := by
  obtain ⟨htakes, hsplit⟩ := hfits
  by_cases hsub : f = .sub ∨ f = .gsub
  · -- there are at least two arguments
    have htwo : 2 ≤ args.length := by
      rw [Builtin.takes, Bool.and_eq_true, decide_eq_true_eq] at htakes
      rcases hsub with rfl | rfl <;> exact htakes.1
    obtain _ | ⟨p, _ | ⟨r, rest⟩⟩ := codes
    · rw [← hlen] at htwo; simp at htwo
    · rw [← hlen] at htwo; simp at htwo
    · exact gives_subCode hsub h
  · by_cases hs : f = .split
    · subst hs
      obtain ⟨e, v, es, rfl⟩ := hsplit rfl
      obtain _ | ⟨s, _ | ⟨c, rest⟩⟩ := codes
      · simp at hlen
      · simp at hlen
      · obtain ⟨text, htext, h⟩ := gives_bind.mp h
        obtain ⟨sep, hsep, a, ha, rfl⟩ := gives_map₂.mp h
        exact .split htext hsep ha
    · have hplain : f.IsPlain := ⟨hs, fun h => hsub (.inl h), fun h => hsub (.inr h)⟩
      rw [callCode.eq_def] at h
      split at h
      · rename_i v
        split at h
        · rename_i hv
          obtain ⟨a, ha, rfl⟩ := gives_map.mp h
          exact .lengthArray hv ha
        · rename_i hv
          obtain ⟨values, hvalues, rfl⟩ := gives_plainCallCode h
          refine .plain hplain (fun _ w hw => ?_) hvalues
          cases hw
          exact Bool.eq_false_iff.mpr hv
      · exact absurd rfl hs
      · exact absurd (.inl rfl) hsub
      · exact absurd (.inr rfl) hsub
      · rename_i hno _ _ _
        obtain ⟨values, hvalues, rfl⟩ := gives_plainCallCode h
        exact .plain hplain (fun hl v hv => absurd hv (hno v hl)) hvalues

/-! ## Statements -/

/-- The code of a statement. -/
inductive StmtParts (env : Env) (pools : Pools) : Stmt → List Piece → Prop where
  | print {args : List Expr} {redirect : Option Redirect} {out : List Op}
      (hout : Gives (outputCode env false args redirect) pools out) :
      StmtParts env pools (.print args redirect) (ops out)
  | printf {args : List Expr} {redirect : Option Redirect} {out : List Op}
      (hout : Gives (outputCode env true args redirect) pools out) :
      StmtParts env pools (.printf args redirect) (ops out)
  | expr {e : Expr} {effect : List Op} (heffect : Gives (effectCode env e) pools effect) :
      StmtParts env pools (.expr e) (ops effect)
  | ifThen {cond : Expr} {body : List Stmt} {test : List Op} {t : Test} {yes : List Piece}
      (htest : Gives ((exprCode env cond).branch false) pools (test, t))
      (hyes : Gives (bodyCode env body) pools yes) :
      StmtParts env pools (.ifElse cond body none) (ops test ++ skip t yes)
  | ifElse {cond : Expr} {body other : List Stmt} {test : List Op} {t : Test} {yes no : List Piece}
      (htest : Gives ((exprCode env cond).branch false) pools (test, t))
      (hyes : Gives (bodyCode env body) pools yes) (hno : Gives (bodyCode env other) pools no) :
      StmtParts env pools (.ifElse cond body (some other)) (ops test ++ either t yes no)
  | forever {init post : Option Stmt} {body : List Stmt} {first round after : List Piece}
      (hfirst : Gives (initCode env init) pools first) (hround : Gives (bodyCode env body) pools round)
      (hafter : Gives (initCode env post) pools after) :
      StmtParts env pools (.forLoop init none post body) (first ++ ops (closeLoop round after [] .jump))
  | forLoop {init post : Option Stmt} {cond : Expr} {body : List Stmt} {first round after : List Piece}
      {entry test : List Op} {t u : Test} (hfirst : Gives (initCode env init) pools first)
      (hentry : Gives ((exprCode env cond).branch false) pools (entry, t))
      (hround : Gives (bodyCode env body) pools round) (hafter : Gives (initCode env post) pools after)
      (htest : Gives ((exprCode env cond).branch true) pools (test, u)) :
      StmtParts env pools (.forLoop init (some cond) post body)
        (first ++ (ops entry ++ skip t (ops (closeLoop round after test (.branch u)))))
  | whileLoop {cond : Expr} {body : List Stmt} {round : List Piece} {entry test : List Op} {t u : Test}
      (hentry : Gives ((exprCode env cond).branch false) pools (entry, t))
      (hround : Gives (bodyCode env body) pools round)
      (htest : Gives ((exprCode env cond).branch true) pools (test, u)) :
      StmtParts env pools (.whileLoop cond body)
        (ops entry ++ skip t (ops (closeLoop round [] test (.branch u))))
  | doWhile {cond : Expr} {body : List Stmt} {round : List Piece} {test : List Op} {u : Test}
      (hround : Gives (bodyCode env body) pools round)
      (htest : Gives ((exprCode env cond).branch true) pools (test, u)) :
      StmtParts env pools (.doWhile body cond) (ops (closeLoop round [] test (.branch u)))
  | forIn {var array : VarRef} {body : List Stmt} {v : ScalarRef} {a : ArrayRef} {round : List Piece}
      (hv : Gives (env.scalar var) pools v) (ha : Gives (env.array array) pools a)
      (hround : Gives (bodyCode env body) pools round) :
      StmtParts env pools (.forIn var array body) (ops (.forIn v a round.length :: closeForIn round))
  | breakLoop {extent : Extent} : StmtParts env pools (.breakLoop extent) [.leave]
  | continueLoop {extent : Extent} : StmtParts env pools (.continueLoop extent) [.again]
  | next {extent : Extent} : StmtParts env pools (.next extent) (ops [.next])
  | nextFile {extent : Extent} : StmtParts env pools (.nextFile extent) (ops [.nextFile])
  | exit : StmtParts env pools (.exit none) (ops [.exit])
  | exitStatus {e : Expr} {value : List Op} (hvalue : Gives (exprCode env e).value pools value) :
      StmtParts env pools (.exit (some e)) (ops (value ++ [Op.exitStatus]))
  | returnNull : StmtParts env pools (.returnValue none) (ops [.returnNull])
  | returnValue {e : Expr} {value : List Op} (hvalue : Gives (exprCode env e).value pools value) :
      StmtParts env pools (.returnValue (some e)) (ops (value ++ [Op.return]))
  | deleteAll {array : VarRef} {a : ArrayRef} (ha : Gives (env.array array) pools a) :
      StmtParts env pools (.delete array none) (ops [.deleteAll a])
  | delete {array : VarRef} {index : List Expr} {a : ArrayRef} {key : List Op}
      (ha : Gives (env.array array) pools a) (hkey : Gives (keyOf (exprCodes env index)) pools key) :
      StmtParts env pools (.delete array (some index)) (ops (key ++ [Op.delete a]))
  | block {body : List Stmt} {code : List Piece} (hbody : Gives (bodyCode env body) pools code) :
      StmtParts env pools (.block body) code

lemma gives_stmtCode {code : List Piece} (h : Gives (stmtCode env s) pools code) : StmtParts env pools s code := by
  rw [stmtCode.eq_def] at h
  cases s with
  | print args redirect =>
    obtain ⟨out, hout, rfl⟩ := gives_map.mp h
    exact .print hout
  | printf args redirect =>
    obtain ⟨out, hout, rfl⟩ := gives_map.mp h
    exact .printf hout
  | expr e =>
    obtain ⟨effect, heffect, rfl⟩ := gives_map.mp h
    exact .expr heffect
  | ifElse cond body otherwise =>
    cases otherwise with
    | none =>
      obtain ⟨⟨test, t⟩, htest, h⟩ := gives_bind.mp h
      obtain ⟨yes, hyes, rfl⟩ := gives_map.mp h
      have := StmtParts.ifThen htest hyes
      simpa [skip, ops] using this
    | some other =>
      obtain ⟨⟨test, t⟩, htest, h⟩ := gives_bind.mp h
      obtain ⟨yes, hyes, no, hno, rfl⟩ := gives_map₂.mp h
      have := StmtParts.ifElse htest hyes hno
      simpa [either, ops] using this
  | forLoop init cond post body =>
    cases cond with
    | none =>
      obtain ⟨first, hfirst, h⟩ := gives_bind.mp h
      obtain ⟨round, hround, after, hafter, rfl⟩ := gives_map₂.mp h
      exact .forever hfirst hround hafter
    | some cond =>
      obtain ⟨first, hfirst, h⟩ := gives_bind.mp h
      obtain ⟨⟨entry, t⟩, hentry, h⟩ := gives_bind.mp h
      obtain ⟨round, hround, h⟩ := gives_bind.mp h
      obtain ⟨after, hafter, ⟨test, u⟩, htest, rfl⟩ := gives_map₂.mp h
      have := StmtParts.forLoop hfirst hentry hround hafter htest
      simpa [skip, ops] using this
  | whileLoop cond body =>
    obtain ⟨⟨entry, t⟩, hentry, h⟩ := gives_bind.mp h
    obtain ⟨round, hround, ⟨test, u⟩, htest, rfl⟩ := gives_map₂.mp h
    have := StmtParts.whileLoop hentry hround htest
    simpa [skip, ops] using this
  | doWhile body cond =>
    obtain ⟨round, hround, ⟨test, u⟩, htest, rfl⟩ := gives_map₂.mp h
    exact .doWhile hround htest
  | forIn var array body =>
    obtain ⟨v, hv, h⟩ := gives_bind.mp h
    obtain ⟨a, ha, round, hround, rfl⟩ := gives_map₂.mp h
    exact .forIn hv ha hround
  | breakLoop _ => rw [← gives_pure.mp h]; exact .breakLoop
  | continueLoop _ => rw [← gives_pure.mp h]; exact .continueLoop
  | next _ => rw [← gives_pure.mp h]; exact .next
  | nextFile _ => rw [← gives_pure.mp h]; exact .nextFile
  | exit e =>
    cases e with
    | none => rw [← gives_pure.mp h]; exact .exit
    | some e =>
      obtain ⟨value, hvalue, rfl⟩ := gives_map.mp h
      exact .exitStatus hvalue
  | returnValue e =>
    cases e with
    | none => rw [← gives_pure.mp h]; exact .returnNull
    | some e =>
      obtain ⟨value, hvalue, rfl⟩ := gives_map.mp h
      exact .returnValue hvalue
  | delete array index =>
    cases index with
    | none =>
      obtain ⟨a, ha, rfl⟩ := gives_map.mp h
      exact .deleteAll ha
    | some index =>
      obtain ⟨a, ha, key, hkey, rfl⟩ := gives_map₂.mp h
      exact .delete ha hkey
  | block body => exact .block h

lemma gives_bodyCode_cons {rest : List Stmt} {code : List Piece} :
    Gives (bodyCode env (s :: rest)) pools code ↔ ∃ first, Gives (stmtCode env s) pools first ∧
      ∃ more, Gives (bodyCode env rest) pools more ∧ code = first ++ more :=
  gives_map₂

end Awk.Compile
