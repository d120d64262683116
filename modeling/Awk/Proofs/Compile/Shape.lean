import Awk.Proofs.Code.Shape
import Awk.Proofs.Compile.Parts
import Awk.Proofs.Resolution.Kinds

/-!
# The shape of the code of expressions

The code of an expression pushes one value wherever it stands, and names only constants, variables and functions
that exist.
-/

namespace Awk.Compile

/-- The numbers that names stand for exist: those of variables that are used according to their kind, and
those of functions, which take as many scalars as they have parameters of that kind. -/
structure Setting (p : Program) (room : Room) (env : Env) : Prop where
  scalar : ∀ {v : VarRef} {ref : ScalarRef}, env.HasKind v.name .scalar →
    Gives (env.scalar v) p.pools ref → ref.WellFormed p room
  array : ∀ {v : VarRef} {ref : ArrayRef}, env.HasKind v.name .array →
    Gives (env.array v) p.pools ref → ref.WellFormed p room
  func : ∀ {name : String} {info : FuncInfo}, env.resolution.lookupFunc name = some info →
    info.native = false → info.index < p.functions.size ∧
      p.scalarCount info.index = info.arrays.count false

/-- Code takes values off the stack and leaves others, wherever it stands and whatever lies below. -/
def Turns (p : Program) (room : Room) (code : List Op) (a b : Nat) : Prop :=
  ∀ loops k, Shape p room loops k (ops code) (k + a) (k + b)

variable {p : Program} {room : Room} {env : Env} {code : List Op}

namespace Turns

variable {code' : List Op} {o : Op} {a b c : Nat}

lemma nil : Turns p room [] a a := fun _ k => .nil (Nat.le_add_right k a)

lemma append (h : Turns p room code a b) (h' : Turns p room code' b c) : Turns p room (code ++ code') a c := by
  intro loops k
  rw [ops_append]
  exact (h loops k).append (h' loops k)

/-- Values below those that code takes are left alone. -/
lemma above (n : Nat) (h : Turns p room code a b) : Turns p room code (n + a) (n + b) := by
  intro loops k
  rw [← Nat.add_assoc, ← Nat.add_assoc]
  exact (h loops (k + n)).mono (Nat.le_add_right k n)

lemma straight (h : rise p code a = some b)
    (hcode : code.Forall fun o => isStep o = true ∧ o.WellFormed p room) : Turns p room code a b :=
  fun _ k => .straight k h hcode

/-- An instruction that takes all values pushed before it. -/
lemma op (h : Turns p room code a b) (ho : isStep o = true) (hw : o.WellFormed p room) (ht : o.takes p = b) :
    Turns p room (code ++ [o]) a o.puts :=
  h.append fun _ k => .step ho hw (by omega) (by omega) (by omega) (by omega)

/-- An instruction that takes all values pushed before it and ends the code. -/
lemma stop (h : Turns p room code a b) (ho : isStop o = true) (ht : o.takes p = b) :
    Turns p room (code ++ [o]) a a :=
  h.append fun _ k => .stop ho (by omega) (by omega) (by omega)

lemma call {f : Nat} {refs : List ArrayRef} (h : Turns p room code 0 (p.scalarCount f))
    (hf : f < p.functions.size) (hrefs : ∀ a ∈ refs, a.WellFormed p room) :
    Turns p room (code ++ .callUser f refs.length :: refs.map .arrayArg) 0 1 := by
  intro loops k
  rw [ops_append]
  exact (h loops k).call hf hrefs

end Turns

/-- All code that pushes one value. -/
abbrev Pushes (p : Program) (room : Room) (value : Compile (List Op)) : Prop :=
  ∀ {code}, Gives value p.pools code → Turns p room code 0 1

/-- The heights of all forms of an expression's code, above any number of values. -/
structure ExprCode.Shapes (p : Program) (room : Room) (c : ExprCode) : Prop where
  value : Pushes p room c.value
  branch : ∀ {expected code t}, Gives (c.branch expected) p.pools (code, t) → Turns p room code 0 t.operands
  operands : ∀ {code n}, Gives c.operands p.pools (code, n) → Turns p room code 0 n
  key : Pushes p room c.key
  store : ∀ {code}, Gives c.store p.pools code → Turns p room code 1 0

/-- The heights of all parts of a place's code, above any number of values. -/
structure PlaceCode.Shapes (p : Program) (room : Room) (c : PlaceCode) : Prop where
  key : ∀ {code cell}, Gives c.key p.pools code → Gives c.cell p.pools cell → Turns p room code 0 cell.keys
  cell : ∀ {cell}, Gives c.cell p.pools cell → cell.WellFormed p room
  value : Pushes p room c.value

/-! ## Constants -/

lemma turns_num {x : Float} {op : Op} (h : Gives (num x) p.pools op) : Turns p room [op] 0 1 := by
  obtain ⟨i, rfl, hi⟩ := h.num
  have hlt : i < p.nums.size := (Array.getElem?_eq_some_iff.mp hi).1
  exact .straight rfl ⟨rfl, hlt⟩

lemma turns_str {s : String} {op : Op} (h : Gives (str s) p.pools op) : Turns p room [op] 0 1 := by
  obtain ⟨i, rfl, hi⟩ := h.str
  have hlt : i < p.strs.size := (Array.getElem?_eq_some_iff.mp hi).1
  exact .straight rfl ⟨rfl, hlt⟩

lemma turns_regex {s : String} {op : Op} (h : Gives (regex s) p.pools op) : Turns p room [op] 0 1 := by
  obtain ⟨i, rfl, hi⟩ := h.regex
  have hlt : i < p.regexes.size := (Array.getElem?_eq_some_iff.mp hi).1
  exact .straight rfl ⟨rfl, hlt⟩

/-! ## Parts -/

lemma ExprCode.Shapes.ofValue {value : Compile (List Op)} (h : Pushes p room value) :
    (ExprCode.ofValue value).Shapes p room where
  value := h
  branch hb := by
    obtain ⟨hcode, rfl⟩ := gives_ofValue_branch.mp hb
    exact h hcode
  operands ho := by
    obtain ⟨hcode, rfl⟩ := gives_ofValue_operands.mp ho
    exact h hcode
  key := h
  store hst := by
    rw [gives_ofValue_store.mp hst]
    exact .straight rfl ⟨rfl, trivial⟩

lemma turns_valuesOf {codes : List ExprCode} (h : ∀ c ∈ codes, c.Shapes p room)
    (hc : Gives (valuesOf codes) p.pools code) : Turns p room code 0 codes.length := by
  induction codes generalizing code with
  | nil =>
    rw [← gives_pure.mp hc]
    exact .nil
  | cons c codes ih =>
    obtain ⟨hc', hcodes⟩ := List.forall_mem_cons.mp h
    obtain ⟨first, hfirst, rest, hrest, rfl⟩ := gives_valuesOf_cons.mp hc
    rw [List.length_cons, Nat.add_comm]
    exact (hc'.value hfirst).append ((ih hcodes hrest).above 1)

lemma pushes_keyOf {codes : List ExprCode} (h : ∀ c ∈ codes, c.Shapes p room) : Pushes p room (keyOf codes) := by
  intro code hc
  rcases gives_keyOf hc with ⟨c, rfl, hkey⟩ | ⟨values, hvalues, rfl⟩
  · exact (h c List.mem_cons_self).key hkey
  · exact (turns_valuesOf h hvalues).op rfl trivial rfl

lemma PlaceCode.Shapes.store {c : PlaceCode} (h : c.Shapes p room) (hc : Gives c.store p.pools code) :
    Turns p room code 1 0 := by
  obtain ⟨key, cell, hkey, hcell, rfl⟩ := gives_store hc
  exact ((h.key hkey hcell).above 1).op rfl (h.cell hcell) (Nat.add_comm _ _)

def Changes (p : Program) (room : Room) (change : Compile (List Op)) : Prop :=
  ∀ {code}, Gives change p.pools code → Turns p room code 1 1

lemma changes_step (decr : Bool) : Changes p room (stepCode decr) := by
  intro code h
  obtain ⟨i, hi, rfl⟩ := gives_stepCode h
  have hlt : i < p.nums.size := (Array.getElem?_eq_some_iff.mp hi).1
  exact .straight rfl ⟨⟨rfl, hlt⟩, rfl, trivial⟩

section

variable {cell : Cell} (hw : cell.WellFormed p room)

include hw

lemma turns_fetchCode : Turns p room (fetchCode cell) cell.keys (cell.keys + 1) := by
  cases cell with
  | scalar r => exact .straight rfl ⟨rfl, hw⟩
  | field | element a => exact .straight rfl ⟨⟨rfl, trivial⟩, rfl, hw⟩

lemma turns_putCode : Turns p room (putCode cell) (cell.keys + 2) 1 := by
  cases cell with
  | scalar r => exact .straight rfl ⟨rfl, hw⟩
  | field | element a => exact .straight rfl ⟨⟨rfl, trivial⟩, rfl, hw⟩

end

lemma pushes_modify (keep : Bool) {pl : Place} {change : Compile (List Op)} (h : (placeCode env pl).Shapes p room)
    (hc : Changes p room change) :
    Pushes p room
      (bif keep then modifyKeepCode (placeCode env pl) change else modifyCode (placeCode env pl) change) := by
  intro code hcode
  obtain ⟨key, cell, new, hkey, hcell, hnew, rfl⟩ := gives_modify keep hcode
  have hw := h.cell hcell
  have hamend : Turns p room (amendCode keep new) 1 2 := by
    cases keep with
    | true =>
      have hdupe : Turns p room [.plus, .dupe] 1 2 := .straight rfl ⟨⟨rfl, trivial⟩, rfl, trivial⟩
      exact hdupe.append ((hc hnew).above 1)
    | false => exact (hc hnew).append (.straight rfl ⟨rfl, trivial⟩)
  exact (h.key hkey hcell).append ((turns_fetchCode hw).append ((hamend.above _).append (turns_putCode hw)))

/-! ## Choices -/

lemma turns_choiceCode {test yes no : List Op} {t : Test} (htest : Turns p room test 0 t.operands)
    (hyes : Turns p room yes 0 1) (hno : Turns p room no 0 1) :
    Turns p room (choiceCode (test, t) yes no) 0 1 := by
  intro loops k
  have : ops (choiceCode (test, t) yes no) = ops test ++ either t (ops yes) (ops no) := by
    simp [choiceCode, either, ops]
  rw [this]
  exact (htest loops k).append ((hyes loops k).either (hno loops k))

lemma turns_shortCode {decides : Bool} {left right : List Op} (hleft : Turns p room left 0 1)
    (hright : Turns p room right 0 1) : Turns p room (shortCode decides left right) 0 1 := by
  intro loops k
  have : ops (shortCode decides left right) = ops (left ++ [.dupe]) ++
      skip (.truth decides) (ops ([.drop] ++ right)) ++ ops [.boolean] := by
    simp [shortCode, skip, ops]
  rw [this]
  have hdrop : Turns p room [.drop] 1 0 := .straight rfl ⟨rfl, trivial⟩
  have hdupe : Turns p room [.dupe] 1 2 := .straight rfl ⟨rfl, trivial⟩
  have hbool : Turns p room [.boolean] 1 1 := .straight rfl ⟨rfl, trivial⟩
  exact ((hleft.append hdupe loops k).append (hdrop.append hright loops k).skip).append (hbool loops k)

lemma turns_subCode {pattern replacement text store : List Op} {global : Bool}
    (hpattern : Turns p room pattern 0 1) (hrepl : Turns p room replacement 0 1) (htext : Turns p room text 0 1)
    (hstore : Turns p room store 1 0) :
    Turns p room (subCode pattern replacement text global store) 0 1 := by
  intro loops k
  have : ops (subCode pattern replacement text global store) =
      ops (pattern ++ replacement ++ text ++ [.callSub global, .dupe]) ++
      either (.truth true) (ops [.swap, .drop]) (ops ([.swap] ++ store)) := by
    simp [subCode, either, ops]
  rw [this]
  have hcall : Turns p room [.callSub global, .dupe] 3 3 := .straight rfl ⟨⟨rfl, trivial⟩, rfl, trivial⟩
  have hswap : Turns p room [.swap] 2 2 := .straight rfl ⟨rfl, trivial⟩
  have hkeep : Turns p room [.swap, .drop] 2 1 := .straight rfl ⟨⟨rfl, trivial⟩, rfl, trivial⟩
  have hargs := (hpattern.append (hrepl.above 1)).append (htext.above 2)
  exact (hargs.append hcall loops k).append ((hkeep loops k).either (hswap.append (hstore.above 1) loops k))

/-! ## Calls -/

/-- The shapes of all expressions that use their variables according to their kinds. -/
abbrev Shaped (p : Program) (room : Room) (env : Env) (es : List Expr) : Prop :=
  ∀ e ∈ es, e.Kinded env → e.Proper → (exprCode env e).Shapes p room

lemma Shaped.codes {es : List Expr} (h : Shaped p room env es) (hk : AllKinded env es)
    (hp : AllIn Expr.CallFits es) : ∀ c ∈ exprCodes env es, c.Shapes p room := by
  rw [exprCodes_eq_map]
  intro c hc
  obtain ⟨e, he, rfl⟩ := List.mem_map.mp hc
  exact h e he (allKinded_iff.mp hk e he) (allIn_iff.mp hp e he)

/-- The arguments that go to scalars are pushed, and those that go to arrays are arrays. -/
lemma turns_argsCode (hset : Setting p room env) {args : List Expr} (h : Shaped p room env args)
    (hp : AllIn Expr.CallFits args) {arrays : List Bool} (hlen : args.length ≤ arrays.length)
    (hk : ArgsKinded env arrays args) {code : List Op} {refs : List ArrayRef}
    (hc : Gives (argsCode env arrays args (exprCodes env args)) p.pools (code, refs)) :
    Turns p room code 0 ((arrays.take args.length).count false) ∧ ∀ a ∈ refs, a.WellFormed p room := by
  induction args generalizing arrays code refs with
  | nil =>
    have : argsCode env arrays [] (exprCodes env []) = pure ([], []) := by
      rw [argsCode] <;> simp
    rw [this] at hc
    cases gives_pure.mp hc
    exact ⟨.nil, by simp⟩
  | cons arg args ih =>
    obtain _ | ⟨b, arrays⟩ := arrays
    · cases hlen
    obtain ⟨hshaped, hrest⟩ := List.forall_mem_cons.mp h
    rw [List.length_cons, List.length_cons, Nat.add_le_add_iff_right] at hlen
    rw [exprCodes] at hc
    obtain ⟨hfirst, hk⟩ := hk
    cases b with
    | true =>
      obtain ⟨v, rfl, hv⟩ := hfirst
      obtain ⟨a, ha, hc⟩ := gives_bind.mp hc
      obtain ⟨⟨rest, refs'⟩, hargs, hc⟩ := gives_bind.mp hc
      cases gives_pure.mp hc
      obtain ⟨hshape, hrefs⟩ := ih hrest hp.2 hlen hk hargs
      exact ⟨by simpa using hshape, List.forall_mem_cons.mpr ⟨hset.array hv ha, hrefs⟩⟩
    | false =>
      obtain ⟨first, hcode, hc⟩ := gives_bind.mp hc
      obtain ⟨⟨rest, refs'⟩, hargs, hc⟩ := gives_bind.mp hc
      cases gives_pure.mp hc
      obtain ⟨hshape, hrefs⟩ := ih hrest hp.2 hlen hk hargs
      refine ⟨?_, hrefs⟩
      rw [List.length_cons, List.take_succ_cons, List.count_cons_self, Nat.add_comm]
      exact ((hshaped hfirst hp.1).value hcode).append (hshape.above 1)

lemma pushes_userCallCode (hset : Setting p room env) {name : String} {args : List Expr} {extent : Extent}
    (h : Shaped p room env args) (hp : AllIn Expr.CallFits args)
    (hk : (Expr.userCall name args extent).Kinded env) :
    Pushes p room (userCallCode env name args (exprCodes env args)) := by
  intro code hc
  rw [Expr.Kinded] at hk
  rw [userCallCode] at hc
  cases hf : env.resolution.lookupFunc name with
  | none => rw [hf] at hk; exact hk.elim
  | some info =>
    simp only [hf] at hk hc
    split at hk
    · rename_i hn
      rw [if_pos hn] at hc
      obtain ⟨values, hvalues, rfl⟩ := gives_map.mp hc
      have hlen : (exprCodes env args).length = args.length := by simp [exprCodes_eq_map]
      exact (turns_valuesOf (h.codes hk hp) hvalues).op rfl trivial hlen.symm
    · rename_i hn
      rw [if_neg hn] at hc
      obtain ⟨⟨values, refs⟩, hargs, hc⟩ := gives_bind.mp hc
      obtain ⟨hvalues, hrefs⟩ := turns_argsCode hset h hp hk.1 hk.2 hargs
      obtain ⟨hindex, hcount⟩ := hset.func hf (Bool.not_eq_true _ ▸ hn)
      rw [← gives_pure.mp hc, List.append_assoc, List.singleton_append]
      -- what is missing of the scalars is pushed behind those that are there
      have hall : p.scalarCount info.index =
          (info.arrays.take args.length).count false + (info.arrays.drop args.length).count false := by
        rw [hcount, ← List.count_append, List.take_append_drop]
      refine .call ?_ hindex hrefs
      rw [hall]
      refine hvalues.append ?_
      split
      · rename_i hzero
        rw [hzero]
        exact .nil
      · exact .straight (by simp [rise, Op.takes, Op.puts]) ⟨rfl, trivial⟩

/-- A call whose arguments are values uses all its variables as scalars. -/
lemma allKinded_of_plain {f : Builtin} {args : List Expr} {extent : Extent}
    (hk : (Expr.call f args extent).Kinded env) (hf : f ≠ .split)
    (hl : f = .length → ∀ v, args = [.place (.var v)] → env.isArray v = false) :
    AllKinded env args := by
  rw [Expr.Kinded.eq_def] at hk
  split at hk <;> try contradiction
  all_goals rename_i heq
  · cases heq
    exact absurd rfl hf
  · cases heq
    obtain ⟨kind, scope, info, hlook, hkind⟩ := hk
    have harray := hl rfl _ rfl
    refine ⟨⟨scope, info, hlook, ?_⟩, trivial⟩
    rw [Env.isArray, hlook] at harray
    cases hki : info.kind with
    | scalar => rfl
    | array => simp [hki] at harray
  · cases heq
    exact hk

lemma pushes_callCode (hset : Setting p room env) {f : Builtin} {args : List Expr} {extent : Extent}
    (h : Shaped p room env args) (hp : (Expr.call f args extent).Proper)
    (hk : (Expr.call f args extent).Kinded env) : Pushes p room (callCode env f args (exprCodes env args)) := by
  intro code hc
  have hlen : (exprCodes env args).length = args.length := by simp [exprCodes_eq_map]
  have hall : f ≠ .split → (f = .length → ∀ v, args = [.place (.var v)] → env.isArray v = false) →
      ∀ c ∈ exprCodes env args, c.Shapes p room :=
    fun hf hl => h.codes (allKinded_of_plain hk hf hl) hp.2
  have hparts := gives_callCode hp.1 hlen hc
  generalize hcodes : exprCodes env args = codes at hparts hall
  cases hparts with
  | lengthArray hv ha =>
    obtain ⟨kind, scope, info, hlook, -⟩ := hk
    have hkind : info.kind = .array := by
      rw [Env.isArray, hlook] at hv
      simpa using hv
    have hw := hset.array ⟨scope, info, hlook, hkind⟩ ha
    exact .straight rfl ⟨rfl, hw⟩
  | split htext hsep ha =>
    rename_i e v es s c rest text sep a
    obtain ⟨hke, hv, hkes⟩ := hk
    rw [exprCodes, exprCodes] at hcodes
    cases hcodes
    have hes : Shaped p room env es := fun e' he => h e' (by simp [he])
    have hvalue := (h e (by simp) hke hp.2.1).value htext
    have hseps := turns_valuesOf (hes.codes hkes hp.2.2.2) hsep
    -- there is at most one separator
    have hone : (exprCodes env es).length = if !(exprCodes env es).isEmpty then 1 else 0 := by
      have htakes := hp.1.1
      rw [Builtin.takes, Bool.and_eq_true] at htakes
      have hmax : es.length + 1 + 1 ≤ 3 := of_decide_eq_true htakes.2
      obtain _ | ⟨e', _ | ⟨e'', es⟩⟩ := es
      · rfl
      · rfl
      · rw [List.length_cons, List.length_cons] at hmax
        omega
    refine (hvalue.append (hseps.above 1)).op rfl (hset.array hv ha) ?_
    rw [Op.takes, hone]
    split <;> rfl
  | sub hf hpat hrepl htext hstore =>
    rename_i pat repl text rest _ _ _ _
    have hshapes := hall (by rintro rfl; simp at hf) (by rintro rfl; simp at hf)
    have ht := hshapes text (by simp)
    exact turns_subCode ((hshapes pat (by simp)).value hpat) ((hshapes repl (by simp)).value hrepl)
      (ht.value htext) (ht.store hstore)
  | subRecord hf hpat hrepl hi =>
    rename_i pat repl _ _ i
    have hshapes := hall (by rintro rfl; simp at hf) (by rintro rfl; simp at hf)
    have hlt : i < p.nums.size := (Array.getElem?_eq_some_iff.mp hi).1
    exact turns_subCode ((hshapes pat (by simp)).value hpat) ((hshapes repl (by simp)).value hrepl)
      (.straight rfl ⟨rfl, trivial⟩) (.straight rfl ⟨⟨rfl, hlt⟩, rfl, trivial⟩)
  | plain hf hl hvalues => exact (turns_valuesOf (hall hf.1 hl) hvalues).op rfl hf rfl

lemma pushes_getlineCode {source : GetlineSource} {name : Compile (List Op)} {target : Option PlaceCode}
    (hname : ∀ {code}, Gives name p.pools code → Turns p room code 0 (if source = .main then 0 else 1))
    (ht : ∀ c ∈ target, c.Shapes p room) : Pushes p room (getlineCode source name target) := by
  intro code hc
  cases target with
  | none =>
    obtain ⟨code, hcode, rfl⟩ := gives_map.mp hc
    exact (hname hcode).op rfl nofun (by simp [Op.takes])
  | some c =>
    obtain ⟨code, hcode, hc⟩ := gives_bind.mp hc
    obtain ⟨key, hkey, cell, hcell, rfl⟩ := gives_map₂.mp hc
    refine ((hname hcode).append (((ht c rfl).key hkey hcell).above _)).op rfl ?_ rfl
    rintro _ ⟨⟩
    exact (ht c rfl).cell hcell

/-! ## Expressions -/

lemma pushes_op (o : Op) {value : Compile (List Op)} {n : Nat}
    (h : ∀ {code}, Gives value p.pools code → Turns p room code 0 n) (ho : isStep o = true)
    (hw : o.WellFormed p room) (ht : o.takes p = n) (hp : o.puts = 1) :
    Pushes p room (do return (← value) ++ [o]) := by
  intro code hc
  obtain ⟨operand, hoperand, rfl⟩ := gives_map.mp hc
  exact hp ▸ (h hoperand).op ho hw ht

lemma pushes_field {e : Expr} (h : (exprCode env e).Shapes p room) :
    Pushes p room (placeCode env (.field e)).value := by
  have hload : Pushes p room (do return (← (exprCode env e).value) ++ [Op.load .field]) :=
    pushes_op (.load .field) h.value rfl trivial rfl rfl
  intro code hc
  rw [placeCode.eq_def] at hc
  dsimp only at hc
  split at hc
  · split at hc
    · rw [← gives_pure.mp hc]
      exact .straight rfl ⟨rfl, trivial⟩
    · exact hload hc
  · exact hload hc

lemma shapes_unary {op : UnaryOp} {e : Expr} (h : (exprCode env e).Shapes p room) :
    (exprCode env (.unary op e)).Shapes p room := by
  cases op with
  | not =>
    exact { ExprCode.Shapes.ofValue (pushes_op .not h.value rfl trivial rfl rfl) with branch := h.branch }
  | minus => exact .ofValue (pushes_op .minus h.value rfl trivial rfl rfl)
  | plus => exact .ofValue (pushes_op .plus h.value rfl trivial rfl rfl)

lemma shapes_binary {left right : Expr} {op : BinaryOp} (hl : (exprCode env left).Shapes p room)
    (hr : (exprCode env right).Shapes p room) : (exprCode env (.binary left op right)).Shapes p room := by
  have hboth : ∀ {code}, Gives (do
      let code ← (exprCode env left).value
      return code ++ (← (exprCode env right).value)) p.pools code → Turns p room code 0 2 := by
    intro code hc
    obtain ⟨l, hlc, r, hrc, rfl⟩ := gives_map₂.mp hc
    exact (hl.value hlc).append ((hr.value hrc).above 1)
  have hshort : ∀ decides : Bool, Pushes p room (do
      let code ← (exprCode env left).value
      return shortCode decides code (← (exprCode env right).value)) := by
    intro decides code hc
    obtain ⟨l, hlc, r, hrc, rfl⟩ := gives_map₂.mp hc
    exact turns_shortCode (hl.value hlc) (hr.value hrc)
  cases op with
  | and => exact .ofValue (hshort false)
  | or => exact .ofValue (hshort true)
  | concat =>
    have hoperands : ∀ {code n}, Gives (exprCode env (.binary left .concat right)).operands p.pools (code, n) →
        Turns p room code 0 n := by
      intro code n hc
      obtain ⟨⟨l, count⟩, hlc, hc⟩ := gives_bind.mp hc
      obtain ⟨r, hrc, heq⟩ := gives_map.mp hc
      cases heq
      exact (hl.operands hlc).append ((hr.value hrc).above count)
    refine { ExprCode.Shapes.ofValue ?_ with operands := hoperands }
    intro code hc
    obtain ⟨⟨code, count⟩, hcode, hc⟩ := gives_bind.mp hc
    rw [← gives_pure.mp hc]
    split
    · rename_i htwo
      exact (hoperands hcode).op rfl trivial htwo.symm
    · exact (hoperands hcode).op rfl trivial rfl
  | compare c =>
    refine { ExprCode.Shapes.ofValue (pushes_op (.compare c) hboth rfl trivial rfl rfl) with branch := ?_ }
    intro expected code t hc
    obtain ⟨both, hcode, heq⟩ := gives_map.mp hc
    cases heq
    exact hboth hcode
  | arith op => exact .ofValue (pushes_op (.arith op) hboth rfl trivial rfl rfl)
  | «match» n => exact .ofValue (pushes_op (.match n) hboth rfl trivial rfl rfl)

mutual

lemma place_shapes (hset : Setting p room env) : ∀ {pl : Place}, pl.Kinded env → pl.All Expr.CallFits →
    (placeCode env pl).Shapes p room
  | .var v, hk, _ => by
    constructor
    case key =>
      intro code cell hc hcell
      obtain ⟨r, -, rfl⟩ := gives_map.mp hcell
      rw [← gives_pure.mp hc]
      exact .nil
    case cell =>
      intro cell hcell
      obtain ⟨r, hr, rfl⟩ := gives_map.mp hcell
      exact hset.scalar hk hr
    case value =>
      intro code hc
      obtain ⟨r, hr, rfl⟩ := gives_map.mp hc
      exact .straight rfl ⟨rfl, hset.scalar hk hr⟩
  | .index array index, hk, hp => by
    have hshapes := Shaped.codes (each_shapes hset index) hk.2 hp
    constructor
    case key =>
      intro code cell hc hcell
      obtain ⟨a, -, rfl⟩ := gives_map.mp hcell
      exact pushes_keyOf hshapes hc
    case cell =>
      intro cell hcell
      obtain ⟨a, ha, rfl⟩ := gives_map.mp hcell
      exact hset.array hk.1 ha
    case value =>
      intro code hc
      obtain ⟨key, hkey, a, ha, rfl⟩ := gives_map₂.mp hc
      exact (pushes_keyOf hshapes hkey).op rfl (hset.array hk.1 ha) rfl
  | .field e, hk, hp => by
    have h : (exprCode env e).Shapes p room := expr_shapes hset hk hp
    constructor
    case key =>
      intro code cell hc hcell
      rw [← gives_pure.mp hcell]
      exact h.value hc
    case cell =>
      intro cell hcell
      rw [← gives_pure.mp hcell]
      trivial
    case value => exact pushes_field h

lemma expr_shapes (hset : Setting p room env) : ∀ {e : Expr}, e.Kinded env → e.Proper →
    (exprCode env e).Shapes p room
  | .num x, _, _ => by
    have hvalue : Pushes p room (do return [← num x]) := by
      intro code hc
      obtain ⟨op, hop, rfl⟩ := gives_map.mp hc
      exact turns_num hop
    refine { ExprCode.Shapes.ofValue hvalue with key := ?_ }
    intro code hc
    rw [exprCode] at hc
    dsimp only at hc
    split at hc
    · obtain ⟨op, hop, rfl⟩ := gives_map.mp hc
      exact turns_str hop
    · exact hvalue hc
  | .str s, _, _ => .ofValue fun hc => by
    obtain ⟨op, hop, rfl⟩ := gives_map.mp hc
    exact turns_str hop
  | .regex s, _, _ => .ofValue fun hc => by
    obtain ⟨op, hop, rfl⟩ := gives_map.mp hc
    exact turns_regex hop
  | .place pl, hk, hp =>
    have h := place_shapes hset hk hp.2
    { ExprCode.Shapes.ofValue h.value with store := h.store }
  | .assign target value, hk, hp => by
    refine .ofValue fun hc => ?_
    obtain ⟨v, hv, store, hstore, rfl⟩ := gives_map₂.mp hc
    have hdupe : Turns p room [.dupe] 1 2 := .straight rfl ⟨rfl, trivial⟩
    have hkeep := (place_shapes hset hk.1 hp.2.1).store hstore
    exact (((expr_shapes hset hk.2 hp.2.2).value hv).append hdupe).append (hkeep.above 1)
  | .augAssign target op value, hk, hp => by
    have hv := expr_shapes hset hk.2 hp.2.2
    have hc : Changes p room (do return (← (exprCode env value).value) ++ [Op.arith op]) := by
      intro code hc
      obtain ⟨v, hcode, rfl⟩ := gives_map.mp hc
      exact ((hv.value hcode).above 1).op rfl trivial rfl
    exact .ofValue (pushes_modify false (place_shapes hset hk.1 hp.2.1) hc)
  | .incr target decr pre, hk, hp => by
    have ht := place_shapes hset hk hp.2
    rw [exprCode]
    cases pre with
    | true => exact .ofValue (pushes_modify false ht (changes_step decr))
    | false => exact .ofValue (pushes_modify true ht (changes_step decr))
  | .unary _ e, hk, hp => shapes_unary (expr_shapes hset hk hp.2 : (exprCode env e).Shapes p room)
  | .binary left _ right, hk, hp =>
    shapes_binary (expr_shapes hset hk.1 hp.2.1 : (exprCode env left).Shapes p room)
      (expr_shapes hset hk.2 hp.2.2 : (exprCode env right).Shapes p room)
  | .cond test yes no, hk, hp => by
    refine .ofValue fun hc => ?_
    obtain ⟨⟨t, u⟩, htest, hc⟩ := gives_bind.mp hc
    obtain ⟨y, hyes, n, hno, rfl⟩ := gives_map₂.mp hc
    exact turns_choiceCode ((expr_shapes hset hk.1 hp.2.1).branch htest)
      ((expr_shapes hset hk.2.1 hp.2.2.1).value hyes) ((expr_shapes hset hk.2.2 hp.2.2.2).value hno)
  | .member index array, hk, hp => by
    have hshapes := Shaped.codes (each_shapes hset index) hk.1 hp.2
    refine .ofValue fun hc => ?_
    obtain ⟨key, hkey, a, ha, rfl⟩ := gives_map₂.mp hc
    exact (pushes_keyOf hshapes hkey).op rfl (hset.array hk.2 ha) rfl
  | .call f args _, hk, hp => .ofValue (pushes_callCode hset (each_shapes hset args) hp hk)
  | .userCall name args _, hk, hp => .ofValue (pushes_userCallCode hset (each_shapes hset args) hp.2 hk)
  | .getline target, hk, hp =>
    .ofValue (pushes_getlineCode (fun hc => by rw [← gives_pure.mp hc]; exact .nil)
      (target_shapes hset hk hp.2))
  | .getlineFile file target, hk, hp | .getlineCommand file target, hk, hp =>
    .ofValue (pushes_getlineCode
      (expr_shapes hset hk.1 hp.2.1 : (exprCode env file).Shapes p room).value
      (target_shapes hset hk.2 hp.2.2))

lemma target_shapes (hset : Setting p room env) : ∀ {t : Option Place}, TargetKinded env t →
    AllTarget Expr.CallFits t → ∀ c ∈ targetCode env t, c.Shapes p room
  | none, _, _ => fun c hc => by cases hc
  | some pl, hk, hp => fun c hc => by
    cases hc
    exact place_shapes hset hk hp

lemma each_shapes (hset : Setting p room env) : ∀ es : List Expr, Shaped p room env es
  | [] => nofun
  | e :: rest => List.forall_mem_cons.mpr
      ⟨fun hk hp => (expr_shapes hset hk hp : (exprCode env e).Shapes p room), each_shapes hset rest⟩

end

end Awk.Compile
