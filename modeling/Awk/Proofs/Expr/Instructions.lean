import Awk.Proofs.Expr.Eval
import Awk.Proofs.Expr.Realizes

/-!
# What instructions do to values

The operations that expressions are made of work below the values that code keeps on the stack, and every
instruction takes its operands from there and does what the operation on them does.
-/

namespace Awk

open Compile (Env Gives)

/-! ## Machines on which code can run -/

/-- How many scalars the function at work has for itself. -/
def Compile.Env.scalars (env : Env) : Nat :=
  (env.func.bind env.resolution.lookupFunc).elim 0 fun info => info.arrays.count false

def ScalarRef.Within (env : Env) : ScalarRef → Prop
  | .local i => i < env.scalars
  | .global _ | .special _ => True

/-- The values on the stack that tell the key of a cell. -/
def Cell.keyed : Cell → Value → List Value
  | .scalar _, _ => []
  | .field, key | .element _, key => [key]

/-- The scalar of a cell is there for the function at work. -/
def Cell.Within (env : Env) : Cell → Prop
  | .scalar r => r.Within env
  | .field | .element _ => True

/-- The scalar that is a target is there for the function at work. -/
def Run.Target.Within (env : Env) : Target → Prop
  | .scalar r => r.Within env
  | .field _ | .element _ _ => True

/-- A machine on which code of a program can run: the regexes of the program are compiled, there is room for
its variables, and the scalars of the function at work are on the stack, which is the given one but for
these. -/
structure Machine.Hosts (p : Program) (env : Env) (stack : Array Value) (m : Machine) : Prop where
  program : m.program = p
  regexes : compileRegexes p = .ok m.regexes
  fits : m.outline.Fits
  scalars : m.base + env.scalars ≤ m.stack.size
  size : m.stack.size = stack.size
  rest : ∀ i, i < m.base ∨ m.base + env.scalars ≤ i → m.stack[i]? = stack[i]?

variable {p : Program} {env : Env} {s : Array Value}

variable {i : Nat} {source : String} {m : Machine}

lemma compileRegexes_getElem? {patterns : Array Regex.Pattern} (h : Machine.compileRegexes p = .ok patterns) (hi : p.regexes[i]? = some source) :
    ∃ pattern, Regex.Pattern.compile source = .ok pattern ∧ patterns[i]? = some pattern := by
  obtain ⟨hlt, hsource⟩ := Array.getElem?_eq_some_iff.mp hi
  have hall : SatisfiesM (fun patterns : Array Regex.Pattern => ∃ _ : patterns.size = p.regexes.size,
      ∀ (i : Nat) (hi : i < p.regexes.size), Regex.Pattern.compile p.regexes[i] = .ok patterns[i])
      (Machine.compileRegexes p) :=
    Array.SatisfiesM_mapM' (p := fun i pattern => Regex.Pattern.compile p.regexes[i] = .ok pattern) fun i =>
      SatisfiesM_Except_eq.mpr fun pattern hpattern => mapError_eq_ok.mp hpattern
  obtain ⟨hsize, hall⟩ := SatisfiesM_Except_eq.mp hall patterns h
  refine ⟨patterns[i], ?_, Array.getElem?_eq_getElem (hsize ▸ hlt)⟩
  rw [← hsource]
  exact hall i hlt

lemma Machine.Hosts.of_same {n : Machine} (hm : m.Hosts p env s) (ho : n.outline = m.outline)
    (hc : n.context = m.context) : n.Hosts p env s := by
  have hstack : n.stack = m.stack := congrArg Context.stack hc
  have hbase : n.base = m.base := congrArg Context.base hc
  have hregexes : n.regexes = m.regexes := congrArg Outline.regexes ho
  constructor
  case program => exact (congrArg Outline.program ho).trans hm.program
  case regexes => rw [hregexes, hm.regexes]
  case fits => rw [ho]; exact hm.fits
  case scalars => rw [hbase, hstack]; exact hm.scalars
  case size => rw [hstack]; exact hm.size
  case rest => rw [hbase, hstack]; exact hm.rest

open Machine (Hosts)

namespace Run

/-! ## Operations below the stack -/

lemma Tame.below {α : Type} {x : Run α} (hx : Tame x) : Below (Hosts p env s) x := by
  refine fun vs => .of_blind hx.blind fun m hm => ?_
  have hcontext := hx.blind.context_eq m
  have houtline := (hx.keeps m hm.fits).1
  exact hm.of_same houtline hcontext

namespace Below

lemma getScalar {r : ScalarRef} (hr : r.Within env) : Below (Hosts p env s) (getScalar r) := by
  cases r with
  | global i =>
    refine .get_bind (fun _ _ _ => rfl) fun m _ => ?_
    cases m.globals[i]? <;> first | exact .pure _ | exact .throw _
  | «local» i =>
    refine .get_bind (fun m vs hm => ?_) fun m _ => ?_
    · have hlt : m.base + i < m.stack.size := Nat.lt_of_lt_of_le (Nat.add_lt_add_left hr _) hm.scalars
      have hbase : (m.above vs).base = m.base := rfl
      rw [hbase, Machine.stack_above, Array.getElem?_append_left hlt]
    · cases m.stack[m.base + i]? <;> first | exact .pure _ | exact .throw _
  | special v => exact (Composed.getSpecial v).tame.below

lemma setScalar {r : ScalarRef} (hr : r.Within env) (value : Value) :
    Below (Hosts p env s) (setScalar r value) := by
  cases r with
  | global i =>
    refine .get_bind (fun _ _ _ => rfl) fun m _ => ?_
    split
    · refine .modify (fun _ _ _ => rfl) fun m hm => hm.of_same ?_ rfl
      simp [Machine.outline]
    · exact .throw _
  | «local» i =>
    have hlt : ∀ m : Machine, m.Hosts p env s → m.base + i < m.stack.size := fun m hm =>
      Nat.lt_of_lt_of_le (Nat.add_lt_add_left hr _) hm.scalars
    refine fun vs => ⟨fun m hm => ?_, fun m hm => ?_⟩
    · have habove : m.base + i < (m.above vs).stack.size := by
        rw [Machine.stack_above, Array.size_append]
        exact Nat.lt_add_right _ (hlt m hm)
      change Run.setScalar (.local i) value (m.above vs) = _
      rw [setLocal_apply habove, setLocal_apply (hlt m hm), Machine.stack_above]
      change EStateM.Result.ok () { m with stack := (m.stack ++ vs.toArray).setIfInBounds (m.base + i) value } = _
      rw [Array.setIfInBounds_append_left (hlt m hm)]
      rfl
    · rw [setLocal_apply (hlt m hm)]
      refine ⟨hm.program, hm.regexes, hm.fits, ?_, ?_, fun j hj => ?_⟩
      · exact hm.scalars.trans_eq Array.size_setIfInBounds.symm
      · exact Array.size_setIfInBounds.trans hm.size
      · have hne : m.base + i ≠ j := by
          have : i < env.scalars := hr
          rcases hj with hj | hj
          · change j < m.base at hj
            omega
          · change m.base + env.scalars ≤ j at hj
            omega
        change (m.stack.setIfInBounds (m.base + i) value)[j]? = _
        rw [Array.getElem?_setIfInBounds_ne hne]
        exact hm.rest j hj
  | special v => exact (Composed.setSpecial v value).tame.below

lemma slotOf (a : ArrayRef) : Below (Hosts p env s) (slotOf a) := by
  rw [slotOf_eq]
  refine .get_bind (fun _ _ _ => rfl) fun m _ => ?_
  cases slotIn m.frames a <;> first | exact .pure _ | exact .throw _

lemma arrayOf (a : ArrayRef) : Below (Hosts p env s) (arrayOf a) := by
  refine (slotOf a).bind fun slot => .get_bind (fun _ _ _ => rfl) fun m _ => ?_
  cases m.arrays[slot]? <;> first | exact .pure _ | exact .throw _

lemma getElement (a : ArrayRef) (key : String) : Below (Hosts p env s) (getElement a key) := by
  refine (arrayOf a).bind fun slot => ?_
  dsimp only
  cases slot.2[key]? with
  | some v => exact .pure _
  | none => exact (Composed.setArray _ _).tame.below.bind fun _ => .pure _

lemma setElement (a : ArrayRef) (key : String) (value : Value) :
    Below (Hosts p env s) (setElement a key value) :=
  (arrayOf a).bind fun _ => (Composed.setArray _ _).tame.below

lemma load {t : Target} (ht : t.Within env) : Below (Hosts p env s) (load t) := by
  cases t with
  | scalar r => exact getScalar ht
  | field n => exact (Composed.getField n).tame.below
  | element a key => exact getElement a key

lemma store {t : Target} (ht : t.Within env) (value : Value) : Below (Hosts p env s) (store t value) := by
  cases t with
  | scalar r => exact setScalar ht value
  | field n => exact (Composed.setField n value).tame.below
  | element a key => exact setElement a key value

lemma splitInto (a : ArrayRef) (text : Value) (sep : Option Value) :
    Below (Hosts p env s) (splitInto a text sep) :=
  (Composed.textOf text).tame.below.bind fun _ => (Composed.separator sep).tame.below.bind fun _ =>
    (arrayOf a).bind fun _ =>
    (Composed.setArray _ _).tame.below.bind fun _ => .pure _

end Below

/-! ## Instructions -/

namespace Acts

variable {I : Machine → Prop}

lemma unary (f : Value → Value) (v : Value) : Acts I (unary f) [v] (Pure.pure (f v)) (fun _ => ()) fun w => [w] :=
  .pop_bind [] (.push_result _ (.pure (f v)) fun w => w)

lemma binary {f : Value → Value → Run Value} {a b : Value} (hf : Below I (f a b)) :
    Acts I (binary f) [a, b] (f a b) (fun _ => ()) fun v => [v] :=
  .pop_bind [a] (.pop_bind [] (.push_result _ hf fun v => v))

/-- What is done to a target, whose key lies on the stack. -/
lemma target {α γ : Type} {c : Cell} (hc : c.Within env) (us : List Value) (key : Value) {f : Target → Run γ}
    {g : Target → Run α} {ret : α → γ} {post : α → List Value}
    (hf : ∀ t, t.Within env → Acts (Hosts p env s) (f t) us (g t) ret post) :
    Acts (Hosts p env s) (target c >>= f) (us ++ c.keyed key) (c.at key >>= g) ret post := by
  cases c with
  | scalar r =>
    rw [Cell.keyed, List.append_nil]
    exact hf (.scalar r) hc
  | field =>
    rw [Cell.at, Run.target]
    simp only [bind_assoc, pure_bind]
    exact .pop_bind us (.bind (.of_below (Composed.fieldNumber _).tame.below us) fun n => hf (.field n) trivial)
  | element a =>
    rw [Cell.at, Run.target]
    simp only [bind_assoc, pure_bind]
    exact .pop_bind us (.bind (.of_below (Composed.textOf key).tame.below us) fun k => hf (.element a k) trivial)

end Acts

variable {x : Float} {t : String}

lemma step_num (h : m.program.nums[i]? = some x) :
    Run.step (.num i) m = push (.num x) m := by
  rw [Run.step, get_bind_apply, h]

lemma step_str (h : m.program.strs[i]? = some t) :
    Run.step (.str i) m = push (.str t) m := by
  rw [Run.step, get_bind_apply, h]

namespace Realizes

variable {I : Machine → Prop}

/-! ### Constants -/

lemma num (h : p.nums[i]? = some x) :
    Realizes (Hosts p env s) [.num i] [] (Pure.pure (.num x)) fun v => [v] := by
  refine .step rfl (.congr (.push_result _ (.pure (.num x)) fun v => v) fun m vs hm => ?_)
  rw [step_num (hm.program ▸ h)]
  rfl

lemma str (h : p.strs[i]? = some t) :
    Realizes (Hosts p env s) [.str i] [] (Pure.pure (.str t)) fun v => [v] := by
  refine .step rfl (.congr (.push_result _ (.pure (.str t)) fun v => v) fun m vs hm => ?_)
  rw [step_str (hm.program ▸ h)]
  rfl

lemma regex (h : p.regexes[i]? = some source) :
    Realizes (Hosts p env s) [.regex i] [] (matchesRecord source) fun v => [v] := by
  have hbelow : Below (Hosts p env s) (matchesRecord source) := by
    rw [matchesRecord]
    split
    · exact .get_bind (fun _ _ _ => rfl) fun _ _ => .pure _
    · exact .throw _
  refine .step rfl (.congr (.push_result _ hbelow fun v => v) fun m vs hm => ?_)
  obtain ⟨pattern, hpattern, hi⟩ := compileRegexes_getElem? hm.regexes h
  have hi' : (m.above (vs ++ [])).regexes[i]? = some pattern := hi
  rw [matchesRecord, hpattern, Run.step, get_bind_apply, hi']
  rfl

/-! ### The stack -/

lemma dupe (us : List Value) (v : Value) : Realizes I [.dupe] (us ++ [v]) (Pure.pure ()) fun _ => us ++ [v, v] := by
  have hpush : Acts I (push v >>= fun _ => Pure.pure ()) (us ++ [v]) (Pure.pure ()) (fun _ => ())
      fun _ => us ++ [v] ++ [v] := .push_bind _ (.of_below (.pure ()) _)
  rw [List.append_assoc us [v] [v]] at hpush
  refine .step rfl (hpush.congr fun m vs _ => ?_)
  have hback : (m.above (vs ++ (us ++ [v]))).stack.back? = some v := by
    rw [← List.append_assoc, Machine.stack_above_concat, Array.back?_push]
  change Run.push ((m.above (vs ++ (us ++ [v]))).stack.back?.getD .null) _ = _
  rw [hback]
  rfl

lemma drop (us : List Value) (v : Value) : Realizes I [.drop] (us ++ [v]) (Pure.pure ()) fun _ => us :=
  .step rfl (.pop_bind _ (.of_below (.pure ()) us))

lemma rote (us : List Value) (a b c : Value) :
    Realizes I [.rote] (us ++ [a] ++ [b] ++ [c]) (Pure.pure ()) fun _ => us ++ [b] ++ [c] ++ [a] := by
  have h : Acts I (do let c ← pop; let b ← pop; let a ← pop; push b; push c; push a; Pure.pure ())
      (us ++ [a] ++ [b] ++ [c]) (Pure.pure ()) (fun _ => ()) fun _ => us ++ [b] ++ [c] ++ [a] :=
    .pop_bind _ (.pop_bind _ (.pop_bind _ (.push_bind _ (.push_bind _ (.push_bind _ (.of_below (.pure ()) _))))))
  refine .step rfl (h.congr fun m vs _ => ?_)
  have hsize : 3 ≤ (m.above (vs ++ (us ++ [a] ++ [b] ++ [c]))).stack.size := by
    simp [Machine.stack_above]
    omega
  change (if 3 ≤ (m.above (vs ++ (us ++ [a] ++ [b] ++ [c]))).stack.size then _ else _ : Run Unit) _ = _
  rw [if_pos hsize]
  rfl

/-! ### Operators -/

lemma not (v : Value) : Realizes I [.not] [v] (Pure.pure (.ofBool !v.isTrue)) fun w => [w] := .step rfl (.unary _ v)

lemma minus (v : Value) : Realizes I [.minus] [v] (Pure.pure (.num (-v.toNumber))) fun w => [w] :=
  .step rfl (.unary _ v)

lemma plus (v : Value) : Realizes I [.plus] [v] (Pure.pure (.num v.toNumber)) fun w => [w] := .step rfl (.unary _ v)

lemma boolean (v : Value) : Realizes I [.boolean] [v] (Pure.pure (.ofBool v.isTrue)) fun w => [w] :=
  .step rfl (.unary _ v)

lemma arith (op : Arith) (a b : Value) : Realizes (Hosts p env s) [.arith op] [a, b]
    (do return .num (← Run.arith op a.toNumber b.toNumber)) fun v => [v] :=
  .step rfl (.binary ((Composed.arith op _ _).tame.below.bind fun _ => .pure _))

lemma compare (c : Comparison) (a b : Value) : Realizes (Hosts p env s) [.compare c] [a, b]
    (do return .ofBool (c.holds (a.compare (← get).specials.convfmt b))) fun v => [v] :=
  .step rfl (.binary (.get_bind (fun _ _ _ => rfl) fun _ _ => .pure _))

lemma concat (a b : Value) : Realizes (Hosts p env s) [.concat] [a, b] (joined [a, b]) fun v => [v] := by
  have hjoined : joined [a, b] = (do return .str ((← textOf a) ++ (← textOf b))) := by
    funext m
    change EStateM.Result.ok (Value.str (String.join [a.text _, b.text _])) m =
      .ok (.str (a.text m.specials.convfmt ++ b.text m.specials.convfmt)) m
    simp [String.join]
  rw [hjoined]
  exact .step rfl
    (.binary ((Composed.textOf a).tame.below.bind fun _ => (Composed.textOf b).tame.below.bind fun _ => .pure _))

lemma «match» (negated : Bool) (a b : Value) : Realizes (Hosts p env s) [.match negated] [a, b] (do
    let p ← pattern (← textOf b)
    return .ofBool (p.isMatch (← textOf a) != negated)) fun v => [v] :=
  .step rfl (.binary ((Composed.textOf b).tame.below.bind fun _ => (Composed.pattern _).tame.below.bind fun _ =>
    (Composed.textOf a).tame.below.bind fun _ => .pure _))

lemma concatMulti (ws : List Value) :
    Realizes (Hosts p env s) [.concatMulti ws.length] ws (joined ws) fun v => [v] :=
  .step rfl (.popMany_bind [] (.push_result _ (.get_bind (fun _ _ _ => rfl) fun _ _ => .pure _) fun v => v))

variable {c : Cell}

/-! ### Cells and arrays -/

lemma load (hc : c.Within env) (us : List Value) (key : Value) :
    Realizes (Hosts p env s) [.load c] (us ++ c.keyed key) (c.at key >>= Run.load) fun v => us ++ [v] :=
  .step rfl (.target hc us key fun _ ht => .push_result us (Below.load ht) fun v => v)

lemma store (hc : c.Within env) (us : List Value) (key value : Value) :
    Realizes (Hosts p env s) [.store c] (us ++ [value] ++ c.keyed key)
      (c.at key >>= fun t => Run.store t value) fun _ => us :=
  .step rfl (.target hc (us ++ [value]) key fun _ ht => .pop_bind us (.of_below (Below.store ht value) us))

lemma fieldInt {n : Nat} (h : Compile.smallField? x = some n) :
    Realizes (Hosts p env s) [.fieldInt n] [] (Cell.field.at (.num x) >>= Run.load) fun v => [v] := by
  have hfield : (do let n ← fieldNumber (Float.ofNat n); getField n) = Cell.field.at (.num x) >>= Run.load := by
    rw [fieldNumber_ofNat h, Cell.at]
    simp only [bind_assoc, pure_bind]
    rfl
  have hbelow : Below (Hosts p env s) (do let n ← fieldNumber (Float.ofNat n); getField n) :=
    (Composed.fieldNumber _).tame.below.bind fun n => (Composed.getField n).tame.below
  rw [← hfield]
  have hacts := Acts.push_result [] hbelow fun v => v
  rw [bind_assoc] at hacts
  exact .step rfl hacts

lemma indexMulti {ws : List Value} (hws : ∀ v, ws ≠ [v]) :
    Realizes (Hosts p env s) [.indexMulti ws.length] ws (subscript ws) fun v => [v] := by
  have hsubscript : subscript ws = (do
      let s := (← get).specials
      return .str (s.subsep.intercalate (ws.map (·.text s.convfmt)))) := by
    rw [subscript]
    exact hws
  rw [hsubscript]
  exact .step rfl (.popMany_bind []
    (.push_result _ (.get_bind (fun _ _ _ => rfl) fun _ _ => .pure _) fun v => v))

lemma member (a : ArrayRef) (key : Value) : Realizes (Hosts p env s) [.member a] [key] (do
    let key ← textOf key
    let (_, array) ← arrayOf a
    return .ofBool (array.contains key)) fun v => [v] := by
  have hbelow : Below (Hosts p env s) (do
      let key ← textOf key
      let (_, array) ← arrayOf a
      return Value.ofBool (array.contains key)) :=
    (Composed.textOf key).tame.below.bind fun _ => (Below.arrayOf a).bind fun _ => .pure _
  have hacts := Acts.push_result [] hbelow fun v => v
  simp only [bind_assoc, pure_bind] at hacts
  exact .step rfl (.pop_bind [] hacts)

/-! ### Functions -/

lemma callBuiltin {f : Builtin} (hf : f.IsPlain) (ws : List Value) : Realizes (Hosts p env s)
    [.callBuiltin f ws.length] ws (Run.callBuiltin f ws) fun v => [v] :=
  .step rfl (.popMany_bind [] (.push_result _ (Composed.callBuiltin hf ws).tame.below fun v => v))

lemma callLengthArray (a : ArrayRef) : Realizes (Hosts p env s) [.callLengthArray a] [] (do
    let (_, array) ← arrayOf a
    return .ofNat array.size) fun v => [v] := by
  have hacts : Acts (Hosts p env s) (arrayOf a >>= fun slot => push (.ofNat slot.2.size)) [] (arrayOf a)
      (fun _ => ()) fun slot => [.ofNat slot.2.size] := .push_result [] (Below.arrayOf a) _
  exact .map (.step rfl hacts) fun _ => rfl

lemma callSplit (a : ArrayRef) (text : Value) (sep : Option Value) : Realizes (Hosts p env s)
    [.callSplit a sep.isSome] (text :: sep.toList) (do return .ofNat (← splitInto a text sep)) fun v => [v] := by
  have hacts : Acts (Hosts p env s) (do
      let text ← pop
      push (.ofNat (← splitInto a text sep))) [text] (splitInto a text sep) (fun _ => ()) fun n => [.ofNat n] :=
    .pop_bind [] (.push_result _ (Below.splitInto a text sep) _)
  suffices h : Realizes (Hosts p env s) [.callSplit a sep.isSome] (text :: sep.toList) (splitInto a text sep)
      fun n => [.ofNat n] from h.map fun _ => rfl
  refine .step rfl ?_
  cases sep with
  | none => exact hacts
  | some v => exact .pop_bind [text] (g := fun v => do
      let text ← pop
      push (.ofNat (← splitInto a text (some v)))) hacts

end Realizes

end Run

end Awk
