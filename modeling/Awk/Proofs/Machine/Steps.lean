import Awk.Proofs.Machine.Follow
import Awk.Proofs.Machine.Operations

/-!
# What instructions do with the stack

An instruction takes its operands from the stack and leaves its results there.  In between it uses the constants and
variables that it names, and operations that know nothing of a stack.  What holds of these parts holds of every
instruction.
-/

namespace Awk.Run

variable {α β : Type}

/-- A cell with its key whose variable exists. -/
def Target.WellFormed (p : Program) (room : Room) : Target → Prop
  | .scalar r => r.WellFormed p room
  | .field _ => True
  | .element a _ => a.WellFormed p room

/-- What takes `n` values from the stack and leaves `l`, or as many more of both.  If `known` holds, all that it names
exists. -/
inductive Works (p : Program) (room : Room) (known : Prop) : {α : Type} → Nat → Run α → Nat → Prop
  | pure {α : Type} {n : Nat} (a : α) : Works p room known n (Pure.pure a : Run α) n
  | bind {α β : Type} {n i l : Nat} {x : Run α} {f : α → Run β} (hx : Works p room known n x i)
      (hf : ∀ a, Works p room known i (f a) l) : Works p room known n (x >>= f) l
  | routine {α : Type} {n : Nat} {x : Run α} (hx : Composed (.routine True) x) : Works p room known n x n
  | get_bind {β : Type} {n l : Nat} {f : Machine → Run β} (hf : ∀ m i, f ((Manner.routine True).shift i m) = f m)
      (h : ∀ m, Works p room known n (f m) l) : Works p room known n (get >>= f) l
  | target_bind {β : Type} {n l : Nat} {c : Cell} {f : Target → Run β} (hc : known → c.WellFormed p room)
      (hf : ∀ t, (known → t.WellFormed p room) → Works p room known n (f t) l) :
      Works p room known (n + c.keys) (target c >>= f) l
  | pop {n : Nat} : Works p room known (n + 1) pop n
  | push {n : Nat} (v : Value) : Works p room known n (push v) (n + 1)
  | popMany {n : Nat} (count : Nat) : Works p room known (n + count) (popMany count) n
  | dupe {n : Nat} : Works p room known (n + 1) (step .dupe) (n + 2)
  | rotate {n : Nat} : Works p room known (n + 3) rotate (n + 3)
  | nulls {n : Nat} (count : Nat) : Works p room known n (step (.nulls count)) (n + count)
  | num {n i : Nat} (h : known → i < p.nums.size) : Works p room known n (step (.num i)) (n + 1)
  | str {n i : Nat} (h : known → i < p.strs.size) : Works p room known n (step (.str i)) (n + 1)
  | regex {n i : Nat} (h : known → i < p.regexes.size) : Works p room known n (step (.regex i)) (n + 1)
  | getScalar {n : Nat} {r : ScalarRef} (hr : known → r.WellFormed p room) : Works p room known n (getScalar r) n
  | setScalar {n : Nat} {r : ScalarRef} (hr : known → r.WellFormed p room) (value : Value) :
      Works p room known n (setScalar r value) n
  | arrayOf {n : Nat} {a : ArrayRef} (ha : known → a.WellFormed p room) : Works p room known n (arrayOf a) n
  | callBuiltin {n : Nat} {f : Builtin} (hf : known → f.IsPlain) (args : List Value) :
      Works p room known n (callBuiltin f args) n

variable {p : Program} {room : Room} {known : Prop} {n : Nat}

/-! ## Cells -/

lemma setArray_works (slot : Nat) (value : ArrayValue) : Works p room known n (setArray slot value) n :=
  .routine (.setArray slot value)

lemma load_works {t : Target} (ht : known → t.WellFormed p room) : Works p room known n (load t) n := by
  cases t with
  | scalar r => exact .getScalar ht
  | field i => exact .routine (.getField i)
  | element a key =>
    refine .bind (.arrayOf ht) fun slot => ?_
    dsimp only
    split
    · exact .pure _
    · exact .bind (setArray_works _ _) fun _ => .pure _

lemma store_works {t : Target} (ht : known → t.WellFormed p room) (value : Value) :
    Works p room known n (store t value) n := by
  cases t with
  | scalar r => exact .setScalar ht value
  | field i => exact .routine (.setField i value)
  | element a key => exact .bind (.arrayOf ht) fun slot => setArray_works _ _

/-! ## Instructions -/

lemma binary_works {f : Value → Value → Run Value} (hf : ∀ a b, Composed (.routine True) (f a b)) :
    Works p room known (n + 2) (binary f) (n + 1) :=
  .bind .pop fun _ => .bind .pop fun _ => .bind (.routine (hf _ _)) fun v => .push v

lemma unary_works (f : Value → Value) : Works p room known (n + 1) (unary f) (n + 1) :=
  .bind .pop fun _ => .push _

lemma output_works (formattedText : Bool) (count : Nat) (kind : Option RedirectKind) :
    Works p room known (n + (count + if kind.isSome then 1 else 0)) (output formattedText count kind) n := by
  have hdest (n : Nat) : Works p room known (n + if kind.isSome then 1 else 0) (destination kind) n := by
    cases kind with
    | none => exact .pure _
    | some kind => exact .bind .pop fun v => .bind (.routine (.textOf v)) fun _ => .pure _
  rw [← Nat.add_assoc]
  refine (hdest _).bind fun dest => ?_
  split
  · refine .bind (.popMany count) fun args => .bind (.routine (.formatted args)) fun text => ?_
    cases text with
    | none => exact .pure _
    | some text => exact .routine (.writeText dest text)
  · split
    case isTrue h =>
      subst h
      exact .get_bind (fun _ _ => rfl) fun m => .routine (.writeText _ _)
    case isFalse =>
      exact .bind (.popMany count) fun args => .get_bind (fun _ _ => rfl) fun m => .routine (.writeText _ _)

lemma getline_works {cell : Option Cell} (hc : known → ∀ c ∈ cell, c.WellFormed p room) (source : GetlineSource) :
    Works p room known (n + ((if source = .main then 0 else 1) + cell.elim 0 Cell.keys)) (getline source cell)
      (n + 1) := by
  have hname : Works p room known (n + if source = .main then 0 else 1) (sourceName source) n := by
    rw [sourceName]
    split
    · exact .pure _
    · exact .bind .pop fun v => .routine (.textOf v)
  have hkeep (place : Option Target) (hp : ∀ t ∈ place, known → t.WellFormed p room) (record : Option String) :
      Works p room known n (keepRecord place record) n := by
    cases record with
    | none => exact .pure _
    | some line =>
      cases place with
      | none => exact .routine (composed_setLine line)
      | some t => exact store_works (hp t rfl) _
  have hrest (place : Option Target) (hp : ∀ t ∈ place, known → t.WellFormed p room) :
      Works p room known (n + if source = .main then 0 else 1) (do
        let name ← sourceName source
        let r ← readRecord source name
        keepRecord place r.2
        push (.num r.1)) (n + 1) :=
    hname.bind fun name => .bind (.routine (.readRecord source name)) fun r => (hkeep place hp r.2).bind fun _ => .push _
  rw [← Nat.add_assoc, getline]
  cases cell with
  | none =>
    rw [recordTarget, pure_bind]
    exact hrest none (by simp)
  | some c =>
    simp only [recordTarget, bind_assoc, pure_bind]
    exact .target_bind (fun h => hc h c rfl) fun t ht => hrest (some t) fun _ h => Option.some.inj h ▸ ht

lemma splitInto_works {a : ArrayRef} (ha : known → a.WellFormed p room) (text : Value) (sep : Option Value) :
    Works p room known n (splitInto a text sep) n :=
  .bind (.routine (.textOf text)) fun _ => .bind (.routine (.separator sep)) fun _ =>
    .bind (.arrayOf ha) fun _ => .bind (setArray_works _ _) fun _ => .pure _

lemma popIf_works (taken : Bool) : Works p room known (n + if taken then 1 else 0) (popIf taken) n := by
  cases taken with
  | false => exact .pure _
  | true => exact .bind .pop fun v => .pure _

/-- Every instruction takes its operands and leaves its results. -/
theorem step_works {op : Op} (hop : known → op.WellFormed p room) (hc : op.isControl = false) :
    Works p room known (n + op.takes p) (step op) (n + op.puts) := by
  cases op
  case num i => exact .num hop
  case str i => exact .str hop
  case regex i => exact .regex hop
  case dupe => exact .dupe
  case drop => exact .bind .pop fun _ => .pure _
  case swap => exact .bind .pop fun _ => .bind .pop fun _ => .bind (.push _) fun _ => .push _
  case rote => exact .rotate
  case load c => exact .target_bind hop fun t ht => (load_works ht).bind fun v => .push v
  case fieldInt i =>
    exact .bind (.routine (.fieldNumber _)) fun i => .bind (.routine (.getField i)) fun v => .push v
  case member a =>
    exact .bind .pop fun v => .bind (.routine (.textOf v)) fun key => .bind (.arrayOf hop) fun slot => .push _
  case store c =>
    have hstore : Works p room known (n + 1 + c.keys) (step (.store c)) n :=
      .target_bind hop fun t ht => .bind .pop fun v => store_works ht v
    rwa [Nat.add_right_comm, Nat.add_assoc] at hstore
  case delete a =>
    exact .bind .pop fun v => .bind (.routine (.textOf v)) fun key => .bind (.arrayOf hop) fun slot =>
      setArray_works _ _
  case deleteAll a => exact .bind (.arrayOf hop) fun slot => setArray_works _ _
  case incr amount c => exact .target_bind hop fun t ht => (load_works ht).bind fun old => store_works ht _
  case aug op c =>
    have haug : Works p room known (n + 1 + c.keys) (step (.aug op c)) n :=
      .target_bind hop fun t ht => .bind .pop fun right => (load_works ht).bind fun old =>
        .bind (.routine (.arith _ _ _)) fun _ => store_works ht _
    rwa [Nat.add_right_comm, Nat.add_assoc] at haug
  case indexMulti count | concatMulti count =>
    exact .bind (.popMany count) fun args => .get_bind (fun _ _ => rfl) fun m => .push _
  case arith op => exact binary_works fun a b => (Composed.arith _ _ _).bind fun _ => .pure _
  case compare c => exact binary_works fun a b => .get_bind (fun _ _ => rfl) fun m => .pure _
  case concat =>
    exact binary_works fun a b => (Composed.textOf a).bind fun _ => (Composed.textOf b).bind fun _ => .pure _
  case «match» negated =>
    exact binary_works fun text source => (Composed.textOf source).bind fun _ => (Composed.pattern _).bind fun _ =>
      (Composed.textOf text).bind fun _ => .pure _
  case not | minus | plus | boolean => exact unary_works _
  case callBuiltin f count =>
    exact .bind (.popMany count) fun args => .bind (.callBuiltin hop args) fun v => .push v
  case callLengthArray a => exact .bind (.arrayOf hop) fun slot => .push _
  case callSplit a sep =>
    have hsplit : Works p room known (n + 1 + if sep then 1 else 0) (step (.callSplit a sep)) (n + 1) :=
      (popIf_works sep).bind fun s => .bind .pop fun text => (splitInto_works hop text s).bind fun _ => .push _
    cases sep <;> exact hsplit
  case callSub all =>
    exact .bind .pop fun value => .bind .pop fun replacement => .bind .pop fun source =>
      .bind (.routine (.substitute source replacement value all)) fun r => .bind (.push _) fun _ => .push _
  case callNative i count =>
    exact .bind (.popMany count) fun args => .bind (.routine (.callNative i args)) fun v => .push v
  case nulls count => exact .nulls count
  case output formattedText count kind => exact output_works formattedText count kind
  case getline source cell => exact getline_works hop source
  case arrayArg a => exact .pure _
  all_goals cases hc

lemma taken_works (t : Test) : Works p room known (n + t.operands) (taken t) n := by
  cases t with
  | truth expected => exact .bind .pop fun v => .pure _
  | compare c => exact .bind .pop fun _ => .bind .pop fun _ => .get_bind (fun _ _ => rfl) fun m => .pure _

end Awk.Run
