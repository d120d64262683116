import Awk.Proofs.Machine.Isolation
import Awk.Proofs.Resolution.Params
import Awk.Proofs.Stmt.Perform

/-!
# The meaning of calls

What a call of a function means, said without a stack that all functions share.  The caller computes the arguments from
left to right, each by its own code, and sets the values aside.  The function then works on a stack of its own, on which
there are its scalars and nothing else, while the arrays that it was passed are the caller's: a parameter only tells
their slots.  Behind the call the caller has its own stack again.
-/

namespace Awk

open Compile (Env exprCode Gives)
open Run

/-! ## Parameters -/

/-- What a parameter stands for: a value of its own, or the array in a slot. -/
inductive Binding where
  | scalar (value : Value)
  | array (slot : Nat)

namespace Binding

@[simp]
def isArray : Binding → Bool
  | scalar _ => false
  | array _ => true

def value? : Binding → Option Value
  | scalar value => some value
  | array _ => none

def slot? : Binding → Option Nat
  | scalar _ => none
  | array slot => some slot

/-- The values of the scalars among some parameters. -/
def values (bindings : List Binding) : List Value := bindings.filterMap value?

/-- The slots of the arrays among some parameters. -/
def slots (bindings : List Binding) : List Nat := bindings.filterMap slot?

/-- What parameters stand for that get no argument, by their kinds: a scalar is not assigned, and an array is a new
one.  The new arrays have the slots from the given one on. -/
def unpassed (slot : Nat) : (arrays : List Bool) → List Binding
  | [] => []
  | false :: arrays => scalar .null :: unpassed slot arrays
  | true :: arrays => array slot :: unpassed (slot + 1) arrays

@[simp]
lemma values_nil : values [] = [] := rfl

@[simp]
lemma values_scalar_cons (v : Value) (bs : List Binding) : values (scalar v :: bs) = v :: values bs := rfl

@[simp]
lemma values_array_cons (slot : Nat) (bs : List Binding) : values (array slot :: bs) = values bs := rfl

@[simp]
lemma slots_nil : slots [] = [] := rfl

@[simp]
lemma slots_scalar_cons (v : Value) (bs : List Binding) : slots (scalar v :: bs) = slots bs := rfl

@[simp]
lemma slots_array_cons (slot : Nat) (bs : List Binding) : slots (array slot :: bs) = slot :: slots bs := rfl

lemma values_append (bs bs' : List Binding) : values (bs ++ bs') = values bs ++ values bs' := List.filterMap_append

lemma slots_append (bs bs' : List Binding) : slots (bs ++ bs') = slots bs ++ slots bs' := List.filterMap_append

lemma values_unpassed (slot : Nat) (arrays : List Bool) :
    values (unpassed slot arrays) = List.replicate (arrays.count false) .null := by
  induction arrays generalizing slot with
  | nil => rfl
  | cons b arrays ih => cases b <;> simp [unpassed, ih, List.replicate_succ]

lemma slots_unpassed (slot : Nat) (arrays : List Bool) :
    slots (unpassed slot arrays) = (List.range (arrays.count true)).map (slot + ·) := by
  induction arrays generalizing slot with
  | nil => rfl
  | cons b arrays ih =>
    cases b with
    | false => simp [unpassed, ih]
    | true =>
      rw [unpassed, slots_array_cons, ih, List.count_cons_self, List.range_succ_eq_map, List.map_cons, List.map_map]
      congr 1
      exact List.map_congr_left fun i _ => by simp [Nat.add_assoc, Nat.add_comm 1]

lemma isArray_unpassed (slot : Nat) (arrays : List Bool) : (unpassed slot arrays).map isArray = arrays := by
  induction arrays generalizing slot with
  | nil => rfl
  | cons b arrays ih => cases b <;> simp [unpassed, ih]

lemma length_values (bs : List Binding) : (values bs).length = (bs.map isArray).count false := by
  induction bs with
  | nil => rfl
  | cons b bs ih => cases b <;> simp [ih]

lemma length_slots (bs : List Binding) : (slots bs).length = (bs.map isArray).count true := by
  induction bs with
  | nil => rfl
  | cons b bs ih => cases b <;> simp [ih]

variable {bs : List Binding} {v : Value} {slot first j : Nat} {arrays : List Bool}

lemma mem_values (h : scalar v ∈ bs) : v ∈ values bs :=
  List.mem_filterMap.mpr ⟨_, h, rfl⟩

lemma mem_slots (h : array slot ∈ bs) : slot ∈ slots bs :=
  List.mem_filterMap.mpr ⟨_, h, rfl⟩

lemma slot_of_mem_unpassed (h : array slot ∈ unpassed first arrays) :
    first ≤ slot ∧ slot < first + arrays.count true := by
  have hmem := mem_slots h
  rw [slots_unpassed, List.mem_map] at hmem
  obtain ⟨i, hi, rfl⟩ := hmem
  have := List.mem_range.mp hi
  omega

lemma unpassed_inj {j' : Nat} (h : (unpassed first arrays)[j]? = some (array slot))
    (h' : (unpassed first arrays)[j']? = some (array slot)) : j = j' := by
  induction arrays generalizing first j j' with
  | nil => cases h
  | cons b arrays ih =>
    cases b with
    | false =>
      obtain _ | j := j
      · cases h
      · obtain _ | j' := j'
        · cases h'
        · exact congrArg (· + 1) (ih h h')
    | true =>
      -- the first new array comes before all others
      have hlater {k : Nat} (hk : (unpassed (first + 1) arrays)[k]? = some (array first)) : False := by
        have := slot_of_mem_unpassed (List.mem_of_getElem? hk)
        omega
      obtain _ | j := j
      · cases h
        obtain _ | j' := j'
        · rfl
        · exact (hlater h').elim
      · obtain _ | j' := j'
        · cases h'
          exact (hlater h).elim
        · exact congrArg (· + 1) (ih h h')

lemma getElem?_values (h : bs[j]? = some (scalar v)) :
    (values bs)[((bs.map isArray).take j).count false]? = some v := by
  rw [← List.map_take, ← length_values]
  exact getElem?_filterMap_take h rfl

lemma getElem?_slots (h : bs[j]? = some (array slot)) :
    (slots bs)[((bs.map isArray).take j).count true]? = some slot := by
  rw [← List.map_take, ← length_slots]
  exact getElem?_filterMap_take h rfl

end Binding

/-! ## Machines of functions -/

namespace Machine

/-- What the parameters of a function stand for: what is passed for the first ones, and what they stand for without an
argument. -/
def bindings (m : Machine) (arrays : List Bool) (passed : List Binding) : List Binding :=
  passed ++ Binding.unpassed m.arrays.size (arrays.drop passed.length)

/-- The machine when a function starts.  It has a stack of its own with the scalars of the function on it, and new
arrays for the parameters without an argument. -/
def started (m : Machine) (arrays : List Bool) (passed : List Binding) : Machine :=
  { m with
    stack := (Binding.values (m.bindings arrays passed)).toArray
    base := 0
    frames := (Binding.slots (m.bindings arrays passed)).toArray :: m.frames
    arrays := m.arrays ++ Array.replicate ((arrays.drop passed.length).count true) {} }

/-- The machine of the caller, `outer`, behind a function that has left the machine `m`.  The variables of the function
are gone. -/
def returned (m outer : Machine) : Machine :=
  { m with
    stack := outer.stack
    base := outer.base
    frames := outer.frames
    arrays := m.arrays.shrink outer.arrays.size }

end Machine

/-! ## Calls -/

/-- What gives something, unless it ends the block that it is in. -/
abbrev Evaluation (α : Type) := ExceptT Completion Run α

namespace Run

/-- The value of a call, by how the body of the function ended. -/
def outcome : Completion → Except Completion Value
  | .return value => .ok value
  | .normal | .breakForIn => .ok .null
  | c => .error c

def apart (fuel : Nat) (f : CompiledFunction) (arrays : List Bool) (passed : List Binding) : Run Completion := fun m =>
  (proceed fuel f.body 0 (m.started arrays passed)).mapState (·.returned m)

/-- Calls a function whose parameters are of the given kinds with what is passed for the first ones. -/
def invoke (fuel : Nat) (f : CompiledFunction) (arrays : List Bool) (passed : List Binding) : Evaluation Value :=
  ExceptT.mk do
    let m ← get
    if m.config.maxCallDepth ≤ m.frames.length then fail (.callDepthExceeded f.name m.config.maxCallDepth)
    else return outcome (← apart fuel f arrays passed)

def pushing (x : Evaluation Value) : Run Completion := do
  match ← x.run with
  | .ok v =>
    push v
    return .normal
  | .error c => return c

def pushed (fuel : Nat) (code : List Op) : Evaluation Value := ExceptT.mk do
  match ← proceed fuel code.toArray 0 with
  | .normal => return .ok (← pop)
  | c => return .error c

end Run

section

variable (env : Env) (pools : Pools) (fuel : Nat)

/-- What an argument passes to a scalar: the value that its own code pushes. -/
def Expr.passScalar (e : Expr) : Evaluation Binding := ExceptT.mk <|
  lowered pools (exprCode env e).value fun code => do
    match ← proceed fuel code.toArray 0 with
    | .normal => return .ok (.scalar (← pop))
    | c => return .error c

/-- What an argument passes to an array: the array that it names, where the caller has it. -/
def Expr.passArray : Expr → Evaluation Binding
  | .place (.var v) => ExceptT.mk <| lowered pools (env.array v) fun a => do return .ok (.array (← slotOf a))
  | _ => ExceptT.mk <| throw .outOfRange

/-- What some arguments pass to parameters of the given kinds, one after the other. -/
def passAll : (arrays : List Bool) → List Expr → Evaluation (List Binding)
  | _, [] => return []
  | arrays, e :: rest => do
    let b ← if arrays.headD false then e.passArray env pools else e.passScalar env pools fuel
    return b :: (← passAll arrays.tail rest)

def evalCall (f : CompiledFunction) (arrays : List Bool) (args : List Expr) : Evaluation Value := do
  invoke fuel f arrays (← passAll env pools fuel arrays args)

end

/-! ## What parameters stand for -/

/-- Inside a function a name stands for a scalar with a value, or for the array in a slot. -/
def Binding.Denotes (env : Env) (m : Machine) (name : String) : Binding → Prop
  | .scalar value => ∃ i, (∀ v : VarRef, v.name = name → env.scalar v = pure (.local i)) ∧
    getScalar (.local i) m = .ok value m
  | .array slot => ∃ i, (∀ v : VarRef, v.name = name → env.array v = pure (.local i)) ∧
    slotOf (.local i) m = .ok slot m

def Run.updateArray (a : ArrayRef) (change : ArrayValue → ArrayValue) : Run Unit := do
  let (slot, array) ← arrayOf a
  setArray slot (change array)

namespace Run

variable {m n outer : Machine}

variable {a : ArrayRef} {slot : Nat}

lemma updateArray_apply (h : slotOf a m = .ok slot m) (hslot : slot < m.arrays.size)
    (change : ArrayValue → ArrayValue) :
    updateArray a change m = .ok () { m with arrays := m.arrays.setIfInBounds slot (change m.arrays[slot]) } := by
  rw [updateArray, bind_apply, arrayOf_of_slotOf h hslot]
  rfl

/-- Assigning a scalar of a function changes nothing that the caller finds behind it. -/
lemma returned_setLocal (i : Nat) (value : Value) :
    (setScalar (.local i) value n).state.returned outer = n.returned outer := by
  by_cases h : n.base + i < n.stack.size
  · rw [setLocal_apply h]
    rfl
  · change ((if n.base + i < n.stack.size then _ else throw .outOfRange : Run Unit) n).state.returned outer = _
    rw [if_neg h]
    rfl

/-- Changing an array through a parameter is, for the caller, changing the array that is passed. -/
lemma returned_updateArray {b : ArrayRef} (ha : slotOf a outer = .ok slot outer) (hb : slotOf b n = .ok slot n)
    (hslot : slot < outer.arrays.size) (hsize : outer.arrays.size ≤ n.arrays.size) (change : ArrayValue → ArrayValue) :
    (updateArray b change n).mapState (·.returned outer) = updateArray a change (n.returned outer) := by
  have ha' : slotOf a (n.returned outer) = .ok slot (n.returned outer) := slotOf_congr ha rfl
  have hslot' : slot < (n.returned outer).arrays.size := by
    change slot < (n.arrays.shrink outer.arrays.size).size
    rw [Array.size_shrink]
    omega
  rw [updateArray_apply hb (by omega), updateArray_apply ha' hslot']
  have hget : (n.returned outer).arrays[slot] = n.arrays[slot] := by
    change (n.arrays.shrink outer.arrays.size)[slot] = n.arrays[slot]
    simp
  have hset (value : ArrayValue) : (n.arrays.setIfInBounds slot value).shrink outer.arrays.size =
      (n.arrays.shrink outer.arrays.size).setIfInBounds slot value := by
    refine Array.toList_inj.mp ?_
    simp [List.take_set]
  rw [hget]
  change EStateM.Result.ok () { n.returned outer with
    arrays := (n.arrays.setIfInBounds slot (change n.arrays[slot])).shrink outer.arrays.size } = _
  rw [hset]
  rfl

end Run

/-! ## Parameters inside the function -/

section

variable {m : Machine} {arrays : List Bool} {passed : List Binding}

lemma Machine.isArray_bindings (h : passed.map Binding.isArray = arrays.take passed.length) :
    (m.bindings arrays passed).map Binding.isArray = arrays := by
  rw [Machine.bindings, List.map_append, Binding.isArray_unpassed, h, List.take_append_drop]

/-- Inside the function the parameters stand for what they are bound to. -/
lemma Machine.denotes_started (h : passed.map Binding.isArray = arrays.take passed.length) {env : Env} {j : Nat}
    {name : String} {isArray : Bool} (harrays : arrays[j]? = some isArray)
    (hlook : env.resolution.lookupVar env.func name =
      some (.local, ⟨if isArray then .array else .scalar, (arrays.take j).count isArray⟩)) :
    ∃ b, (m.bindings arrays passed)[j]? = some b ∧ b.Denotes env (m.started arrays passed) name := by
  have hkinds := Machine.isArray_bindings (m := m) h
  obtain ⟨b, hb, hkind⟩ : ∃ b, (m.bindings arrays passed)[j]? = some b ∧ b.isArray = isArray := by
    rw [← hkinds, List.getElem?_map] at harrays
    exact Option.map_eq_some_iff.mp harrays
  refine ⟨b, hb, ?_⟩
  cases b with
  | scalar value =>
    obtain rfl : false = isArray := hkind
    refine ⟨_, fun v hv => by rw [Env.scalar, hv, hlook], ?_⟩
    have hget := Binding.getElem?_values hb
    rw [hkinds] at hget
    have hstack : (m.started arrays passed).stack[(m.started arrays passed).base + (arrays.take j).count false]? =
        some value := by
      change (Binding.values (m.bindings arrays passed)).toArray[0 + (arrays.take j).count false]? = _
      rw [Nat.zero_add, List.getElem?_toArray, hget]
    rw [getLocal_apply, hstack]
  | array slot =>
    obtain rfl : true = isArray := hkind
    refine ⟨_, fun v hv => by rw [Env.array, hv, hlook], ?_⟩
    have hget := Binding.getElem?_slots hb
    rw [hkinds] at hget
    have hframe : (m.started arrays passed).frames.head?.bind (·[(arrays.take j).count true]?) = some slot := by
      change (Binding.slots (m.bindings arrays passed)).toArray[(arrays.take j).count true]? = _
      rw [List.getElem?_toArray, hget]
    rw [slotOf_eq_ok, slotIn, hframe]

end

end Awk
