import Awk.Proofs.Machine.Steps

/-!
# What instructions find

A machine that is ready for code has all that the code names: constants, variables of the program, and the
variables of the function at work.  A watched run looks before every instruction whether it finds what it uses.
-/

namespace Awk

/-! ## What an instruction uses -/

/-- A scalar is there.  Those of a function lie between the base and `floor`, where the operands of its code
start. -/
def ScalarRef.inReach (m : Machine) (floor : Nat) : ScalarRef → Bool
  | .global i => i < m.globals.size
  | .local i => m.base + i < floor
  | .special _ => true

def ArrayRef.inReach (m : Machine) : ArrayRef → Bool
  | .global i => i < m.arrays.size
  | .local i => (m.frames.head?.bind (·[i]?)).any (· < m.arrays.size)

def Cell.inReach (m : Machine) (floor : Nat) : Cell → Bool
  | .scalar r => r.inReach m floor
  | .field => true
  | .element a => a.inReach m

/-- The constants, variables and functions that an instruction names are there. -/
def Op.finds (m : Machine) (floor : Nat) : Op → Bool
  | .num i => i < m.program.nums.size
  | .str i => i < m.program.strs.size
  | .regex i => i < m.regexes.size
  | .load c | .store c | .incr _ c | .aug _ c => c.inReach m floor
  | .member a | .delete a | .deleteAll a | .callLengthArray a | .callSplit a _ | .arrayArg a => a.inReach m
  | .forIn var a _ => var.inReach m floor && a.inReach m
  | .callUser f _ => f < m.program.functions.size
  | .getline _ target => target.all (·.inReach m floor)
  | _ => true

/-- All that an instruction uses is there, the operands that it takes above `floor`. -/
def Op.inReach (m : Machine) (floor : Nat) (op : Op) : Bool :=
  op.finds m floor && floor + op.takes m.program ≤ m.stack.size

/-- Counts an instruction, and stops if something is not there that it uses. -/
def Run.watch (floor : Nat) (op : Op) : Run Unit := do
  tick
  if op.inReach (← get) floor then pure () else throw .outOfRange

/-! ## Machines that are ready -/

namespace Machine

/-- What every instruction leaves as it is: the tables and their sizes, and the function at work. -/
structure Keeps (m m' : Machine) : Prop where
  outline : m'.outline = m.outline
  base : m'.base = m.base
  frames : m'.frames = m.frames
  inRange : m'.inRange.size = m.inRange.size

/-- A machine has what code of a program names, whose function has the given number of variables. -/
structure Ready (p : Program) (room : Room) (floor : Nat) (m : Machine) : Prop where
  program : m.program = p
  regexes : m.regexes.size = p.regexes.size
  fits : m.outline.Fits
  scalars : m.base + room.scalars ≤ floor
  arrays : ∀ i < room.arrays, (ArrayRef.local i).inReach m

variable {m m' m'' : Machine} {p : Program} {room : Room} {floor : Nat}

namespace Keeps

lemma refl (m : Machine) : m.Keeps m := ⟨rfl, rfl, rfl, rfl⟩

lemma trans (h : m.Keeps m') (h' : m'.Keeps m'') : m.Keeps m'' :=
  ⟨h'.outline.trans h.outline, h'.base.trans h.base, h'.frames.trans h.frames, h'.inRange.trans h.inRange⟩

lemma program (h : m.Keeps m') : m'.program = m.program := congrArg Outline.program h.outline

lemma regexes (h : m.Keeps m') : m'.regexes = m.regexes := congrArg Outline.regexes h.outline

lemma globals (h : m.Keeps m') : m'.globals.size = m.globals.size := congrArg Outline.globals h.outline

lemma arrays (h : m.Keeps m') : m'.arrays.size = m.arrays.size := congrArg Outline.arrays h.outline

lemma array_inReach (h : m.Keeps m') (a : ArrayRef) : a.inReach m' = a.inReach m := by
  cases a <;> simp only [ArrayRef.inReach, h.arrays, h.frames]

lemma ready (h : m.Keeps m') (hm : m.Ready p room floor) : m'.Ready p room floor where
  program := h.program.trans hm.program
  regexes := by rw [h.regexes, hm.regexes]
  fits := h.outline ▸ hm.fits
  scalars := by rw [h.base]; exact hm.scalars
  arrays i hi := by rw [h.array_inReach]; exact hm.arrays i hi

end Keeps

namespace Ready

variable (hm : m.Ready p room floor)

include hm

lemma globals : m.globals.size = p.scalarNames.size := hm.program ▸ hm.fits.globals

lemma globalArrays : p.arrayNames.size ≤ m.arrays.size := hm.program ▸ hm.fits.arrays

lemma scalar_inReach {r : ScalarRef} (hr : r.WellFormed p room) : r.inReach m floor := by
  cases r with
  | global i => exact decide_eq_true (hm.globals ▸ hr)
  | «local» i => exact decide_eq_true (Nat.lt_of_lt_of_le (Nat.add_lt_add_left hr _) hm.scalars)
  | special v => rfl

lemma array_inReach {a : ArrayRef} (ha : a.WellFormed p room) : a.inReach m := by
  cases a with
  | global i => exact decide_eq_true (Nat.lt_of_lt_of_le ha hm.globalArrays)
  | «local» i => exact hm.arrays i ha

lemma cell_inReach {c : Cell} (hc : c.WellFormed p room) : c.inReach m floor := by
  cases c with
  | scalar r => exact hm.scalar_inReach hc
  | field => rfl
  | element a => exact hm.array_inReach hc

lemma finds {op : Op} (hop : op.WellFormed p room) : op.finds m floor := by
  cases op <;> first
    | exact hm.cell_inReach hop
    | exact hm.array_inReach hop
    | exact decide_eq_true (hm.program ▸ hop)
    | rfl
    | skip
  case regex i => exact decide_eq_true (hm.regexes ▸ hop)
  case forIn var a length => exact Bool.and_eq_true_iff.mpr ⟨hm.scalar_inReach hop.1, hm.array_inReach hop.2⟩
  case getline source target =>
    cases target with
    | none => rfl
    | some c => exact hm.cell_inReach (hop c rfl)

lemma inReach {op : Op} (hop : op.WellFormed p room) (henough : floor + op.takes p ≤ m.stack.size) :
    op.inReach m floor :=
  Bool.and_eq_true_iff.mpr ⟨hm.finds hop, decide_eq_true (hm.program ▸ henough)⟩

end Ready

end Machine

end Awk
