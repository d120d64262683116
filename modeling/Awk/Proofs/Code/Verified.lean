import Mathlib
import Awk.Program

/-!
# A verifier for code

What a machine needs to know of code before it runs it: how high the stack is at every address, where every
instruction leads, which instructions belong to a loop over an array or to a call, and that all numbers of
constants, variables and functions exist.
-/

namespace Awk

/-! ## Heights -/

/-- How many values a cell takes as its key. -/
def Cell.keys : Cell → Nat
  | .scalar _ => 0
  | .field | .element _ => 1

/-- How many values a conditional jump looks at. -/
def Test.operands : Test → Nat
  | .truth _ => 1
  | .compare _ => 2

/-- How many scalars a function takes from the stack. -/
def Program.scalarCount (p : Program) (i : Nat) : Nat := (p.functions[i]?).elim 0 (·.scalarCount)

namespace Op

/-- How many values an instruction takes from the stack. -/
def takes (p : Program) : Op → Nat
  | num _ | str _ | fieldInt _ | regex _ | deleteAll _ | callLengthArray _ | arrayArg _ | nulls _ => 0
  | jump _ | next | nextFile | exit | returnNull | forIn _ _ _ | breakForIn => 0
  | dupe | drop | member _ | delete _ | not | minus | plus | boolean | exitStatus | «return» => 1
  | swap | arith _ | compare _ | concat | «match» _ => 2
  | rote | callSub _ => 3
  | load c | incr _ c => c.keys
  | store c | aug _ c => c.keys + 1
  | indexMulti count | concatMulti count | callBuiltin _ count | callNative _ count => count
  | branch t _ => t.operands
  | callSplit _ sep => if sep then 2 else 1
  | callUser f _ => p.scalarCount f
  | output _ count dest => count + if dest.isSome then 1 else 0
  | getline source target => (if source = .main then 0 else 1) + target.elim 0 Cell.keys

/-- How many values an instruction leaves in the place of those that it takes. -/
def puts : Op → Nat
  | num _ | str _ | load _ | fieldInt _ | member _ | regex _ | indexMulti _ | concatMulti _ => 1
  | arith _ | compare _ | concat | «match» _ | not | minus | plus | boolean => 1
  | callBuiltin _ _ | callLengthArray _ | callSplit _ _ | callUser _ _ | callNative _ _ => 1
  | getline _ _ => 1
  | dupe | swap | callSub _ => 2
  | rote => 3
  | nulls count => count
  | drop | store _ | delete _ | deleteAll _ | incr _ _ | aug _ _ | jump _ | branch _ _ => 0
  | next | nextFile | exit | exitStatus | «return» | returnNull | forIn _ _ _ | breakForIn => 0
  | arrayArg _ | output _ _ _ => 0

/-! ## Ways -/

/-- The addresses at which code goes on behind an instruction.  A loop over an array goes on with its body
or behind it, and a call goes on behind its array arguments. -/
def targets (pc : Nat) : Op → List Int
  | jump offset => [pc + 1 + offset]
  | branch _ offset => [pc + 1, pc + 1 + offset]
  | next | nextFile | exit | exitStatus | «return» | returnNull | breakForIn => []
  | forIn _ _ length => [pc + 1, pc + 1 + length]
  | callUser _ count => [pc + 1 + count]
  | _ => [pc + 1]

/-- A loop over an array, or what leaves one. -/
def isLoop : Op → Bool
  | forIn _ _ _ | breakForIn => true
  | _ => false

end Op

/-! ## Numbers -/

/-- How many scalars and arrays of its own a function has. -/
structure Room where
  scalars : Nat := 0
  arrays : Nat := 0

def ScalarRef.WellFormed (p : Program) (room : Room) : ScalarRef → Prop
  | .global i => i < p.scalarNames.size
  | .local i => i < room.scalars
  | .special _ => True

def ArrayRef.WellFormed (p : Program) (room : Room) : ArrayRef → Prop
  | .global i => i < p.arrayNames.size
  | .local i => i < room.arrays

def Cell.WellFormed (p : Program) (room : Room) : Cell → Prop
  | .scalar r => r.WellFormed p room
  | .field => True
  | .element a => a.WellFormed p room

/-- A builtin function that has no instruction of its own. -/
def Builtin.IsPlain (f : Builtin) : Prop := f ≠ .split ∧ f ≠ .sub ∧ f ≠ .gsub

/-- All numbers that an instruction names exist. -/
def Op.WellFormed (p : Program) (room : Room) : Op → Prop
  | .num i => i < p.nums.size
  | .str i => i < p.strs.size
  | .regex i => i < p.regexes.size
  | .load c | .store c | .incr _ c | .aug _ c => c.WellFormed p room
  | .member a | .delete a | .deleteAll a | .callLengthArray a | .callSplit a _ | .arrayArg a =>
    a.WellFormed p room
  | .forIn var a _ => var.WellFormed p room ∧ a.WellFormed p room
  | .callUser f _ => f < p.functions.size
  | .callBuiltin f _ => f.IsPlain
  | .getline _ target => ∀ c ∈ target, c.WellFormed p room
  | _ => True

/-! ## The verifier -/

/-- A loop over an array starts at an address; its body has the given length. -/
def Code.LoopAt (code : Code) (i length : Nat) : Prop :=
  ∃ var a, code[i]? = some (.forIn var a length)

/-- An instruction leads from an address to another. -/
def Code.Edge (code : Code) (pc : Nat) (t : Int) : Prop := ∃ op, code[pc]? = some op ∧ t ∈ op.targets pc

/-- An address lies in the body of a loop. -/
def InBody (i length pc : Nat) : Prop := i < pc ∧ pc ≤ i + length

/-- Code that a machine may run: `height` tells how many values lie on the stack at every address, above
what was there before, and in the end there are `final` of them. -/
structure Code.Verified (p : Program) (room : Room) (final : Nat) (code : Code) (height : Nat → Nat) :
    Prop where
  /-- All numbers that instructions name exist. -/
  wellFormed : ∀ op ∈ code, op.WellFormed p room
  starts : height 0 = 0
  ends : height code.size = final
  /-- Every instruction finds the values that it takes. -/
  enough : ∀ {pc op}, code[pc]? = some op → op.takes p ≤ height pc
  /-- All ways stay in the code, and heights agree along them. -/
  edges : ∀ {pc op} {t : Int}, code[pc]? = some op → t ∈ op.targets pc →
    0 ≤ t ∧ t ≤ code.size ∧ height t.toNat + op.takes p = height pc + op.puts
  /-- The body of a loop lies in the code. -/
  loops : ∀ {i length}, code.LoopAt i length → i + length < code.size
  /-- No way leads out of the body of a loop. -/
  stays : ∀ {i length pc} {t : Int}, code.LoopAt i length → InBody i length pc → code.Edge pc t →
    i < t ∧ t ≤ i + length + 1
  /-- No way leads into the body of a loop, but from its start. -/
  enters : ∀ {i length pc} {t : Int}, code.LoopAt i length → ¬ InBody i length pc → pc ≠ i →
    code.Edge pc t → t ≤ i ∨ i + length < t
  /-- A loop is only left from its body, and with nothing more on the stack. -/
  breaks : ∀ {pc}, code[pc]? = some .breakForIn →
    (∃ i length, code.LoopAt i length ∧ InBody i length pc) ∧
      ∀ {i length}, code.LoopAt i length → InBody i length pc → height pc = height i
  /-- The array arguments of a call are the instructions behind it, and no more of them. -/
  arrayArgs : ∀ {pc f count}, code[pc]? = some (Op.callUser f count) →
    (∀ i < count, ∃ a, code[pc + 1 + i]? = some (Op.arrayArg a)) ∧
      ∀ a, code[pc + 1 + count]? ≠ some (.arrayArg a)
  /-- The scalars of a call are pushed right before it. -/
  scalarArgs : ∀ {pc f count}, code[pc]? = some (Op.callUser f count) →
    ∃ start ≤ pc, height pc = height start + p.scalarCount f ∧
      ∀ q, start ≤ q → q ≤ pc → height start ≤ height q

end Awk
