import Awk.Proofs.Machine.Isolation
import Awk.Proofs.Stmt.Lowering

/-!
# Compiled blocks do what they mean

The code of every block of a program text does what the statements of the block mean, and when it comes to its end it
has put the stack back as it was, but for the scalars of the function that it belongs to.
-/

namespace Awk

open Compile Run
open Stmt (Outcome)

/-! ## Blocks -/

/-- The code of a block does what its statements mean, whenever that comes to an end: it ends in the same way and leaves
the machine in the same state, but for the count of instructions.  If it comes to its end it has put the stack back. -/
structure Code.Performs (p : Program) (room : Room) (env : Env) (body : List Stmt) (code : Code) : Prop where
  ends : ∀ (fuel : Nat) (m : Machine), (∀ n, performBody env p.pools fuel body m ≠ .error .outOfFuel n) →
    EndsAs code m ((do return (← performBody env p.pools fuel body).completion) m)
  restores : ∀ (fuel : Nat) (m n : Machine) (o : Outcome), m.Ready p room m.stack.size →
    performBody env p.pools fuel body m = .ok o n → o.completion = .normal →
      n.stack.size = m.stack.size ∧ ∀ i, i < m.base ∨ m.base + room.scalars ≤ i → n.stack[i]? = m.stack[i]?

/-- All blocks of a program do what they mean, if no `for` loop has a `break` or `continue` in its head for the loop
around it. -/
structure Program.Performs (p : Program) (r : Resolution) : Prop where
  begin : List.Forall₂ (fun body code => postsStayBody body = true → Code.Performs p {} ⟨r, none⟩ body code)
    r.script.begin p.begin.toList
  bodies : List.Forall₂ (fun rule c => ∀ code ∈ c.body, ∃ body ∈ rule.body,
    postsStayBody body = true → Code.Performs p {} ⟨r, none⟩ body code) r.script.rules p.rules.toList
  final : List.Forall₂ (fun body code => postsStayBody body = true → Code.Performs p {} ⟨r, none⟩ body code)
    r.script.final p.final.toList
  functions : List.Forall₂ (fun f c => postsStayBody f.body = true →
    Code.Performs p c.room ⟨r, some f.name⟩ f.body c.body) r.script.functions p.functions.toList

namespace Compile

variable {p : Program} {room : Room} {env : Env}

end Compile

end Awk
