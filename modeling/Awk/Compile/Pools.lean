import Awk.Program
import Awk.Regex.Pattern
import Awk.Resolution

/-!
# What compiling keeps and looks up

Constants are put into pools, each of them once, in the order of their first use.  Names are looked up
in the resolution of the program.
-/

namespace Awk

/-- Why a program cannot be compiled.  Numbers of constants and lengths of jumps have no bound here, so that
no program is too large. -/
inductive CompileError where
  | invalidRegex (pattern : String)
  | unresolved (name : String)
deriving DecidableEq, Repr

def CompileError.message : CompileError → String
  | invalidRegex pattern => "invalid regex " ++ Text.quoted pattern
  | unresolved name => "internal error: " ++ Text.quoted name ++ " was not resolved"

/-- The constants of a program. -/
structure Pools where
  nums : Array Float := #[]
  strs : Array String := #[]
  regexes : Array String := #[]

/-- What an instruction takes from a pool. -/
inductive Constant where
  | num (x : Float)
  | str (s : String)
  | regex (s : String)

/-- The instruction for a constant, which is added if it is not there.  Numbers of the same bits share an
entry, and a regex has to be well formed. -/
def Pools.place (p : Pools) : Constant → Except CompileError (Op × Pools)
  | .num x =>
    match p.nums.findIdx? (·.toBits == x.toBits) with
    | some i => .ok (.num i, p)
    | none => .ok (.num p.nums.size, { p with nums := p.nums.push x })
  | .str s =>
    match p.strs.findIdx? (· == s) with
    | some i => .ok (.str i, p)
    | none => .ok (.str p.strs.size, { p with strs := p.strs.push s })
  | .regex s =>
    match p.regexes.findIdx? (· == s) with
    | some i => .ok (.regex i, p)
    | none =>
      match Regex.Pattern.compile s with
      | .error _ => .error (.invalidRegex s)
      | .ok _ => .ok (.regex p.regexes.size, { p with regexes := p.regexes.push s })

/-- A computation that may fail, and that does nothing with the pools but to ask for the instructions of
constants. -/
inductive Compile (α : Type) where
  | done (a : α)
  | fail (e : CompileError)
  | ask (c : Constant) (next : Op → Compile α)

namespace Compile

def andThen {α β : Type} (x : Compile α) (f : α → Compile β) : Compile β :=
  match x with
  | done a => f a
  | fail e => fail e
  | ask c next => ask c fun op => (next op).andThen f

instance : Monad Compile where
  pure := done
  bind := andThen

def run {α : Type} : Compile α → Pools → Except CompileError (α × Pools)
  | done a, p => .ok (a, p)
  | fail e, _ => .error e
  | ask c next, p =>
    match p.place c with
    | .error e => .error e
    | .ok (op, p) => (next op).run p

def num (x : Float) : Compile Op := ask (.num x) done

def str (s : String) : Compile Op := ask (.str s) done

def regex (s : String) : Compile Op := ask (.regex s) done

/-- Where names are looked up: in the resolution, inside a function or outside all functions. -/
structure Env where
  resolution : Resolution
  func : Option String

namespace Env

def scalar (env : Env) (v : VarRef) : Compile ScalarRef :=
  match env.resolution.lookupVar env.func v.name with
  | some (.local, info) => return .local info.index
  | some (.global, info) => return .global info.index
  | some (.special, _) =>
    match Special.ofName? v.name with
    | some s => return .special s
    | none => .fail (.unresolved v.name)
  | none => .fail (.unresolved v.name)

def array (env : Env) (v : VarRef) : Compile ArrayRef :=
  match env.resolution.lookupVar env.func v.name with
  | some (.local, info) => return .local info.index
  | some (.global, info) => return .global info.index
  | some (.special, _) | none => .fail (.unresolved v.name)

def isArray (env : Env) (v : VarRef) : Bool :=
  (env.resolution.lookupVar env.func v.name).any (·.2.kind = .array)

end Env

end Compile

end Awk
