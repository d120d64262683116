import Awk.Script
import Awk.Special
import Std.Data.TreeMap

/-!
# What names refer to

A variable is local to a function, special or global; it is a scalar or an array; and it has a number
among those of its kind.  A function is one of the program's own or a native one, which the host
provides.
-/

namespace Awk

/-- Scalar or array. -/
inductive Kind where
  | scalar | array
deriving DecidableEq, Repr

def Kind.text : Kind → String
  | scalar => "scalar"
  | array => "array"

/-- Where a variable belongs. -/
inductive Scope where
  | «local» | special | global
deriving DecidableEq, Repr

/-- A variable: its kind and its number among those of that kind. -/
structure VarInfo where
  kind : Kind
  index : Nat
deriving DecidableEq, Repr

/-- A function that can be called. -/
structure FuncInfo where
  /-- The number of the function among those of the program, or among the native ones. -/
  index : Nat
  native : Bool
  params : List String
  arrays : List Bool
  /-- The most arguments it takes; none if it takes any number. -/
  arity : Option Nat
deriving DecidableEq, Repr

/-- A function that the host provides. -/
structure NativeFunc where
  name : String
  /-- The most arguments it takes; none if it takes any number. -/
  arity : Option Nat
deriving DecidableEq, Repr

abbrev VarTable := Std.TreeMap String VarInfo

/-- A program with the variables and functions that its names refer to. -/
structure Resolution where
  script : Script
  globals : VarTable
  locals : Std.TreeMap String VarTable
  funcs : Std.TreeMap String FuncInfo

namespace Resolution

/-- What a variable's name refers to inside a function, or outside all functions.  A parameter hides
special and global variables. -/
def lookupVar (r : Resolution) (func : Option String) (name : String) : Option (Scope × VarInfo) :=
  match func.bind fun f => r.locals[f]?.bind fun table => table[name]? with
  | some info => some (.local, info)
  | none =>
    match Special.ofName? name with
    | some v => some (.special, ⟨.scalar, v.index⟩)
    | none => r.globals[name]?.map fun info => (.global, info)

def lookupFunc (r : Resolution) (name : String) : Option FuncInfo := r.funcs[name]?

/-- The names of the global variables of a kind, in the order of their numbers, which is that of the
names. -/
def globalNames (r : Resolution) (kind : Kind) : List String :=
  r.globals.toList.filterMap fun (name, info) => if info.kind = kind then some name else none

def scalarNames (r : Resolution) : List String := r.globalNames .scalar

def arrayNames (r : Resolution) : List String := r.globalNames .array

/-- The names of the native functions, in the order of their numbers, which is that of the names. -/
def nativeNames (r : Resolution) : List String :=
  r.funcs.toList.filterMap fun (name, f) => if f.native then some name else none

def dumpTable (table : VarTable) : String :=
  String.join (table.toList.map fun (name, info) =>
    "  " ++ name ++ ": " ++ info.kind.text ++ " " ++ Number.natText info.index ++ "\n")

def dumpHead (name : String) (f : FuncInfo) : String :=
  "function " ++ name ++ "(" ++ ", ".intercalate f.params ++ ")  # index " ++ Number.natText f.index ++ "\n"

/-- All variables, those of the program first, then those of every function. -/
def dump (r : Resolution) : String :=
  "globals\n" ++ dumpTable r.globals ++
    String.join (r.locals.toList.map fun (name, table) =>
      (r.funcs[name]?.elim "" (dumpHead name)) ++ dumpTable table)

end Resolution

end Awk
