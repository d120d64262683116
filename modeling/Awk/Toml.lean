import Awk.Number.Read

/-!
# Settings files

Data in the TOML notation: tables of values by keys.  Tables come into being in several ways, and the way
decides what may be added to them later.
-/

namespace Awk

/-- How a table came into being. -/
inductive Toml.Origin where
  | header
  | implied
  | dotted
deriving DecidableEq, Repr

/-- A value of a settings file. -/
inductive Toml where
  | text (s : String)
  | integer (n : Int)
  | bool (b : Bool)
  /-- A number with a fraction; no setting asks for one. -/
  | float
  /-- A date, a time or both. -/
  | moment (s : String)
  | arr (items : List Toml)
  /-- A table in braces, to which nothing can be added. -/
  | inline (entries : List (String × Toml))
  | table (origin : Toml.Origin) (entries : List (String × Toml))
  | tables (all : List (List (String × Toml)))

namespace Toml

abbrev Entries := List (String × Toml)

def replace (entries : Entries) (key : String) (value : Toml) : Entries :=
  entries.map fun (k, v) => if k = key then (k, value) else (k, v)

/-- Adds a key below the tables of a path, as dotted keys do.  The last table has to be one that dotted
keys have made, and none on the way may have a header. -/
def addKey? (key : String) (value : Toml) : (path : List String) → Entries → Option Entries
  | [], entries => if (entries.lookup key).isSome then none else some (entries ++ [(key, value)])
  | p :: path, entries =>
    match entries.lookup p with
    | none => (addKey? key value path []).map fun inner => entries ++ [(p, .table .dotted inner)]
    | some (.table origin inner) =>
      if origin = .header ∨ (path = [] ∧ origin ≠ .dotted) then none
      else (addKey? key value path inner).map fun inner => replace entries p (.table origin inner)
    | some (.tables all) =>
      if path = [] then none
      else
        (addKey? key value path (all.getLast?.getD [])).map fun inner =>
          replace entries p (.tables (all.dropLast ++ [inner]))
    | some _ => none

/-- Changes the table of a path, as headers name it; of several tables the last one is meant. -/
def within? (f : Entries → Option Entries) : (path : List String) → Entries → Option Entries
  | [], entries => f entries
  | p :: path, entries =>
    match entries.lookup p with
    | none => (within? f path []).map fun inner => entries ++ [(p, .table .implied inner)]
    | some (.table origin inner) =>
      (within? f path inner).map fun inner => replace entries p (.table origin inner)
    | some (.tables all) =>
      (within? f path (all.getLast?.getD [])).map fun inner =>
        replace entries p (.tables (all.dropLast ++ [inner]))
    | some _ => none

/-- Opens the table of a header.  It must not have been opened before. -/
def openTable? (path : List String) (key : String) (root : Entries) : Option Entries :=
  within? (fun entries =>
    match entries.lookup key with
    | none => some (entries ++ [(key, .table .header [])])
    | some (.table .implied inner) => some (replace entries key (.table .header inner))
    | some _ => none) path root

/-- Opens another table of a header in double brackets. -/
def openTables? (path : List String) (key : String) (root : Entries) : Option Entries :=
  within? (fun entries =>
    match entries.lookup key with
    | none => some (entries ++ [(key, .tables [[]])])
    | some (.tables all) => some (replace entries key (.tables (all ++ [[]])))
    | some _ => none) path root

end Toml

end Awk
