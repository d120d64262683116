import Awk.Machine.State
import Awk.Toml.Read

/-!
# Settings from a file

The table `vm` of a settings file sets what a run starts from.  Settings that are missing have their
usual values, and names that mean nothing here are passed over; a value of the wrong type is an error.
-/

namespace Awk.Config

def settingNames : List String :=
  ["max_call_depth", "field_sep", "vars", "environ", "no_exec", "cancel_check_interval"]

/-- The key under which a moment has its text when it is taken for a table. -/
def momentKey : String := "$__toml_private_datetime"

def entries? : Toml → Option Toml.Entries
  | .inline entries | .table _ entries => some entries
  | .moment s => some [(momentKey, .text s)]
  | _ => none

def texts? (value : Toml) : Option (Std.TreeMap String String) := do
  (← entries? value).foldlM (fun m (k, v) =>
    match v with
    | .text s => some (m.insert k s)
    | _ => none) {}

/-- A number with room in some bits, of which integers use at most 63. -/
def count? (bits : Nat) : Toml → Option Nat
  | .integer n => if 0 ≤ n ∧ n < Number.twoPow bits then some n.toNat else none
  | _ => none

def set? (c : Config) (name : String) (value : Toml) : Option Config :=
  match name, value with
  | "max_call_depth", v => (count? 64 v).map fun n => { c with maxCallDepth := n }
  | "field_sep", .text s => some { c with fieldSep := some s }
  | "field_sep", _ => none
  | "vars", v => (texts? v).map fun vars => { c with vars }
  | "environ", v => (texts? v).map fun environ => { c with environ }
  | "no_exec", .bool b => some { c with noExec := b }
  | "no_exec", _ => none
  | "cancel_check_interval", v => (count? 32 v).map fun n => { c with cancelCheckInterval := n }
  | _, _ => some c

def setAll? (c : Config) (entries : Toml.Entries) : Option Config :=
  entries.foldlM (fun c (k, v) => c.set? k v) c

/-- The settings of a value: a table, or a list of their first values in order. -/
def ofValue? (c : Config) : Toml → Option Config
  | .arr items => c.setAll? (settingNames.zip items)
  | .tables all => c.setAll? (settingNames.zip (all.map (.table .header)))
  | v => (entries? v).bind c.setAll?

def ofFile? (c : Config) (text : String) : Option Config := do
  match (← Toml.parse? text).lookup "vm" with
  | none => return c
  | some v => c.ofValue? v

end Awk.Config
