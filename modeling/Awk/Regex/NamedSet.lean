import Awk.Regex.Expr
import Awk.Text.Unicode.Segment

/-!
# Sets of characters by name

A pattern may ask for the characters of a category, a script, a property, an edition or a class for the
division of text of the Unicode standard.
Upper and lower case, blanks, hyphens and underscores make no difference in such names, nor does a
leading `is`.
-/

namespace Awk.Regex

open Awk.Text (CodeSet)
open Awk.Text.Unicode

def normalizeName (name : List Char) : String :=
  let bare := fun cs : List Char =>
    (cs.filter fun c => c != ' ' && c != '_' && c != '-' && decide (c.toNat < 128)).map Char.toLower
  match name with
  | 'i' :: 's' :: r | 'I' :: 'S' :: r | 'i' :: 'S' :: r | 'I' :: 's' :: r =>
    if bare r = ['c'] then "isc" else String.ofList (bare r)
  | r => String.ofList (bare r)

/-- The name in a table of something asked for by a normalized name. -/
def canonical? (table : CodeSet.Table) (name : String) : Option String :=
  (table.find? fun row =>
    (('=' :: row.1.toList) :: row.2).any fun
      | '=' :: word => normalizeName word == name
      | _ => false).map (·.1)

def groupMembers : String → List String
  | "L" => ["Lu", "Ll", "Lt", "Lm", "Lo"]
  | "LC" => ["Lu", "Ll", "Lt"]
  | "M" => ["Mn", "Mc", "Me"]
  | "N" => ["Nd", "Nl", "No"]
  | "P" => ["Pc", "Pd", "Ps", "Pe", "Pi", "Pf", "Po"]
  | "S" => ["Sm", "Sc", "Sk", "So"]
  | "Z" => ["Zs", "Zl", "Zp"]
  | "C" => ["Cc", "Cf", "Co", "Cn"]
  | name => [name]

/-- The characters of a group of categories.  The group of all that is neither letter, mark, number, sign nor
separator reaches across the surrogates, which belong to it, though no text has them. -/
def groupSet (name : String) : CodeSet :=
  let s := categories (groupMembers name)
  if name = "C" then s.union .surrogates else s

def categorySet? (name : String) : Option CodeSet :=
  if name = "any" then some .full
  else if name = "assigned" then some assigned
  else if name = "ascii" then some (.ofRanges [(0, 0x7F)])
  else (canonical? categoryTable name).map groupSet

def scriptSet? (name : String) : Option CodeSet := (canonical? scriptTable name).bind script?

def scriptExtensionSet? (name : String) : Option CodeSet :=
  (canonical? scriptTable name).bind scriptExtension?

def propertySet? (name : String) : Option CodeSet := (canonical? (basicTable ++ derivedTable) name).bind property?

def classSet? (table : CodeSet.Table) (name : String) : Option CodeSet :=
  (canonical? table name).bind (CodeSet.ofTable? property? table)

/-- The editions also go by their numbers after the letter `V`. -/
def ageNames : CodeSet.Table :=
  ageTable.map fun row => (row.1, ['=' :: 'V' :: row.1.toList.filter (· != '.')])

/-- The characters that a single name asks for: those of a property, a category or a script.  Three
short names of categories are short names of other things too. -/
def namedSet? (name : List Char) : Option CodeSet :=
  let name := normalizeName name
  let property := if name = "cf" ∨ name = "sc" ∨ name = "lc" then none else propertySet? name
  property.or ((categorySet? name).or (scriptSet? name))

def valuedSet? (property value : List Char) : Option CodeSet :=
  let value := normalizeName value
  match normalizeName property with
  | "gc" | "generalcategory" => categorySet? value
  | "sc" | "script" => scriptSet? value
  | "scx" | "scriptextensions" => scriptExtensionSet? value
  | "age" => (canonical? ageNames value).bind age?
  | "gcb" | "graphemeclusterbreak" => classSet? graphemeBreakTable value
  | "wb" | "wordbreak" => classSet? wordBreakTable value
  | "sb" | "sentencebreak" => classSet? sentenceBreakTable value
  | _ => none

/-- The characters that are in a set when it is negated: those outside it.  If it has the characters on both
sides of the surrogates and no range across them, the gap between these ranges counts as the two
characters. -/
def negation (s : CodeSet) : CodeSet :=
  let holds := s.containsCode
  if holds CodeSet.beforeSurrogates && holds CodeSet.afterSurrogates &&
      !holds (CodeSet.beforeSurrogates + 1) then
    s.complement.union (.ofRanges [(CodeSet.beforeSurrogates, CodeSet.afterSurrogates)])
  else s.complement

def asciiSet? : String → Option CodeSet
  | "alnum" => some (.ofRanges [(0x30, 0x39), (0x41, 0x5A), (0x61, 0x7A)])
  | "alpha" => some (.ofRanges [(0x41, 0x5A), (0x61, 0x7A)])
  | "ascii" => some (.ofRanges [(0, 0x7F)])
  | "blank" => some (.ofRanges [(0x09, 0x09), (0x20, 0x20)])
  | "cntrl" => some (.ofRanges [(0, 0x1F), (0x7F, 0x7F)])
  | "digit" => some (.ofRanges [(0x30, 0x39)])
  | "graph" => some (.ofRanges [(0x21, 0x7E)])
  | "lower" => some (.ofRanges [(0x61, 0x7A)])
  | "print" => some (.ofRanges [(0x20, 0x7E)])
  | "punct" => some (.ofRanges [(0x21, 0x2F), (0x3A, 0x40), (0x5B, 0x60), (0x7B, 0x7E)])
  | "space" => some (.ofRanges [(0x09, 0x0D), (0x20, 0x20)])
  | "upper" => some (.ofRanges [(0x41, 0x5A)])
  | "word" => some asciiWordSet
  | "xdigit" => some (.ofRanges [(0x30, 0x39), (0x41, 0x46), (0x61, 0x66)])
  | _ => none

end Awk.Regex
