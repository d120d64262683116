import Awk.Text.Unicode.Derived
import Awk.Text.Unicode.Recent

/-!
# Upper and lower case

The case mappings of the Unicode standard that do not depend on a language.  A letter may have several
letters as its upper case (`ß` has `SS`).  The one mapping that looks at the neighbours is that of the
capital sigma, whose lower case at the end of a word differs from that inside.
-/

namespace Awk.Text.Unicode

/-- The characters that patterns know in one case only. -/
def foldless : CodeSet := recent.union (.single 'ı')

def upperWordMap : List (Nat × List Char) :=
  ((CodeSet.readNumbers [] 0 upperWords.toList).splitBy fun _ n => !n.1.contains '=').flatMap fun
    | source :: first :: rest => (List.range (CodeSet.times source.1)).map fun k =>
      (source.2 + k, ((first.2 + k) :: rest.map (·.2)).map Char.ofNat)
    | _ => []

/-- The partner of a code point under a table, itself if it has none. -/
def partner (runs : Array CaseRun) (code : Nat) : Nat :=
  match runs.find? (·.covers code) with
  | some r => r.apply code
  | none => code

def lowerChar (c : Char) : List Char :=
  if c.toNat < 128 then [c.toLower]
  else if c = 'İ' then ['i', '\u0307']
  else [Char.ofNat (partner lowerMap c.toNat)]

def upperChar (c : Char) : List Char :=
  if c.toNat < 128 then [c.toUpper]
  else match upperWordMap.lookup c.toNat with
    | some word => word
    | none => [Char.ofNat (partner upperMap c.toNat)]

/-- The characters with a case.  The latest edition took it from one letter. -/
def cased : CodeSet :=
  (((property? "Cased").getD CodeSet.empty).diff (.single 'ʕ')).union recentCased

/-- The characters that a search for a character with a case passes over. -/
def caseIgnorable : CodeSet :=
  ((property? "Case_Ignorable").getD CodeSet.empty).union recentCaseIgnorable

/-- Whether the first character that is not passed over has a case. -/
def meetsCased (cs : List Char) : Bool :=
  match cs.dropWhile caseIgnorable.contains with
  | c :: _ => cased.contains c
  | [] => false

/-- The lower case of a text, given the characters before it in reverse. -/
def lowerFrom (before : List Char) : List Char → List Char
  | [] => []
  | c :: rest =>
    let here :=
      if c = 'Σ' then (if meetsCased before && !meetsCased rest then ['ς'] else ['σ'])
      else lowerChar c
    here ++ lowerFrom (c :: before) rest

def toLower (s : String) : String := String.ofList (lowerFrom [] s.toList)

def toUpper (s : String) : String := String.ofList (s.toList.flatMap upperChar)

/-! ## Sets that ignore case -/

/-- A set together with the partners of its characters in either direction. -/
def foldStep (s : CodeSet) : CodeSet :=
  let images := (s.diff foldless).ranges.toList.flatMap fun range =>
    foldMap.toList.flatMap fun r => r.image range ++ r.inverse.image range
  s.union ((CodeSet.ofRanges images).diff foldless)

/-- A set together with all characters that differ from its members in case only.  These are at most four, so that
three steps reach all of them. -/
def foldClosure (s : CodeSet) : CodeSet := foldStep (foldStep (foldStep s))

end Awk.Text.Unicode
