import Awk.Text.CodeSet

/-!
# The latest edition

Patterns follow edition 16 of the Unicode standard, whose sets are in the tables.  Names, the mappings of
case and quoted text follow edition 17.  Here are the characters that it added, as far as these three
have to do with them.
-/

namespace Awk.Text.Unicode

def recent : CodeSet :=
  CodeSet.ofText
    "DGhaBLlaEyaFHjodlCFmaECraBVBcbdacaBdaBFTipRebCdgEIszCBkcjiBibESbhWnBrfjBEOtydyLbeJCkhBXqvDuEkXWqcRewqqJAmBecvjb
    GAbaGddNeiOqdBzaeaCgafaBdafaKhaCSXsfIWhlBGFbGJh"

def recentLetters : CodeSet :=
  CodeSet.ofText
    "DGhaBLlaEyaCGRqbdacaBdaBKWdzCBkcBzbESbhWnBrBEPhydyLbeJCkhBXqvDuEkBHQkBecvjbDAWhfIWhlBGFbGJh"

def recentNumerals : CodeSet :=
  CodeSet.ofText
    "EEGujBFBvc"

/-- Marks among them that join the character before them. -/
def recentMarks : CodeSet :=
  CodeSet.ofText
    "KDzodlDOLbbESbacccaCZBpadaibga"

def recentCased : CodeSet :=
  CodeSet.ofText
    "CLOgbdacaBdaCXGhydy"

/-- Characters among them that a search for a letter with a case passes over. -/
def recentCaseIgnorable : CodeSet :=
  CodeSet.ofText
    "KDzodlCBKoaBMYmaCbbESbacccaYdaBFCjbBTBcadaibgaka"

end Awk.Text.Unicode
