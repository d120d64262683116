/-!
# Special variables

The variables that the language itself gives a meaning.  They have a fixed order, and are numbered in
it from one.
-/

namespace Awk

inductive Special where
  | argc | convfmt | filename | fnr | fs | nf | nr | ofmt | ofs | ors | rlength | rs | rstart | rt
  | subsep
deriving DecidableEq, Repr

namespace Special

def all : List Special :=
  [argc, convfmt, filename, fnr, fs, nf, nr, ofmt, ofs, ors, rlength, rs, rstart, rt, subsep]

def name : Special → String
  | argc => "ARGC"
  | convfmt => "CONVFMT"
  | filename => "FILENAME"
  | fnr => "FNR"
  | fs => "FS"
  | nf => "NF"
  | nr => "NR"
  | ofmt => "OFMT"
  | ofs => "OFS"
  | ors => "ORS"
  | rlength => "RLENGTH"
  | rs => "RS"
  | rstart => "RSTART"
  | rt => "RT"
  | subsep => "SUBSEP"

def ofName? (s : String) : Option Special := all.find? (·.name == s)

def index (v : Special) : Nat := all.idxOf v + 1

end Special

end Awk
