import Awk.Regex.Pattern

/-!
# Separators

The variables that separate fields and records hold texts, and a text of one character means something
else than a longer one, which is a pattern.
-/

namespace Awk

open Regex (Pattern PatternCache RegexError Span)

inductive FieldSep where
  /-- Runs of blanks, tabs and line ends. -/
  | blanks
  | char (c : Char)
  /-- Nothing: every character is a field. -/
  | chars
  | pattern (p : Pattern)

inductive RecordSep where
  | char (c : Char)
  | paragraph
  | pattern (p : Pattern)

namespace FieldSep

def ofText (cache : PatternCache) (text : String) : Except RegexError FieldSep × PatternCache :=
  match text.toList with
  | [] => (.ok chars, cache)
  | [c] => (.ok (if c = ' ' then blanks else char c), cache)
  | _ =>
    let (p, cache) := cache.get text
    (p.map pattern, cache)

def isBlank (c : Char) : Bool := c == ' ' || c == '\t' || c == '\n'

/-- The pieces of a text between the matches that are not empty.  `place` is where `text` starts. -/
def between : List Span → Nat → List Char → List (List Char)
  | [], _, text => [text]
  | s :: rest, place, text =>
    if s.isEmpty then between rest place text
    else
      let before := s.start - place
      text.take before :: between rest s.stop (text.drop (before + s.length))

def splitLine (sep : FieldSep) (text : List Char) : List (List Char) :=
  if text.isEmpty then []
  else match sep with
    | blanks => (text.splitOnP isBlank).filter (!·.isEmpty)
    | char c => text.splitOn c
    | chars => text.map ([·])
    | pattern p => between (p.findAll text) 0 text

/-- The fields of a text.  Where records are paragraphs the end of a line always ends a field. -/
def split (sep : FieldSep) (text : List Char) (paragraph : Bool) : List (List Char) :=
  match sep, paragraph with
  | blanks, _ | _, false => sep.splitLine text
  | _, true => (text.splitOn '\n').flatMap sep.splitLine

def splitText (sep : FieldSep) (text : String) (paragraph : Bool) : Array String :=
  ((sep.split text.toList paragraph).map String.ofList).toArray

end FieldSep

namespace RecordSep

def ofText (cache : PatternCache) (text : String) : Except RegexError RecordSep × PatternCache :=
  match text.toList with
  | [] => (.ok paragraph, cache)
  | [c] => (.ok (char c), cache)
  | _ =>
    let (p, cache) := cache.get text
    (p.map pattern, cache)

def isParagraph : RecordSep → Bool
  | paragraph => true
  | _ => false

end RecordSep

end Awk
