import Awk.Number.Binary
import Awk.Regex.Search

/-!
# Parts of texts

Characters of a text are counted from one.
-/

namespace Awk.Text

open Regex (Span)

/-! ## Positions -/

/-- The characters from one index on and before another; none if an index is outside of the text. -/
def slice? (text : List Char) (first behind : Nat) : Option (List Char) :=
  if first ≤ behind ∧ behind ≤ text.length then some ((text.take behind).drop first) else none

/-- The index of a position, none for a position before the first. -/
def index? (position : Float) : Option Nat :=
  match Number.toNat64 position with
  | 0 => none
  | i + 1 => some i

/-- The characters at positions from one number on and before another, each brought to the nearest position
of the text. -/
def cut (text : List Char) (first behind : Float) : Option (List Char) :=
  let last := Float.ofNat text.length + 1
  let first := if first < 1 then 1 else first
  let behind := if last < behind then last else behind
  if first < behind then do slice? text (← index? first) (← index? behind) else some []

/-- The characters at positions from `start` on and before `start` and `length` together, both rounded; none
if that leads outside of the text. -/
def substr (text : List Char) (start : Float) (length : Option Float) : Option (List Char) :=
  let first := Number.rounded start
  let behind := match length with
    | some n => first + Number.rounded n
    | none => Float.ofNat text.length + 1
  if first.isNaN || behind.isNaN then some [] else cut text first behind

/-- The position where a text first stands in another, counted from `position`; zero if it does not. -/
def indexFrom (needle : List Char) (position : Nat) : List Char → Nat
  | [] => if needle.isEmpty then position else 0
  | c :: rest => if needle.isPrefixOf (c :: rest) then position else indexFrom needle (position + 1) rest

/-- The position where a text first stands in another; zero if it does not. -/
def indexOf (text needle : List Char) : Nat := indexFrom needle 1 text

/-! ## Substitution -/

/-- A replacement for a match: `&` stands for the matched text, and a backslash takes the meaning from
`&` and from another backslash. -/
def expandReplacement (matched : List Char) : List Char → List Char
  | '\\' :: '&' :: rest => '&' :: expandReplacement matched rest
  | '\\' :: '\\' :: rest => '\\' :: expandReplacement matched rest
  | '&' :: rest => matched ++ expandReplacement matched rest
  | c :: rest => c :: expandReplacement matched rest
  | [] => []

/-- A text with the given matches replaced; `place` is where the text starts. -/
def replaceSpans (replacement : List Char) : List Span → (place : Nat) → List Char → List Char
  | [], _, text => text
  | s :: rest, place, text =>
    let after := text.drop (s.start - place)
    text.take (s.start - place) ++ expandReplacement (after.take s.length) replacement ++
      replaceSpans replacement rest s.stop (after.drop s.length)

end Awk.Text
