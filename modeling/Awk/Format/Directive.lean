import Awk.Number.Read

/-!
# Directives of a format

A format is text with directives in it: `%`, flags, a width, a precision after a point, and a letter
that says what kind of value is written.  A width or precision of `*` is taken from the arguments.
`Piece.parse` cuts a format into characters that stand for themselves and directives.
-/

namespace Awk.Format

structure Flags where
  left : Bool := false
  /-- A plus sign before numbers that are not negative. -/
  plus : Bool := false
  /-- A blank before numbers that are not negative. -/
  space : Bool := false
  alternate : Bool := false
  zero : Bool := false
deriving DecidableEq, Repr

/-- A width or precision. -/
inductive Amount where
  | given (n : Nat)
  | taken
deriving DecidableEq, Repr

/-- A directive.  Its letter is missing if the format ends before it. -/
structure Directive where
  flags : Flags
  width : Amount
  precision : Option Amount
  verb : Option Char
  source : List Char
deriving DecidableEq, Repr

inductive Piece where
  | literal (c : Char)
  | directive (d : Directive)
deriving DecidableEq, Repr

def isFlag (c : Char) : Bool := c == '-' || c == '+' || c == ' ' || c == '#' || c == '0'

def Flags.ofChars (cs : List Char) : Flags :=
  { left := cs.contains '-'
    plus := cs.contains '+'
    space := cs.contains ' '
    alternate := cs.contains '#'
    zero := cs.contains '0' }

/-- A width or precision at the start of a text, and the rest.  No digits mean zero. -/
def takeAmount : List Char → Amount × List Char
  | '*' :: rest => (.taken, rest)
  | s => (.given (Number.digitsValue (s.takeWhile Char.isDigit)), s.dropWhile Char.isDigit)

def takePrecision : List Char → Option Amount × List Char
  | '.' :: rest => let (a, rest) := takeAmount rest; (some a, rest)
  | s => (none, s)

/-- The first character of a text, if it has one, and the rest. -/
def takeVerb : List Char → Option Char × List Char
  | [] => (none, [])
  | c :: rest => (some c, rest)

/-- The directive at the start of a text from which `%` has been taken, and the rest. -/
def Directive.scan (s : List Char) : Directive × List Char :=
  let s₁ := s.dropWhile isFlag
  let (width, s₂) := takeAmount s₁
  let (precision, s₃) := takePrecision s₂
  let (verb, rest) := takeVerb s₃
  ({ flags := Flags.ofChars (s.takeWhile isFlag), width, precision, verb
     source := '%' :: s.take (s.length - rest.length) }, rest)

theorem length_dropWhile_le {α : Type} (p : α → Bool) (l : List α) :
    (l.dropWhile p).length ≤ l.length := by
  induction l with
  | nil => simp
  | cons a l ih =>
    rw [List.dropWhile_cons]
    split
    · simp only [List.length_cons]; omega
    · exact Nat.le_refl _

theorem length_takeAmount_le (s : List Char) : (takeAmount s).2.length ≤ s.length := by
  unfold takeAmount
  split
  · simp
  · exact length_dropWhile_le _ _

theorem length_takePrecision_le (s : List Char) : (takePrecision s).2.length ≤ s.length := by
  unfold takePrecision
  split
  · rename_i rest
    have := length_takeAmount_le rest
    simp only [List.length_cons]
    omega
  · exact Nat.le_refl _

theorem length_takeVerb_le (s : List Char) : (takeVerb s).2.length ≤ s.length := by
  cases s <;> simp [takeVerb]

theorem Directive.length_scan_le (s : List Char) : (Directive.scan s).2.length ≤ s.length := by
  have h₁ := length_dropWhile_le isFlag s
  have h₂ := length_takeAmount_le (s.dropWhile isFlag)
  have h₃ := length_takePrecision_le (takeAmount (s.dropWhile isFlag)).2
  have h₄ := length_takeVerb_le (takePrecision (takeAmount (s.dropWhile isFlag)).2).2
  simp only [Directive.scan]
  omega

def Piece.parse : List Char → List Piece
  | [] => []
  | '%' :: '%' :: rest => .literal '%' :: Piece.parse rest
  | '%' :: rest => .directive (Directive.scan rest).1 :: Piece.parse (Directive.scan rest).2
  | c :: rest => .literal c :: Piece.parse rest
termination_by s => s.length
decreasing_by
  all_goals simp only [List.length_cons]
  · omega
  · have := Directive.length_scan_le rest
    omega
  · omega

def isVerb (c : Char) : Bool := "dioxXueEfFgGcs".toList.contains c

end Awk.Format
