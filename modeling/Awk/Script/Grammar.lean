import Awk.Script
import Awk.Token.Lexer

/-!
# Reading tokens one by one

The tools of the grammar: a reader takes tokens from a list, and gives a result with the tokens that are
left or an error.  Repetition has a bound on its steps, the number of tokens, which it cannot use up
when every step takes a token.
-/

namespace Awk

/-- A use of a construct that its surroundings or its arguments do not allow. -/
inductive Misuse where
  | builtinAsFunction (func : Builtin)
  | outsideLoop (word : Mark)
  | inBeginOrEnd (word : Mark)
  | returnOutside
  | printfWithoutFormat
  | noPlaceAfter (sign : Mark)
  | emptyParens
  | commaInParens
  | emptyIndex
  | argCount (func : Builtin)
  | splitWithoutArray
  | subWithoutPlace (func : Builtin)
deriving DecidableEq, Repr

def Misuse.text : Misuse → String
  | builtinAsFunction f => "can't use builtin name " ++ Text.quoted f.name ++ " as function name"
  | outsideLoop word => word.text ++ " must be inside a loop body"
  | inBeginOrEnd word => word.text ++ " can't be inside BEGIN or END"
  | returnOutside => "return must be inside a function"
  | printfWithoutFormat => "printf requires a format argument"
  | noPlaceAfter sign => "expected lvalue after " ++ sign.text
  | emptyParens => "empty parentheses"
  | commaInParens => "unexpected comma-separated expression"
  | emptyIndex => "empty array index"
  | argCount f => "wrong number of arguments to " ++ f.name ++ "()"
  | splitWithoutArray => "split() second argument must be an array name"
  | subWithoutPlace f => f.name ++ "() third argument must be assignable"

/-- Why tokens form no program. -/
inductive ParseError where
  | unexpected (found : Token) (wanted : String)
  | invalid (why : Misuse) (extent : Extent)
  /-- The bound on repetition and nesting was used up. -/
  | exhausted

def ParseError.message : ParseError → String
  | unexpected found wanted =>
    "unexpected " ++ found.kind.text ++ " at " ++ placeText found.extent.line found.extent.col ++
      "; expected " ++ wanted
  | invalid why extent => why.text ++ " at " ++ placeText extent.line extent.col
  | exhausted => "program nested too deeply"

abbrev Reader (α : Type) := StateT (List Token) (Except ParseError) α

namespace Reader

def endToken : Token := ⟨.mark .eof, default⟩

def current : Reader Token := fun ts => .ok (ts.headD endToken, ts)

def peek : Reader Token.Kind := do return (← current).kind

def peekMark : Reader (Option Mark) := do
  match ← peek with
  | .mark m => return some m
  | _ => return none

def advance : Reader Token := fun ts => .ok (ts.headD endToken, ts.tail)

def at? (m : Mark) : Reader Bool := do return (← peek).isMark m

def refuse {α : Type} (wanted : String) : Reader α := do throw (.unexpected (← current) wanted)

def misuse {α : Type} (why : Misuse) (extent : Extent) : Reader α := throw (.invalid why extent)

def accept (m : Mark) : Reader Bool := do
  if ← at? m then
    let _ ← advance
    return true
  else return false

def expect (m : Mark) : Reader Unit := do
  unless ← accept m do refuse m.text

/-- Takes the line ends that are next. -/
def skipNewlines : Reader Unit := modify (·.dropWhile (·.kind.isMark .newline))

/-- Takes the line ends and semicolons that are next. -/
def skipTerminators : Reader Unit :=
  modify (·.dropWhile fun t => t.kind.isMark .newline || t.kind.isMark .semicolon)

/-- Whether a statement may end before the next token. -/
def atTerminator : Reader Bool := do
  return match ← peekMark with
  | some .newline | some .semicolon | some .rBrace | some .eof => true
  | _ => false

/-- The end of a repetition, or another step of it. -/
inductive Step (α : Type) where
  | done (a : α)
  | more (a : α)

/-- Repeats a step until it is done, at most as often as the bound says. -/
def repeatSteps {α : Type} (step : α → Reader (Step α)) : (bound : Nat) → α → Reader α
  | 0, _ => throw .exhausted
  | bound + 1, a => do
    match ← step a with
    | .done a => return a
    | .more a => repeatSteps step bound a

/-- Repeats a step that takes tokens until it is done. -/
def loop {α : Type} (step : α → Reader (Step α)) (a : α) : Reader α := fun ts =>
  repeatSteps step (ts.length + 1) a ts

end Reader

end Awk
