import Awk.Text.Escape

/-!
# Assignments among the operands

An operand of the form `name=value` assigns a variable.  Backslashes in the value have the meaning they
have in strings.
-/

namespace Awk.CommandLine

/-- The rule that names of operands obey: a letter or underscore, then letters, digits, underscores, all
of them ASCII. -/
def isPlainName : List Char → Bool
  | [] => false
  | c :: rest => (c.isAlpha || c == '_') && rest.all fun c => c.isAlphanum || c == '_'

/-- The name and the value of an assignment; none if the text is another operand. -/
def splitAssignment (s : String) : Option (String × String) :=
  match s.toList.span (· != '=') with
  | (name, _ :: value) =>
    if isPlainName name then some (String.ofList name, String.ofList value) else none
  | (_, []) => none

/-- The character that a letter stands for behind a backslash. -/
def escapeLetter? : Char → Option Char
  | 'n' => some '\n'
  | 't' => some '\t'
  | 'r' => some '\r'
  | 'a' => some '\x07'
  | 'b' => some '\x08'
  | 'f' => some '\x0c'
  | 'v' => some '\x0b'
  | '\\' => some '\\'
  | '"' => some '"'
  | '/' => some '/'
  | _ => none

/-- The code that at most `n` octal digits more make of `code`, and the text behind them. -/
def takeOctal : (n code : Nat) → List Char → Nat × List Char
  | 0, code, s => (code, s)
  | n + 1, code, s =>
    match s.head?.bind Text.octalDigit? with
    | some d => takeOctal n (code * 8 + d) s.tail
    | none => (code, s)

theorem length_takeOctal_le (n code : Nat) (s : List Char) : (takeOctal n code s).2.length ≤ s.length := by
  fun_induction takeOctal n code s with
  | case1 | case3 => exact Nat.le_refl _
  | case2 n code s d hd ih => exact Nat.le_trans ih (by simp)

/-- Replaces escapes; `out` holds the text before, the last character first.  A backslash before a
character without a meaning, or at the end, stands for itself.  Octal digits whose code no character has
stand for nothing. -/
def unescapeFrom (out : List Char) : List Char → List Char
  | [] => out.reverse
  | '\\' :: rest =>
    match rest with
    | [] => ('\\' :: out).reverse
    | c :: rest =>
      match escapeLetter? c with
      | some e => unescapeFrom (e :: out) rest
      | none =>
        match Text.octalDigit? c with
        | some d =>
          let code := takeOctal 2 d rest
          unescapeFrom ((Text.charOf? code.1).toList ++ out) code.2
        | none => unescapeFrom (c :: '\\' :: out) rest
  | c :: rest => unescapeFrom (c :: out) rest
termination_by s => s.length
decreasing_by
  all_goals simp only [List.length_cons]
  all_goals try omega
  have := length_takeOctal_le 2 d rest
  omega

def unescape (s : String) : String := String.ofList (unescapeFrom [] s.toList)

end Awk.CommandLine
