import Awk.Number.Read
import Awk.Text.Escape
import Awk.Text.Letter
import Awk.Token

/-!
# Reading tokens

A program text is read from left to right.  Before every token blanks, continued lines and comments are
skipped.  Each reader looks at the first character of a token and at the characters behind it, and tells
the token and how many of the latter belong to it, so that every token is at least one character long
and the reading ends.
-/

namespace Awk

/-- Why a text has no tokens, and the place of the token that fails. -/
inductive LexError where
  | unexpectedChar (char : Char) (line col : Nat)
  | unterminatedString (line col : Nat)
  | unterminatedRegex (line col : Nat)
  | invalidNumber (line col : Nat)
deriving DecidableEq, Repr

def placeText (line col : Nat) : String :=
  "line " ++ Number.natText line ++ ", col " ++ Number.natText col

def LexError.message : LexError → String
  | unexpectedChar c line col =>
    "unexpected character '" ++ c.toString ++ "' at " ++ placeText line col
  | unterminatedString line col => "unterminated string at " ++ placeText line col
  | unterminatedRegex line col => "unterminated regex at " ++ placeText line col
  | invalidNumber line col => "invalid number at " ++ placeText line col

namespace Lexer

/-- Why a token fails. -/
inductive Fault where
  | unexpectedChar
  | unterminatedString
  | unterminatedRegex
  | invalidNumber
deriving DecidableEq, Repr

def Fault.at (f : Fault) (c : Char) (p : Position) : LexError :=
  match f with
  | unexpectedChar => .unexpectedChar c p.line p.col
  | unterminatedString => .unterminatedString p.line p.col
  | unterminatedRegex => .unterminatedRegex p.line p.col
  | invalidNumber => .invalidNumber p.line p.col

/-! ## Between tokens -/

/-- The number of blanks at the start of a text, with continued lines and comments; `comment` tells
that a comment is open.  A comment ends before the end of its line. -/
def blanks : (comment : Bool) → List Char → Nat
  | _, [] => 0
  | _, '\n' :: _ => 0
  | true, _ :: rest => blanks true rest + 1
  | false, '#' :: rest => blanks true rest + 1
  | false, '\\' :: '\n' :: rest => blanks false rest + 2
  | false, '\\' :: '\r' :: '\n' :: rest => blanks false rest + 3
  | false, '\\' :: '\r' :: rest => blanks false rest + 2
  | false, c :: rest => if c = ' ' ∨ c = '\t' ∨ c = '\r' then blanks false rest + 1 else 0

/-! ## Numbers and names -/

export Text (hexDigit? hexValue)

def inNumeral (c : Char) : Bool :=
  c.isDigit || c == '.' || c == 'e' || c == 'E' || c == '+' || c == '-'

/-- A number.  Behind `0x` stand hexadecimal digits, at least one, and the number is below `2 ^ 63`. -/
def scanNumber (c : Char) (rest : List Char) : Except Fault (Token.Kind × Nat) :=
  match c, rest with
  | '0', 'x' :: rest | '0', 'X' :: rest =>
    let digits := rest.takeWhile (hexDigit? · |>.isSome)
    if digits.isEmpty || Number.twoPow 63 ≤ hexValue digits then .error .invalidNumber
    else .ok (.number (Float.ofNat (hexValue digits)), digits.length + 1)
  | _, _ =>
    let window := rest.takeWhile inNumeral
    match Number.Numeral.scan (c :: window) with
    | some (n, tail) => .ok (.number n.value, window.length - tail.length)
    | none => .error .invalidNumber

/-- The token of a word: a word of the language, a builtin function, or a name, which is a function's
if an opening parenthesis follows. -/
def wordKind (word : String) (next : Option Char) : Token.Kind :=
  match Mark.ofWord? word with
  | some m => .mark m
  | none =>
    match Builtin.ofName? word with
    | some f => .builtin f
    | none => if next = some '(' then .funcName word else .name word

def scanName (c : Char) (rest : List Char) : Token.Kind × Nat :=
  let tail := rest.takeWhile Text.continuesName
  (wordKind (String.ofList (c :: tail)) (rest.drop tail.length).head?, tail.length)

/-! ## Strings and regexes -/

/-- The character that a letter of a string stands for behind a backslash. -/
def escapeLetter? : Char → Option Char
  | 'n' => some '\n'
  | 't' => some '\t'
  | 'r' => some '\r'
  | '\\' => some '\\'
  | '"' => some '"'
  | '/' => some '/'
  | 'a' => some '\x07'
  | 'b' => some '\x08'
  | 'f' => some '\x0c'
  | 'v' => some '\x0b'
  | _ => none

/-- The code that at most `n` octal digits more make of `code`, and how many digits these are. -/
def octalCode : (n code : Nat) → List Char → Nat × Nat
  | n + 1, code, c :: rest =>
    match Text.octalDigit? c with
    | some d => (octalCode n (code * 8 + d) rest).map id (· + 1)
    | none => (code, 0)
  | _, code, _ => (code, 0)

/-- The text of a string up to its closing quote, with escapes replaced, and the characters used so
far.  A backslash before the end of a line joins the lines; one before a character without a meaning
stands for itself.  Octal digits whose code no character has stand for the replacement character. -/
def scanString (used : Nat) (out : List Char) : List Char → Option (List Char × Nat)
  | [] => none
  | '\n' :: _ => none
  | '"' :: _ => some (out.reverse, used + 1)
  | '\\' :: rest =>
    match rest with
    | [] => none
    | '\n' :: rest => scanString (used + 2) out rest
    | c :: rest =>
      match escapeLetter? c with
      | some e => scanString (used + 2) (e :: out) rest
      | none =>
        match Text.octalDigit? c with
        | some d =>
          let (code, more) := octalCode 2 d rest
          scanString (used + 2 + more) ((Text.charOf? code).getD '\ufffd' :: out) (rest.drop more)
        | none => scanString (used + 2) (c :: '\\' :: out) rest
  | c :: rest => scanString (used + 1) (c :: out) rest
termination_by s => s.length
decreasing_by all_goals simp only [List.length_cons, List.length_drop]; omega

/-- The text of a regex up to its closing slash, and the characters used so far; `bracket` tells that a
bracket expression is open.  Inside one a slash is an ordinary character, and a closing bracket is one
right behind the opening bracket or its `^`. -/
def scanRegex (bracket : Bool) (used : Nat) (out : List Char) : List Char → Option (List Char × Nat)
  | [] => none
  | '\n' :: _ => none
  | '\\' :: rest =>
    match rest with
    | [] => none
    | '\n' :: _ => none
    | '/' :: rest => scanRegex bracket (used + 2) ('/' :: out) rest
    | c :: rest => scanRegex bracket (used + 2) (c :: '\\' :: out) rest
  | '[' :: rest =>
    if bracket then scanRegex true (used + 1) ('[' :: out) rest
    else
      match rest with
      | '^' :: ']' :: rest => scanRegex true (used + 3) (']' :: '^' :: '[' :: out) rest
      | '^' :: rest => scanRegex true (used + 2) ('^' :: '[' :: out) rest
      | ']' :: rest => scanRegex true (used + 2) (']' :: '[' :: out) rest
      | rest => scanRegex true (used + 1) ('[' :: out) rest
  | ']' :: rest => scanRegex false (used + 1) (']' :: out) rest
  | '/' :: rest =>
    if bracket then scanRegex true (used + 1) ('/' :: out) rest
    else some (out.reverse, used + 1)
  | c :: rest => scanRegex bracket (used + 1) (c :: out) rest

/-! ## Signs -/

def scanSign (c : Char) (rest : List Char) : Option (Mark × Nat) :=
  match c, rest with
  | '\n', _ => some (.newline, 0)
  | '\x7b', _ => some (.lBrace, 0)
  | '\x7d', _ => some (.rBrace, 0)
  | '(', _ => some (.lParen, 0)
  | ')', _ => some (.rParen, 0)
  | '[', _ => some (.lBracket, 0)
  | ']', _ => some (.rBracket, 0)
  | ',', _ => some (.comma, 0)
  | ';', _ => some (.semicolon, 0)
  | '?', _ => some (.question, 0)
  | ':', _ => some (.colon, 0)
  | '$', _ => some (.dollar, 0)
  | '~', _ => some (.match, 0)
  | '+', '+' :: _ => some (.incr, 1)
  | '+', '=' :: _ => some (.addAssign, 1)
  | '+', _ => some (.plus, 0)
  | '-', '-' :: _ => some (.decr, 1)
  | '-', '=' :: _ => some (.subAssign, 1)
  | '-', _ => some (.minus, 0)
  | '*', '*' :: '=' :: _ => some (.powAssign, 2)
  | '*', '*' :: _ => some (.caret, 1)
  | '*', '=' :: _ => some (.mulAssign, 1)
  | '*', _ => some (.star, 0)
  | '/', '=' :: _ => some (.divAssign, 1)
  | '/', _ => some (.slash, 0)
  | '%', '=' :: _ => some (.modAssign, 1)
  | '%', _ => some (.percent, 0)
  | '^', '=' :: _ => some (.powAssign, 1)
  | '^', _ => some (.caret, 0)
  | '=', '=' :: _ => some (.equals, 1)
  | '=', _ => some (.assign, 0)
  | '!', '=' :: _ => some (.notEquals, 1)
  | '!', '~' :: _ => some (.notMatch, 1)
  | '!', _ => some (.not, 0)
  | '<', '=' :: _ => some (.lessOrEqual, 1)
  | '<', _ => some (.less, 0)
  | '>', '=' :: _ => some (.greaterOrEqual, 1)
  | '>', '>' :: _ => some (.append, 1)
  | '>', _ => some (.greater, 0)
  | '&', '&' :: _ => some (.and, 1)
  | '|', '|' :: _ => some (.or, 1)
  | '|', _ => some (.pipe, 0)
  | _, _ => none

/-! ## Tokens -/

/-- The token that starts with `c`, and how many characters behind `c` belong to it.  A slash opens a
regex where no operand stands before it. -/
def scanToken (regexAllowed : Bool) (c : Char) (rest : List Char) :
    Except Fault (Token.Kind × Nat) :=
  if c.isDigit || (c == '.' && rest.head?.any Char.isDigit) then scanNumber c rest
  else if Text.startsName c then .ok (scanName c rest)
  else if c = '"' then
    match scanString 0 [] rest with
    | some (text, used) => .ok (.str (String.ofList text), used)
    | none => .error .unterminatedString
  else if c = '/' ∧ regexAllowed then
    match scanRegex false 0 [] rest with
    | some (text, used) => .ok (.regex (String.ofList text), used)
    | none => .error .unterminatedRegex
  else
    match scanSign c rest with
    | some (m, used) => .ok (.mark m, used)
    | none => .error .unexpectedChar

/-- The tokens of the text from a place on; the tokens before it are `tokens`, the last one first.  The
readers of single tokens count characters, and the places of all tokens are made from the counts here. -/
def lexFrom (pos : Position) (tokens : List Token) (s : List Char) : Except LexError (List Token) :=
  let skipped := blanks false s
  let pos := pos.after (s.take skipped)
  match _h : s.drop skipped with
  | [] => .ok (⟨.mark .eof, Extent.between pos pos⟩ :: tokens).reverse
  | c :: rest =>
    match scanToken (tokens.head?.all fun t => !t.kind.endsOperand) c rest with
    | .error f => .error (f.at c pos)
    | .ok (kind, used) =>
      let stop := pos.after (c :: rest.take used)
      lexFrom stop (⟨kind, Extent.between pos stop⟩ :: tokens) (rest.drop used)
termination_by s.length
decreasing_by
  have hlen := congrArg List.length _h
  simp only [List.length_drop, List.length_cons] at hlen ⊢
  omega

end Lexer

/-- All tokens of a program text, the last of them its end. -/
def Token.lex (source : String) : Except LexError (List Token) :=
  Lexer.lexFrom .start [] source.toList

end Awk
