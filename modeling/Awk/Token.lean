import Awk.Builtin
import Awk.Number.Decimal
import Awk.Text.Quoted

/-!
# Tokens

The words a program text consists of.  A token carries the place where it stands, because every later
message about the program names a line and a column.
-/

namespace Awk

/-- A place in a text: the bytes before it, its line, and its column in characters, both from one. -/
structure Position where
  offset : Nat
  line : Nat
  col : Nat
deriving DecidableEq, Repr

namespace Position

def start : Position := ⟨0, 1, 1⟩

def next (p : Position) (c : Char) : Position :=
  if c = '\n' then ⟨p.offset + c.utf8Size, p.line + 1, 1⟩
  else ⟨p.offset + c.utf8Size, p.line, p.col + 1⟩

def after (p : Position) (cs : List Char) : Position := cs.foldl next p

end Position

/-- The bytes of a text that a token covers, with the line and column of the first. -/
structure Extent where
  start : Nat
  stop : Nat
  line : Nat
  col : Nat
deriving DecidableEq, Repr, Inhabited

def Extent.between (p q : Position) : Extent := ⟨p.offset, q.offset, p.line, p.col⟩

/-- A token that is a fixed word or sign. -/
inductive Mark where
  | begin | final | function | «if» | «else» | «while» | «for» | «do» | «break» | «continue» | next
  | nextFile | exit | «return» | delete | «in» | getline | print | printf
  | newline | lBrace | rBrace | lParen | rParen | lBracket | rBracket | comma | semicolon | question
  | colon | dollar | plus | minus | star | slash | percent | caret | assign | addAssign | subAssign
  | mulAssign | divAssign | modAssign | powAssign | incr | decr | equals | notEquals | less
  | lessOrEqual | greater | greaterOrEqual | append | pipe | and | or | not | «match» | notMatch | eof
deriving DecidableEq, Repr

namespace Mark

def text : Mark → String
  | begin => "BEGIN"
  | final => "END"
  | function => "function"
  | «if» => "if"
  | «else» => "else"
  | «while» => "while"
  | «for» => "for"
  | «do» => "do"
  | «break» => "break"
  | «continue» => "continue"
  | next => "next"
  | nextFile => "nextfile"
  | exit => "exit"
  | «return» => "return"
  | delete => "delete"
  | «in» => "in"
  | getline => "getline"
  | print => "print"
  | printf => "printf"
  | newline => "newline"
  | lBrace => "\x7b"
  | rBrace => "\x7d"
  | lParen => "("
  | rParen => ")"
  | lBracket => "["
  | rBracket => "]"
  | comma => ","
  | semicolon => ";"
  | question => "?"
  | colon => ":"
  | dollar => "$"
  | plus => "+"
  | minus => "-"
  | star => "*"
  | slash => "/"
  | percent => "%"
  | caret => "^"
  | assign => "="
  | addAssign => "+="
  | subAssign => "-="
  | mulAssign => "*="
  | divAssign => "/="
  | modAssign => "%="
  | powAssign => "^="
  | incr => "++"
  | decr => "--"
  | equals => "=="
  | notEquals => "!="
  | less => "<"
  | lessOrEqual => "<="
  | greater => ">"
  | greaterOrEqual => ">="
  | append => ">>"
  | pipe => "|"
  | and => "&&"
  | or => "||"
  | not => "!"
  | «match» => "~"
  | notMatch => "!~"
  | eof => "end of input"

/-- The words of the language; `func` is short for `function`. -/
def ofWord? : String → Option Mark
  | "BEGIN" => some begin
  | "END" => some final
  | "function" | "func" => some function
  | "if" => some «if»
  | "else" => some «else»
  | "while" => some «while»
  | "for" => some «for»
  | "do" => some «do»
  | "break" => some «break»
  | "continue" => some «continue»
  | "next" => some next
  | "nextfile" => some nextFile
  | "exit" => some exit
  | "return" => some «return»
  | "delete" => some delete
  | "in" => some «in»
  | "getline" => some getline
  | "print" => some print
  | "printf" => some printf
  | _ => none

end Mark

namespace Token

inductive Kind where
  | number (value : Float)
  | str (text : String)
  | regex (text : String)
  | name (text : String)
  /-- A name with an opening parenthesis right behind it. -/
  | funcName (text : String)
  | builtin (func : Builtin)
  | mark (mark : Mark)

namespace Kind

def text : Kind → String
  | number x => "number " ++ Number.plainText x
  | str s => "string " ++ Text.quoted s
  | regex s => "regex /" ++ s ++ "/"
  | name s => "name " ++ s
  | funcName s => "function " ++ s
  | builtin f => "builtin " ++ f.name
  | mark m => m.text

def isMark (k : Kind) (m : Mark) : Bool :=
  match k with
  | mark n => n == m
  | _ => false

/-- Whether an operand may end with the token, so that a slash behind it divides and does not open a
regex. -/
def endsOperand : Kind → Bool
  | number _ | str _ | regex _ | name _ => true
  | funcName _ => false
  | builtin f => f == .length
  | mark m => m == .rParen || m == .rBracket || m == .incr || m == .decr

end Kind

end Token

/-- A token and the place where it stands. -/
structure Token where
  kind : Token.Kind
  extent : Extent

end Awk
