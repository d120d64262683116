import Awk.World.Shell.Command

/-!
# The reader of command lines

Commands are read from the characters of a command line.  Texts that stand behind a line, up to a line of
their own, are kept apart and have numbers.
-/

namespace Awk.Shell

/-- What is wrong with a command line. -/
inductive Mistake where
  | unexpected (token : String) (expected : Option String)
  | openQuote
  | openBackquote
  | missing (close : String)
  | badName
  | tooLong
deriving DecidableEq, Repr

def Mistake.message : Mistake → String
  | unexpected token none => token ++ " unexpected"
  | unexpected token (some e) => token ++ " unexpected (expecting \"" ++ e ++ "\")"
  | openQuote => "Unterminated quoted string"
  | openBackquote => "EOF in backquote substitution"
  | missing close => "Missing '" ++ close ++ "'"
  | badName => "Bad for loop variable"
  | tooLong => "too long"

/-! ## Characters -/

def endsWord (c : Char) : Bool := " \t\n;&|()<>".toList.contains c

/-- Whether a character has a meaning inside a word. -/
def isMark (c : Char) : Bool := "'\"\\$\x60".toList.contains c

def startsName (c : Char) : Bool := c.isAlpha || c == '_'

def inName (c : Char) : Bool := c.isAlphanum || c == '_'

/-- The text behind blanks, joined lines and a remark. -/
def skipBlanks : List Char → List Char
  | ' ' :: s | '\t' :: s | '\\' :: '\n' :: s => skipBlanks s
  | '#' :: s => s.dropWhile (· != '\n')
  | s => s

def operator? : List Char → Option String
  | '&' :: '&' :: _ => some "&&"
  | '|' :: '|' :: _ => some "||"
  | ';' :: ';' :: _ => some ";;"
  | '<' :: '<' :: '-' :: _ => some "<<-"
  | '<' :: '<' :: _ => some "<<"
  | '<' :: '&' :: _ => some "<&"
  | '<' :: '>' :: _ => some "<>"
  | '>' :: '>' :: _ => some ">>"
  | '>' :: '&' :: _ => some ">&"
  | '>' :: '|' :: _ => some ">|"
  | c :: _ => if c != ' ' && c != '\t' && endsWord c then some c.toString else none
  | [] => none

/-- The word at the start of a text if nothing in it is quoted or put in; empty otherwise. -/
def plainWord (s : List Char) : String :=
  let w := s.takeWhile fun c => !endsWord c && !isMark c
  if (s.drop w.length).head?.any isMark then "" else String.ofList w

def closers : List String := ["then", "else", "elif", "fi", "do", "done", "esac", "\x7d"]

/-- The words that have a meaning at the start of a command. -/
def keywords : List String := closers ++ ["if", "while", "until", "for", "case", "in", "!", "\x7b"]

def tokenName (s : List Char) : String :=
  let s := skipBlanks s
  match s, operator? s with
  | [], _ => "end of file"
  | _, some "\n" => "newline"
  | _, some op => if op.toList.any fun c => c == '<' || c == '>' then "redirection" else "\"" ++ op ++ "\""
  | _, none => if keywords.contains (plainWord s) then "\"" ++ plainWord s ++ "\"" else "word"

/-- The name and the text behind it, if a text starts with an assignment. -/
def assignment? (s : List Char) : Option (String × List Char) :=
  let name := s.takeWhile inName
  match s.drop name.length with
  | '=' :: rest => if name.head?.any startsName then some (String.ofList name, rest) else none
  | _ => none

/-- The stream, the operator and the text behind it, if a text starts with a redirection. -/
def redirection? (s : List Char) : Option (Option Nat × String × List Char) :=
  let digits := s.takeWhile Char.isDigit
  let rest := s.drop digits.length
  match rest, operator? rest with
  | c :: _, some op =>
    if c = '<' ∨ c = '>' then some ((String.ofList digits).toNat?, op, rest.drop op.length) else none
  | _, _ => none

/-- The text up to a backquote, without the backslashes that keep characters from having a meaning, and
what follows. -/
def backquoted? (quoted : Bool) : List Char → Option (List Char × List Char)
  | [] => none
  | '\x60' :: rest => some ([], rest)
  | '\\' :: c :: rest =>
    (backquoted? quoted rest).map fun (s, rest) =>
      (if c = '$' ∨ c = '\x60' ∨ c = '\\' ∨ (quoted ∧ c = '"') then c :: s else '\\' :: c :: s, rest)
  | c :: rest => (backquoted? quoted rest).map fun (s, rest) => (c :: s, rest)

/-- The lines of a text with their ends. -/
def lineParts (s : List Char) : List (List Char) :=
  s.foldr (fun c lines =>
    if c = '\n' then ['\n'] :: lines
    else match lines with
      | line :: rest => (c :: line) :: rest
      | [] => [[c]]) []

def untilLine (close : List Char) (dropTabs : Bool) : List (List Char) → List (List Char) × List (List Char)
  | [] => ([], [])
  | line :: rest =>
    let line := if dropTabs then line.dropWhile (· == '\t') else line
    if line = close ∨ line = close ++ ['\n'] then ([], rest)
    else
      let (body, rest) := untilLine close dropTabs rest
      (line :: body, rest)

/-! ## Reading -/

/-- A text behind the line that is still to be read: its number, the line that ends it, whether it is
taken as it stands, and whether tabs at the starts of its lines are left out. -/
structure Pending where
  number : Nat
  close : String
  literal : Bool
  dropTabs : Bool

/-- A reader: the text ahead, the texts behind lines so far, and those still to be read. -/
structure Reader where
  rest : List Char
  documents : Array Word := #[]
  pending : List Pending := []

/-- Something that reads.  A mistake leaves the reader where it was found. -/
abbrev Read := EStateM Mistake Reader

/-- Where a text is read, which tells what ends it and what has a meaning in it. -/
inductive Place where
  | word
  | quotes
  | braces (quoted : Bool)
  | expression
  | document
deriving DecidableEq, Repr

namespace Place

def quoted : Place → Bool
  | word | braces false => false
  | _ => true

/-- Whether the text ends here; inside `depth` brackets an expression does not. -/
def ends (p : Place) (depth : Nat) (s : List Char) : Bool :=
  match p, s with
  | word, c :: _ => endsWord c
  | quotes, c :: _ => c == '"'
  | braces _, c :: _ => c == '\x7d'
  | expression, a :: b :: _ => depth == 0 && a == ')' && b == ')'
  | _, _ => false

/-- The number of characters that end the text. -/
def closing : Place → Nat
  | quotes | braces _ => 1
  | expression => 2
  | _ => 0

/-- What is wrong if the command line ends first. -/
def mistake? : Place → Option Mistake
  | quotes => some .openQuote
  | braces _ => some (.missing "\x7d")
  | expression => some (.missing "))")
  | _ => none

/-- Whether a backslash takes the meaning from a character. -/
def escapes (p : Place) (c : Char) : Bool :=
  c == '$' || c == '\x60' || c == '\\' || (c == '"' && p != .document) || (c == '\x7d' && p == .braces true)

def plain (p : Place) (c : Char) : Bool :=
  !isMark c && c != '\x7d' && c != '(' && c != ')' && !(p == .word && endsWord c)

end Place

namespace Read

def rest : Read (List Char) := return (← get).rest

def goTo (s : List Char) : Read Unit := modify fun r => { r with rest := s }

def blanks : Read Unit := modify fun r => { r with rest := skipBlanks r.rest }

def unexpected (expected : Option String) : Read α := do
  throw (.unexpected (tokenName (← rest)) expected)

/-- Passes over an operator if it comes behind blanks. -/
def operatorHere (op : String) : Read Bool := do
  let s := skipBlanks (← rest)
  let here := operator? s == some op
  goTo (if here then s.drop op.length else s)
  return here

/-- Passes over an unquoted word if it comes behind blanks. -/
def keywordHere (w : String) : Read Bool := do
  let s := skipBlanks (← rest)
  let here := plainWord s == w
  goTo (if here then s.drop w.length else s)
  return here

def operator (op : String) : Read Unit := do
  unless ← operatorHere op do unexpected (some op)

/-- Passes over a word that has to come. -/
def keyword (w : String) : Read Unit := do
  unless ← keywordHere w do unexpected (some w)

/-- What a reader of words gives, if a word comes. -/
def wordBy (word : Read Word) (expected : Option String) : Read Word := do
  blanks
  if (← rest).head?.all endsWord then unexpected expected
  word

def atEnd : Read Bool := do
  let s ← rest
  return s.isEmpty || operator? s == some ")" || operator? s == some ";;" || closers.contains (plainWord s)

/-- The name of a variable after a dollar sign, or a character in its place. -/
def parameter : Read (Option String) := do
  match ← rest with
  | c :: s =>
    if "?$#@*!-".toList.contains c || c.isDigit then
      goTo s
      return some c.toString
    else if startsName c then
      let name := (c :: s).takeWhile inName
      goTo ((c :: s).drop name.length)
      return some (String.ofList name)
    else return none
  | [] => return none

/-- What a text tells to make of a value, and what follows. -/
def change : List Char → Change × List Char
  | ':' :: '-' :: s => (.orElse true, s)
  | '-' :: s => (.orElse false, s)
  | ':' :: '=' :: s => (.orAssign true, s)
  | '=' :: s => (.orAssign false, s)
  | ':' :: '?' :: s => (.orFail true, s)
  | '?' :: s => (.orFail false, s)
  | ':' :: '+' :: s => (.ifSet true, s)
  | '+' :: s => (.ifSet false, s)
  | '#' :: '#' :: s => (.withoutStart true, s)
  | '#' :: s => (.withoutStart false, s)
  | '%' :: '%' :: s => (.withoutEnd true, s)
  | '%' :: s => (.withoutEnd false, s)
  | s => (.unknown, s)

mutual

def parts : (fuel : Nat) → Place → (depth : Nat) → (before : List Part) → Read Word
  | 0, _, _, _ => throw .tooLong
  | fuel + 1, p, depth, before => do
    let s ← rest
    if p.ends depth s then
      goTo (s.drop p.closing)
      return before.reverse
    match s with
    | [] =>
      match p.mistake? with
      | some m => throw m
      | none => return before.reverse
    | '\\' :: '\n' :: s =>
      goTo s
      parts fuel p depth before
    | ['\\'] =>
      goTo []
      parts fuel p depth (Part.addText before "\\" true)
    | '\\' :: c :: s =>
      goTo s
      let text := if p.quoted && !p.escapes c then String.ofList ['\\', c] else c.toString
      parts fuel p depth (Part.addText before text true)
    | '$' :: s =>
      goTo s
      match ← dollar fuel p.quoted with
      | some part => parts fuel p depth (part :: before)
      | none => parts fuel p depth (Part.addText before "$" p.quoted)
    | '\x60' :: s =>
      match backquoted? p.quoted s with
      | none => throw .openBackquote
      | some (body, s) =>
        goTo body
        let c ← list fuel
        unless (← rest).isEmpty do unexpected none
        goTo s
        parts fuel p depth (.output c p.quoted :: before)
    | c :: t =>
      if c = '\'' ∧ ¬p.quoted then
        let text := t.takeWhile (· != '\'')
        if t.length = text.length then throw .openQuote
        goTo (t.drop (text.length + 1))
        parts fuel p depth (Part.addText before (String.ofList text) true)
      else if c = '"' ∧ (¬p.quoted ∨ p = .braces true) then
        goTo t
        let inner ← parts fuel .quotes 0 []
        let inner := if inner.isEmpty then [.text "" true] else inner
        parts fuel p depth (inner.reverse ++ before)
      else
        let text := s.takeWhile p.plain
        if text.isEmpty then
          goTo t
          let depth := if c = '(' then depth + 1 else if c = ')' then depth - 1 else depth
          parts fuel p depth (Part.addText before c.toString p.quoted)
        else
          goTo (s.drop text.length)
          parts fuel p depth (Part.addText before (String.ofList text) p.quoted)

/-- What stands behind a dollar sign; nothing if that stands for itself. -/
def dollar : (fuel : Nat) → (quoted : Bool) → Read (Option Part)
  | 0, _ => throw .tooLong
  | fuel + 1, quoted => do
    match ← rest with
    | '(' :: '(' :: s =>
      goTo s
      return some (.number (← parts fuel .expression 0 []) quoted)
    | '(' :: s =>
      goTo s
      let c ← list fuel
      operator ")"
      return some (.output c quoted)
    | '\x7b' :: s =>
      goTo s
      return some (← braced fuel quoted)
    | _ => return (← parameter).map fun name => .value name .asIs [] quoted

def braced : (fuel : Nat) → (quoted : Bool) → Read Part
  | 0, _ => throw .tooLong
  | fuel + 1, quoted => do
    match ← rest with
    | '#' :: c :: s =>
      if c != '\x7d' then
        goTo (c :: s)
        match ← parameter, ← rest with
        | some name, '\x7d' :: s =>
          goTo s
          return .value name .length [] quoted
        | _, _ => return .value "" .unknown (← parts fuel (.braces quoted) 0 []) quoted
    | _ => pure ()
    match ← parameter with
    | none => return .value "" .unknown (← parts fuel (.braces quoted) 0 []) quoted
    | some name =>
      match ← rest with
      | [] => throw (.missing "\x7d")
      | '\x7d' :: s =>
        goTo s
        return .value name .asIs [] quoted
      | s =>
        let (change, s) := change s
        goTo s
        let place := match change with
          | .withoutStart _ | .withoutEnd _ => Place.braces false
          | _ => .braces quoted
        return .value name change (← parts fuel place 0 []) quoted

/-- The texts that stand behind a line. -/
def documents : (fuel : Nat) → Read Unit
  | 0 => throw .tooLong
  | fuel + 1 => do
    match (← get).pending with
    | [] => return
    | d :: more =>
      modify fun r => { r with pending := more }
      let (body, after) := untilLine d.close.toList d.dropTabs (lineParts (← rest))
      let after := after.flatten
      let body := body.flatten
      let word ← if d.literal then pure [.text (String.ofList body) true]
        else
          goTo body
          parts fuel .document 0 []
      goTo after
      modify fun r => { r with documents := r.documents.setIfInBounds d.number word }
      documents fuel

/-- Passes over line ends, and reads the texts behind them. -/
def newlines : (fuel : Nat) → Read Unit
  | 0 => throw .tooLong
  | fuel + 1 => do
    blanks
    match ← rest with
    | '\n' :: s =>
      goTo s
      documents fuel
      newlines fuel
    | _ => return

def redirection : (fuel : Nat) → Option Nat × String × List Char → Read Redirection
  | 0, _ => throw .tooLong
  | fuel + 1, (stream, op, s) => do
    goTo s
    let stream := stream.getD (if op.startsWith "<" then 0 else 1)
    let w ← wordBy (parts fuel .word 0 []) none
    match op with
    | "<" | "<>" => return .input stream w
    | ">" | ">|" => return .output stream w false
    | ">>" => return .output stream w true
    | "<&" | ">&" => return .copy stream w
    | _ =>
      let (close, literal) := Word.plain w
      modifyGet fun r =>
        let number := r.documents.size
        (.document stream number,
          { r with
            documents := r.documents.push []
            pending := r.pending ++ [⟨number, close, literal, op == "<<-"⟩] })

def redirections : (fuel : Nat) → (before : List Redirection) → Read (List Redirection)
  | 0, _ => throw .tooLong
  | fuel + 1, before => do
    blanks
    match redirection? (← rest) with
    | some found => redirections fuel ((← redirection fuel found) :: before)
    | none => return before.reverse

def simple : (fuel : Nat) → List (String × Word) → List Word → List Redirection → Read Command
  | 0, _, _, _ => throw .tooLong
  | fuel + 1, assignments, words, before => do
    blanks
    let s ← rest
    match redirection? s with
    | some found => simple fuel assignments words ((← redirection fuel found) :: before)
    | none =>
      if s.head?.all endsWord then
        match s.head?, assignments, words, before with
        | some '(', [], [[.text name false]], [] =>
          goTo s.tail
          operator ")"
          newlines fuel
          return .define name (← command fuel)
        | some '(', _, _, _ | _, [], [], [] => unexpected none
        | _, _, _, _ => return .simple assignments.reverse words.reverse before.reverse
      else
        match if words.isEmpty then assignment? s else none with
        | some (name, s) =>
          goTo s
          simple fuel ((name, ← parts fuel .word 0 []) :: assignments) words before
        | none => simple fuel assignments ((← parts fuel .word 0 []) :: words) before

/-- The rest of a choice behind its first word. -/
def choice : (fuel : Nat) → Read Command
  | 0 => throw .tooLong
  | fuel + 1 => do
    let condition ← list fuel
    keyword "then"
    let yes ← list fuel
    if ← keywordHere "elif" then return .choice condition yes (← choice fuel)
    let no ← if ← keywordHere "else" then list fuel else pure .nothing
    keyword "fi"
    return .choice condition yes no

def body : (fuel : Nat) → Read Command
  | 0 => throw .tooLong
  | fuel + 1 => do
    keyword "do"
    let c ← list fuel
    keyword "done"
    return c

def words : (fuel : Nat) → (before : List Word) → Read (List Word)
  | 0, _ => throw .tooLong
  | fuel + 1, before => do
    blanks
    if (← rest).head?.all endsWord then return before.reverse
    let w ← parts fuel .word 0 []
    words fuel (w :: before)

def each : (fuel : Nat) → Read Command
  | 0 => throw .tooLong
  | fuel + 1 => do
    blanks
    let s ← rest
    let name := plainWord s
    if !(name.toList.head?.any startsName && name.toList.all inName) then throw .badName
    goTo (s.drop name.length)
    newlines fuel
    let among ← if ← keywordHere "in" then some <$> words fuel [] else pure none
    unless ← operatorHere ";" do
      if among.isSome && operator? (← rest) != some "\n" then unexpected none
    newlines fuel
    return .each name among (← body fuel)

def patterns : (fuel : Nat) → (before : List Word) → Read (List Word)
  | 0, _ => throw .tooLong
  | fuel + 1, before => do
    let w ← wordBy (parts fuel .word 0 []) (some ")")
    if ← operatorHere "|" then patterns fuel (w :: before)
    else
      operator ")"
      return (w :: before).reverse

def arms : (fuel : Nat) → (before : List (List Word × Command)) → Read (List (List Word × Command))
  | 0, _ => throw .tooLong
  | fuel + 1, before => do
    newlines fuel
    if ← keywordHere "esac" then return before.reverse
    let _ ← operatorHere "("
    let ws ← patterns fuel []
    let c ← list fuel
    unless ← operatorHere ";;" do
      if plainWord (← rest) != "esac" then unexpected (some ";;")
    arms fuel ((ws, c) :: before)

def command : (fuel : Nat) → Read Command
  | 0 => throw .tooLong
  | fuel + 1 => do
    blanks
    let s ← rest
    let w := if operator? s = some "(" then "(" else plainWord s
    let enter : Read Unit := goTo (s.drop w.length)
    let c ← match w with
      | "(" =>
        enter
        let c ← list fuel
        operator ")"
        pure (.subshell c)
      | "\x7b" =>
        enter
        let c ← list fuel
        keyword "\x7d"
        pure c
      | "if" => enter; choice fuel
      | "while" | "until" =>
        enter
        let condition ← list fuel
        pure (.loop (w == "until") condition (← body fuel))
      | "for" => enter; each fuel
      | "case" =>
        enter
        let subject ← wordBy (parts fuel .word 0 []) none
        newlines fuel
        keyword "in"
        pure (.select subject (← arms fuel []))
      | _ => if keywords.contains w ∧ w != "in" then unexpected none else return ← simple fuel [] [] []
    return c.withRedirections (← redirections fuel [])

/-- The stages of a pipeline; the last one comes first in `before`. -/
def stages : (fuel : Nat) → (before : List Command) → Read (List Command)
  | 0, _ => throw .tooLong
  | fuel + 1, before => do
    let c ← command fuel
    if ← operatorHere "|" then
      newlines fuel
      stages fuel (c :: before)
    else return (c :: before).reverse

def pipeline : (fuel : Nat) → Read Command
  | 0 => throw .tooLong
  | fuel + 1 => do
    let turned ← keywordHere "!"
    let c ← match ← stages fuel [] with
      | [c] => pure c
      | cs => pure (.pipeline cs)
    return if turned then .negated c else c

def andOr : (fuel : Nat) → (before : Option (Bool × Command)) → Read Command
  | 0, _ => throw .tooLong
  | fuel + 1, before => do
    newlines fuel
    let c ← pipeline fuel
    let c := match before with
      | none => c
      | some (true, b) => .both b c
      | some (false, b) => .either b c
    if ← operatorHere "&&" then return ← andOr fuel (some (true, c))
    if ← operatorHere "||" then return ← andOr fuel (some (false, c))
    return c

def list : (fuel : Nat) → Read Command
  | 0 => throw .tooLong
  | fuel + 1 => do
    newlines fuel
    if ← atEnd then return .nothing
    let c ← andOr fuel none
    if ← operatorHere "&" then return (Command.background c).before (← list fuel)
    if (← operatorHere ";") || operator? (← rest) == some "\n" then return c.before (← list fuel)
    return c

end

def lineRest : (fuel : Nat) → Read Command
  | 0 => throw .tooLong
  | fuel + 1 => do
    let c ← andOr (fuel + 1) none
    let aside ← operatorHere "&"
    let more ← if aside then pure true else operatorHere ";"
    let c := if aside then .background c else c
    blanks
    match ← rest with
    | [] | '\n' :: _ => return c
    | _ => if more then return c.before (← lineRest fuel) else unexpected none

/-- The commands up to the end of the next line that holds any; none at the end of the text. -/
def line (fuel : Nat) : Read (Option Command) := do
  newlines fuel
  if (← rest).isEmpty then return none
  let c ← lineRest fuel
  match ← rest with
  | '\n' :: s =>
    goTo s
    documents fuel
  | _ => documents fuel
  return some c

end Read

end Awk.Shell
