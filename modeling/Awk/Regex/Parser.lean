import Awk.Regex.Automaton
import Awk.Regex.NamedSet
import Awk.Regex.Storage
import Awk.Text.Escape
import Awk.Text.Letter
import Awk.Text.Unicode.Case

/-!
# Reading patterns

A pattern is read from left to right with a stack of open groups; within brackets, with a stack of
open brackets.  Flags such as `(?i)` hold up to the end of the group they stand in.
-/

namespace Awk.Regex

open Awk.Text (CodeSet charOf? hexDigit? hexValue)

/-- Why a pattern cannot be used. -/
inductive RegexError where
  | malformed
  | tooLarge
deriving DecidableEq, Repr

abbrev Read (α : Type) := Except RegexError α

/-- A part of a pattern that does not follow the rules. -/
def malformed {α : Type} : Read α := .error .malformed

/-- The value of an option, a fault of the pattern if it has none. -/
def orMalformed {α : Type} : Option α → Read α
  | some a => .ok a
  | none => malformed

/-- The flags in force at a place of a pattern. -/
structure Modes where
  ignoreCase : Bool := false
  multiLine : Bool := false
  dotAll : Bool := false
  swapGreed : Bool := false
  unicode : Bool := true
  crlf : Bool := false
  ignoreSpace : Bool := false
deriving DecidableEq, Repr

/-- Leaves out white space and comments; `comment` tells that a comment is open, which ends with its
line. -/
def skipBlanks : (comment : Bool) → List Char → List Char
  | _, [] => []
  | true, c :: rest => skipBlanks (c != '\n') rest
  | false, c :: rest =>
    if spaceSet.contains c then skipBlanks false rest
    else if c = '#' then skipBlanks true rest
    else c :: rest

/-- Leaves out white space and comments, if the flag for that is set. -/
def skipSpace (ignore : Bool) (s : List Char) : List Char := if ignore then skipBlanks false s else s

/-- The text after its first character, and after space that is left out. -/
def Modes.next (m : Modes) (s : List Char) : List Char := skipSpace m.ignoreSpace s.tail

/-! ## Escapes -/

/-- What a backslash and the characters after it stand for. -/
inductive Escape where
  /-- A character; `byte` tells that it is given by two hexadecimal digits. -/
  | char (c : Char) (byte : Bool)
  | set (s : CodeSet)
  | look (l : Look)

namespace Escape

def isMeta (c : Char) : Bool := "\\.+*?()|[]\x7b\x7d^$#&-~".toList.contains c

/-- Characters that a backslash may stand before without changing their meaning. -/
def isEscapable (c : Char) : Bool :=
  isMeta c || (decide (c.toNat < 128) && !c.isAlphanum && c != '<' && c != '>')

/-- The character whose code hexadecimal digits write. -/
def charOfHex (ds : List Char) : Read Char := orMalformed (charOf? (hexValue ds))

def readDigits (m : Modes) : Nat → List Char → List Char → Read (List Char × List Char)
  | 0, s, ds => .ok (ds.reverse, s)
  | _ + 1, [], _ => malformed
  | n + 1, c :: s, ds =>
    if (hexDigit? c).isSome then readDigits m n (m.next (c :: s)) (c :: ds) else malformed

/-- Reads characters up to a closing brace.  Space between them is left out if the flag is set. -/
def readBraced (m : Modes) : Nat → List Char → List Char → Read (List Char × List Char)
  | 0, _, _ => malformed
  | _ + 1, [], _ => malformed
  | _ + 1, '\x7d' :: s, cs => .ok (cs.reverse, '\x7d' :: s)
  | fuel + 1, c :: s, cs => readBraced m fuel (m.next (c :: s)) (c :: cs)

/-- A character given by hexadecimal digits; `s` starts with the letter after the backslash. -/
def readHex (m : Modes) (kind : Char) (s : List Char) : Read (Escape × List Char) := do
  let s := m.next s
  match s with
  | [] => malformed
  | '\x7b' :: _ =>
    let (ds, s) ← readBraced m (s.length + 1) (m.next s) []
    if ds.isEmpty || !ds.all (fun d => (hexDigit? d).isSome) then malformed
    else
      let c ← charOfHex ds
      pure (char c false, m.next s)
  | _ =>
    let count := if kind = 'x' then 2 else if kind = 'u' then 4 else 8
    let (ds, s) ← readDigits m count s []
    let c ← charOfHex ds
    pure (char c (kind == 'x'), s)

/-- A text cut at the first place where another text stands. -/
def cutAt (mark : List Char) : List Char → Option (List Char × List Char)
  | [] => none
  | c :: s =>
    if mark.isPrefixOf (c :: s) then some ([], (c :: s).drop mark.length)
    else (cutAt mark s).map fun (a, b) => (c :: a, b)

/-- The set that a text in braces asks for, and whether it asks for the other characters. -/
def setOfQuery (query : List Char) : Read (CodeSet × Bool) :=
  match cutAt ['!', '='] query with
  | some (p, v) => do pure (← orMalformed (valuedSet? p v), true)
  | none =>
    match (cutAt [':'] query).or (cutAt ['='] query) with
    | some (p, v) => do pure (← orMalformed (valuedSet? p v), false)
    | none => do pure (← orMalformed (namedSet? query), false)

/-- A set together with what differs from its members in case only, if case is ignored, or else the
characters outside it, if it is negated. -/
def foldAndNegate (m : Modes) (negated : Bool) (s : CodeSet) : CodeSet :=
  let s := if m.ignoreCase then Text.Unicode.foldClosure s else s
  if negated then negation s else s

/-- A named set of characters; `s` starts with the letter after the backslash. -/
def readNamed (m : Modes) (negated : Bool) (s : List Char) : Read (Escape × List Char) := do
  if !m.unicode then malformed
  else
    match m.next s with
    | [] => malformed
    | '\x7b' :: s =>
      let (query, s) ← readBraced m (s.length + 2) (m.next ('\x7b' :: s)) []
      let (found, other) ← setOfQuery query
      pure (.set (foldAndNegate m (negated != other) found), s.tail)
    | '\\' :: _ => malformed
    | c :: s =>
      let found ← orMalformed (namedSet? [c])
      pure (.set (foldAndNegate m negated found), m.next (c :: s))

/-- One of the sets with a letter of their own.  Without Unicode they are sets of bytes, and one that
has bytes above ASCII is refused. -/
def letterSet (m : Modes) (letter : Char) : Read CodeSet :=
  let pick := fun (wide narrow : CodeSet) => if m.unicode then wide else narrow
  let set :=
    match letter.toLower with
    | 'd' => pick digitSet (.ofRanges [(0x30, 0x39)])
    | 's' => pick spaceSet (.ofRanges [(0x09, 0x0D), (0x20, 0x20)])
    | _ => pick wordSet asciiWordSet
  if letter.isUpper then
    if m.unicode then .ok (negation set) else malformed
  else .ok set

/-- A word condition with a name in braces, such as the one for the start of a word; `none` if the
brace starts a count. -/
def readWordName (m : Modes) (s : List Char) : Read (Option (Look × List Char)) := do
  let isNameChar := fun c : Char => c.isAlpha || c == '-'
  match m.next s with
  | [] => malformed
  | c :: r =>
    if !isNameChar c then pure none
    else
      let (name, rest) ← readBraced m (r.length + 2) (c :: r) []
      if !name.all isNameChar then malformed
      else match String.ofList name with
        | "start" => pure (some (.wordStart m.unicode, rest.tail))
        | "end" => pure (some (.wordFinish m.unicode, rest.tail))
        | "start-half" => pure (some (.wordStartHalf m.unicode, rest.tail))
        | "end-half" => pure (some (.wordFinishHalf m.unicode, rest.tail))
        | _ => malformed

def read (m : Modes) : List Char → Read (Escape × List Char)
  | [] => malformed
  | c :: rest =>
    if c.isDigit then malformed
    else if c = 'x' ∨ c = 'u' ∨ c = 'U' then readHex m c (c :: rest)
    else if c = 'p' ∨ c = 'P' then readNamed m (c == 'P') (c :: rest)
    else if "dswDSW".toList.contains c then do pure (.set (← letterSet m c), rest)
    else if isEscapable c then .ok (char c false, rest)
    else match c with
      | 'a' => .ok (char '\x07' false, rest)
      | 'f' => .ok (char '\x0c' false, rest)
      | 't' => .ok (char '\t' false, rest)
      | 'n' => .ok (char '\n' false, rest)
      | 'r' => .ok (char '\r' false, rest)
      | 'v' => .ok (char '\x0b' false, rest)
      | 'A' => .ok (look .start, rest)
      | 'z' => .ok (look .finish, rest)
      | 'b' => do
        match rest with
        | '\x7b' :: _ =>
          match ← readWordName m rest with
          | some (l, rest) => pure (look l, rest)
          | none => pure (look (.wordEdge m.unicode), rest)
        | _ => pure (look (.wordEdge m.unicode), rest)
      | 'B' => .ok (look (.notWordEdge m.unicode), rest)
      | '<' => .ok (look (.wordStart m.unicode), rest)
      | '>' => .ok (look (.wordFinish m.unicode), rest)
      | _ => malformed

end Escape

/-! ## Sets in brackets -/

/-- What has been read of a bracket since its start or its last operator: the ranges, the number of
items and how deep they are nested. -/
structure Items where
  ranges : List (Nat × Nat) := []
  count : Nat := 0
  depth : Nat := 0

namespace Items

def add (i : Items) (s : CodeSet) (depth : Nat) : Items :=
  ⟨s.ranges.toList ++ i.ranges, i.count + 1, max i.depth depth⟩

def addRange (i : Items) (lo hi : Char) : Items :=
  ⟨(lo.toNat, hi.toNat) :: i.ranges, i.count + 1, i.depth⟩

def set (i : Items) : CodeSet := .ofRanges i.ranges

/-- How deep the items are nested, the union of several counting as one more. -/
def height (i : Items) : Nat := if i.count ≤ 1 then i.depth else i.depth + 1

end Items

/-- The operators between parts of a bracket. -/
inductive SetOp where
  | inter
  | diff
  | symmDiff
deriving DecidableEq, Repr

/-- An open bracket: what stood before it, whether it is negated, and the left side of an operator. -/
structure OpenBracket where
  before : Items
  negated : Bool
  left : Option (SetOp × CodeSet × Nat) := none

namespace Bracket

def apply : SetOp → CodeSet → CodeSet → CodeSet
  | .inter, a, b => a.inter b
  | .diff, a, b => a.diff b
  | .symmDiff, a, b => a.symmDiff b

/-- The characters that differ from those of a set in case only, added to it if case is ignored. -/
def fold (m : Modes) (s : CodeSet) : CodeSet :=
  if !m.ignoreCase then s
  else if m.unicode then Text.Unicode.foldClosure s
  else
    let shift := fun (lo hi delta : Int) (r : Nat × Nat) =>
      let a := max lo r.1
      let b := min hi r.2
      if a ≤ b then [((a + delta).toNat, (b + delta).toNat)] else []
    .ofRanges (s.ranges.toList.flatMap fun r => r :: (shift 0x41 0x5A 32 r ++ shift 0x61 0x7A (-32) r))

/-- The characters outside a set; without Unicode, the bytes outside it. -/
def negate (m : Modes) (s : CodeSet) : CodeSet :=
  if m.unicode then negation s else s.complement.inter (.ofRanges [(0, 0xFF)])

/-- The part of a bracket up to here: the items, joined to what stands left of an operator. -/
def joined (m : Modes) (o : OpenBracket) (items : Items) : CodeSet × Nat :=
  match o.left with
  | none => (items.set, items.height)
  | some (op, left, depth) =>
    (apply op (fold m left) (fold m items.set), max depth items.height + 1)

def close (m : Modes) (o : OpenBracket) (items : Items) : CodeSet × Nat :=
  let (s, depth) := joined m o items
  let s := fold m s
  (if o.negated then negate m s else s, depth + 1)

/-- Hyphens at the start of a bracket stand for themselves. -/
def takeHyphens (m : Modes) : Nat → List Char → Items → Items × List Char
  | 0, s, items => (items, s)
  | fuel + 1, '-' :: s, items => takeHyphens m fuel (m.next ('-' :: s)) (items.addRange '-' '-')
  | _ + 1, s, items => (items, s)

/-- The start of a bracket: `s` starts with the bracket.  A closing bracket that comes first stands for
itself. -/
def readOpen (m : Modes) (before : Items) (s : List Char) : OpenBracket × Items × List Char :=
  let s := m.next s
  let negated := s.head? == some '^'
  let s := if negated then m.next s else s
  let (items, s) := takeHyphens m (s.length + 1) s {}
  let o : OpenBracket := { before, negated }
  match s with
  | ']' :: _ => if items.count = 0 then (o, items.addRange ']' ']', m.next s) else (o, items, s)
  | _ => (o, items, s)

/-- A named set of ASCII such as `[:alpha:]`, and the rest. -/
def readAscii (m : Modes) (s : List Char) : Option (CodeSet × List Char) :=
  match s with
  | '[' :: ':' :: rest =>
    let negated := rest.head? == some '^'
    let rest := if negated then rest.tail else rest
    let (name, rest) := rest.span (· != ':')
    match rest with
    | ':' :: ']' :: rest =>
      (asciiSet? (String.ofList name)).map fun set =>
        let set := fold m set
        (if negated then negate m set else set, rest)
    | _ => none
  | _ => none

def readItem (m : Modes) : List Char → Read (Escape × List Char)
  | [] => malformed
  | '\\' :: rest => Escape.read m rest
  | c :: rest => .ok (.char c false, rest)

/-- The character at the end of a range.  Without Unicode only bytes can be named. -/
def rangeEnd (m : Modes) : Escape → Read Char
  | .char c byte =>
    if m.unicode || c.toNat < 128 || (byte && c.toNat < 256) then .ok c else malformed
  | _ => malformed

/-- The character after the first one and after white space, if that is left out.  The sign that starts a
comment counts as white space here, once, and the comment itself is seen. -/
def peekSpace (m : Modes) (s : List Char) : Option Char :=
  if m.ignoreSpace then
    match s.tail.dropWhile spaceSet.contains with
    | '#' :: rest => (rest.dropWhile spaceSet.contains).head?
    | rest => rest.head?
  else s.tail.head?

/-- A character, an escape or a range inside a bracket. -/
def readRange (m : Modes) (s : List Char) (items : Items) : Read (Items × List Char) := do
  let (first, s) ← readItem m s
  let s := skipSpace m.ignoreSpace s
  match s with
  | [] => malformed
  | c :: _ =>
    if c != '-' || peekSpace m s == some ']' || peekSpace m s == some '-' then
      match first with
      | .char _ _ =>
        let c ← rangeEnd m first
        pure (items.addRange c c, s)
      | .set set => pure (items.add set 0, s)
      | .look _ => malformed
    else
      let (last, s) ← readItem m (m.next s)
      let lo ← rangeEnd m first
      let hi ← rangeEnd m last
      if lo ≤ hi then pure (items.addRange lo hi, s) else malformed

def readRest (m : Modes) : Nat → List OpenBracket → Items → List Char → Read (CodeSet × Nat × List Char)
  | 0, _, _, _ => malformed
  | fuel + 1, stack, items, s =>
    match stack, skipSpace m.ignoreSpace s with
    | [], _ | _, [] => malformed
    | o :: outer, c :: rest =>
      let operator := fun op =>
        let (left, depth) := joined m o items
        readRest m fuel ({ o with left := some (op, left, depth) } :: outer) {} rest.tail
      if c = '[' then
        match readAscii m (c :: rest) with
        | some (set, rest) => readRest m fuel stack (items.add set 0) rest
        | none =>
          let (inner, innerItems, rest) := readOpen m items (c :: rest)
          readRest m fuel (inner :: o :: outer) innerItems rest
      else if c = ']' then
        let (set, depth) := close m o items
        match outer with
        | [] => .ok (set, depth, rest)
        | _ => readRest m fuel outer (o.before.add set depth) rest
      else if c = '&' ∧ rest.head? = some '&' then operator .inter
      else if c = '-' ∧ rest.head? = some '-' then operator .diff
      else if c = '~' ∧ rest.head? = some '~' then operator .symmDiff
      else do
        let (items, rest) ← readRange m (c :: rest) items
        readRest m fuel stack items rest

/-- A set in brackets, how deep it is nested, and the rest; `s` starts with the bracket.  Without
Unicode a set with bytes above ASCII is refused. -/
def read (m : Modes) (s : List Char) : Read (CodeSet × Nat × List Char) := do
  let (o, items, rest) := readOpen m {} s
  let (set, depth, rest) ← readRest m (s.length + 1) [o] items rest
  if !m.unicode && set.ranges.any (fun r => decide (127 < r.2)) then malformed
  else pure (set, depth, rest)

end Bracket

/-! ## Patterns -/

/-- A part of a pattern: an expression and how deep it is nested, or a change of flags, which nothing
can repeat. -/
structure Part where
  expr : Expr
  depth : Nat := 0
  isFlags : Bool := false

/-- An open group: the parts and branches before it, and the flags in force there. -/
structure OpenGroup where
  parts : List Part
  branches : List Part
  modes : Modes
  /-- The number of the group; none if it only keeps things together. -/
  number : Option Nat := none

/-- How far a pattern has been read.  Parts and branches come last first. -/
structure Progress where
  rest : List Char
  modes : Modes := {}
  parts : List Part := []
  branches : List Part := []
  stack : List OpenGroup := []
  names : List (List Char) := []
  groups : Nat := 0

namespace Progress

def branch (p : Progress) : Part :=
  let depth := p.parts.foldl (fun d q => max d q.depth) 0
  { expr := Expr.concat (p.parts.reverse.map (·.expr))
    depth := if p.parts.length ≤ 1 then depth else depth + 1 }

/-- The branches since the group was opened as one expression. -/
def alternatives (p : Progress) : Part :=
  let all := p.branch :: p.branches
  let depth := all.foldl (fun d q => max d q.depth) 0
  { expr := Expr.alternatives (all.reverse.map (·.expr))
    depth := if all.length ≤ 1 then depth else depth + 1 }

def addPart (p : Progress) (part : Part) (rest : List Char) : Progress :=
  { p with parts := part :: p.parts, rest }

def setFlag (m : Modes) (on : Bool) : Char → Option Modes
  | 'i' => some { m with ignoreCase := on }
  | 'm' => some { m with multiLine := on }
  | 's' => some { m with dotAll := on }
  | 'U' => some { m with swapGreed := on }
  | 'u' => some { m with unicode := on }
  | 'R' => some { m with crlf := on }
  | 'x' => some { m with ignoreSpace := on }
  | _ => none

/-- Reads flags up to a colon or a closing parenthesis.  No flag may come twice, and one must follow a
minus sign. -/
def readFlags : List Char → Modes → List Char → Read (Modes × List Char × List Char)
  | [], _, _ => malformed
  | c :: s, m, seen =>
    if c = ':' ∨ c = ')' then
      if seen.head? = some '-' then malformed else .ok (m, seen, c :: s)
    else if seen.contains c then malformed
    else if c = '-' then readFlags s m (c :: seen)
    else do
      let m ← orMalformed (setFlag m (!seen.contains '-') c)
      readFlags s m (c :: seen)

def isNameChar (first : Bool) (c : Char) : Bool :=
  c == '_' ||
    (if first then Text.isLetter c
     else c == '.' || c == '[' || c == ']' || Text.isLetterOrNumeral c)

/-- The name of a group and the rest after the closing angle bracket. -/
def readName (s : List Char) : Read (List Char × List Char) :=
  let (name, rest) := s.span (· != '>')
  match name, rest with
  | c :: cs, _ :: rest =>
    if isNameChar true c && cs.all (isNameChar false) then .ok (c :: cs, rest) else malformed
  | _, _ => malformed

/-- Opens a group with new flags, which has no number. -/
def openPlain (p : Progress) (modes : Modes) (rest : List Char) : Progress :=
  { p with
    rest, modes, parts := [], branches := []
    stack := { parts := p.parts, branches := p.branches, modes := p.modes } :: p.stack }

def openGroup (p : Progress) (rest : List Char) : Progress :=
  { p with
    rest, parts := [], branches := [], groups := p.groups + 1
    stack :=
      { parts := p.parts, branches := p.branches, modes := p.modes, number := some (p.groups + 1) } ::
        p.stack }

def openNamed (p : Progress) (s : List Char) : Read Progress := do
  let (name, rest) ← readName s
  if p.names.contains name then malformed
  else pure { p.openGroup rest with names := name :: p.names }

/-- The start of a group or a change of flags; `s` follows the parenthesis. -/
def readGroup (p : Progress) (s : List Char) : Read Progress :=
  match skipSpace p.modes.ignoreSpace s with
  | '?' :: '=' :: _ | '?' :: '!' :: _ | '?' :: '<' :: '=' :: _ | '?' :: '<' :: '!' :: _ => malformed
  | '?' :: 'P' :: '<' :: s => p.openNamed s
  | '?' :: '<' :: s => p.openNamed s
  | '?' :: s => do
    let (modes, seen, s) ← readFlags s p.modes []
    match s with
    | ')' :: s =>
      if seen.isEmpty then malformed
      else pure ({ p with modes }.addPart { expr := .empty, isFlags := true } s)
    | _ => pure (p.openPlain modes s.tail)
  | s => .ok (p.openGroup s)

def closeGroup (p : Progress) (s : List Char) : Read Progress :=
  match p.stack with
  | [] => malformed
  | o :: stack =>
    let inner := p.alternatives
    let expr := match o.number with
      | some n => .group n inner.expr
      | none => inner.expr
    .ok { p with
      rest := s, modes := o.modes, stack, branches := o.branches
      parts := { expr, depth := inner.depth + 1 } :: o.parts }

def repeatLast (p : Progress) (least : Nat) (most : Option Nat) (lazy : Bool) (rest : List Char) :
    Read Progress :=
  match p.parts with
  | [] => malformed
  | last :: parts =>
    if last.isFlags then malformed
    else
      let greedy := lazy == p.modes.swapGreed
      .ok { p with
        rest
        parts := { expr := last.expr.repeated least most greedy, depth := last.depth + 1 } :: parts }

/-- Repeats the last part; a question mark after the operator makes the repetition lazy. -/
def readRepeat (p : Progress) (least : Nat) (most : Option Nat) (s : List Char) : Read Progress :=
  match s with
  | '?' :: s => p.repeatLast least most true s
  | s => p.repeatLast least most false s

def countLimit : Nat := 4294967295

/-- A number of repetitions, with white space around it; `none` if there are no digits. -/
def readCount (m : Modes) (s : List Char) : Read (Option Nat × List Char) :=
  let isSpace := fun c => spaceSet.contains c
  let s := s.dropWhile isSpace
  let rec digits : Nat → List Char → List Char → List Char × List Char
    | 0, s, ds => (ds.reverse, s)
    | _ + 1, [], ds => (ds.reverse, [])
    | fuel + 1, c :: s, ds =>
      if c.isDigit then digits fuel (m.next (c :: s)) (c :: ds) else (ds.reverse, c :: s)
  let (ds, s) := digits (s.length + 1) s []
  let s := skipSpace m.ignoreSpace (s.dropWhile isSpace)
  if ds.isEmpty then .ok (none, s)
  else
    let n := ds.foldl (fun n d => n * 10 + (d.toNat - '0'.toNat)) 0
    if n ≤ countLimit then .ok (some n, s) else malformed

/-- The bounds of a counted repetition; `s` starts with the brace, and the rest follows the closing
brace. -/
def readBounds (m : Modes) (s : List Char) : Read (Nat × Option Nat × List Char) := do
  let (least, s) ← readCount m (m.next s)
  match s with
  | ',' :: _ =>
    let s := m.next s
    match s with
    | '\x7d' :: _ => pure (← orMalformed least, none, m.next s)
    | _ =>
      let least ← orMalformed least
      let (most, s) ← readCount m s
      let most ← orMalformed most
      match s with
      | '\x7d' :: _ => if least ≤ most then pure (least, some most, m.next s) else malformed
      | _ => malformed
  | '\x7d' :: _ =>
    let least ← orMalformed least
    pure (least, some least, m.next s)
  | _ => malformed

def literal (m : Modes) (c : Char) (byte : Bool) : Read Expr :=
  if m.unicode then
    .ok (.ofSet (if m.ignoreCase then Text.Unicode.foldClosure (.single c) else .single c))
  else if byte && 127 < c.toNat then malformed
  else if m.ignoreCase && c.isAlpha then
    .ok (.set (.ofRanges [(c.toLower.toNat, c.toLower.toNat), (c.toUpper.toNat, c.toUpper.toNat)]))
  else .ok (.ofSet (.single c))

/-- The expression for a point: every character, or every one but the ends of lines. -/
def dot (m : Modes) : Read Expr :=
  if !m.unicode then malformed
  else if m.dotAll then .ok (.set .full)
  else if m.crlf then .ok (.set (CodeSet.ofRanges [(0x0A, 0x0A), (0x0D, 0x0D)]).complement)
  else .ok (.set (CodeSet.single '\n').complement)

def caret (m : Modes) : Look :=
  if m.multiLine then (if m.crlf then .crlfStart else .lineStart) else .start

def dollar (m : Modes) : Look :=
  if m.multiLine then (if m.crlf then .crlfFinish else .lineFinish) else .finish

/-- Reads one part or operator; `c :: s` is the text from there on. -/
def step (p : Progress) (c : Char) (s : List Char) : Read Progress :=
  let m := p.modes
  match c with
  | '(' => p.readGroup s
  | ')' => p.closeGroup s
  | '|' => .ok { p with rest := s, parts := [], branches := p.branch :: p.branches }
  | '[' => do
    let (set, depth, rest) ← Bracket.read m (c :: s)
    pure (p.addPart { expr := .ofSet set, depth } rest)
  | '?' => p.readRepeat 0 (some 1) s
  | '*' => p.readRepeat 0 none s
  | '+' => p.readRepeat 1 none s
  | '\x7b' => do
    if p.parts.isEmpty then malformed
    else
      let (least, most, rest) ← readBounds m (c :: s)
      p.readRepeat least most rest
  | '\\' => do
    let (e, rest) ← Escape.read m s
    match e with
    | .char c byte => pure (p.addPart { expr := ← literal m c byte } rest)
    | .set set => pure (p.addPart { expr := .ofSet set } rest)
    | .look l => pure (p.addPart { expr := .look l } rest)
  | '.' => do pure (p.addPart { expr := ← dot m } s)
  | '^' => .ok (p.addPart { expr := .look (caret m) } s)
  | '$' => .ok (p.addPart { expr := .look (dollar m) } s)
  | c => do pure (p.addPart { expr := ← literal m c false } s)

def readAll : Nat → Progress → Read Progress
  | 0, _ => malformed
  | fuel + 1, p =>
    match skipSpace p.modes.ignoreSpace p.rest with
    | [] => .ok { p with rest := [] }
    | c :: s => do readAll fuel (← p.step c s)

end Progress

def depthLimit : Nat := 250

def Expr.parse (pattern : String) : Read Expr := do
  let chars := pattern.toList
  let p ← Progress.readAll (chars.length + 1) { rest := chars }
  if !p.stack.isEmpty then malformed
  else
    let part := p.alternatives
    if depthLimit < part.depth then malformed
    else if !part.expr.fits then .error .tooLarge
    else pure part.expr

end Awk.Regex
