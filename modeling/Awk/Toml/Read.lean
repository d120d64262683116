import Awk.Document.Read
import Awk.Toml

/-!
# Reading settings files

Readers take a text from its start and give what they have read with the rest, or nothing if the text does
not follow the notation.  The bounds of readers that call themselves count characters; a text never needs
more.
-/

namespace Awk.Toml

/-! ## Characters -/

def isBlank (c : Char) : Bool := c == ' ' || c == '\t'

def skipBlanks (s : List Char) : List Char := s.dropWhile isBlank

/-- Characters that may stand in comments and strings. -/
def isPlain (c : Char) : Bool := c == '\t' || (32 ≤ c.toNat && c.toNat != 127)

def behindLine? : List Char → Option (List Char)
  | '\n' :: rest => some rest
  | '\r' :: '\n' :: rest => some rest
  | _ => none

def skipComment : List Char → List Char
  | '#' :: rest => rest.dropWhile isPlain
  | s => s

/-- The text behind a line that holds nothing more. -/
def endLine? (s : List Char) : Option (List Char) :=
  match skipComment (skipBlanks s) with
  | [] => some []
  | s => behindLine? s

/-- A text without blanks, line ends and comments at its start. -/
def skipLines : (bound : Nat) → List Char → List Char
  | 0, s => s
  | bound + 1, s =>
    let s := skipComment (skipBlanks s)
    match behindLine? s with
    | some rest => skipLines bound rest
    | none => s

/-- What was read, with something before it. -/
def after {α : Type} (a : α) : List α × List Char → List α × List Char := Prod.map (a :: ·) id

/-! ## Strings -/

def hexNumber? (digits : List Char) : Option Nat :=
  digits.foldlM (fun n c => (Text.hexDigit? c).map (n * 16 + ·)) 0

/-- The character behind a backslash, and the rest. -/
def readEscape : List Char → Option (Char × List Char)
  | 'u' :: a :: b :: c :: d :: rest => do
    return (← Text.charOf? (← hexNumber? [a, b, c, d]), rest)
  | 'U' :: a :: b :: c :: d :: e :: f :: g :: h :: rest => do
    return (← Text.charOf? (← hexNumber? [a, b, c, d, e, f, g, h]), rest)
  | 'b' :: rest => some ('\x08', rest)
  | 't' :: rest => some ('\t', rest)
  | 'n' :: rest => some ('\n', rest)
  | 'f' :: rest => some ('\x0c', rest)
  | 'r' :: rest => some ('\r', rest)
  | '"' :: rest => some ('"', rest)
  | '\\' :: rest => some ('\\', rest)
  | _ => none

/-- A string up to its closing quote; `escapes` tells whether backslashes have a meaning. -/
def readString (quote : Char) (escapes : Bool) : (bound : Nat) → List Char → Option (List Char × List Char)
  | 0, _ | _, [] => none
  | bound + 1, c :: rest =>
    if c = quote then some ([], rest)
    else if escapes ∧ c = '\\' then do
      let (e, rest) ← readEscape rest
      after e <$> readString quote escapes bound rest
    else if isPlain c then after c <$> readString quote escapes bound rest
    else none

/-- The end of a string in triple quotes, with up to two quotes that still belong to it. -/
def longEnd? (quote : Char) (s : List Char) : Option (List Char × List Char) :=
  let quotes := (s.takeWhile (· == quote)).length
  if quotes < 3 then none
  else
    let taken := min quotes 5
    some (List.replicate (taken - 3) quote, s.drop taken)

def skipLineEnds : List Char → List Char
  | '\r' :: '\n' :: rest => skipLineEnds rest
  | c :: rest => if isBlank c || c == '\n' then skipLineEnds rest else c :: rest
  | [] => []

/-- The text behind a line end that a backslash takes away, with all blanks and line ends after it. -/
def joinedLine? (s : List Char) : Option (List Char) := (behindLine? (skipBlanks s)).map skipLineEnds

/-- A string up to its closing triple quotes. -/
def readLong (quote : Char) (escapes : Bool) : (bound : Nat) → List Char → Option (List Char × List Char)
  | 0, _ | _, [] => none
  | bound + 1, c :: rest =>
    match longEnd? quote (c :: rest) with
    | some found => some found
    | none =>
      if escapes ∧ c = '\\' then
        match joinedLine? rest with
        | some rest => readLong quote escapes bound rest
        | none => do
          let (e, rest) ← readEscape rest
          after e <$> readLong quote escapes bound rest
      else
        match behindLine? (c :: rest) with
        | some rest => after '\n' <$> readLong quote escapes bound rest
        | none => if isPlain c then after c <$> readLong quote escapes bound rest else none

/-- A string of one line, whose opening quote was taken. -/
def readShort (quote : Char) (s : List Char) : Option (List Char × List Char) :=
  readString quote (quote == '"') (s.length + 1) s

/-- A string, whose opening quote was taken.  A line end right behind triple quotes does not count. -/
def readAnyString (quote : Char) (s : List Char) : Option (List Char × List Char) :=
  match s with
  | a :: b :: rest =>
    if a = quote ∧ b = quote then
      let rest := (behindLine? rest).getD rest
      readLong quote (quote == '"') (rest.length + 1) rest
    else readShort quote s
  | _ => readShort quote s

/-! ## Keys -/

def isBareKey (c : Char) : Bool := c.isAlphanum || c == '_' || c == '-'

def readSimpleKey : List Char → Option (String × List Char)
  | '"' :: rest => (readShort '"' rest).map fun (s, rest) => (String.ofList s, rest)
  | '\'' :: rest => (readShort '\'' rest).map fun (s, rest) => (String.ofList s, rest)
  | s =>
    match s.span isBareKey with
    | ([], _) => none
    | (key, rest) => some (String.ofList key, rest)

def readParts : (bound : Nat) → List Char → Option (List String × List Char)
  | 0, _ => none
  | bound + 1, s => do
    let (part, rest) ← readSimpleKey (skipBlanks s)
    match skipBlanks rest with
    | '.' :: rest => after part <$> readParts bound rest
    | rest => return ([part], rest)

/-- How many parts a key may have, and how deep values may be nested. -/
def depthLimit : Nat := 80

/-- A key: the path before its last part, and that part. -/
def readKey (s : List Char) : Option ((List String × String) × List Char) := do
  let (parts, rest) ← readParts (s.length + 1) s
  if depthLimit < parts.length then none
  else return ((parts.dropLast, parts.getLast?.getD ""), rest)

/-! ## Numbers -/

/-- More digits, among which single underscores may stand. -/
def moreDigits (isDigit : Char → Bool) : List Char → List Char × List Char
  | '_' :: d :: rest =>
    if isDigit d then after d (moreDigits isDigit rest) else ([], '_' :: d :: rest)
  | d :: rest => if isDigit d then after d (moreDigits isDigit rest) else ([], d :: rest)
  | [] => ([], [])

def readDigits (isDigit : Char → Bool) (s : List Char) : Option (List Char × List Char) :=
  if s.head?.any isDigit then some (moreDigits isDigit s) else none

def readSign : List Char → Bool × List Char
  | '+' :: rest => (false, rest)
  | '-' :: rest => (true, rest)
  | s => (false, s)

/-- The digits of a whole number: a zero alone, or digits that do not start with one. -/
def readWhole : List Char → Option (List Char × List Char)
  | '0' :: rest => some (['0'], rest)
  | s => readDigits Char.isDigit s

def readFraction : List Char → Option (Option (List Char) × List Char)
  | '.' :: rest => (readDigits Char.isDigit rest).map fun (ds, rest) => (some ds, rest)
  | s => some (none, s)

def readExponent : List Char → Option (Option Int × List Char)
  | [] => some (none, [])
  | c :: rest =>
    if c = 'e' ∨ c = 'E' then
      let (negative, rest) := readSign rest
      (readDigits Char.isDigit rest).map fun (ds, rest) =>
        (some (Number.Binary.signed negative (Number.exponentValue ds)), rest)
    else some (none, c :: rest)

def integer? (n : Int) : Option Toml :=
  if Number.int64Min ≤ n ∧ n ≤ Number.int64Max then some (.integer n) else none

def readBased (base : Nat) (s : List Char) : Option (Toml × List Char) := do
  let (ds, rest) ← readDigits (fun c => (Text.hexDigit? c).any (· < base)) s
  let n := ds.foldl (fun n c => n * base + (Text.hexDigit? c).getD 0) 0
  return (← integer? n, rest)

def readDecimal (s : List Char) : Option (Toml × List Char) := do
  let (negative, s) := readSign s
  match s with
  | 'i' :: 'n' :: 'f' :: rest | 'n' :: 'a' :: 'n' :: rest => return (.float, rest)
  | s =>
    let (whole, s) ← readWhole s
    let (fraction, s) ← readFraction s
    let (exponent, s) ← readExponent s
    if fraction.isNone ∧ exponent.isNone then
      return (← integer? (Number.Binary.signed negative (Number.digitsValue whole)), s)
    else
      let places := fraction.getD []
      let x := Number.ofDecimal (Number.digitsValue (whole ++ places)) (exponent.getD 0 - places.length)
      if x.isInf ∧ ¬negative then none else return (.float, s)

def readNumber : List Char → Option (Toml × List Char)
  | '0' :: 'x' :: rest => readBased 16 rest
  | '0' :: 'o' :: rest => readBased 8 rest
  | '0' :: 'b' :: rest => readBased 2 rest
  | s => readDecimal s

/-! ## Dates and times -/

/-- A number with a fixed count of digits between bounds. -/
def readFixed (count lo hi : Nat) (s : List Char) : Option (Nat × List Char) :=
  let ds := s.take count
  if ds.length = count ∧ ds.all Char.isDigit then
    let n := Number.digitsValue ds
    if lo ≤ n ∧ n ≤ hi then some (n, s.drop count) else none
  else none

def behind? (c : Char) : List Char → Option (List Char)
  | d :: rest => if d = c then some rest else none
  | [] => none

def monthDays (year month : Nat) : Nat :=
  if month = 2 then if year % 4 = 0 ∧ (year % 100 ≠ 0 ∨ year % 400 = 0) then 29 else 28
  else if month ∈ [4, 6, 9, 11] then 30
  else 31

def behindDate? (s : List Char) : Option (List Char) := do
  let (year, s) ← readFixed 4 0 9999 s
  let (month, s) ← readFixed 2 1 12 (← behind? '-' s)
  let (_, s) ← readFixed 2 1 (monthDays year month) (← behind? '-' s)
  return s

def behindTime? (s : List Char) : Option (List Char) := do
  let (_, s) ← readFixed 2 0 23 s
  let (_, s) ← readFixed 2 0 59 (← behind? ':' s)
  let (_, s) ← readFixed 2 0 60 (← behind? ':' s)
  match s with
  | '.' :: d :: rest => if d.isDigit then return rest.dropWhile Char.isDigit else none
  | s => return s

/-- The rest behind the distance from universal time. -/
def behindZone? (s : List Char) : Option (List Char) :=
  match s with
  | c :: rest =>
    if c = 'Z' ∨ c = 'z' then some rest
    else if c = '+' ∨ c = '-' then do
      let (_, s) ← readFixed 2 0 23 rest
      let (_, s) ← readFixed 2 0 59 (← behind? ':' s)
      return s
    else none
  | [] => none

/-- The rest behind a time that follows a date, if one does. -/
def behindClock (s : List Char) : List Char :=
  match s with
  | c :: rest =>
    if c = 'T' ∨ c = 't' ∨ c = ' ' then
      match behindTime? rest with
      | some rest => (behindZone? rest).getD rest
      | none => s
    else s
  | [] => s

def readMoment (s : List Char) : Option (Toml × List Char) :=
  let rest? := ((behindDate? s).map behindClock).or (behindTime? s)
  rest?.map fun rest => (.moment (String.ofList (s.take (s.length - rest.length))), rest)

/-! ## Values -/

mutual

def readValue : (bound depth : Nat) → List Char → Option (Toml × List Char)
  | 0, _, _ => none
  | bound + 1, depth, s =>
    match s with
    | '"' :: rest => (readAnyString '"' rest).map fun (s, rest) => (.text (String.ofList s), rest)
    | '\'' :: rest => (readAnyString '\'' rest).map fun (s, rest) => (.text (String.ofList s), rest)
    | 't' :: 'r' :: 'u' :: 'e' :: rest => some (.bool true, rest)
    | 'f' :: 'a' :: 'l' :: 's' :: 'e' :: rest => some (.bool false, rest)
    | '[' :: rest =>
      match depth with
      | 0 => none
      | depth + 1 => (readItems bound depth rest).map fun (items, rest) => (.arr items, rest)
    | '\x7b' :: rest =>
      match depth with
      | 0 => none
      | depth + 1 =>
        match skipBlanks rest with
        | '\x7d' :: rest => some (.inline [], rest)
        | rest => (readEntries bound depth [] rest).map fun (entries, rest) => (.inline entries, rest)
    | s => (readMoment s).or (readNumber s)

/-- Items up to the closing bracket; a comma may stand behind the last one. -/
def readItems : (bound depth : Nat) → List Char → Option (List Toml × List Char)
  | 0, _, _ => none
  | bound + 1, depth, s =>
    match skipLines s.length s with
    | ']' :: rest => some ([], rest)
    | s => do
      let (item, rest) ← readValue bound depth s
      match skipLines rest.length rest with
      | ']' :: rest => return ([item], rest)
      | ',' :: rest => after item <$> readItems bound depth rest
      | _ => none

def readEntries : (bound depth : Nat) → (before : Entries) → List Char → Option (Entries × List Char)
  | 0, _, _, _ => none
  | bound + 1, depth, before, s => do
    let ((path, key), rest) ← readKey s
    let (value, rest) ← readValue bound depth (skipBlanks (← behind? '=' rest))
    let entries ← addKey? key value path before
    match skipBlanks rest with
    | '\x7d' :: rest => return (entries, rest)
    | ',' :: rest => readEntries bound depth entries rest
    | _ => none

end

/-! ## Files -/

def readPair (s : List Char) : Option ((List String × String × Toml) × List Char) := do
  let ((path, key), rest) ← readKey s
  let rest := skipBlanks (← behind? '=' rest)
  let (value, rest) ← readValue (2 * rest.length + 2) depthLimit rest
  return ((path, key, value), rest)

/-- The lines of a file: `header` is the path of the table that keys belong to. -/
def readLines (header : List String) (root : Entries) : (bound : Nat) → List Char → Option Entries
  | 0, _ => none
  | bound + 1, s =>
    match skipLines s.length s with
    | [] => some root
    | '[' :: '[' :: rest => do
      let ((path, key), rest) ← readKey rest
      let rest ← endLine? (← behind? ']' (← behind? ']' rest))
      readLines (path ++ [key]) (← openTables? path key root) bound rest
    | '[' :: rest => do
      let ((path, key), rest) ← readKey rest
      let rest ← endLine? (← behind? ']' rest)
      readLines (path ++ [key]) (← openTable? path key root) bound rest
    | s => do
      let ((path, key, value), rest) ← readPair s
      readLines header (← within? (addKey? key value path) header root) bound (← endLine? rest)

/-- A text without the mark of its byte order. -/
def skipMark : List Char → List Char
  | '\uFEFF' :: rest => rest
  | s => s

/-- The table of a file; none if it does not follow the notation. -/
def parse? (text : String) : Option Entries :=
  let s := skipMark text.toList
  readLines [] [] (s.length + 1) s

end Awk.Toml
