import Awk.World.Shell.Process

/-!
# The programs of the shell

The programs that command lines can name.  Each gets its arguments and gives its status.
-/

namespace Awk.Shell

abbrev Program := List String → Job Nat

namespace Program

/-- The system's text for an error without its number. -/
def errorText (e : OsError) : String := (e.message.splitOn " (").headD ""

/-! ## Writing -/

/-- The byte of up to three octal digits, and what follows them. -/
def octal (s : List UInt8) : UInt8 × List UInt8 :=
  let digits := (s.take 3).takeWhile fun b => 48 ≤ b && b ≤ 55
  (digits.foldl (fun n b => n * 8 + (b - 48)) 0, s.drop digits.length)

/-- The byte that a letter behind a backslash stands for. -/
def escape? (b : UInt8) : Option UInt8 :=
  match b.toNat with
  | 97 => some 7
  | 98 => some 8
  | 102 => some 12
  | 110 => some 10
  | 114 => some 13
  | 116 => some 9
  | 118 => some 11
  | 92 => some 92
  | _ => none

/-- Text with its escapes replaced, and whether one of them ends it.  `bound` is its length. -/
def unescape : (bound : Nat) → (before : List UInt8) → List UInt8 → List UInt8 × Bool
  | 0, before, _ | _, before, [] => (before.reverse, false)
  | bound + 1, before, 92 :: b :: rest =>
    if b = 99 then (before.reverse, true)
    else if 48 ≤ b && b ≤ 55 then
      let (byte, rest) := octal (if b = 48 ∧ rest.head?.any fun d => 48 ≤ d && d ≤ 55 then rest else b :: rest)
      unescape bound (byte :: before) rest
    else
      match escape? b with
      | some byte => unescape bound (byte :: before) rest
      | none => unescape bound (92 :: before) (b :: rest)
  | bound + 1, before, b :: rest => unescape bound (b :: before) rest

def echo : Program := fun args => do
  let (args, newline) := match args with
    | "-n" :: rest => (rest, false)
    | _ => (args, true)
  let bytes := (" ".intercalate args).toUTF8.toList
  let (bytes, stop) := unescape (bytes.length + 1) [] bytes
  let bytes := if newline && !stop then bytes ++ [10] else bytes
  if ← Job.write 1 ⟨bytes.toArray⟩ then return 0
  else
    Job.report "echo: echo: I/O error"
    return 1

/-! ## Options -/

/-- The options in an argument behind its hyphen, and the last one if its value is still to come. -/
def cluster (plain valued : String) : List Char → Except Char (List (Char × String) × Option Char)
  | [] => .ok ([], none)
  | c :: rest => do
    if plain.toList.contains c then
      let (found, open?) ← cluster plain valued rest
      return ((c, "") :: found, open?)
    else if valued.toList.contains c then
      if rest.isEmpty then return ([], some c) else return ([(c, String.ofList rest)], none)
    else .error c

/-- The options of one letter with their values, and the other arguments; a letter that is no option, or
one whose value is missing, is an error. -/
def options (plain valued : String) (open? : Option Char) :
    List String → Except Char (List (Char × String) × List String)
  | [] => open?.elim (.ok ([], [])) .error
  | a :: rest =>
    match open? with
    | some c => do
      let (found, others) ← options plain valued none rest
      return ((c, a) :: found, others)
    | none =>
      if a = "--" then .ok ([], rest)
      else
        match a.toList with
        | '-' :: c :: more => do
          let (first, open?) ← cluster plain valued (c :: more)
          let (found, others) ← options plain valued open? rest
          return (first ++ found, others)
        | _ => do
          let (found, others) ← options plain valued none rest
          return (found, a :: others)

def refuse (name : String) (c : Char) (status : Nat) : Job Nat := do
  Job.complain (name ++ ": invalid option -- '" ++ c.toString ++ "'\nTry '" ++ name ++
    " --help' for more information.")
  return status

/-! ## Reading -/

def readFile (name : String) : Job (Except OsError ByteArray) := do
  let opened ← if name = "-" then do pure ((← Job.stream? 0).elim (.error .notFound) .ok)
    else Job.openInput name
  match opened with
  | .error e => return .error e
  | .ok s => return .ok (← Job.readAll s)

/-- The bytes of files one after the other, or those of the input, and the files that cannot be read with
the reasons.  `refused?` gives a reason not to read a file. -/
def readFiles (refused? : String → Job (Option String)) (names : List String) :
    Job (ByteArray × List (String × String)) := do
  (if names.isEmpty then ["-"] else names).foldlM (fun (bytes, failed) name => do
    match ← refused? name with
    | some reason => return (bytes, failed ++ [(name, reason)])
    | none =>
      match ← readFile name with
      | .ok more => return (bytes ++ more, failed)
      | .error e => return (bytes, failed ++ [(name, errorText e)])) (ByteArray.empty, [])

/-- Lines of bytes without their ends, and whether the last one has an end. -/
def lines (bytes : ByteArray) : List (List UInt8) × Bool :=
  let parts := bytes.toList.splitOn 10
  if parts.getLast? = some [] then (parts.dropLast, true) else (parts, false)

/-- A byte that can be seen: control characters and bytes outside ASCII are written with signs. -/
def visible (b : UInt8) : List UInt8 :=
  let low (b : UInt8) : List UInt8 :=
    if b < 32 then [94, b + 64] else if b = 127 then [94, 63] else [b]
  if b = 9 then [9] else if b < 128 then low b else [77, 45] ++ low (b - 128)

/-- How files are written. -/
structure CatStyle where
  number : Bool
  numberFull : Bool
  squeeze : Bool
  ends : Bool
  tabs : Bool
  visible : Bool

def CatStyle.ofOptions (has : Char → Bool) : CatStyle where
  number := has 'n' && !has 'b'
  numberFull := has 'b'
  squeeze := has 's'
  ends := has 'E' || has 'A' || has 'e'
  tabs := has 'T' || has 'A' || has 't'
  visible := has 'v' || has 'A' || has 'e' || has 't'

def CatStyle.isPlain (c : CatStyle) : Bool :=
  !(c.number || c.numberFull || c.squeeze || c.ends || c.tabs || c.visible)

/-- Leaves out empty lines behind empty lines. -/
def squeezed : List (List UInt8) → List (List UInt8)
  | [] :: [] :: rest => squeezed ([] :: rest)
  | line :: rest => line :: squeezed rest
  | [] => []
termination_by ls => ls.length

def numbered (n : Nat) (line : List UInt8) : List UInt8 :=
  let digits := (Number.natText n).toUTF8.toList
  List.replicate (6 - digits.length) 32 ++ digits ++ [9] ++ line

def CatStyle.apply (c : CatStyle) (bytes : ByteArray) : List UInt8 :=
  let (all, ended) := lines bytes
  let all := if c.squeeze then squeezed all else all
  let count := all.length
  let (out, _, _) := all.foldl (fun ((out, n, i) : List (List UInt8) × Nat × Nat) line =>
    let counts := c.number || (c.numberFull && !line.isEmpty)
    let shown := line.flatMap fun b =>
      if c.tabs && b == 9 then [94, 73] else if c.visible then Program.visible b else [b]
    let text := if counts then numbered n shown else shown
    let close : List UInt8 := if i + 1 < count || ended then (if c.ends then [36, 10] else [10]) else []
    ((text ++ close) :: out, if counts then n + 1 else n, i + 1)) ([], 1, 0)
  out.reverse.flatten

/-- The reason not to copy a file: it holds something and is the one that is written. -/
def ownOutput? (name : String) : Job (Option String) := do
  let p ← get
  match p.world.locate name, p.streams.lookup 1 with
  | .ok (.file path), some (.sink (.file own)) =>
    return if path = own && !(p.world.contents path).isEmpty then some "input file is output file" else none
  | _, _ => return none

/-- Writes files one after the other, or the input. -/
def cat : Program := fun args => do
  match options "nbsETuvAet" "" none args with
  | .error c => refuse "cat" c 1
  | .ok (found, names) =>
    let style := CatStyle.ofOptions fun c => found.any fun o => o.1 == c
    let (bytes, failed) ← readFiles ownOutput? names
    let bytes := if style.isPlain then bytes else ⟨(style.apply bytes).toArray⟩
    let written ← Job.write 1 bytes
    failed.forM fun (name, reason) => Job.complain ("cat: " ++ name ++ ": " ++ reason)
    if !written then Job.complain "cat: write error: No space left on device"
    return if written && failed.isEmpty then 0 else 1

/-! ## Sorting -/

def isBlank (b : UInt8) : Bool := b == 32 || b == 9

/-- How two texts are compared. -/
structure SortStyle where
  numeric : Bool := false
  reverse : Bool := false
  /-- Lower case counts as upper case. -/
  fold : Bool := false
  /-- Only letters, digits and blanks count. -/
  dictionary : Bool := false
  printable : Bool := false
  /-- Blanks at the start do not count, and at the end. -/
  skipStart : Bool := false
  skipEnd : Bool := false
deriving DecidableEq, Repr

/-- A part of a line that is compared: from a field and a character in it, to a field and a character in
it, where no character stands for the end of the field. -/
structure SortKey where
  field : Nat := 0
  char : Nat := 0
  endField : Option Nat := none
  endChar : Nat := 0
  style : SortStyle := {}
deriving DecidableEq, Repr

structure SortOrder where
  separator : Option UInt8 := none
  keys : List SortKey := []
  reverse : Bool := false
  unique : Bool := false
  stable : Bool := false

def SortStyle.add (s : SortStyle) (atEnd : Bool) : Char → Option SortStyle
  | 'n' => some { s with numeric := true }
  | 'r' => some { s with reverse := true }
  | 'f' => some { s with fold := true }
  | 'd' => some { s with dictionary := true }
  | 'i' => some { s with printable := true }
  | 'b' => some (if atEnd then { s with skipEnd := true } else { s with skipStart := true })
  | _ => none

def SortStyle.addAll (s : SortStyle) (atEnd : Bool) (letters : List Char) : Option SortStyle :=
  letters.foldlM (fun s c => s.add atEnd c) s

def takeNumber (s : List Char) : Nat × List Char :=
  ((String.ofList (s.takeWhile Char.isDigit)).toNat?.getD 0, s.dropWhile Char.isDigit)

def takePlace (s : List Char) : Nat × Nat × List Char :=
  let (field, rest) := takeNumber s
  match rest with
  | '.' :: rest =>
    let (char, rest) := takeNumber rest
    (field, char, rest)
  | _ => (field, 0, rest)

def SortKey.ofText? (s : String) : Option SortKey := do
  let (field, char, rest) := takePlace s.toList
  let style ← SortStyle.addAll {} false (rest.takeWhile (· != ','))
  if field = 0 then none
  match rest.dropWhile (· != ',') with
  | [] => return { field := field - 1, char := char - 1, style }
  | _ :: rest =>
    let (endField, endChar, letters) := takePlace rest
    let style ← style.addAll true letters
    if endField = 0 then none
    return { field := field - 1, char := char - 1, endField := some (endField - 1), endChar, style }

def dropFields (separator : Option UInt8) : Nat → List UInt8 → List UInt8
  | 0, s => s
  | n + 1, s =>
    match separator with
    | some b => dropFields separator n ((s.dropWhile (· != b)).drop 1)
    | none => dropFields separator n ((s.dropWhile isBlank).dropWhile fun b => !isBlank b)

/-- The number of bytes up to the end of a field; that is before the separator behind it. -/
def fieldEnd (separator : Option UInt8) (fields : Nat) (s : List UInt8) : Nat :=
  let before := dropFields separator (fields - 1) s
  let last := match separator with
    | some b => before.dropWhile (· != b)
    | none => (before.dropWhile isBlank).dropWhile fun b => !isBlank b
  s.length - last.length

def SortKey.part (k : SortKey) (separator : Option UInt8) (line : List UInt8) : List UInt8 :=
  let start := dropFields separator k.field line
  let start := if k.style.skipStart then start.dropWhile isBlank else start
  let start := line.length - (start.drop k.char).length
  let stop := match k.endField with
    | none => line.length
    | some f =>
      if k.endChar = 0 then fieldEnd separator (f + 1) line
      else
        let last := dropFields separator f line
        let last := if k.style.skipEnd then last.dropWhile isBlank else last
        line.length - (last.drop k.endChar).length
  (line.take stop).drop start

/-- The number a text starts with: its sign, the digits before the point and those behind it. -/
def lineNumber (line : List UInt8) : Bool × List UInt8 × List UInt8 :=
  let isDigit (b : UInt8) : Bool := 48 ≤ b && b ≤ 57
  let s := line.dropWhile isBlank
  let (negative, s) := match s with
    | 45 :: rest => (true, rest)
    | _ => (false, s)
  let whole := s.takeWhile isDigit
  let fraction := match s.dropWhile isDigit with
    | 46 :: rest => rest.takeWhile isDigit
    | _ => []
  (negative, whole, fraction)

/-- The number of a text, as a whole multiple of `10 ^ -places`. -/
def scaled (places : Nat) (line : List UInt8) : Int :=
  let (negative, whole, fraction) := lineNumber line
  let digits := whole ++ (fraction ++ List.replicate (places - fraction.length) 48)
  let n : Nat := digits.foldl (fun n b => n * 10 + (b.toNat - 48)) 0
  if negative then -(n : Int) else n

def SortStyle.counted (s : SortStyle) (text : List UInt8) : List UInt8 :=
  let isLower (b : UInt8) : Bool := 97 ≤ b && b ≤ 122
  let isWord (b : UInt8) : Bool := isLower b || (65 ≤ b && b ≤ 90) || (48 ≤ b && b ≤ 57)
  let text := if s.dictionary then text.filter fun b => isWord b || isBlank b
    else if s.printable then text.filter fun b => 32 ≤ b && b ≤ 126
    else text
  if s.fold then text.map fun b => if isLower b then b - 32 else b else text

def SortStyle.compare (s : SortStyle) (a b : List UInt8) : Ordering :=
  let order := if s.numeric then
      let places := max (lineNumber a).2.2.length (lineNumber b).2.2.length
      Ord.compare (scaled places a) (scaled places b)
    else Ord.compare (s.counted a) (s.counted b)
  if s.reverse then order.swap else order

def SortOrder.byKeys (o : SortOrder) (a b : List UInt8) : Ordering :=
  o.keys.foldl (fun order k =>
    order.then (k.style.compare (k.part o.separator a) (k.part o.separator b))) .eq

/-- The order of two lines: by the keys, then by all bytes. -/
def SortOrder.compare (o : SortOrder) (a b : List UInt8) : Ordering :=
  let all := if o.reverse then (Ord.compare a b).swap else Ord.compare a b
  if o.keys.isEmpty then all
  else if o.unique || o.stable then o.byKeys a b
  else (o.byKeys a b).then all

/-- Leaves out lines that are equal to the one before. -/
def SortOrder.distinct (o : SortOrder) : List (List UInt8) → List (List UInt8)
  | a :: b :: rest =>
    if o.compare a b == .eq then o.distinct (a :: rest) else a :: o.distinct (b :: rest)
  | short => short
termination_by ls => ls.length

/-- The order that options ask for.  A key without a style of its own has that of all. -/
def SortOrder.ofOptions? (found : List (Char × String)) : Option SortOrder := do
  let letters := (found.map Prod.fst).filter fun c => "nrfdib".toList.contains c
  let style ← SortStyle.addAll {} false letters
  let style := { style with skipEnd := style.skipStart }
  let keys ← (found.filter fun o => o.1 == 'k').mapM fun o => SortKey.ofText? o.2
  let keys := keys.map fun k => if k.style = {} then { k with style } else k
  let has (c : Char) : Bool := found.any fun o => o.1 == c
  return {
    separator := (found.find? fun o => o.1 == 't').bind fun o => o.2.toUTF8.toList.head?
    keys := if keys.isEmpty ∧ style ≠ {} ∧ style ≠ { reverse := true } then [{ style }] else keys
    reverse := style.reverse
    unique := has 'u'
    stable := has 's' }

def sort : Program := fun args => do
  match options "nrfdibus" "kt" none args with
  | .error c => refuse "sort" c 2
  | .ok (found, names) =>
    match SortOrder.ofOptions? found with
    | none =>
      Job.complain "sort: invalid field specification"
      return 2
    | some order =>
      let (bytes, failed) ← readFiles (fun _ => return none) names
      match failed with
      | (name, reason) :: _ =>
        Job.complain ("sort: cannot read: " ++ name ++ ": " ++ reason)
        return 2
      | [] =>
        let sorted := (lines bytes).1.mergeSort fun a b => order.compare a b != .gt
        let sorted := if order.unique then order.distinct sorted else sorted
        if ← Job.write 1 ⟨(sorted.flatMap fun l => l ++ [10]).toArray⟩ then return 0
        else
          Job.complain "sort: write failed: 'standard output': No space left on device"
          return 2

/-! ## Leaving -/

/-- The number of an argument: digits, with a sign and blanks around it. -/
def numberArg? (s : String) : Option Nat := do
  let blank (c : Char) : Bool := [' ', '\t', '\n', '\r', '\x0b', '\x0c'].contains c
  let s := ((s.toList.dropWhile blank).reverse.dropWhile blank).reverse
  let digits := if s.head? = some '+' then s.tail else s
  if digits.isEmpty || !digits.all Char.isDigit then none
  else
    let n := digits.foldl (fun n d => n * 10 + (d.toNat - 48)) 0
    if n < Number.twoPow 31 then some n else none

def refuseNumber (name arg : String) : Job Nat := do
  Job.report (name ++ ": Illegal number: " ++ arg)
  Job.finish 2
  return 2

def exit : Program := fun args => do
  match args with
  | [] =>
    let status := (← get).status
    Job.finish status
    return status
  | a :: _ =>
    match numberArg? a with
    | some n =>
      Job.finish (n % 256)
      return n % 256
    | none => refuseNumber "exit" a

def leaveLoops (name : String) (leaving : Nat → Leaving) : Program := fun args => do
  let loops := (← get).loops
  match args with
  | [] =>
    if 0 < loops then Job.leave (leaving 1)
    return 0
  | a :: _ =>
    match numberArg? a with
    | some 0 | none => refuseNumber name a
    | some n =>
      if 0 < loops then Job.leave (leaving (min n loops))
      return 0

def leaveFunction : Program := fun args => do
  match args with
  | [] =>
    Job.leave .function
    return (← get).status
  | a :: _ =>
    match numberArg? a with
    | some n =>
      Job.leave .function
      return n
    | none => refuseNumber "return" a

/-- The signals that do not end a process, by their numbers and names. -/
def harmless : List String :=
  ["0", "17", "18", "23", "28", "EXIT", "CHLD", "CONT", "URG", "WINCH"]

/-- Sends a signal, by which the shell ends if it is sent to it. -/
def kill : Program := fun args => do
  let (signal, targets) := match args with
    | "-s" :: name :: rest => (name, rest)
    | a :: rest => if a.startsWith "-" then (String.ofList a.toList.tail, rest) else ("TERM", args)
    | [] => ("TERM", [])
  if targets.contains (Number.natText processNumber) then
    if !harmless.contains (signal.map Char.toUpper) then Job.leave (.ended .killed)
    return 0
  else
    Job.report "kill: No such process\n"
    return 1

/-- The programs that end the shell if they cannot run, and for which assignments last. -/
def special : List String := [":", "break", "continue", "exit", "return"]

def find? : String → Option Program
  | "echo" => some echo
  | "cat" => some cat
  | "sort" => some sort
  | "kill" => some kill
  | "exit" => some exit
  | "return" => some leaveFunction
  | "break" => some (leaveLoops "break" .loops)
  | "continue" => some (leaveLoops "continue" .turn)
  | "true" | ":" | "wait" => some fun _ => return 0
  | "false" => some fun _ => return 1
  | _ => none

end Program

end Awk.Shell
