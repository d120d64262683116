import Awk.Record.Reader

/-!
# The world around a program

What a program can reach outside itself: files below a working directory, the standard input and the
standard error of the process, and a clock.  Everything is a value, so that a run is a function of the
world it starts in.
-/

namespace Awk

/-- Why the system refuses something. -/
inductive OsError where
  | notFound
  | notDirectory
  | isDirectory
  | nameTooLong
  | nullInName
  | invalidText
  | nullInCommand
  | commandTooLong
  | noSpace
  | brokenPipe
deriving DecidableEq, Repr

def OsError.message : OsError → String
  | notFound => "No such file or directory (os error 2)"
  | notDirectory => "Not a directory (os error 20)"
  | isDirectory => "Is a directory (os error 21)"
  | nameTooLong => "File name too long (os error 36)"
  | nullInName => "file name contained an unexpected NUL byte"
  | invalidText => "stream did not contain valid UTF-8"
  | nullInCommand => "nul byte found in provided data"
  | commandTooLong => "Argument list too long (os error 7)"
  | noSpace => "No space left on device (os error 28)"
  | brokenPipe => "Broken pipe (os error 32)"

/-- What is done to the world that a host may want to know of. -/
inductive Deed where
  | command (line : String)
  /-- A file was opened for writing, or the attempt was made. -/
  | write (name : String)
deriving DecidableEq, Repr

/-- The world around a program. -/
structure World where
  /-- The files by their paths: relative to the working directory, or from the root. -/
  files : Std.TreeMap String ByteArray := {}
  /-- Directories that exist without a file below them. -/
  directories : List String := []
  /-- What is left of the standard input, in the pieces in which it arrives. -/
  stdin : List (List UInt8) := []
  stderr : ByteArray := ByteArray.empty
  clock : Nat := 0
  /-- The names that were looked for in vain, the last one first. -/
  missed : List String := []
  /-- The directories whose names were asked for, the last one first. -/
  listed : List String := []
  /-- What was done, the last deed first. -/
  deeds : List Deed := []

/-! ## Names of files -/

inductive Device where
  /-- Holds nothing and takes everything. -/
  | null
  | full
  | stdin
deriving DecidableEq, Repr

/-- What a file name refers to. -/
inductive Location where
  | directory
  | file (path : String)
  /-- No file yet; `asDirectory` tells that the name asks for a directory. -/
  | absent (path : String) (asDirectory : Bool)
  | device (d : Device)
deriving DecidableEq, Repr

namespace World

def fixedDirectories : List String := ["", "/", "/dev", "/tmp"]

/-- The names in a path, which stand between its slashes. -/
def parts (path : String) : List String := (path.toList.splitOn '/').map String.ofList

def isUpwards (path : String) : Bool := path.isEmpty || (parts path).all (· == "..")

/-- Whether a path is that of a directory: one that is known to exist, one above the working directory, or
one with a file below it. -/
def isDirectory (w : World) (path : String) : Bool :=
  fixedDirectories.contains path || w.directories.contains path || isUpwards path ||
    w.files.keys.any (·.startsWith (path ++ "/"))

def joinPath (dir name : String) : String :=
  if dir.isEmpty || dir == "/" then dir ++ name else dir ++ "/" ++ name

def parentPath (path : String) : String :=
  if isUpwards path then joinPath path ".."
  else match (path.toList.reverse.dropWhile (· != '/')).drop 1 with
  | [] => if path.startsWith "/" then "/" else ""
  | rest => String.ofList rest.reverse

def pathOf (name : String) : String :=
  (parts name).foldl (fun dir part =>
    if part = "" ∨ part = "." then dir
    else if part = ".." then parentPath dir
    else joinPath dir part) (if name.startsWith "/" then "/" else "")

def device? : String → Option Device
  | "/dev/null" => some .null
  | "/dev/full" => some .full
  | "/dev/stdin" => some .stdin
  | _ => none

def maxNameLength : Nat := 255

def follow (w : World) : (dir : String) → List String → Except OsError Location
  | _, [] => .ok .directory
  | dir, name :: rest =>
    if name = "" ∨ name = "." then w.follow dir rest
    else if name = ".." then w.follow (parentPath dir) rest
    else if maxNameLength < name.utf8ByteSize then .error .nameTooLong
    else
      let path := joinPath dir name
      if w.isDirectory path then w.follow path rest
      else if let some d := device? path then
        if rest.isEmpty then .ok (.device d) else .error .notDirectory
      else if w.files.contains path then
        if rest.isEmpty then .ok (.file path) else .error .notDirectory
      else if rest.all String.isEmpty then .ok (.absent path (!rest.isEmpty))
      else .error .notFound

def locate (w : World) (name : String) : Except OsError Location :=
  if name.toList.contains '\x00' then .error .nullInName
  else if name.isEmpty then .error .notFound
  else if name.startsWith "/" then w.follow "/" (parts name)
  else w.follow "" (parts name)

def miss (w : World) (name : String) : World := { w with missed := name :: w.missed }

def did (w : World) (d : Deed) : World := { w with deeds := d :: w.deeds }

def names (w : World) (dir : String) : List String :=
  let front := if dir.isEmpty || dir == "/" then dir else dir ++ "/"
  let below := (w.files.keys ++ w.directories).filterMap fun path =>
    if path.startsWith front then
      some (String.ofList ((path.toList.drop front.length).takeWhile (· != '/')))
    else none
  (below.filter fun name => name != "" && name != "..").eraseDups.mergeSort

/-- The world after the names in a directory were asked for. -/
def list (w : World) (dir : String) : World :=
  if w.listed.contains dir then w else { w with listed := dir :: w.listed }

/-- The bytes of a file; none if there is no such file. -/
def contents (w : World) (path : String) : ByteArray := w.files.getD path ByteArray.empty

end World

/-! ## Reading -/

/-- Where bytes are read from. -/
inductive Source where
  | pieces (rest : List (List UInt8))
  | stdin
  | file (path : String) (offset : Nat)
  | directory
deriving Repr

namespace Source

def openFile (w : World) (name : String) : Except OsError Source × World :=
  match w.locate name with
  | .error e => (.error e, w.miss name)
  | .ok .directory => (.ok .directory, w)
  | .ok (.file path) => (.ok (.file path 0), w)
  | .ok (.absent _ _) => (.error .notFound, w.miss name)
  | .ok (.device .stdin) => (.ok .stdin, w)
  | .ok (.device _) => (.ok (.pieces []), w)

def pull : World × Source → Except OsError (List UInt8) × World × Source
  | (w, pieces rest) =>
    let (piece, rest) := Supply.pullPiece rest
    (.ok piece, w, pieces rest)
  | (w, stdin) =>
    let (piece, rest) := Supply.pullPiece w.stdin
    (.ok piece, { w with stdin := rest }, stdin)
  | (w, file path offset) =>
    let piece := ((w.contents path).extract offset (offset + Supply.pieceSize)).toList
    (.ok piece, w, file path (offset + piece.length))
  | (w, directory) => (.error .isDirectory, w, directory)

/-- A bound on the pieces that are still to come. -/
def left : World × Source → Nat
  | (_, pieces rest) => Supply.total rest
  | (w, stdin) => Supply.total w.stdin
  | (w, file path offset) => (w.contents path).size - offset
  | (_, directory) => 0

def supply : Supply (World × Source) OsError := ⟨pull, left⟩

end Source

namespace World

def textOf (bytes : ByteArray) : Except OsError String :=
  (String.fromUTF8? bytes).elim (.error .invalidText) .ok

def readStdin (w : World) : Except OsError String × World :=
  (textOf ⟨w.stdin.flatten.toArray⟩, { w with stdin := [] })

def readText (w : World) (name : String) : Except OsError String × World :=
  match Source.openFile w name with
  | (.error e, w) => (.error e, w)
  | (.ok .directory, w) => (.error .isDirectory, w)
  | (.ok (.file path _), w) => (textOf (w.contents path), w)
  | (.ok (.pieces rest), w) => (textOf ⟨rest.flatten.toArray⟩, w)
  | (.ok .stdin, w) => w.readStdin

end World

/-- A source of records with the text that has arrived. -/
structure Input where
  source : Source
  buffer : Buffer := {}

def Input.read (i : Input) (w : World) (sep : RecordSep) :
    Except OsError (Option (String × String)) × World × Input :=
  let (result, buffer, w, source) := i.buffer.read Source.supply sep (w, i.source)
  (result.map (·.map fun (record, rt) => (String.ofList record, String.ofList rt)), w, ⟨source, buffer⟩)

/-! ## Writing -/

namespace World

/-- Writes bytes into a file at a place; a gap before it is filled with zeros. -/
def writeAt (w : World) (path : String) (offset : Nat) (bytes : ByteArray) : World :=
  let old := w.contents path
  let gap := ByteArray.mk (Array.replicate (offset - old.size) 0)
  let new := (old ++ gap).extract 0 offset ++ bytes ++ old.extract (offset + bytes.size) old.size
  { w with files := w.files.insert path new }

def appendTo (w : World) (path : String) (bytes : ByteArray) : World :=
  { w with files := w.files.insert path (w.contents path ++ bytes) }

/-- Makes sure that a file exists, empty if `truncate` says so. -/
def createFile (w : World) (path : String) (truncate : Bool) : World :=
  { w with files := w.files.insert path (if truncate then ByteArray.empty else w.contents path) }

def writeError (w : World) (bytes : ByteArray) : World := { w with stderr := w.stderr ++ bytes }

end World

/-- Where written bytes go. -/
inductive Sink where
  | file (path : String)
  | null
  /-- Nowhere either, and the system says so. -/
  | full
deriving DecidableEq, Repr

/-- A file that is written.  Bytes are collected and passed on when many have come together. -/
structure FileWriter where
  sink : Sink
  append : Bool
  offset : Nat := 0
  waiting : ByteArray := ByteArray.empty

namespace FileWriter

def capacity : Nat := 8192

def openFile (w : World) (name : String) (append : Bool) : Except OsError FileWriter × World :=
  let w := w.did (.write name)
  match w.locate name with
  | .error e => (.error e, w.miss name)
  | .ok .directory | .ok (.absent _ true) => (.error .isDirectory, w)
  | .ok (.file path) => (.ok { sink := .file path, append }, w.createFile path !append)
  | .ok (.absent path false) =>
    let w := if append then w.miss name else w
    (.ok { sink := .file path, append }, w.createFile path !append)
  | .ok (.device .full) => (.ok { sink := .full, append }, w)
  | .ok (.device _) => (.ok { sink := .null, append }, w)

/-- Passes bytes on to the file; the flag tells whether there was room for them. -/
def pass (f : FileWriter) (w : World) (bytes : ByteArray) : Bool × FileWriter × World :=
  if bytes.isEmpty then (true, f, w)
  else
    match f.sink with
    | .null => (true, f, w)
    | .full => (false, f, w)
    | .file path =>
      if f.append then (true, f, w.appendTo path bytes)
      else (true, { f with offset := f.offset + bytes.size }, w.writeAt path f.offset bytes)

/-- Passes on what is waiting; it goes on waiting if there is no room for it. -/
def flush (f : FileWriter) (w : World) : Bool × FileWriter × World :=
  match f.pass w f.waiting with
  | (true, f, w) => (true, { f with waiting := ByteArray.empty }, w)
  | failed => failed

/-- Writes bytes.  They wait if there is room for them; otherwise what was waiting goes first. -/
def write (f : FileWriter) (w : World) (bytes : ByteArray) : Bool × FileWriter × World :=
  let room := capacity - f.waiting.size
  if bytes.size < room then (true, { f with waiting := f.waiting ++ bytes }, w)
  else
    match if room < bytes.size then f.flush w else (true, f, w) with
    | (true, f, w) =>
      if capacity ≤ bytes.size then f.pass w bytes
      else (true, { f with waiting := f.waiting ++ bytes }, w)
    | failed => failed

end FileWriter

end Awk
