import Awk.CommandLine.Run
import Std.Time.DateTime.Timestamp

/-!
# The command

The run itself is a function of the world it finds.  Here that world is brought together: the standard
input is read to its end, and files are read once a run has looked for them.  Then the run starts anew, so
that the last run has found all it looked for.  What it wrote is passed on at the end.
-/

namespace Awk.Command

open CommandLine

/-- The bytes of a stream up to its end, in pieces; the last one comes first in `before`. -/
partial def readPieces (h : IO.FS.Stream) (before : List (List UInt8)) : IO (List (List UInt8)) := do
  let piece ← h.read 65536
  if piece.isEmpty then return before.reverse else readPieces h (piece.toList :: before)

def readEnviron : IO (Std.TreeMap String String) := do
  let bytes ← try IO.FS.readBinFile "/proc/self/environ" catch _ => pure ByteArray.empty
  return ((Text.Utf8.toText bytes).splitOn "\x00").foldl (fun m entry =>
    match entry.toList.span (· != '=') with
    | (name, _ :: value) => m.insert (String.ofList name) (String.ofList value)
    | _ => m) {}

/-- The names of a settings file in a directory and in those above it. -/
def settingsBelow (dir : String) : List String :=
  let parts := dir.splitOn "/"
  (List.range parts.length).map fun n =>
    "/".intercalate (parts.take (parts.length - n) ++ ["rawk.toml"])

def loadDirectories (w : World) (path : String) : IO World := do
  let parts := path.splitOn "/"
  let mut w := w
  for n in [1 : parts.length + 1] do
    let dir := "/".intercalate (parts.take n)
    unless w.isDirectory dir do
      let found ← try (do (← IO.FS.realPath dir).isDir) catch _ => pure false
      if found then w := { w with directories := dir :: w.directories }
  return w

/-- Adds a file that a run has looked for, if it exists. -/
def loadFile (w : World) (name : String) : IO World := do
  let path := World.pathOf name
  let w ← loadDirectories w path
  if w.files.contains path then return w
  try
    let bytes ← IO.FS.readBinFile path
    return { w with files := w.files.insert path bytes }
  catch _ => return w

/-- The names of what a directory holds and is not known yet. -/
def loadNames (w : World) (dir : String) : IO (List String) := do
  try
    let entries ← (← IO.FS.realPath (if dir.isEmpty then "." else dir)).readDir
    return (entries.toList.map fun e => World.joinPath dir e.fileName).filter fun name => !w.files.contains name
  catch _ => return []

/-- Runs until nothing that was looked for is missing any more; gives the world at the start of the last
run, too. -/
partial def settle (call : Call) (known : List String) : IO (Call × Report) := do
  let report := call.run
  let listed ← report.world.listed.flatMapM (loadNames call.world)
  let names := (report.world.missed ++ listed).eraseDups.filter fun name => !known.contains name
  if names.isEmpty then return (call, report)
  else settle { call with world := ← names.foldlM loadFile call.world } (names ++ known)

def saveFiles (before after : World) : IO Unit := do
  for (path, bytes) in after.files.toList do
    unless before.files[path]? == some bytes do
      try IO.FS.writeBinFile path bytes catch _ => pure ()

end Awk.Command

open Awk Awk.CommandLine Awk.Command in
def main (args : List String) : IO UInt32 := do
  let now ← Std.Time.Timestamp.now
  let stdin ← readPieces (← IO.getStdin) []
  let world : World := { stdin, clock := now.toSecondsSinceUnixEpoch.val.toNat }
  let dir := (← IO.currentDir).toString
  let call : Call :=
    { args, world, environ := ← readEnviron, settingsNames := settingsBelow dir }
  let (call, report) ← settle call []
  (← IO.getStdout).write report.stdout
  (← IO.getStderr).write report.world.stderr
  saveFiles call.world report.world
  return report.exitCode.toUInt32
