import Awk.Record.Separator
import Awk.Text.Utf8

/-!
# Reading records

Records are cut from a stream of bytes that arrives in pieces.  `Supply` is where the pieces come from;
`Buffer` stores the text that has arrived, with the position up to which it has been used, and the bytes of
a character that a piece has cut.  `Buffer.text` is the text from the position on, and `Buffer.read` gives
the next record of it with the text that ended it.
-/

namespace Awk

open Text

/-- A source of bytes: `pull` gives the next piece, empty at the end, and `left` bounds how many pieces
are still to come. -/
structure Supply (σ ε : Type) where
  pull : σ → Except ε (List UInt8) × σ
  left : σ → Nat

/-- What stands behind a position. -/
def Buffer.behind (text : List Char) (position : Nat) : {rest : List Char // rest = text.drop position} :=
  ⟨text.drop position, rfl⟩

/-- Text that has arrived; what stands before the position has been used. -/
structure Buffer where
  stored : List Char := []
  position : Nat := 0
  /-- The text that has not been used, at hand for reading. -/
  unread : {text : List Char // text = stored.drop position} := Buffer.behind stored position
  /-- The bytes of a character cut by the end of a piece. -/
  pending : List UInt8 := []
  ended : Bool := false
deriving Repr

namespace Buffer

/-- The text that has not been used. -/
def text (b : Buffer) : List Char := b.unread.val

theorem text_eq (b : Buffer) : b.text = b.stored.drop b.position := b.unread.property

abbrev Cut := List Char × List Char

variable {σ ε : Type}

/-- What reading gives: a result or a fault of the source, with what is left. -/
abbrev Answer (σ ε α : Type) := Except ε α × Buffer × σ

/-- Uses some characters of the text. -/
def advance (b : Buffer) (n : Nat) : Buffer :=
  { b with
    position := b.position + n
    unread := ⟨b.text.drop n, by rw [text_eq, List.drop_drop]⟩ }

/-- Gives up what has been used, if that is half of what is stored. -/
def drain (b : Buffer) : Buffer :=
  if 0 < b.position ∧ b.stored.length ≤ b.position * 2 then
    { b with stored := b.text, position := 0, unread := ⟨b.text, rfl⟩ }
  else b

theorem position_drain_le (b : Buffer) : b.drain.position ≤ b.drain.stored.length := by
  unfold drain
  split
  · exact Nat.zero_le _
  · omega

/-- Stores more text. -/
def store (b : Buffer) (text : List Char) : Buffer :=
  { b.drain with
    stored := b.drain.stored ++ text
    unread := ⟨b.drain.text ++ text, by
      rw [List.drop_append_of_le_length b.position_drain_le, text_eq]⟩ }

/-- Asks for more text.  The result tells whether there was a further piece; at the end the bytes kept
back become text. -/
def fill (supply : Supply σ ε) (b : Buffer) (s : σ) : Answer σ ε Bool :=
  if b.ended then (.ok false, b, s)
  else
    match supply.pull s with
    | (.error e, s) => (.error e, b.drain, s)
    | (.ok [], s) => (.ok false, { b.store (Utf8.decode b.pending) with pending := [], ended := true }, s)
    | (.ok piece, s) =>
      let (text, pending) := Utf8.decodePiece (b.pending ++ piece)
      (.ok true, { b.store text with pending }, s)

/-- Takes a record of `n` characters and a terminator of `k` from the text. -/
def take (b : Buffer) (n k : Nat) : Cut × Buffer :=
  ((b.text.take n, (b.text.drop n).take k), b.advance (n + k))

def takeRest (b : Buffer) : Option Cut × Buffer :=
  if b.text.isEmpty then (none, b) else (some (b.text, []), b.advance b.text.length)

/-- The characters before the first two line ends in a row, and how many line ends there are. -/
def findBlankLine : List Char → Nat → Option (Nat × Nat)
  | [], _ => none
  | c :: rest, n =>
    if c = '\n' ∧ rest.head? = some '\n' then some (n, 1 + (rest.takeWhile (· == '\n')).length)
    else findBlankLine rest (n + 1)

/-- The text without line ends at its start. -/
def skipNewlines (b : Buffer) : Buffer := b.advance (b.text.takeWhile (· == '\n')).length

def usesAll (b : Buffer) (n : Nat) : Bool := (b.text.drop n).isEmpty

/-! ## Single records -/

/-- The next record, if the text decides it.  The character that separates records is looked for behind the
text that has been searched before. -/
def readyFrom? (b : Buffer) (searched : Nat) : RecordSep → Option (Cut × Buffer)
  | .char c =>
    match (b.text.drop searched).span (· != c) with
    | (more, _ :: _) => some (b.take (searched + more.length) 1)
    | (_, []) => none
  | .paragraph =>
    let b := b.skipNewlines
    match findBlankLine b.text 0 with
    -- the line ends may go on after what has arrived
    | some (n, k) => if b.usesAll (n + k) then none else some (b.take n k)
    | none => none
  | .pattern p =>
    match p.findUsing b.text with
    -- so may the match
    | some span => if b.usesAll span.stop && !b.ended then none else some (b.take span.start span.length)
    | none => none

abbrev ready? (b : Buffer) (sep : RecordSep) : Option (Cut × Buffer) := b.readyFrom? 0 sep

/-- The text that a record may start with: line ends before a paragraph are used up at once. -/
def skipped (b : Buffer) : RecordSep → Buffer
  | .paragraph => b.skipNewlines
  | .char _ | .pattern _ => b

/-- The last paragraph.  Line ends behind it end it. -/
def lastParagraph (b : Buffer) : Option Cut × Buffer :=
  let b := b.skipNewlines
  if b.text.isEmpty then (none, b)
  else
    let (n, k) := (findBlankLine b.text 0).getD
      (let k := (b.text.reverse.takeWhile (· == '\n')).length; (b.text.length - k, k))
    let (cut, b) := b.take n k
    (some cut, b)

/-- The last record, after the end of the input has been seen; `before` is the text before that.  A match
that used all of that text counts now, and bytes that became text then are not searched otherwise. -/
def last (before : Buffer) (b : Buffer) : RecordSep → Option Cut × Buffer
  | .char _ => b.takeRest
  | .paragraph => b.lastParagraph
  | .pattern p =>
    if (p.findUsing before.text).isSome then
      match b.ready? (.pattern p) with
      | some (cut, b) => (some cut, b)
      | none => b.takeRest
    else b.takeRest

/-- Asks for more text until it decides the next record. -/
def readMore (supply : Supply σ ε) (sep : RecordSep) : Nat → Buffer → σ → Answer σ ε (Option Cut)
  | 0, b, s => let (cut, b) := b.takeRest; (.ok cut, b, s)
  | fuel + 1, b, s =>
    let b := b.skipped sep
    match b.fill supply s with
    | (.error e, b, s) => (.error e, b, s)
    | (.ok false, b', s) => let (cut, b') := last b b' sep; (.ok cut, b', s)
    | (.ok true, b', s) =>
      match b'.readyFrom? b.text.length sep with
      | some (cut, b) => (.ok (some cut), b, s)
      | none => readMore supply sep fuel b' s

/-- The next record and the text that ended it, `none` at the end of the input. -/
def read (supply : Supply σ ε) (sep : RecordSep) (b : Buffer) (s : σ) : Answer σ ε (Option Cut) :=
  match b.ready? sep with
  | some (cut, b) => (.ok (some cut), b, s)
  | none => readMore supply sep (supply.left s + 1) b s

end Buffer

/-! ## Pieces in memory -/

namespace Supply

def pieceSize : Nat := 65536

/-- Takes the next piece from a list of pieces: the first that is not empty, cut to the greatest
size. -/
def pullPiece : List (List UInt8) → List UInt8 × List (List UInt8)
  | [] => ([], [])
  | [] :: rest => pullPiece rest
  | piece :: rest =>
    match piece.drop pieceSize with
    | [] => (piece, rest)
    | more => (piece.take pieceSize, more :: rest)

def total (pieces : List (List UInt8)) : Nat := pieces.foldl (fun n piece => n + piece.length) 0

def pieces {ε : Type} : Supply (List (List UInt8)) ε where
  pull s := let (piece, s) := pullPiece s; (.ok piece, s)
  left := total

end Supply

end Awk
