import Mathlib.Data.List.DropRight
import Mathlib.Data.List.Infix
import Mathlib.Data.List.TakeWhile
import Awk.Record.Reader
import Awk.Proofs.Text.Utf8

/-!
# Records do not depend on pieces

A reader holds text that has arrived and asks for more until it can decide the next record.  What it has
and what is still to come are together the text that remains, and this is all that a record depends on.
-/

namespace Awk

open Text

variable {σ ε : Type}

/-! ## Sources -/

namespace Supply

/-- The bytes that a source still gives, in pieces that are not empty, before it ends. -/
inductive Delivers (supply : Supply σ ε) : σ → List UInt8 → Prop where
  | done {s s' : σ} (hpull : supply.pull s = (.ok [], s')) : Delivers supply s []
  | piece {s s' : σ} {piece bytes : List UInt8} (hpull : supply.pull s = (.ok piece, s')) (hpiece : piece ≠ [])
      (hleft : supply.left s' < supply.left s) (more : Delivers supply s' bytes) :
      Delivers supply s (piece ++ bytes)

lemma total_eq (pieces : List (List UInt8)) : total pieces = pieces.flatten.length := by
  have shift (n : Nat) : pieces.foldl (fun n piece => n + piece.length) n = n + pieces.flatten.length := by
    induction pieces generalizing n with
    | nil => rfl
    | cons piece pieces ih => rw [List.foldl_cons, ih, List.flatten_cons, List.length_append, Nat.add_assoc]
  exact (shift 0).trans (Nat.zero_add _)

/-- A piece that is taken and the pieces that remain are what there was, and a piece is empty only at
the end. -/
lemma pullPiece_flatten (pieces : List (List UInt8)) :
    (pullPiece pieces).1 ++ (pullPiece pieces).2.flatten = pieces.flatten ∧
      ((pullPiece pieces).1 = [] → pieces.flatten = []) := by
  fun_induction pullPiece pieces with
  | case1 => exact ⟨rfl, fun _ => rfl⟩
  | case2 rest ih => simpa using ih
  | case3 piece rest hpiece hdrop => simp_all
  | case4 piece rest hpiece hmore =>
    have hne : piece.take pieceSize ≠ [] := by
      rw [Ne, List.take_eq_nil_iff, not_or]
      exact ⟨by simp [pieceSize], hpiece⟩
    simp [hne, ← List.append_assoc]

/-- Pieces in memory deliver their bytes. -/
lemma delivers_pieces (chunks : List (List UInt8)) :
    (pieces : Supply (List (List UInt8)) ε).Delivers chunks chunks.flatten := by
  induction hn : chunks.flatten.length using Nat.strongRecOn generalizing chunks with
  | _ n ih =>
    obtain ⟨hbytes, hend⟩ := pullPiece_flatten chunks
    by_cases hpiece : (pullPiece chunks).1 = []
    · rw [hend hpiece]
      exact .done (show pieces.pull chunks = (.ok [], (pullPiece chunks).2) by simp [pieces, hpiece])
    · have hlength := congrArg List.length hbytes
      have hpos := List.length_pos_iff.2 hpiece
      rw [List.length_append] at hlength
      rw [← hbytes]
      refine .piece (show pieces.pull chunks = (.ok (pullPiece chunks).1, (pullPiece chunks).2) from rfl) hpiece ?_
        (ih _ ?_ _ rfl)
      · simp only [pieces, total_eq]
        omega
      · omega

end Supply

namespace Buffer

open Utf8 (encode)

/-! ## Stored text -/

section

variable (b : Buffer) (n : Nat) (text : List Char)

@[simp] lemma text_advance : (b.advance n).text = b.text.drop n := rfl

lemma advance_zero : b.advance 0 = b := rfl

@[simp] lemma text_drain : b.drain.text = b.text := by
  unfold drain
  split <;> rfl

/-- What is stored comes behind the text, however much of the storage is given up. -/
@[simp] lemma text_store : (b.store text).text = b.text ++ text := by
  change b.drain.text ++ text = _
  rw [text_drain]

@[simp] lemma ended_drain : b.drain.ended = b.ended := by
  unfold drain
  split <;> rfl

end

variable {supply : Supply σ ε} {s s' : σ} {b b' : Buffer}

/-- At the end of the input the bytes that were kept back become text. -/
lemma fill_end (hb : b.ended = false) (hpull : supply.pull s = (.ok [], s')) :
    ∃ b', b.fill supply s = (.ok false, b', s') ∧ b'.ended = true ∧ b'.pending = [] ∧
      b'.text = b.text ++ Utf8.decode b.pending := by
  rw [fill, hb, hpull]
  exact ⟨_, rfl, rfl, rfl, text_store b _⟩

/-- A piece is decoded behind the bytes that were kept back. -/
lemma fill_piece {piece : List UInt8} (hb : b.ended = false)
    (hpull : supply.pull s = (.ok piece, s')) (hpiece : piece ≠ []) :
    ∃ b', b.fill supply s = (.ok true, b', s') ∧ b'.ended = false ∧
      b'.pending = (Utf8.decodePiece (b.pending ++ piece)).2 ∧
      b'.text = b.text ++ (Utf8.decodePiece (b.pending ++ piece)).1 := by
  cases piece with
  | nil => exact absurd rfl hpiece
  | cons byte piece =>
    rw [fill, hb, hpull]
    exact ⟨_, rfl, (ended_drain b).trans hb, rfl, text_store b _⟩

/-- Taking the parts of a text leaves what is behind them. -/
lemma take_append {record ending rest : List Char}
    (h : b.text = record ++ (ending ++ rest)) :
    ∃ b', b.take record.length ending.length = ((record, ending), b') ∧ b'.text = rest :=
  ⟨b.advance (record.length + ending.length), by simp [take, h], by simp [h, ← List.drop_drop]⟩

/-- The rest of a text is a record, unless it is empty. -/
lemma takeRest_cases (b : Buffer) :
    (b.text = [] ∧ b.takeRest = (none, b)) ∨
      (b.text ≠ [] ∧ b.takeRest.1 = some (b.text, []) ∧ b.takeRest.2.text = []) := by
  unfold takeRest
  split_ifs with h
  · exact .inl ⟨List.isEmpty_iff.1 h, rfl⟩
  · exact .inr ⟨by simpa using h, rfl, List.drop_length⟩

/-! ## What is still to come -/

/-- The text that is still to come behind what a buffer holds. -/
inductive Awaits (supply : Supply σ ε) (b : Buffer) (s : σ) : List Char → Prop where
  | more {bytes : List UInt8} {todo : List Char} (hended : b.ended = false)
      (hbytes : supply.Delivers s bytes) (htodo : b.pending ++ bytes = encode todo)
      (hend : bytes = [] → todo = []) : Awaits supply b s todo
  | nothing (hended : b.ended = true) (hpending : b.pending = []) : Awaits supply b s []

variable {text todo : List Char} {seps : List RecordSep}

/-- Nothing is known to come of a reader that has just been opened but what its source delivers. -/
lemma awaits_open (h : supply.Delivers s (encode text)) : Awaits supply {} s text :=
  .more rfl h (by simp) Utf8.encode_eq_nil

/-- Two buffers that differ in their text only. -/
def SameSource (b b' : Buffer) : Prop := b'.pending = b.pending ∧ b'.ended = b.ended

lemma SameSource.trans {b'' : Buffer} (h : SameSource b b') (h' : SameSource b' b'') :
    SameSource b b'' :=
  ⟨h'.1.trans h.1, h'.2.trans h.2⟩

lemma sameSource_advance (b : Buffer) (n : Nat) : SameSource b (b.advance n) := ⟨rfl, rfl⟩

/-- Text that is taken from a buffer does not change what is to come. -/
lemma Awaits.of_sameSource (h : b.Awaits supply s todo) (hb : SameSource b b') :
    b'.Awaits supply s todo := by
  cases h with
  | more hended hbytes htodo hend =>
    rw [← hb.1] at htodo
    exact .more (hb.2.trans hended) hbytes htodo hend
  | nothing hended hpending => exact .nothing (hb.2.trans hended) (hb.1.trans hpending)

lemma Awaits.of_ended (h : b.Awaits supply s todo) (hended : b.ended = true) : todo = [] := by
  cases h with
  | more hnot =>
    rw [hnot] at hended
    cases hended
  | nothing => rfl

/-- Asking for more moves text from what is to come into the buffer; if there is no further piece, all
text has arrived. -/
lemma Awaits.fill (h : b.Awaits supply s todo) :
    (todo = [] ∧ ∃ b' s', b.fill supply s = (.ok false, b', s') ∧ b'.text = b.text ∧
        b'.ended = true ∧ b'.Awaits supply s' []) ∨
      ∃ done todo' b' s', todo = done ++ todo' ∧ b.fill supply s = (.ok true, b', s') ∧
        b'.text = b.text ++ done ∧ b'.Awaits supply s' todo' ∧ supply.left s' < supply.left s := by
  cases h with
  | nothing hended hpending =>
    exact .inl ⟨rfl, b, s, if_pos hended, rfl, hended, .nothing hended hpending⟩
  | more hended hbytes htodo hend =>
    cases hbytes with
    | @done _ s' hpull =>
      obtain rfl := hend rfl
      have hpending : b.pending = [] := by simpa using htodo
      obtain ⟨b', hfill, hended', hpending', htext⟩ := fill_end hended hpull
      have hnone : Utf8.decode b.pending = [] := by simp [hpending, Utf8.decode]
      rw [hnone, List.append_nil] at htext
      exact .inl ⟨rfl, b', s', hfill, htext, hended', .nothing hended' hpending'⟩
    | @piece _ s' piece bytes hpull hpiece hleft hmore =>
      rw [← List.append_assoc] at htodo
      obtain ⟨done, todo', kept, rfl, hdecode, hkept, hend'⟩ := Utf8.decodePiece_encode htodo
      obtain ⟨b', hfill, hended', hpending, htext⟩ := fill_piece hended hpull hpiece
      rw [hdecode] at hpending htext
      dsimp only at hpending htext
      rw [← hpending] at hkept
      exact .inr ⟨done, todo', b', s', rfl, hfill, htext, .more hended' hmore hkept hend', hleft⟩

/-! ## Reads -/

/-- What a separator makes of a text: a record with what ended it, or nothing, and what remains. -/
abbrev Division := List Char → Option Cut → List Char → Prop

/-- Reading with a separator follows a division: a record that is decided before all text has arrived
is one whatever comes, the last record is one of the text that is left, and what is skipped before a
record makes no difference. -/
structure Divides (sep : RecordSep) (R : Division) : Prop where
  ready : ∀ (b : Buffer) (cut : Cut) (b' : Buffer), b.ready? sep = some (cut, b') →
    ∀ todo, (b.ended = true → todo = []) → R (b.text ++ todo) (some cut) (b'.text ++ todo)
  last : ∀ before b : Buffer, before.ready? sep = none → b.text = before.text → b.ended = true →
    R b.text (last before b sep).1 (last before b sep).2.text
  skipped : ∀ (b : Buffer) (todo : List Char) (cut : Option Cut) (rest : List Char),
    R ((b.skipped sep).text ++ todo) cut rest → R (b.text ++ todo) cut rest

/-- A read changes nothing of a buffer but its text. -/
lemma readyFrom?_sameSource {searched : Nat} {sep : RecordSep} {cut : Cut}
    (h : b.readyFrom? searched sep = some (cut, b')) : SameSource b b' := by
  cases sep with
  | char c =>
    simp only [readyFrom?] at h
    split at h
    · cases h
      exact sameSource_advance _ _
    · cases h
  | paragraph =>
    simp only [readyFrom?] at h
    split at h
    · split at h
      · cases h
      · cases h
        exact (sameSource_advance _ _).trans (sameSource_advance _ _)
    · cases h
  | pattern p =>
    simp only [readyFrom?] at h
    split at h
    · split at h
      · cases h
      · cases h
        exact sameSource_advance _ _
    · cases h

lemma takeRest_sameSource (b : Buffer) : SameSource b b.takeRest.2 := by
  unfold takeRest
  split <;> exact ⟨rfl, rfl⟩

lemma last_sameSource (before b : Buffer) (sep : RecordSep) :
    SameSource b (last before b sep).2 := by
  cases sep with
  | char c => exact takeRest_sameSource b
  | paragraph =>
    simp only [last, lastParagraph]
    split <;> exact ⟨rfl, rfl⟩
  | pattern p =>
    simp only [last]
    split
    · split
      · next cut b' h => exact readyFrom?_sameSource h
      · exact takeRest_sameSource b
    · exact takeRest_sameSource b

lemma skipped_sameSource (b : Buffer) (sep : RecordSep) : SameSource b (b.skipped sep) := by
  cases sep <;> exact ⟨rfl, rfl⟩

lemma text_skipNewlines (b : Buffer) : b.skipNewlines.text = b.text.dropWhile (· == '\n') := by
  calc b.skipNewlines.text = b.text.drop (b.text.takeWhile (· == '\n')).length := rfl
    _ = (b.text.takeWhile (· == '\n') ++ b.text.dropWhile (· == '\n')).drop
          (b.text.takeWhile (· == '\n')).length := by rw [List.takeWhile_append_dropWhile]
    _ = b.text.dropWhile (· == '\n') := List.drop_left

lemma skipNewlines_skipNewlines (b : Buffer) : b.skipNewlines.skipNewlines = b.skipNewlines := by
  have hnone := List.takeWhile_append_dropWhile (p := (· == '\n')) (l := b.skipNewlines.text)
  rw [text_skipNewlines, List.dropWhile_idempotent, List.append_left_eq_self,
    ← text_skipNewlines] at hnone
  rw [skipNewlines, hnone]
  exact advance_zero _

/-- What is skipped before a record decides none. -/
lemma ready?_skipped {sep : RecordSep} (h : b.ready? sep = none) :
    (b.skipped sep).ready? sep = none := by
  cases sep with
  | char c | pattern p => exact h
  | paragraph =>
    simp only [skipped, readyFrom?, skipNewlines_skipNewlines]
    exact h

/-- Records end with a character where it first stands. -/
lemma ready?_char (b : Buffer) (c : Char) :
    (c ∉ b.text ∧ b.ready? (.char c) = none) ∨
      ∃ record b', c ∉ record ∧ b.text = record ++ c :: b'.text ∧
        b.ready? (.char c) = some ((record, [c]), b') := by
  have hsplit := List.takeWhile_append_dropWhile (p := (· != c)) (l := b.text)
  have hrecord : c ∉ b.text.takeWhile (· != c) := fun hc => by
    simpa using List.mem_takeWhile_imp hc
  simp only [readyFrom?, List.drop_zero, List.span_eq_takeWhile_dropWhile]
  cases hdrop : b.text.dropWhile (· != c) with
  | nil =>
    rw [hdrop, List.append_nil] at hsplit
    exact .inl ⟨hsplit ▸ hrecord, rfl⟩
  | cons d rest =>
    have hd := List.head?_dropWhile_not (· != c) b.text
    rw [hdrop] at hd hsplit
    obtain rfl : d = c := by simpa using hd
    have htext : b.text = b.text.takeWhile (· != d) ++ ([d] ++ rest) := hsplit.symm
    obtain ⟨b', htake, hrest⟩ := take_append htext
    refine .inr ⟨_, b', hrecord, hrest ▸ hsplit.symm, ?_⟩
    simp only [Nat.zero_add]
    exact congrArg some htake

/-- A search may go on where an earlier one has found nothing. -/
lemma readyFrom?_eq {sep : RecordSep} {more : List Char} (h : b.ready? sep = none)
    (htext : b'.text = b.text ++ more) : b'.readyFrom? b.text.length sep = b'.ready? sep := by
  cases sep with
  | paragraph | pattern p => rfl
  | char c =>
    obtain ⟨hnot, -⟩ | ⟨_, _, _, _, hsome⟩ := ready?_char b c
    · have hall : ∀ d ∈ b.text, (d != c) = true := fun d hd => by
        rw [bne_iff_ne]
        exact fun h => hnot (h ▸ hd)
      simp only [readyFrom?, htext, List.drop_left, List.drop_zero,
        List.span_eq_takeWhile_dropWhile, List.takeWhile_append_of_pos hall,
        List.dropWhile_append_of_pos hall, Nat.zero_add]
      cases more.dropWhile (· != c) <;> simp
    · rw [h] at hsome
      cases hsome

section

variable {sep : RecordSep} {R : Division}

/-- The loop that asks for more text ends with a record of the text that remains. -/
lemma readMore_divides (hsep : Divides sep R) {fuel : Nat} (h : b.Awaits supply s todo)
    (hready : b.ready? sep = none) (hfuel : supply.left s < fuel) :
    ∃ cut b' s' todo', readMore supply sep fuel b s = (.ok cut, b', s') ∧
      b'.Awaits supply s' todo' ∧ R (b.text ++ todo) cut (b'.text ++ todo') := by
  induction fuel generalizing b s todo with
  | zero => omega
  | succ fuel ih =>
    have hawaits := h.of_sameSource (skipped_sameSource b sep)
    have hnone := ready?_skipped hready
    have hskipped := hsep.skipped b
    rw [readMore]
    dsimp only
    generalize b.skipped sep = b₀ at hawaits hnone hskipped
    obtain ⟨rfl, b', s', hfill, htext, hended, h'⟩ |
      ⟨done, todo', b', s', rfl, hfill, htext, h', hleft⟩ := hawaits.fill
    · rw [hfill]
      refine ⟨_, _, s', [], rfl, h'.of_sameSource (last_sameSource _ _ _), hskipped _ _ _ ?_⟩
      simpa only [htext, List.append_nil] using hsep.last b₀ b' hnone htext hended
    · rw [hfill]
      dsimp only
      rw [readyFrom?_eq hnone htext]
      have hwhole : b₀.text ++ (done ++ todo') = b'.text ++ todo' := by
        rw [htext, List.append_assoc]
      cases hready' : b'.ready? sep with
      | none =>
        obtain ⟨cut, b'', s'', todo'', hread, h'', hR⟩ := ih h' hready' (by omega)
        exact ⟨cut, b'', s'', todo'', hread, h'', hskipped _ _ _ (hwhole ▸ hR)⟩
      | some result =>
        exact ⟨some result.1, result.2, s', todo', rfl,
          h'.of_sameSource (readyFrom?_sameSource hready'),
          hskipped _ _ _ (hwhole ▸ hsep.ready b' _ _ hready' todo' h'.of_ended)⟩

/-- A read gives a record of the text that remains, however it arrives. -/
lemma read_divides (hsep : Divides sep R) (h : b.Awaits supply s todo) :
    ∃ cut b' s' todo', b.read supply sep s = (.ok cut, b', s') ∧ b'.Awaits supply s' todo' ∧
      R (b.text ++ todo) cut (b'.text ++ todo') := by
  rw [read]
  cases hready : b.ready? sep with
  | none => exact readMore_divides hsep h hready (Nat.lt_succ_self _)
  | some result =>
    exact ⟨some result.1, result.2, s, todo, rfl, h.of_sameSource (readyFrom?_sameSource hready),
      hsep.ready b _ _ hready todo h.of_ended⟩

end

/-! ## Reads one after another -/

def readEach (supply : Supply σ ε) : List RecordSep → Buffer → σ → Answer σ ε (List (Option Cut))
  | [], b, s => (.ok [], b, s)
  | sep :: seps, b, s =>
    match b.read supply sep s with
    | (.error e, b, s) => (.error e, b, s)
    | (.ok cut, b, s) =>
      let (cuts, b, s) := readEach supply seps b s
      (cuts.map (cut :: ·), b, s)

/-- The divisions of a text by separators, each of what the one before has left. -/
inductive Divisions (R : RecordSep → Division) : List RecordSep → List Char → List (Option Cut) → List Char → Prop where
  | nil {text : List Char} : Divisions R [] text [] text
  | cons {sep : RecordSep} {seps : List RecordSep} {text rest unread : List Char} {cut : Option Cut}
      {cuts : List (Option Cut)} (first : R sep text cut rest) (others : Divisions R seps rest cuts unread) :
      Divisions R (sep :: seps) text (cut :: cuts) unread

variable {R : RecordSep → Division}

/-- Where each text has one record at most, it has one series of records at most. -/
lemma Divisions.unique {unread unread' : List Char} {cuts cuts' : List (Option Cut)}
    (h : Divisions R seps text cuts unread) (h' : Divisions R seps text cuts' unread')
    (hR : ∀ sep text cut cut' rest rest', R sep text cut rest → R sep text cut' rest' → cut = cut' ∧ rest = rest') :
    cuts = cuts' ∧ unread = unread' := by
  induction h generalizing cuts' with
  | nil =>
    cases h'
    exact ⟨rfl, rfl⟩
  | cons first others ih =>
    cases h' with
    | cons first' others' =>
      obtain ⟨rfl, rfl⟩ := hR _ _ _ _ _ _ first first'
      obtain ⟨rfl, rfl⟩ := ih others'
      exact ⟨rfl, rfl⟩

lemma readEach_divides (hseps : ∀ sep ∈ seps, Divides sep (R sep)) (h : b.Awaits supply s todo) :
    ∃ cuts b' s' todo', readEach supply seps b s = (.ok cuts, b', s') ∧ b'.Awaits supply s' todo' ∧
      Divisions R seps (b.text ++ todo) cuts (b'.text ++ todo') := by
  induction seps generalizing b s todo with
  | nil => exact ⟨[], b, s, todo, rfl, h, .nil⟩
  | cons sep seps ih =>
    obtain ⟨cut, b₁, s₁, todo₁, hread, h₁, hR⟩ := read_divides (hseps sep List.mem_cons_self) h
    obtain ⟨cuts, b₂, s₂, todo₂, hreads, h₂, hRs⟩ := ih (fun sep' hmem => hseps sep' (List.mem_cons_of_mem _ hmem)) h₁
    exact ⟨cut :: cuts, b₂, s₂, todo₂, by simp only [readEach, hread, hreads, Except.map], h₂, .cons hR hRs⟩

end Buffer

end Awk
