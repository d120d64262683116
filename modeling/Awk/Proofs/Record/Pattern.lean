import Awk.Proofs.Record.Reader
import Awk.Proofs.Regex.Search

/-!
# Records between matches of a pattern

A reader takes a match that ends before the end of what has arrived for the end of a record.  This is
right if no further text can change the match, and wrong otherwise: `ab(cd)?` in a text cut behind `abc`
ends the record with `ab`, although `abcd` stands there.
-/

namespace Awk

open Text
open Regex (Pattern Span)

variable {σ ε : Type}

/-- No further text changes a match that ends before the end of a text. -/
def Regex.Pattern.Settled (p : Pattern) : Prop :=
  ∀ (text more : List Char) (span : Span), p.findUsing text = some span → span.stop < text.length →
    p.findUsing (text ++ more) = some span

namespace Buffer

/-- A buffer with a whole text that has arrived. -/
def holding (text : List Char) : Buffer := { stored := text, ended := true }

/-- The record before a match and the match. -/
def cutAt (text : List Char) (span : Span) : Cut :=
  (text.take span.start, (text.drop span.start).take span.length)

/-- The record that a text starts with: what stands before the first match that uses up text, or all. -/
inductive PatternRecord (p : Pattern) : Division where
  | found {text : List Char} {span : Span} (h : p.findUsing text = some span) :
      PatternRecord p text (some (cutAt text span)) (text.drop span.stop)
  | unmatched {text : List Char} (h : p.findUsing text = none) (hne : text ≠ []) :
      PatternRecord p text (some (text, [])) []
  | nothing (h : p.findUsing [] = none) : PatternRecord p [] none []

lemma patternRecord_unique {p : Pattern} {text rest rest' : List Char} {cut cut' : Option Cut}
    (h : PatternRecord p text cut rest) (h' : PatternRecord p text cut' rest') : cut = cut' ∧ rest = rest' := by
  cases h <;> cases h' <;> simp_all

lemma take_span {b : Buffer} {span : Span} (h : span.start ≤ span.stop) :
    b.take span.start span.length = (cutAt b.text span, b.advance span.stop) := by
  simp [take, cutAt, Span.length, Nat.add_sub_cancel' h]

lemma cutAt_append {text : List Char} {span : Span} (hstart : span.start ≤ span.stop) (hstop : span.stop ≤ text.length)
    (more : List Char) : cutAt (text ++ more) span = cutAt text span := by
  have hlength : span.length ≤ (text.drop span.start).length := by
    rw [List.length_drop, Span.length]
    omega
  rw [cutAt, List.take_append_of_le_length (by omega), List.drop_append_of_le_length (by omega),
    List.take_append_of_le_length hlength, cutAt]

/-- A record between matches is decided by a match that cannot go on. -/
lemma ready?_pattern (b : Buffer) (p : Pattern) :
    b.ready? (.pattern p) =
      match p.findUsing b.text with
      | some span =>
        if span.stop < b.text.length ∨ b.ended = true then
          some (cutAt b.text span, b.advance span.stop)
        else none
      | none => none := by
  simp only [readyFrom?]
  cases hfind : p.findUsing b.text with
  | none => rfl
  | some span =>
    have hlt := (Regex.Automaton.findUsing_within hfind).1
    have hall : (b.usesAll span.stop && !b.ended) = true ↔ ¬ (span.stop < b.text.length ∨ b.ended = true) := by
      simp [usesAll]
    simp only [take_span (Nat.le_of_lt hlt), hall, ite_not]

lemma last_pattern (p : Pattern) {before b : Buffer} (htext : b.text = before.text) (hended : b.ended = true) :
    PatternRecord p b.text (last before b (.pattern p)).1 (last before b (.pattern p)).2.text := by
  simp only [last, ← htext]
  cases hfind : p.findUsing b.text with
  | some span =>
    simp only [Option.isSome_some, if_true, ready?_pattern, hfind, hended, or_true]
    exact .found hfind
  | none =>
    simp only [Option.isSome_none, Bool.false_eq_true, if_false]
    obtain ⟨hempty, hrest⟩ | ⟨hne, hrest, hleft⟩ := takeRest_cases b
    · rw [hempty] at hfind
      rw [hrest, hempty]
      exact .nothing hfind
    · rw [hrest, hleft]
      exact .unmatched hfind hne

/-- With a settled pattern a match that is not at the end of what has arrived decides a record. -/
lemma divides_pattern {p : Pattern} (hp : p.Settled) : Divides (.pattern p) (PatternRecord p) where
  ready b cut b' h todo htodo := by
    rw [ready?_pattern] at h
    cases hfind : p.findUsing b.text with
    | none => simp [hfind] at h
    | some span =>
      obtain ⟨hlt, hle⟩ := Regex.Automaton.findUsing_within hfind
      simp only [hfind] at h
      split_ifs at h with hdecided
      cases h
      have hall : p.findUsing (b.text ++ todo) = some span := by
        obtain hstop | hended := hdecided
        · exact hp b.text todo span hfind hstop
        · rw [htodo hended, List.append_nil, hfind]
      rw [← cutAt_append (Nat.le_of_lt hlt) hle todo, text_advance,
        ← List.drop_append_of_le_length hle]
      exact .found hall
  last before b _ htext hended := last_pattern p htext hended
  skipped _ _ _ _ := id

/-- Reading with a pattern gives the same records for all ways of cutting the bytes of a text into pieces,
those of the text as a whole. -/
def Regardless (p : Pattern) : Prop :=
  ∀ (ε : Type) (text : List Char) (chunks : List (List UInt8)) (n : Nat), chunks.flatten = Utf8.encode text →
    (readEach (Supply.pieces : Supply _ ε) (List.replicate n (.pattern p)) {} chunks).1 =
      (readEach (Supply.pieces : Supply _ ε) (List.replicate n (.pattern p)) (holding text) []).1

lemma regardless_of_settled {p : Pattern} (hp : p.Settled) : Regardless p := by
  intro ε text chunks n hbytes
  have hdivides : ∀ sep ∈ List.replicate n (RecordSep.pattern p), Divides sep (PatternRecord p) := by
    intro sep hsep
    rw [List.eq_of_mem_replicate hsep]
    exact divides_pattern hp
  have hopen : Awaits (Supply.pieces : Supply _ ε) {} chunks text := awaits_open (hbytes ▸ Supply.delivers_pieces chunks)
  have hwhole : Awaits (Supply.pieces : Supply _ ε) (holding text) [] [] := .nothing rfl rfl
  obtain ⟨cuts, b, s, todo, hread, -, hcuts⟩ := readEach_divides (R := fun _ => PatternRecord p) hdivides hopen
  obtain ⟨cuts', b', s', todo', hread', -, hcuts'⟩ := readEach_divides (R := fun _ => PatternRecord p) hdivides hwhole
  rw [show (holding text).text ++ [] = text from List.append_nil text] at hcuts'
  have hunique := hcuts.unique hcuts' fun _ _ _ _ _ _ => patternRecord_unique
  rw [hread, hread', hunique.1]

/-! ## Text that arrives character by character -/

private lemma pull_char (c : Char) (rest : List (List UInt8)) :
    (Supply.pieces : Supply _ ε).pull (String.utf8EncodeChar c :: rest) = (.ok (String.utf8EncodeChar c), rest) := by
  obtain ⟨b, tail, henc, -⟩ := Utf8.decodes_encodeChar c
  have hshort : (String.utf8EncodeChar c).drop Supply.pieceSize = [] := by
    rw [List.drop_eq_nil_iff, String.length_utf8EncodeChar, Supply.pieceSize]
    exact Nat.le_trans c.utf8Size_le_four (by decide)
  simp only [Supply.pieces, henc, Supply.pullPiece]
  rw [henc] at hshort
  simp [hshort]

lemma fill_char {b : Buffer} (hended : b.ended = false) (hpending : b.pending = []) (c : Char)
    (rest : List (List UInt8)) :
    ∃ b', b.fill (Supply.pieces : Supply _ ε) (String.utf8EncodeChar c :: rest) =
      (.ok true, b', rest) ∧ b'.ended = false ∧ b'.pending = [] ∧ b'.text = b.text ++ [c] := by
  obtain ⟨byte, tail, henc, hdecodes⟩ := Utf8.decodes_encodeChar c
  have hdecode : Utf8.decodePiece (String.utf8EncodeChar c) = ([c], []) := by
    have hvalid := Utf8.decodeValid_char hdecodes [] []
    rw [List.append_nil, Utf8.decodeValid] at hvalid
    simp [henc, Utf8.decodePiece, hvalid]
  have hfill := fill_piece hended (pull_char (ε := ε) c rest) (by simp [henc])
  rwa [hpending, List.nil_append, hdecode] at hfill

/-- The match that decides a record before all text has arrived. -/
def decided (p : Pattern) (text : List Char) : Option Span :=
  (p.findUsing text).filter fun span => span.stop < text.length

lemma ready?_decided {b : Buffer} (p : Pattern) (hended : b.ended = false) :
    b.ready? (.pattern p) =
      (decided p b.text).map fun span => (cutAt b.text span, b.advance span.stop) := by
  rw [ready?_pattern, decided, hended]
  cases p.findUsing b.text with
  | none => rfl
  | some span => by_cases hstop : span.stop < b.text.length <;> simp [Option.filter, hstop]

/-- A reader that gets single characters decides a record as soon as some text decides it, whatever
follows. -/
lemma readMore_chars {p : Pattern} {text todo : List Char} (hnot : decided p text = none)
    (hready : (decided p (text ++ todo)).isSome) :
    ∃ cut, ∀ (b : Buffer) (fuel : Nat) (more : List Char), b.ended = false → b.pending = [] →
      b.text = text → todo.length ≤ fuel →
        (readMore (Supply.pieces : Supply _ ε) (.pattern p) fuel b
          ((todo ++ more).map String.utf8EncodeChar)).1 = .ok (some cut) := by
  induction todo generalizing text with
  | nil =>
    rw [List.append_nil, hnot] at hready
    cases hready
  | cons c todo ih =>
    rw [← List.singleton_append, ← List.append_assoc] at hready
    have hstep {b : Buffer} (more : List Char) (hended : b.ended = false) (hpending : b.pending = [])
        (htext : b.text = text) : ∃ b', b'.ended = false ∧ b'.pending = [] ∧ b'.text = text ++ [c] ∧
          ∀ fuel, readMore (Supply.pieces : Supply _ ε) (.pattern p) (fuel + 1) b
            ((c :: todo ++ more).map String.utf8EncodeChar) =
              match b'.ready? (.pattern p) with
              | some (cut, b) => (.ok (some cut), b, (todo ++ more).map String.utf8EncodeChar)
              | none => readMore .pieces (.pattern p) fuel b'
                  ((todo ++ more).map String.utf8EncodeChar) := by
      obtain ⟨b', hfill, hended', hpending', htext'⟩ :=
        fill_char (ε := ε) hended hpending c ((todo ++ more).map String.utf8EncodeChar)
      refine ⟨b', hended', hpending', htext ▸ htext', fun fuel => ?_⟩
      rw [List.cons_append, List.map_cons, readMore]
      dsimp only [skipped]
      rw [hfill]
      rfl
    cases hnext : decided p (text ++ [c]) with
    | some span =>
      refine ⟨cutAt (text ++ [c]) span, fun b fuel more hended hpending htext hfuel => ?_⟩
      obtain ⟨fuel, rfl⟩ := Nat.exists_eq_add_of_le' hfuel
      obtain ⟨b', hended', -, htext', hread⟩ := hstep more hended hpending htext
      rw [List.length_cons, ← Nat.add_assoc, hread, ready?_decided p hended', htext', hnext]
      rfl
    | none =>
      obtain ⟨cut, hcut⟩ := ih hnext hready
      refine ⟨cut, fun b fuel more hended hpending htext hfuel => ?_⟩
      obtain ⟨fuel, rfl⟩ := Nat.exists_eq_add_of_le' hfuel
      obtain ⟨b', hended', hpending', htext', hread⟩ := hstep more hended hpending htext
      rw [List.length_cons, ← Nat.add_assoc, hread, ready?_decided p hended', htext', hnext]
      exact hcut b' _ more hended' hpending' htext' (by omega)

lemma read_chars {p : Pattern} {text : List Char} (hready : (decided p text).isSome) :
    ∃ cut, ∀ more, (read (Supply.pieces : Supply _ ε) (.pattern p) {}
      ((text ++ more).map String.utf8EncodeChar)).1 = .ok (some cut) := by
  have hstart : decided p [] = none := by simp [decided]
  obtain ⟨cut, hcut⟩ := readMore_chars (ε := ε) hstart hready
  refine ⟨cut, fun more => ?_⟩
  have hlength : text.length ≤
      (Supply.pieces : Supply _ ε).left ((text ++ more).map String.utf8EncodeChar) + 1 := by
    have hle := Utf8.length_le_encode (text ++ more)
    rw [List.length_append, Utf8.encode, List.flatMap_def, ← Supply.total_eq] at hle
    simp only [Supply.pieces]
    omega
  rw [read, ready?_decided p rfl, show decided p (Buffer.text {}) = none from hstart]
  exact hcut {} _ more rfl rfl rfl hlength

/-- The first record of a text that has arrived as a whole. -/
lemma read_holding (supply : Supply σ ε) (p : Pattern) (text : List Char) (s : σ) :
    ∃ cut rest, (read supply (.pattern p) (holding text) s).1 = .ok cut ∧
      PatternRecord p text cut rest := by
  have hready := ready?_pattern (holding text) p
  rw [show (holding text).text = text from rfl] at hready
  rw [read, hready]
  cases hfind : p.findUsing text with
  | some span => exact ⟨_, _, by simp [holding], .found hfind⟩
  | none => exact ⟨_, _, rfl, @last_pattern p (holding text) (holding text) rfl rfl⟩

lemma readEach_one (supply : Supply σ ε) (sep : RecordSep) (b : Buffer) (s : σ) :
    (readEach supply (List.replicate 1 sep) b s).1 = (b.read supply sep s).1.map ([·]) := by
  simp only [List.replicate_one, readEach]
  obtain ⟨_ | cut, b', s'⟩ := b.read supply sep s <;> rfl

/-- A record and what ended it tell where the match was. -/
lemma cutAt_inj {text : List Char} {span span' : Span} (h : span.start ≤ span.stop) (h' : span'.start ≤ span'.stop)
    (hle : span.stop ≤ text.length) (hle' : span'.stop ≤ text.length) (heq : cutAt text span = cutAt text span') :
    span = span' := by
  have hstart := congrArg (·.1.length) heq
  have hlength := congrArg (·.2.length) heq
  simp only [cutAt, List.length_take, List.length_drop, Span.length] at hstart hlength
  cases span
  cases span'
  simp only [Span.mk.injEq] at *
  omega

/-- If pieces make no difference the pattern is settled: a text that decides a match also decides it when
it arrives character by character and more follows. -/
lemma settled_of_regardless {p : Pattern} (h : Regardless p) : p.Settled := by
  intro text more span hfind hstop
  have hready : (decided p text).isSome := by simp [decided, hfind, hstop]
  obtain ⟨cut, hcut⟩ := read_chars (ε := Empty) hready
  have hfirst (more : List Char) : ∃ rest, PatternRecord p (text ++ more) (some cut) rest := by
    have hsame := h Empty (text ++ more) ((text ++ more).map String.utf8EncodeChar) 1 List.flatMap_def.symm
    obtain ⟨cut', rest, hwhole, hrecord⟩ := read_holding (Supply.pieces : Supply _ Empty) p (text ++ more) []
    rw [readEach_one, readEach_one, hcut, hwhole] at hsame
    obtain rfl : some cut = cut' := by simpa [Except.map] using hsame
    exact ⟨rest, hrecord⟩
  obtain ⟨hlt, hle⟩ := Regex.Automaton.findUsing_within hfind
  obtain rfl : cut = cutAt text span := by
    obtain ⟨_, hrecord⟩ := hfirst []
    rw [List.append_nil] at hrecord
    exact Option.some.inj (patternRecord_unique hrecord (.found hfind)).1
  obtain ⟨_, hrecord⟩ := hfirst more
  rw [← cutAt_append (Nat.le_of_lt hlt) hle more] at hrecord
  have hle' : span.stop ≤ (text ++ more).length := by simp; omega
  generalize hresult : some (cutAt (text ++ more) span) = result at hrecord
  generalize text ++ more = whole at hrecord hresult hle' ⊢
  cases hrecord with
  | @found _ span' hfind' =>
    obtain ⟨hlt', hstop'⟩ := Regex.Automaton.findUsing_within hfind'
    rwa [cutAt_inj (Nat.le_of_lt hlt) (Nat.le_of_lt hlt') hle' hstop' (Option.some.inj hresult)]
  | unmatched =>
    -- what ended the record is not empty
    have hnil := congrArg (·.2.length) (Option.some.inj hresult)
    simp only [cutAt, List.length_take, List.length_drop, Span.length, List.length_nil] at hnil
    omega
  | nothing => cases hresult

/-- Records between matches do not depend on pieces exactly if the pattern is settled.  Patterns whose
matches all have one length are. -/
theorem regardless_iff_settled (p : Pattern) :
    (Regardless p ↔ p.Settled) ∧ ((∃ rank, p.automaton.Uniform rank) → Regardless p) := by
  refine ⟨⟨settled_of_regardless, regardless_of_settled⟩, ?_⟩
  rintro ⟨rank, huniform⟩
  exact regardless_of_settled fun text more span hfind hstop => huniform.findUsing_append hfind hstop more

/-- Records that end with a carriage return and a line end do not depend on pieces. -/
theorem carriageReturn_lineEnd_regardless : ∃ p, Pattern.compile "\r\n" = .ok p ∧ Regardless p := by
  let nodes : Array Regex.Node := #[.accept, .set (.single '\n') 0, .set (.single '\r') 1]
  -- the number of a node is the number of characters to the end
  have huniform : (Regex.Automaton.mk nodes 2).Uniform id := by
    constructor <;> intro n <;> match n with
      | 0 | 1 | 2 | n + 3 => simp [nodes]
  exact ⟨⟨"\r\n", ⟨nodes, 2⟩⟩, rfl, (regardless_iff_settled _).2 ⟨id, huniform⟩⟩

/-- A match that ends early because a piece ends there: the text `xabcdy` in two pieces, and in one. -/
theorem optional_end_depends_on_pieces :
    ∃ p, Pattern.compile "ab(cd)?" = .ok p ∧
      (readEach (Supply.pieces : Supply _ Empty) [.pattern p, .pattern p] {} [[0x78, 0x61, 0x62, 0x63], [0x64, 0x79]]).1 =
        .ok [some (['x'], ['a', 'b']), some (['c', 'd', 'y'], [])] ∧
      (readEach (Supply.pieces : Supply _ Empty) [.pattern p, .pattern p] {} [[0x78, 0x61, 0x62, 0x63, 0x64, 0x79]]).1 =
        .ok [some (['x'], ['a', 'b', 'c', 'd']), some (['y'], [])] := by
  refine ⟨_, rfl, ?_, ?_⟩
  · decide +kernel
  · decide +kernel

end Buffer

end Awk
