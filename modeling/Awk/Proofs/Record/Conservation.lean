import Awk.Proofs.Record.Division
import Awk.Proofs.Record.Pattern

/-!
# No text is lost between records

Whatever separators a reader is given, and however they change from one read to the next, the text that it
hands out and the text that remains are together the text that it was given.  Only a read of a paragraph
leaves something out: the line ends before the paragraph.
-/

namespace Awk

open Text
open Regex (Pattern Span)

variable {σ ε : Type}

namespace Buffer

/-! ## Single reads -/

/-- A read: the separator, the line ends skipped before the record, and the record with what ended it. -/
structure Reading where
  sep : RecordSep
  skipped : List Char
  cut : Option Cut

namespace Reading

/-- The text that a record and what ended it take up. -/
def used : Option Cut → List Char
  | none => []
  | some (record, ending) => record ++ ending

def text (r : Reading) : List Char := r.skipped ++ used r.cut

end Reading

/-- A read skips line ends only, and these only before paragraphs; a record takes up some text; and there is
none only if nothing remains. -/
structure Sound (r : Reading) (rest : List Char) : Prop where
  paragraph : r.skipped ≠ [] → r.sep = .paragraph
  lineEnds : ∀ c ∈ r.skipped, c = '\n'
  uses : r.cut ≠ none → Reading.used r.cut ≠ []
  ends : r.cut = none → rest = []

/-- The text is that of a sound reading, and what remains. -/
def SoundRecord (sep : RecordSep) : Division := fun text cut rest =>
  ∃ skipped, text = (⟨sep, skipped, cut⟩ : Reading).text ++ rest ∧ Sound ⟨sep, skipped, cut⟩ rest

variable {sep : RecordSep} {text rest : List Char} {cut : Option Cut}

lemma soundRecord_some {record ending : List Char} (htext : text = record ++ ending ++ rest)
    (hne : record ++ ending ≠ []) : SoundRecord sep text (some (record, ending)) rest :=
  ⟨[], htext, fun h => absurd rfl h, by simp, fun _ => hne, nofun⟩

lemma soundRecord_none (sep : RecordSep) : SoundRecord sep [] none [] :=
  ⟨[], rfl, fun h => absurd rfl h, by simp, fun h => absurd rfl h, fun _ => rfl⟩

lemma soundRecord_of_nextRecord (h : NextRecord sep text cut rest) : SoundRecord sep text cut rest := by
  cases h with
  | character _ => exact soundRecord_some (by simp) (by simp)
  | lastCharacter _ hne => exact soundRecord_some (by simp) (by simpa using hne)
  | noCharacter => exact soundRecord_none _
  | @paragraph n k record _ hrecord _ _ =>
    refine ⟨lineEnds n, by simp [Reading.text, Reading.used], fun _ => rfl, ?_, fun _ => ?_, nofun⟩
    · exact fun c hc => List.eq_of_mem_replicate hc
    · obtain ⟨c, hc, -⟩ := hrecord.starts
      exact fun hnil => by simp_all [Reading.used]
  | @noParagraph n =>
    refine ⟨lineEnds n, by simp [Reading.text, Reading.used], fun _ => rfl, ?_, fun h => absurd rfl h, fun _ => rfl⟩
    exact fun c hc => List.eq_of_mem_replicate hc

lemma SoundRecord.of_skipped (b : Buffer) {todo : List Char}
    (h : SoundRecord sep ((b.skipped sep).text ++ todo) cut rest) :
    SoundRecord sep (b.text ++ todo) cut rest := by
  cases sep with
  | char c | pattern p => exact h
  | paragraph =>
    obtain ⟨n, htext, -⟩ := skipNewlines_text b
    obtain ⟨more, hwhole, hsound⟩ := h
    refine ⟨lineEnds n ++ more, ?_, fun _ => rfl, ?_, hsound.uses, hsound.ends⟩
    · rw [htext, List.append_assoc]
      exact (congrArg (lineEnds n ++ ·) hwhole).trans (by simp [Reading.text])
    · intro c hc
      exact (List.mem_append.1 hc).elim List.eq_of_mem_replicate (hsound.lineEnds c)

/-! ## Reads with patterns -/

lemma cutAt_used {span : Span} (h : span.start < span.stop) (hle : span.stop ≤ text.length) :
    text = (cutAt text span).1 ++ (cutAt text span).2 ++ text.drop span.stop ∧
      (cutAt text span).1 ++ (cutAt text span).2 ≠ [] := by
  have hlength : span.start + span.length = span.stop := by
    rw [Span.length]
    omega
  have htake : (cutAt text span).1 ++ (cutAt text span).2 = text.take span.stop := by
    rw [cutAt, ← hlength, List.take_add]
  rw [htake]
  refine ⟨(List.take_append_drop _ _).symm, ?_⟩
  rw [Ne, List.take_eq_nil_iff, not_or, ← List.length_eq_zero_iff]
  omega

lemma soundRecord_of_patternRecord {p : Pattern} (h : PatternRecord p text cut rest) :
    SoundRecord (.pattern p) text cut rest := by
  cases h with
  | found hfind =>
    obtain ⟨hlt, hle⟩ := Regex.Automaton.findUsing_within hfind
    obtain ⟨htext, hne⟩ := cutAt_used hlt hle
    exact soundRecord_some htext hne
  | unmatched _ hne => exact soundRecord_some (by simp) (by simpa using hne)
  | nothing _ => exact soundRecord_none _

/-- A pattern may take a match for the end of a record that more text would have changed.  The text before
the match, the match and the text behind it are all the same what there was. -/
lemma divides_sound_pattern (p : Pattern) : Divides (.pattern p) (SoundRecord (.pattern p)) where
  ready b cut b' h todo _ := by
    rw [ready?_pattern] at h
    cases hfind : p.findUsing b.text with
    | none => simp [hfind] at h
    | some span =>
      obtain ⟨hlt, hle⟩ := Regex.Automaton.findUsing_within hfind
      obtain ⟨htext, hne⟩ := cutAt_used hlt hle
      simp only [hfind] at h
      split_ifs at h
      cases h
      exact soundRecord_some ((congrArg (· ++ todo) htext).trans (List.append_assoc _ _ _)) hne
  last before b _ htext hended := soundRecord_of_patternRecord (last_pattern p htext hended)
  skipped _ _ _ _ := id

/-- Reading with any separator is sound. -/
lemma divides_sound (sep : RecordSep) : Divides sep (SoundRecord sep) := by
  cases hsep : sep.isPattern with
  | false =>
    have hnext := divides_nextRecord hsep
    exact ⟨fun b cut b' h todo htodo => soundRecord_of_nextRecord (hnext.ready b cut b' h todo htodo),
      fun before b h htext hended => soundRecord_of_nextRecord (hnext.last before b h htext hended),
      fun b _ _ _ h => h.of_skipped b⟩
  | true =>
    cases sep with
    | pattern p => exact divides_sound_pattern p
    | char c | paragraph => cases hsep

/-! ## All reads -/

/-- Readings one after the other take up a text but for what remains, each of them sound for all the text
behind it. -/
structure Conserves (text : List Char) (readings : List Reading) (unread : List Char) : Prop where
  whole : text = readings.flatMap Reading.text ++ unread
  sound : ∀ before r behind, readings = before ++ r :: behind → Sound r (behind.flatMap Reading.text ++ unread)

lemma Conserves.cons {text rest unread : List Char} {r : Reading} {readings : List Reading}
    (htext : text = r.text ++ rest) (hr : Sound r rest) (h : Conserves rest readings unread) :
    Conserves text (r :: readings) unread := by
  refine ⟨by rw [htext, h.whole, List.flatMap_cons, List.append_assoc], fun before r' behind heq => ?_⟩
  cases before with
  | nil =>
    obtain ⟨rfl, rfl⟩ := List.cons.inj heq
    rwa [← h.whole]
  | cons _ before => exact h.sound before r' behind (List.cons.inj heq).2

/-- Sound records one after another conserve a text. -/
lemma Divisions.conserves {seps : List RecordSep} {unread : List Char} {cuts : List (Option Cut)}
    (h : Divisions SoundRecord seps text cuts unread) :
    ∃ readings, readings.map Reading.sep = seps ∧ readings.map Reading.cut = cuts ∧
      Conserves text readings unread := by
  induction h with
  | nil => exact ⟨[], rfl, rfl, rfl, by simp⟩
  | @cons sep _ _ _ _ cut _ first _ ih =>
    obtain ⟨skipped, htext, hr⟩ := first
    obtain ⟨readings, rfl, rfl, hreadings⟩ := ih
    exact ⟨⟨sep, skipped, cut⟩ :: readings, rfl, rfl, .cons htext hr hreadings⟩

/-- Reads of a text with any separators, characters, blank lines or patterns, in any order, neither lose nor
repeat nor move any of it, in whatever pieces its bytes arrive: it is the text of the readings, one after the
other, and the text that remains.  Readings skip line ends before paragraphs and nothing else, every record
takes up some text, and there is none only if nothing but skipped line ends was left. -/
theorem readEach_conserves {supply : Supply σ ε} {s : σ} {text : List Char}
    (h : supply.Delivers s (Utf8.encode text)) (seps : List RecordSep) :
    ∃ readings b s' todo, readings.map Reading.sep = seps ∧
      readEach supply seps {} s = (.ok (readings.map Reading.cut), b, s') ∧ b.Awaits supply s' todo ∧
      Conserves text readings (b.text ++ todo) := by
  obtain ⟨cuts, b, s', todo, hread, hawaits, hcuts⟩ :=
    readEach_divides (fun sep _ => divides_sound sep) (awaits_open h)
  obtain ⟨readings, hseps, rfl, hreadings⟩ := hcuts.conserves
  exact ⟨readings, b, s', todo, hseps, hread, hawaits, hreadings⟩

/-- A text in pieces that cut a character and a match, read up to a match, by paragraphs and up to a
character. -/
theorem readEach_conserves_mixed :
    ∃ p readings b s' todo, Pattern.compile "ab(cd)?" = .ok p ∧
      readings.map Reading.sep = [.pattern p, .paragraph, .char ';', .pattern p] ∧
      readEach (Supply.pieces : Supply _ Empty) [.pattern p, .paragraph, .char ';', .pattern p] {}
          [[0xC3], [0xA9, 0x61, 0x62, 0x63], [0x64, 0x0A, 0x0A, 0x0A], [0x78, 0x3B]] =
        (.ok (readings.map Reading.cut), b, s') ∧
      b.Awaits (Supply.pieces : Supply _ Empty) s' todo ∧
      Conserves ['é', 'a', 'b', 'c', 'd', '\n', '\n', '\n', 'x', ';'] readings (b.text ++ todo) := by
  obtain ⟨readings, b, s', todo, hreadings⟩ := readEach_conserves
    (h := show (Supply.pieces : Supply _ Empty).Delivers
        [[0xC3], [0xA9, 0x61, 0x62, 0x63], [0x64, 0x0A, 0x0A, 0x0A], [0x78, 0x3B]]
        (Utf8.encode ['é', 'a', 'b', 'c', 'd', '\n', '\n', '\n', 'x', ';']) from Supply.delivers_pieces _)
    [.pattern _, .paragraph, .char ';', .pattern _]
  exact ⟨_, readings, b, s', todo, rfl, hreadings⟩

end Buffer

end Awk
