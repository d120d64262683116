import Awk.Machine.Functions
import Awk.Proofs.Machine.Context
import Awk.Proofs.Regex.Search

/-!
# Substitution

The matches of a pattern in a text lie one behind the other, so the text is made of them and of what is between them.
A substitution keeps what is between them, and puts in place of each match what the replacement says for it.
-/

namespace Awk

open Regex (Span)

/-! ## Matches in a text -/

namespace Regex

/-- Spans that lie one behind the other between two places. -/
def InOrder (low high : Nat) : List Span → Prop
  | [] => True
  | s :: rest => s.Within low high ∧ InOrder s.stop high rest

namespace Automaton

variable (a : Automaton)

lemma findAllFrom_inOrder (fuel place : Nat) (before : Option Char) (text : List Char) (last : Option Nat) :
    InOrder place (place + text.length) (a.findAllFrom fuel place before text last) := by
  induction fuel generalizing place before text last with
  | zero => trivial
  | succ fuel ih =>
    rw [findAllFrom]
    cases hnext : a.findNext place before text last with
    | none => trivial
    | some s =>
      have hwithin := findNext_within hnext
      have htail := ih s.stop (skip (s.stop - place) before text).1 (skip (s.stop - place) before text).2 (some s.stop)
      have hlength : s.stop + (skip (s.stop - place) before text).2.length = place + text.length := by
        have := hwithin.low_le.trans hwithin.start_le
        have := hwithin.le_high
        rw [length_skip]
        omega
      rw [hlength] at htail
      exact ⟨hwithin, htail⟩

end Automaton

variable (p : Pattern) (text : List Char)

lemma Pattern.toList_find : (p.find text).toList = (p.findAll text).take 1 := by
  rw [find, findAll, Automaton.findAll, Automaton.findAllFrom, Automaton.findNext_first, ← Automaton.find]
  cases p.automaton.find text <;> rfl

lemma InOrder.take_one {low high : Nat} {spans : List Span} (h : InOrder low high spans) :
    InOrder low high (spans.take 1) := by
  cases spans with
  | nil => exact h
  | cons s rest => exact ⟨h.1, trivial⟩

lemma Pattern.findAll_inOrder : InOrder 0 (0 + text.length) (p.findAll text) :=
  p.automaton.findAllFrom_inOrder _ 0 none text none

end Regex

namespace Text

/-- The places of matches in a text made of pieces, each a match with what is before it. -/
def places (place : Nat) : List (List Char × List Char) → List Span
  | [] => []
  | (gap, matched) :: rest =>
    ⟨place + gap.length, place + gap.length + matched.length⟩ :: places (place + gap.length + matched.length) rest

lemma length_places (place : Nat) (pieces : List (List Char × List Char)) :
    (places place pieces).length = pieces.length := by
  induction pieces generalizing place with
  | nil => rfl
  | cons piece rest ih => rw [places, List.length_cons, List.length_cons, ih]

/-- A text whose pieces are given, with another text for every match. -/
def assemble (f : List Char → List Char) (pieces : List (List Char × List Char)) (last : List Char) : List Char :=
  pieces.flatMap (fun piece => piece.1 ++ f piece.2) ++ last

lemma assemble_cons (f : List Char → List Char) (gap matched : List Char) (pieces : List (List Char × List Char))
    (last : List Char) : assemble f ((gap, matched) :: pieces) last = gap ++ (f matched ++ assemble f pieces last) := by
  simp [assemble]

/-- A match cuts the text into what is before it, the match itself and what is behind it. -/
lemma cut_at {s : Span} {place : Nat} {text : List Char} (h : s.Within place (place + text.length)) :
    ∃ gap matched behind, text = gap ++ (matched ++ behind) ∧
      s = ⟨place + gap.length, place + gap.length + matched.length⟩ := by
  obtain ⟨start, stop⟩ := s
  obtain ⟨hlow, hle, hhigh⟩ := h
  refine ⟨text.take (start - place), (text.drop (start - place)).take (stop - start),
    (text.drop (start - place)).drop (stop - start), ?_, ?_⟩
  · rw [List.take_append_drop, List.take_append_drop]
  · simp only [List.length_take, List.length_drop, Span.mk.injEq] at hlow hle hhigh ⊢
    omega

lemma length_cut (place : Nat) (gap matched behind : List Char) :
    place + (gap ++ (matched ++ behind)).length = place + gap.length + matched.length + behind.length := by
  simp only [List.length_append, Nat.add_assoc]

/-- A text is made of the matches in it and what is between them, and so is the text with the matches replaced. -/
lemma replaceSpans_eq_assemble (replacement : List Char) {spans : List Span} {place : Nat} {text : List Char}
    (h : Regex.InOrder place (place + text.length) spans) : ∃ pieces last,
      text = assemble id pieces last ∧ places place pieces = spans ∧
      replaceSpans replacement spans place text =
        assemble (fun matched => expandReplacement matched replacement) pieces last := by
  induction spans generalizing place text with
  | nil => exact ⟨[], text, rfl, rfl, rfl⟩
  | cons s rest ih =>
    obtain ⟨gap, matched, behind, rfl, rfl⟩ := cut_at h.1
    rw [length_cut] at h
    obtain ⟨pieces, last, htext, hplaces, hreplaced⟩ := ih h.2
    refine ⟨(gap, matched) :: pieces, last, ?_, ?_, ?_⟩
    · rw [assemble_cons, id_eq, ← htext]
    · rw [places, hplaces]
    · rw [assemble_cons, ← hreplaced, replaceSpans]
      simp [Span.length]

/-! ## Replacements -/

/-- A text as a replacement for itself: with a backslash before every `&` and every backslash. -/
def quote (text : List Char) : List Char := text.flatMap fun c => if c = '&' ∨ c = '\\' then ['\\', c] else [c]

lemma expandReplacement_quote (matched text : List Char) : expandReplacement matched (quote text) = text := by
  induction text with
  | nil => rfl
  | cons c text ih =>
    rw [quote, List.flatMap_cons, ← quote]
    by_cases h : c = '&' ∨ c = '\\'
    · rw [if_pos h]
      obtain rfl | rfl := h <;> exact congrArg _ ih
    · rw [if_neg h, List.singleton_append, expandReplacement, ih]
      · exact fun _ hback _ => h (.inr hback)
      · exact fun _ hback _ => h (.inr hback)
      · exact fun hamp => h (.inl hamp)

lemma assemble_ampersand (pieces : List (List Char × List Char)) (last : List Char) :
    assemble (fun matched => expandReplacement matched ['&']) pieces last = assemble id pieces last := by
  have h (matched : List Char) : expandReplacement matched ['&'] = matched := List.append_nil matched
  simp only [h]
  rfl

end Text

namespace Run

open Text

variable {m : Machine} {p : Regex.Pattern} {cache : Regex.PatternCache}

lemma pattern_of_get {r : String} (h : m.cache.get r = (.ok p, cache)) : pattern r m = .ok p { m with cache } := by
  rw [pattern, lookUp, get_bind_apply, h]
  rfl

section

variable (source : Value) (h : m.cache.get (source.text m.specials.convfmt) = (.ok p, cache))
  (replacement value : Value) (all : Bool)

include h

lemma substitute_of_get :
    let text := (value.text m.specials.convfmt).toList
    let spans := if all then p.findAll text else (p.findAll text).take 1
    substitute source replacement value all m = .ok (if spans.isEmpty then value else
      .str (String.ofList (replaceSpans (replacement.text m.specials.convfmt).toList spans 0 text)), spans.length)
      { m with cache } := by
  intro text spans
  have hspans : (if all then p.findAll text else (p.find text).toList) = spans := by rw [p.toList_find]
  change (pattern (source.text m.specials.convfmt) >>= _) m = _
  rw [bind_apply, pattern_of_get h]
  change (if (if all then p.findAll text else (p.find text).toList).isEmpty then pure (value, 0)
    else pure (.str (String.ofList (replaceSpans (replacement.text m.specials.convfmt).toList
      (if all then p.findAll text else (p.find text).toList) 0 text)),
      (if all then p.findAll text else (p.find text).toList).length) : Run (Value × Nat)) { m with cache } = _
  rw [hspans]
  cases spans <;> rfl

/-- A substitution finds the matches of the pattern, or the first one.  The text is made of pieces, each a match with
what is before it, and a rest; in the new text every match is replaced by what the replacement says for it and all else
is the same.  Without a match the value stays as it is.  The replacement `&` gives the text back, and a text that is
quoted stands for itself in place of every match. -/
theorem substitute_pieces :
    let text := (value.text m.specials.convfmt).toList
    let fresh := (replacement.text m.specials.convfmt).toList
    ∃ (pieces : List (List Char × List Char)) (last : List Char),
      text = assemble id pieces last ∧
      places 0 pieces = (if all then p.findAll text else (p.findAll text).take 1) ∧
      substitute source replacement value all m = .ok (if pieces.isEmpty then value else
        .str (String.ofList (assemble (fun matched => expandReplacement matched fresh) pieces last)), pieces.length)
          { m with cache } ∧
      (fresh = ['&'] → assemble (fun matched => expandReplacement matched fresh) pieces last = text) ∧
      ∀ t, fresh = quote t → assemble (fun matched => expandReplacement matched fresh) pieces last =
        assemble (fun _ => t) pieces last := by
  intro text fresh
  have horder : Regex.InOrder 0 (0 + text.length) (if all then p.findAll text else (p.findAll text).take 1) := by
    split
    · exact p.findAll_inOrder text
    · exact (p.findAll_inOrder text).take_one
  obtain ⟨pieces, last, htext, hplaces, hreplaced⟩ := replaceSpans_eq_assemble fresh horder
  refine ⟨pieces, last, htext, hplaces, ?_, fun hfresh => ?_, fun t hfresh => ?_⟩
  · rw [substitute_of_get source h replacement value all, hreplaced, ← hplaces, length_places]
    cases pieces <;> rfl
  · rw [hfresh, assemble_ampersand, ← htext]
  · simp only [hfresh, expandReplacement_quote]

end

/-- Two matches next to each other, of a pattern that is kept. -/
theorem substitute_pieces_two :
    let p : Regex.Pattern := ⟨"b", ⟨#[.set (.single 'b') 1, .accept], 0⟩⟩
    let m : Machine := { program := default, config := {}, cache := ⟨{("b", p)}⟩ }
    ∃ pieces last v, "abb".toList = assemble id pieces last ∧ places 0 pieces = [⟨1, 2⟩, ⟨2, 3⟩] ∧
      substitute (.str "b") (.str "<&>") (.str "abb") true m = .ok (v, pieces.length) m := by
  intro p m
  have hget : m.cache.get "b" = (.ok p, m.cache) := by
    simp [m, Regex.PatternCache.get]
  have hspans : p.findAll "abb".toList = [⟨1, 2⟩, ⟨2, 3⟩] := by decide +kernel
  obtain ⟨pieces, last, htext, hplaces, hrun, -⟩ := substitute_pieces (.str "b") hget (.str "<&>") (.str "abb") true
  rw [if_pos rfl] at hplaces
  exact ⟨pieces, last, _, htext, hplaces.trans hspans, hrun⟩

end Run

end Awk
