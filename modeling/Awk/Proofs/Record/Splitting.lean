import Awk.Proofs.Text.Substitution
import Awk.Proofs.World.Files

/-!
# Fields of a text

Splitting loses nothing but separators.  The fields and what is between them make up the text, and fields that are
joined again are split in the same way.
-/

namespace Awk.FieldSep

open Regex (InOrder Pattern Span)
open Text (assemble places)

variable {text : List Char} {c : Char}

/-! ## Runs between blanks -/

/-- Space, tab and newline. -/
abbrev Blank (c : Char) : Prop := c = ' ' ∨ c = '\t' ∨ c = '\n'

/-- The runs of a text without blanks, each as long as it can be, in their order. -/
inductive Runs : List Char → List (List Char) → Prop
  | nil : Runs [] []
  | blank {c text runs} : Blank c → Runs text runs → Runs (c :: text) runs
  | run {run text runs} : run ≠ [] → (∀ c ∈ run, ¬ Blank c) → (∀ c ∈ text.head?, Blank c) →
    Runs text runs → Runs (run ++ text) (run :: runs)

lemma isBlank_iff : isBlank c = true ↔ Blank c := by
  simp [isBlank, or_assoc]

lemma splitLine_blanks (text : List Char) : blanks.splitLine text = (text.splitOnP isBlank).filter (!·.isEmpty) := by
  cases text <;> rfl

lemma splitLine_blank (h : Blank c) : blanks.splitLine (c :: text) = blanks.splitLine text := by
  rw [splitLine_blanks, splitLine_blanks, List.splitOnP_cons_eq_if_modifyHead, if_pos (isBlank_iff.mpr h)]
  rfl

lemma splitLine_run {run : List Char} (hne : run ≠ []) (hrun : ∀ c ∈ run, ¬ Blank c)
    (htext : ∀ c ∈ text.head?, Blank c) : blanks.splitLine (run ++ text) = run :: blanks.splitLine text := by
  have hrun' (c : Char) (hc : c ∈ run) : isBlank c = false := Bool.eq_false_iff.mpr (isBlank_iff.not.mpr (hrun c hc))
  cases text with
  | nil =>
    rw [List.append_nil, splitLine_blanks, List.splitOnP_eq_singleton hrun']
    simp [hne, splitLine]
  | cons c text =>
    have hc : Blank c := htext c rfl
    rw [splitLine_blank hc, splitLine_blanks, splitLine_blanks,
      List.splitOnP_append_cons_of_forall_mem hrun' c (isBlank_iff.mpr hc)]
    simp [hne]

variable {runs fields : List (List Char)} {spans : List Span} {field : List Char} {d : Char}
   {sep : FieldSep}

lemma Runs.splitLine_eq (h : Runs text runs) : blanks.splitLine text = runs := by
  induction h with
  | nil => rfl
  | blank hc _ ih => rw [splitLine_blank hc, ih]
  | run hne hrun htext _ ih => rw [splitLine_run hne hrun htext, ih]

lemma exists_runs (text : List Char) : ∃ runs, Runs text runs := by
  induction hn : text.length using Nat.strong_induction_on generalizing text with
  | _ n ih =>
    cases text with
    | nil => exact ⟨[], .nil⟩
    | cons c text =>
      subst hn
      cases hc : isBlank c with
      | true =>
        obtain ⟨runs, hruns⟩ := ih text.length (Nat.lt_succ_self _) text rfl
        exact ⟨runs, .blank (isBlank_iff.mp hc) hruns⟩
      | false =>
        -- The run goes up to the next blank.
        have hrest : (text.dropWhile (!isBlank ·)).length < (c :: text).length :=
          Nat.lt_succ_of_le (List.dropWhile_suffix _).length_le
        obtain ⟨runs, hruns⟩ := ih _ hrest _ rfl
        refine ⟨(c :: text.takeWhile (!isBlank ·)) :: runs, ?_⟩
        have htext : c :: text = (c :: text.takeWhile (!isBlank ·)) ++ text.dropWhile (!isBlank ·) := by
          rw [List.cons_append, List.takeWhile_append_dropWhile]
        rw [htext]
        refine .run (List.cons_ne_nil _ _) (fun d hd => ?_) (fun d hd => ?_) hruns
        · rw [← isBlank_iff, Bool.not_eq_true]
          rcases List.mem_cons.mp hd with rfl | hd
          · exact hc
          · simpa using List.mem_takeWhile_imp hd
        · have hhead := List.head?_dropWhile_not (!isBlank ·) text
          rw [Option.mem_def.mp hd] at hhead
          simpa [isBlank_iff] using hhead

lemma splitLine_blanks_iff : blanks.splitLine text = fields ↔ Runs text fields := by
  obtain ⟨runs, hruns⟩ := exists_runs text
  refine ⟨fun h => ?_, Runs.splitLine_eq⟩
  rwa [← h, hruns.splitLine_eq]

/-- Runs with one blank between each two. -/
lemma Runs.joined (h : Runs text runs) : Runs ([' '].intercalate runs) runs := by
  induction h with
  | nil => exact .nil
  | blank _ _ ih => exact ih
  | @run run text runs hne hrun _ _ ih =>
    cases runs with
    | nil => simpa using Runs.run hne hrun (by simp) .nil
    | cons next runs =>
      rw [List.intercalate_cons_cons, List.append_assoc, List.singleton_append]
      exact .run hne hrun (by simp [Blank]) (.blank (.inl rfl) ih)

/-! ## Pieces between matches -/

lemma InOrder.of_le {low low' high : Nat} (h : InOrder low high spans) (hlow : low' ≤ low) :
    InOrder low' high spans := by
  cases spans with
  | nil => exact h
  | cons s rest => exact ⟨h.1.mono hlow le_rfl, h.2⟩

/-- The pieces are what is between the matches that are not empty. -/
lemma between_eq {place : Nat} (h : InOrder place (place + text.length) spans) :
    ∃ pieces last, text = assemble id pieces last ∧ places place pieces = spans.filter (!·.isEmpty) ∧
      between spans place text = pieces.map Prod.fst ++ [last] := by
  induction spans generalizing place text with
  | nil => exact ⟨[], text, rfl, rfl, rfl⟩
  | cons s rest ih =>
    cases hs : s.isEmpty with
    | true =>
      obtain ⟨pieces, last, htext, hplaces, hpieces⟩ := ih (InOrder.of_le h.2 (h.1.low_le.trans h.1.start_le))
      refine ⟨pieces, last, htext, ?_, ?_⟩
      · rw [hplaces, List.filter_cons_of_neg (by simp [hs])]
      · rw [between, if_pos hs, hpieces]
    | false =>
      obtain ⟨gap, matched, behind, rfl, rfl⟩ := Text.cut_at h.1
      rw [Text.length_cut] at h
      obtain ⟨pieces, last, htext, hplaces, hpieces⟩ := ih h.2
      refine ⟨(gap, matched) :: pieces, last, ?_, ?_, ?_⟩
      · rw [Text.assemble_cons, id_eq, ← htext]
      · rw [places, hplaces, List.filter_cons_of_pos (by simp [hs])]
      · rw [between, if_neg (by simp [hs])]
        simp [Span.length, hpieces]

lemma splitLine_pattern (p : Pattern) (text : List Char) : ∃ pieces last, text = assemble id pieces last ∧
    places 0 pieces = (p.findAll text).filter (!·.isEmpty) ∧
    (pattern p).splitLine text = if text = [] then [] else pieces.map Prod.fst ++ [last] := by
  obtain ⟨pieces, last, htext, hplaces, hpieces⟩ := between_eq (p.findAll_inOrder text)
  refine ⟨pieces, last, htext, hplaces, ?_⟩
  rw [splitLine, ← hpieces]
  cases text <;> rfl

/-! ## Fields in a line -/

lemma splitLine_char (h : text ≠ []) : (char c).splitLine text = text.splitOn c := by
  rw [splitLine, if_neg (by simpa using h)]

lemma notMem_of_mem_splitLine (h : field ∈ (char c).splitLine text) : c ∉ field := by
  cases text with
  | nil => cases h
  | cons d text =>
    rw [splitLine_char (List.cons_ne_nil d text)] at h
    exact notMem_of_mem_splitOn c _ field h

lemma intercalate_splitLine (c : Char) (text : List Char) : [c].intercalate ((char c).splitLine text) = text := by
  cases text with
  | nil => rfl
  | cons d text => rw [splitLine_char (List.cons_ne_nil d text), List.intercalate_splitOn]

lemma splitLine_chars (text : List Char) : chars.splitLine text = text.map ([·]) := by
  cases text <;> rfl

lemma flatten_splitLine (text : List Char) : (chars.splitLine text).flatten = text := by
  rw [splitLine_chars]
  exact List.flatMap_singleton' text

lemma mem_intercalate (h : field ∈ fields) (hd : d ∈ field) :
    d ∈ [c].intercalate fields := by
  induction fields with
  | nil => cases h
  | cons first rest ih =>
    cases rest with
    | nil =>
      obtain rfl := List.mem_singleton.mp h
      rwa [List.intercalate_singleton]
    | cons next rest =>
      rw [List.intercalate_cons_cons]
      rcases List.mem_cons.mp h with rfl | h
      · exact List.mem_append_left _ (List.mem_append_left _ hd)
      · exact List.mem_append_right _ (ih h)

/-- The characters of a field are characters of the text. -/
lemma mem_text_of_mem_splitLine (hsep : sep ≠ blanks)
    (h : field ∈ sep.splitLine text) (hd : d ∈ field) : d ∈ text := by
  cases sep with
  | blanks => exact absurd rfl hsep
  | char c =>
    rw [← intercalate_splitLine c text]
    exact mem_intercalate h hd
  | chars =>
    rw [← flatten_splitLine text]
    exact List.mem_flatten_of_mem h hd
  | pattern p =>
    obtain ⟨pieces, last, htext, -, hfields⟩ := splitLine_pattern p text
    rw [hfields] at h
    split at h
    · cases h
    rw [htext, assemble]
    rcases List.mem_append.mp h with h | h
    · obtain ⟨piece, hpiece, rfl⟩ := List.mem_map.mp h
      exact List.mem_append_left _ (List.mem_flatMap_of_mem hpiece (List.mem_append_left _ hd))
    · obtain rfl := List.mem_singleton.mp h
      exact List.mem_append_right _ hd

/-! ## Fields in the lines of a paragraph -/

lemma split_lines (hsep : sep ≠ blanks) (text : List Char) :
    sep.split text true = (text.splitOn '\n').flatMap sep.splitLine := by
  cases sep with
  | blanks => exact absurd rfl hsep
  | _ => rfl

lemma split_line (sep : FieldSep) (text : List Char) : sep.split text false = sep.splitLine text := by
  cases sep <;> rfl

lemma newline_notMem_of_mem_split (hsep : sep ≠ blanks)
    (h : field ∈ sep.split text true) : '\n' ∉ field := by
  rw [split_lines hsep] at h
  obtain ⟨line, hline, hfield⟩ := List.mem_flatMap.mp h
  intro hnewline
  exact notMem_of_mem_splitOn '\n' text line hline (mem_text_of_mem_splitLine hsep hfield hnewline)

lemma split_blanks (text : List Char) (paragraph : Bool) : blanks.split text paragraph = blanks.splitLine text := by
  cases paragraph <;> rfl

lemma split_joined_blanks (text : List Char) (paragraph : Bool) :
    blanks.split ([' '].intercalate (blanks.split text paragraph)) paragraph = blanks.split text paragraph := by
  obtain ⟨runs, hruns⟩ := exists_runs text
  rw [split_blanks, split_blanks, hruns.splitLine_eq, hruns.joined.splitLine_eq]

/-- The fields of a text and what separates them make up the text.

Between characters there are no such characters, and joined with them the fields give the text back; without a
separator the fields are the characters.  Blanks leave the runs between them, each as long as it can be, and matches
of a pattern leave what is between those that are not empty.  In a paragraph every line has its own fields, unless blanks
separate them.  Fields that are joined as they were separated are split into the same fields again. -/
theorem split_faithful (text : List Char) :
    (∀ c, [c].intercalate ((char c).split text false) = text ∧ ∀ field ∈ (char c).split text false, c ∉ field) ∧
    chars.split text false = text.map ([·]) ∧
    (∀ paragraph fields, blanks.split text paragraph = fields ↔ Runs text fields) ∧
    (∀ p : Pattern, ∃ pieces last, text = assemble id pieces last ∧
      places 0 pieces = (p.findAll text).filter (!·.isEmpty) ∧
      (pattern p).split text false = if text = [] then [] else pieces.map Prod.fst ++ [last]) ∧
    (∀ sep, sep ≠ blanks → ∃ lines, ['\n'].intercalate lines = text ∧ (∀ line ∈ lines, '\n' ∉ line) ∧
      sep.split text true = lines.flatMap (sep.split · false) ∧ ∀ field ∈ sep.split text true, '\n' ∉ field) ∧
    (∀ paragraph, blanks.split ([' '].intercalate (blanks.split text paragraph)) paragraph =
      blanks.split text paragraph) ∧
    (∀ c, (char c).split ([c].intercalate ((char c).split text false)) false = (char c).split text false) ∧
    chars.split (chars.split text false).flatten false = chars.split text false := by
  refine ⟨fun c => ?_, ?_, fun paragraph fields => ?_, fun p => ?_, fun sep hsep => ?_, split_joined_blanks text,
    fun c => ?_, ?_⟩
  · rw [split_line]
    exact ⟨intercalate_splitLine c text, fun field => notMem_of_mem_splitLine⟩
  · rw [split_line, splitLine_chars]
  · rw [split_blanks, splitLine_blanks_iff]
  · simp only [split_line]
    exact splitLine_pattern p text
  · refine ⟨text.splitOn '\n', List.intercalate_splitOn '\n', notMem_of_mem_splitOn '\n' text, ?_,
      fun field => newline_notMem_of_mem_split hsep⟩
    simp only [split_line]
    exact split_lines hsep text
  · rw [split_line, split_line, intercalate_splitLine]
  · rw [split_line, split_line, flatten_splitLine]

end Awk.FieldSep
