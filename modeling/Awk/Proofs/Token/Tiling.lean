import Mathlib
import Awk.Token.Lexer

/-!
# Tokens tile the text

A program text is its tokens one after the other, with blanks, continued lines and comments between them.
Every token tells the bytes it covers, and the line and the column it starts at.
-/

namespace Awk

/-! ## Places in a text -/

/-- The number of bytes of a text. -/
def byteSize (cs : List Char) : Nat := (String.ofList cs).utf8ByteSize

lemma byteSize_append (cs ds : List Char) : byteSize (cs ++ ds) = byteSize cs + byteSize ds := by
  simp [byteSize]

lemma byteSize_pos {cs : List Char} (h : cs ≠ []) : 0 < byteSize cs := by
  obtain ⟨c, cs, rfl⟩ := List.exists_cons_of_ne_nil h
  have hc : byteSize [c] = c.utf8Size := by simp [byteSize]
  rw [← List.singleton_append, byteSize_append, hc]
  have := c.utf8Size_pos
  omega

/-- The place behind a text: the bytes of the text, the lines that end in it, and the characters since the
last of them. -/
def Position.behind (cs : List Char) : Position :=
  ⟨byteSize cs, 1 + cs.count '\n', 1 + (cs.reverse.takeWhile (· ≠ '\n')).length⟩

lemma Position.after_append (p : Position) (cs ds : List Char) : p.after (cs ++ ds) = (p.after cs).after ds :=
  List.foldl_append

lemma Position.start_after (cs : List Char) : start.after cs = behind cs := by
  induction cs using List.reverseRecOn with
  | nil => rfl
  | append_singleton cs c ih =>
    have hsize : byteSize (cs ++ [c]) = byteSize cs + c.utf8Size := by simp [byteSize]
    rw [after_append, ih]
    change (behind cs).next c = _
    by_cases hc : c = '\n'
    · subst hc
      simp [next, behind, hsize, Nat.add_assoc]
    · simp [next, behind, hc, hsize, Nat.add_comm]

lemma Position.behind_append (before s : List Char) : behind (before ++ s) = (behind before).after s := by
  rw [← start_after, ← start_after, after_append]

/-! ## Between tokens -/

namespace Lexer

/-- Blanks, continued lines, and perhaps a comment, which ends where its line or the text does; `rest` stands
behind them. -/
inductive Gap (rest : List Char) : List Char → Prop where
  | nil : Gap rest []
  | blank {c : Char} {s : List Char} (hc : c ∈ [' ', '\t', '\r']) (h : Gap rest s) : Gap rest (c :: s)
  | continued {e s : List Char} (he : e ∈ [['\n'], ['\r'], ['\r', '\n']]) (h : Gap rest s) :
      Gap rest ('\\' :: e ++ s)
  | comment {s : List Char} (hs : '\n' ∉ s) (hrest : ∀ c ∈ rest.head?, c = '\n') : Gap rest ('#' :: s)

lemma take_blanks_comment (s : List Char) : '\n' ∉ s.take (blanks true s) ∧
    ∀ c ∈ (s.drop (blanks true s)).head?, c = '\n' := by
  induction s with
  | nil => simp [blanks]
  | cons c s ih =>
    by_cases hc : c = '\n'
    · simp [hc, blanks]
    · rw [blanks] <;> simp_all [Ne.symm hc]

lemma take_blanks_gap (s : List Char) : Gap (s.drop (blanks false s)) (s.take (blanks false s)) := by
  generalize hb : false = b
  fun_induction blanks b s with
  | case1 | case2 => exact .nil
  | case3 => cases hb
  | case4 s ih => exact .comment (take_blanks_comment s).1 (take_blanks_comment s).2
  | case5 s ih => exact .continued (e := ['\n']) (by simp) (ih rfl)
  | case6 s ih => exact .continued (e := ['\r', '\n']) (by simp) (ih rfl)
  | case7 s hne ih => exact .continued (e := ['\r']) (by simp) (ih rfl)
  | case8 c s _ _ _ _ _ hc ih => exact .blank (by simpa using hc) (ih rfl)
  | case9 => exact .nil

/-! ## Tiles -/

/-- The token covers `text`, which stands behind `before`. -/
structure Covers (t : Token) (before text : List Char) : Prop where
  start : t.extent.start = byteSize before
  stop : t.extent.stop = byteSize (before ++ text)
  line : t.extent.line = 1 + before.count '\n'
  col : t.extent.col = 1 + (before.reverse.takeWhile (· ≠ '\n')).length

lemma covers_between (kind : Token.Kind) (before text : List Char) :
    Covers ⟨kind, .between (.behind before) (.behind (before ++ text))⟩ before text := ⟨rfl, rfl, rfl, rfl⟩

/-- The tokens of a text that stands behind `before`. -/
inductive Tiles : (before s : List Char) → List Token → Prop where
  | eof {before gap : List Char} {t : Token} (hgap : Gap [] gap) (hkind : t.kind = .mark .eof)
      (ht : Covers t (before ++ gap) []) : Tiles before gap [t]
  | token {before gap text rest : List Char} {t : Token} {tokens : List Token} (hgap : Gap (text ++ rest) gap)
      (htext : text ≠ []) (ht : Covers t (before ++ gap) text)
      (h : Tiles (before ++ gap ++ text) rest tokens) : Tiles before (gap ++ text ++ rest) (t :: tokens)

lemma tiles_lexFrom {before s : List Char} {tokens result : List Token}
    (h : lexFrom (.behind before) tokens s = .ok result) :
    ∃ more, result = tokens.reverse ++ more ∧ Tiles before s more := by
  generalize hpos : Position.behind before = pos at h
  fun_induction lexFrom pos tokens s generalizing before with
  | case1 pos tokens s skipped last =>
    rename_i hd
    have hgap := take_blanks_gap s
    have hs := List.take_append_drop skipped s
    rw [hd, List.append_nil] at hs
    rw [hd, hs] at hgap
    have hlast : last = .behind (before ++ s) := by
      rw [Position.behind_append, hpos]
      exact congrArg pos.after hs
    obtain rfl := Except.ok.inj h
    refine ⟨[⟨.mark .eof, .between last last⟩], by simp, .eof hgap rfl ?_⟩
    simpa [hlast] using covers_between (.mark .eof) (before ++ s) []
  | case2 => cases h
  | case3 pos tokens s skipped first c rest hd kind used hscan stop =>
    rename_i ih
    have hgap := take_blanks_gap s
    have hs := List.take_append_drop skipped s
    have hrest : c :: rest = c :: rest.take used ++ rest.drop used := by simp
    rw [hd, hrest, ← List.append_assoc] at hs
    rw [hd, hrest] at hgap
    have hfirst : first = .behind (before ++ s.take skipped) := by rw [Position.behind_append, hpos]
    have hstop : stop = .behind (before ++ s.take skipped ++ c :: rest.take used) := by
      rw [Position.behind_append, ← hfirst]
    obtain ⟨more, rfl, htiles⟩ := ih hstop.symm h
    refine ⟨⟨kind, .between first stop⟩ :: more, by simp, ?_⟩
    rw [hfirst, hstop]
    have htoken := Tiles.token hgap (by simp) (covers_between kind ..) htiles
    rwa [hs] at htoken

/-! ## What tiles are -/

variable {before s : List Char} {tokens : List Token}

lemma Tiles.start_le (h : Tiles before s tokens) : ∀ t ∈ tokens, byteSize before ≤ t.extent.start := by
  induction h with
  | eof hgap hkind ht =>
    intro u hu
    rw [List.mem_singleton.mp hu, ht.start, byteSize_append]
    omega
  | token hgap htext ht h ih =>
    refine List.forall_mem_cons.mpr ⟨?_, fun u hu => ?_⟩
    · rw [ht.start, byteSize_append]
      omega
    · have := ih u hu
      rw [byteSize_append, byteSize_append] at this
      omega

lemma Tiles.pairwise (h : Tiles before s tokens) :
    tokens.Pairwise fun t u => t.extent.stop ≤ u.extent.start := by
  induction h with
  | eof => exact List.pairwise_singleton ..
  | token hgap htext ht h ih =>
    refine List.pairwise_cons.mpr ⟨fun u hu => ?_, ih⟩
    rw [ht.stop]
    exact h.start_le u hu

lemma Tiles.nonempty (h : Tiles before s tokens) : ∀ t ∈ tokens.dropLast, t.extent.start < t.extent.stop := by
  induction h with
  | eof => simp
  | @token before gap text rest t tokens hgap htext ht h ih =>
    have hne : tokens ≠ [] := by rintro rfl; cases h
    rw [List.dropLast_cons_of_ne_nil hne]
    refine List.forall_mem_cons.mpr ⟨?_, ih⟩
    have := byteSize_pos htext
    rw [ht.start, ht.stop, byteSize_append (before ++ gap)]
    omega

lemma Tiles.getLast? (h : Tiles before s tokens) : ∃ t, tokens.getLast? = some t ∧ t.kind = .mark .eof ∧
    t.extent.start = byteSize (before ++ s) ∧ t.extent.stop = byteSize (before ++ s) := by
  induction h with
  | @eof before gap t hgap hkind ht => exact ⟨t, rfl, hkind, ht.start, by rw [ht.stop, List.append_nil]⟩
  | @token before gap text rest t tokens hgap htext ht h ih =>
    obtain ⟨u, hu, hlast⟩ := ih
    refine ⟨u, by simp [List.getLast?_cons, hu], ?_⟩
    simpa [List.append_assoc] using hlast

end Lexer

open Lexer

/-- The tokens of a program text are increasing, not empty, and end with the text. -/
theorem Token.lex_tiles (source : String) (tokens : List Token) (h : Token.lex source = .ok tokens) :
    Tiles [] source.toList tokens ∧
    tokens.Pairwise (fun t u => t.extent.stop ≤ u.extent.start) ∧
    (∀ t ∈ tokens.dropLast, t.extent.start < t.extent.stop) ∧
    ∃ t, tokens.getLast? = some t ∧ t.kind = .mark .eof ∧ t.extent.start = source.utf8ByteSize ∧
      t.extent.stop = source.utf8ByteSize := by
  have h : lexFrom (.behind []) [] source.toList = .ok tokens := h
  obtain ⟨more, rfl, htiles⟩ := tiles_lexFrom h
  have hlast := htiles.getLast?
  rw [byteSize, List.nil_append, String.ofList_toList] at hlast
  exact ⟨htiles, htiles.pairwise, htiles.nonempty, hlast⟩

theorem Token.lex_tiles_comment : Tiles [] "x # y\n".toList
    [⟨.name "x", ⟨0, 1, 1, 1⟩⟩, ⟨.mark .newline, ⟨5, 6, 1, 6⟩⟩, ⟨.mark .eof, ⟨6, 6, 2, 1⟩⟩] :=
  (Token.lex_tiles "x # y\n" _ (by cbv)).1

end Awk
