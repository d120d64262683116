import Awk.Proofs.Record.Reader

/-!
# Records between characters and between blank lines

`NextRecord` says which record a text starts with, without a word about how the text arrives.
-/

namespace Awk

open Text

namespace RecordSep

def isPattern : RecordSep → Bool
  | pattern _ => true
  | _ => false

end RecordSep

namespace Buffer

abbrev lineEnds (n : Nat) : List Char := List.replicate n '\n'

lemma lineEnds_succ (n : Nat) : lineEnds (n + 1) = '\n' :: lineEnds n := List.replicate_succ

/-- A text that starts and ends with something else than a line end and has no blank line inside. -/
structure IsParagraph (text : List Char) : Prop where
  starts : ∃ c ∈ text.head?, c ≠ '\n'
  ends : text.getLast? ≠ some '\n'
  inside : ¬ lineEnds 2 <:+: text

/-- The record that a text starts with and what is left after it. -/
inductive NextRecord : RecordSep → Division where
  /-- The text up to the first separator. -/
  | character {c : Char} {record rest : List Char} (hrecord : c ∉ record) :
      NextRecord (.char c) (record ++ c :: rest) (some (record, [c])) rest
  /-- All text, where there is no separator. -/
  | lastCharacter {c : Char} {record : List Char} (hrecord : c ∉ record) (hne : record ≠ []) :
      NextRecord (.char c) record (some (record, [])) []
  | noCharacter {c : Char} : NextRecord (.char c) [] none []
  /-- Behind line ends, the text up to the first blank line or to the end; all line ends that follow end
  it. -/
  | paragraph {n k : Nat} {record rest : List Char} (hrecord : IsParagraph record)
      (hrest : rest.head? ≠ some '\n') (hend : 2 ≤ k ∨ rest = []) :
      NextRecord .paragraph (lineEnds n ++ (record ++ (lineEnds k ++ rest))) (some (record, lineEnds k)) rest
  | noParagraph {n : Nat} : NextRecord .paragraph (lineEnds n) none []

/-! ## One record at most -/

private lemma append_separator_inj {c : Char} {u v x y : List Char} (hu : c ∉ u) (hv : c ∉ v)
    (h : u ++ c :: x = v ++ c :: y) : u = v ∧ x = y := by
  induction u generalizing v with
  | nil =>
    cases v with
    | nil => simpa using h
    | cons a v =>
      obtain ⟨rfl, -⟩ := List.cons.inj h
      simp at hv
  | cons a u ih =>
    cases v with
    | nil =>
      obtain ⟨rfl, -⟩ := List.cons.inj h
      simp at hu
    | cons b v =>
      obtain ⟨rfl, htail⟩ := List.cons.inj h
      rw [List.mem_cons, not_or] at hu hv
      obtain ⟨rfl, rfl⟩ := ih hu.2 hv.2 htail
      exact ⟨rfl, rfl⟩

/-- Line ends at the start of a text are as many as there are before something else. -/
private lemma lineEnds_append_inj {n k : Nat} {x y : List Char} (hx : x.head? ≠ some '\n')
    (hy : y.head? ≠ some '\n') (h : lineEnds n ++ x = lineEnds k ++ y) : n = k ∧ x = y := by
  induction n generalizing k with
  | zero =>
    cases k with
    | zero => simpa using h
    | succ k =>
      rw [show x = '\n' :: (lineEnds k ++ y) from h] at hx
      exact absurd rfl hx
  | succ n ih =>
    cases k with
    | zero =>
      rw [← show '\n' :: (lineEnds n ++ x) = y from h] at hy
      exact absurd rfl hy
    | succ k =>
      obtain ⟨rfl, rfl⟩ := ih (List.cons.inj h).2
      exact ⟨rfl, rfl⟩

lemma IsParagraph.head?_append {record : List Char} (h : IsParagraph record) (more : List Char) :
    (record ++ more).head? ≠ some '\n' := by
  obtain ⟨c, hc, hne⟩ := h.starts
  cases record with
  | nil => cases hc
  | cons a record =>
    cases hc
    simpa using hne

lemma IsParagraph.append_ne_lineEnds {record : List Char} (h : IsParagraph record) (before more : List Char)
    (n : Nat) : before ++ (record ++ more) ≠ lineEnds n := by
  obtain ⟨c, hc, hne⟩ := h.starts
  intro heq
  have hmem : c ∈ lineEnds n := heq ▸ by simp [List.mem_of_mem_head? hc]
  exact hne (List.eq_of_mem_replicate hmem)

/-- A paragraph does not go on into line ends that end one. -/
private lemma not_paragraph_beyond {record more rest tail : List Char} {k : Nat} (hmore : more ≠ [])
    (h : IsParagraph (record ++ more)) (hk : 2 ≤ k ∨ rest = []) (heq : more ++ tail = lineEnds k ++ rest) : False := by
  have hlast : ¬ more ⊆ lineEnds k := by
    intro hall
    have hends := h.ends
    rw [List.getLast?_append_of_ne_nil _ hmore, List.getLast?_eq_some_getLast hmore,
      List.eq_of_mem_replicate (hall (List.getLast_mem hmore))] at hends
    exact hends rfl
  obtain ⟨t, ht, -⟩ | ⟨t, ht, hrest⟩ := List.append_eq_append_iff.1 heq
  · exact hlast (ht ▸ List.subset_append_left more t)
  · obtain hk | rfl := hk
    · refine h.inside ⟨record, lineEnds (k - 2) ++ t, ?_⟩
      rw [ht, List.append_assoc, ← List.append_assoc (lineEnds 2), ← List.replicate_add, Nat.add_sub_cancel' hk]
    · rw [(List.append_eq_nil_iff.1 hrest.symm).1, List.append_nil] at ht
      exact hlast (ht ▸ List.Subset.refl more)

private lemma paragraph_inj {k k' : Nat} {record record' rest rest' : List Char} (h : IsParagraph record)
    (h' : IsParagraph record') (hrest : rest.head? ≠ some '\n') (hrest' : rest'.head? ≠ some '\n')
    (hk : 2 ≤ k ∨ rest = []) (hk' : 2 ≤ k' ∨ rest' = [])
    (heq : record ++ (lineEnds k ++ rest) = record' ++ (lineEnds k' ++ rest')) :
    record = record' ∧ k = k' ∧ rest = rest' := by
  obtain ⟨more, rfl, hmore⟩ | ⟨more, rfl, hmore⟩ := List.append_eq_append_iff.1 heq
  · by_cases hnil : more = []
    · subst hnil
      simpa using lineEnds_append_inj hrest hrest' hmore
    · exact (not_paragraph_beyond hnil h' hk hmore.symm).elim
  · by_cases hnil : more = []
    · subst hnil
      obtain ⟨rfl, rfl⟩ := lineEnds_append_inj hrest' hrest hmore
      simp
    · exact (not_paragraph_beyond hnil h hk' hmore.symm).elim

/-- A text starts with one record at most, and one rest follows it. -/
lemma nextRecord_unique {sep : RecordSep} {text rest rest' : List Char} {cut cut' : Option Cut}
    (h : NextRecord sep text cut rest) (h' : NextRecord sep text cut' rest') : cut = cut' ∧ rest = rest' := by
  generalize htext : text = text' at h'
  cases h with
  | character hrecord =>
    cases h' with
    | character hrecord' =>
      obtain ⟨rfl, rfl⟩ := append_separator_inj hrecord hrecord' htext
      exact ⟨rfl, rfl⟩
    | lastCharacter hrecord' _ => exact absurd (htext ▸ by simp) hrecord'
    | noCharacter => simp at htext
  | lastCharacter hrecord hne =>
    cases h' with
    | character _ => exact absurd (htext ▸ by simp) hrecord
    | lastCharacter _ _ => exact ⟨by rw [htext], rfl⟩
    | noCharacter => exact absurd htext hne
  | noCharacter =>
    cases h' with
    | character _ => simp at htext
    | lastCharacter _ hne' => exact absurd htext.symm hne'
    | noCharacter => exact ⟨rfl, rfl⟩
  | paragraph hrecord hrest hend =>
    cases h' with
    | paragraph hrecord' hrest' hend' =>
      obtain ⟨-, heq⟩ := lineEnds_append_inj (hrecord.head?_append _) (hrecord'.head?_append _) htext
      obtain ⟨rfl, rfl, rfl⟩ := paragraph_inj hrecord hrecord' hrest hrest' hend hend' heq
      exact ⟨rfl, rfl⟩
    | noParagraph => exact absurd htext (hrecord.append_ne_lineEnds _ _ _)
  | noParagraph =>
    cases h' with
    | paragraph hrecord' _ _ => exact absurd htext.symm (hrecord'.append_ne_lineEnds _ _ _)
    | noParagraph => exact ⟨rfl, rfl⟩

/-! ## What a reader finds -/

lemma takeWhile_lineEnds (text : List Char) :
    text.takeWhile (· == '\n') = lineEnds (text.takeWhile (· == '\n')).length :=
  List.eq_replicate_of_mem fun _ hc => by simpa using List.mem_takeWhile_imp hc

lemma head?_dropWhile_lineEnds (text : List Char) : (text.dropWhile (· == '\n')).head? ≠ some '\n' := by
  intro hhead
  have hnot := List.head?_dropWhile_not (· == '\n') text
  rw [hhead] at hnot
  cases hnot

/-- A text up to the first blank line. -/
structure UpToBlankLine (text record rest : List Char) (k : Nat) : Prop where
  eq : text = record ++ (lineEnds k ++ rest)
  blank : 2 ≤ k
  whole : rest.head? ≠ some '\n'
  ends : record.getLast? ≠ some '\n'
  inside : ¬ lineEnds 2 <:+: record

/-- A blank line inside a text is at its start or in what follows the first character. -/
private lemma blankLine_cons {c : Char} {text : List Char} :
    lineEnds 2 <:+: c :: text ↔ (c = '\n' ∧ text.head? = some '\n') ∨ lineEnds 2 <:+: text := by
  rw [List.infix_cons_iff]
  refine or_congr_left ?_
  cases text with
  | nil => simp [lineEnds_succ]
  | cons d text => simp [lineEnds_succ, List.cons_prefix_cons, eq_comm]

/-- A blank line is found at the end of the text before it. -/
lemma findBlankLine_some {text : List Char} {i n k : Nat} (h : findBlankLine text i = some (n, k)) :
    ∃ record rest, n = i + record.length ∧ UpToBlankLine text record rest k := by
  induction text generalizing i with
  | nil => cases h
  | cons c text ih =>
    rw [findBlankLine] at h
    split_ifs at h with hc
    · obtain ⟨rfl, rfl⟩ := Prod.mk.inj (Option.some.inj h)
      obtain ⟨rfl, hhead⟩ := hc
      refine ⟨[], text.dropWhile (· == '\n'), rfl, ?_, ?_, head?_dropWhile_lineEnds text, by simp, by simp [lineEnds_succ]⟩
      · rw [Nat.add_comm, lineEnds_succ, List.cons_append, ← takeWhile_lineEnds, List.takeWhile_append_dropWhile,
          List.nil_append]
      · cases text with
        | nil => cases hhead
        | cons d text =>
          cases hhead
          simp
          omega
    · obtain ⟨record, rest, rfl, hup⟩ := ih h
      have hhead : ¬ (c = '\n' ∧ record.head? = some '\n') := by
        rintro ⟨hnl, hhead⟩
        exact hc ⟨hnl, by rw [hup.eq, List.head?_append, hhead]; rfl⟩
      refine ⟨c :: record, rest, by simp; omega, by rw [hup.eq]; rfl, hup.blank, hup.whole, ?_, ?_⟩
      · cases record with
        | nil =>
          -- the line ends that follow would have been found with this one
          obtain ⟨k', rfl⟩ := Nat.exists_eq_add_of_le' hup.blank
          intro hlast
          exact hc ⟨by simpa using hlast, by rw [hup.eq]; rfl⟩
        | cons d record => simpa using hup.ends
      · rw [blankLine_cons, not_or]
        exact ⟨hhead, hup.inside⟩

lemma findBlankLine_none {text : List Char} {i : Nat} (h : findBlankLine text i = none) :
    ¬ lineEnds 2 <:+: text := by
  induction text generalizing i with
  | nil => simp [lineEnds_succ]
  | cons c text ih =>
    rw [findBlankLine] at h
    split_ifs at h with hc
    rw [blankLine_cons, not_or]
    exact ⟨hc, ih h⟩

/-- What stands before the line ends of a text that starts with something else starts with that. -/
private lemma starts_of_append {text record rest : List Char} {k : Nat} (heq : text = record ++ (lineEnds k ++ rest))
    (hne : text ≠ []) (hhead : text.head? ≠ some '\n') (hend : 2 ≤ k ∨ rest = []) : ∃ c ∈ record.head?, c ≠ '\n' := by
  subst heq
  cases record with
  | cons c record => exact ⟨c, rfl, by simpa using hhead⟩
  | nil =>
    cases k with
    | zero => simp_all
    | succ k => exact absurd rfl hhead

private lemma trailing_lineEnds (text : List Char) :
    ∃ record, text = record ++ lineEnds (text.reverse.takeWhile (· == '\n')).length ∧ record.getLast? ≠ some '\n' := by
  refine ⟨(text.reverse.dropWhile (· == '\n')).reverse, ?_, ?_⟩
  · calc text = (text.reverse.takeWhile (· == '\n') ++ text.reverse.dropWhile (· == '\n')).reverse := by
          rw [List.takeWhile_append_dropWhile, List.reverse_reverse]
      _ = (text.reverse.dropWhile (· == '\n')).reverse ++ (lineEnds (text.reverse.takeWhile (· == '\n')).length).reverse := by
          rw [List.reverse_append, ← takeWhile_lineEnds]
      _ = _ := by rw [List.reverse_replicate]
  · rw [List.getLast?_reverse]
    exact head?_dropWhile_lineEnds _

/-! ## Readers -/

/-- A separating character that has arrived decides the record before it. -/
lemma divides_char (c : Char) : Divides (.char c) (NextRecord (.char c)) where
  ready b cut b' h todo _ := by
    obtain ⟨-, hnone⟩ | ⟨record, _, hrecord, htext, hsome⟩ := ready?_char b c
    · rw [hnone] at h
      cases h
    · rw [hsome] at h
      cases h
      rw [htext, List.append_assoc, List.cons_append]
      exact .character hrecord
  last before b h htext _ := by
    obtain ⟨hnot, -⟩ | ⟨_, _, _, _, hsome⟩ := ready?_char before c
    · rw [last]
      obtain ⟨hempty, hrest⟩ | ⟨hne, hrest, hleft⟩ := takeRest_cases b
      · rw [hrest, hempty]
        exact .noCharacter
      · rw [hrest, hleft]
        exact .lastCharacter (htext ▸ hnot) hne
    · rw [hsome] at h
      cases h
  skipped _ _ _ _ := id

lemma skipNewlines_text (b : Buffer) :
    ∃ n, b.text = lineEnds n ++ b.skipNewlines.text ∧ b.skipNewlines.text.head? ≠ some '\n' := by
  rw [text_skipNewlines]
  refine ⟨(b.text.takeWhile (· == '\n')).length, ?_, head?_dropWhile_lineEnds b.text⟩
  rw [← takeWhile_lineEnds, List.takeWhile_append_dropWhile]

/-- Line ends before a paragraph do not count. -/
private lemma NextRecord.lineEnds_append {n : Nat} {text rest : List Char} {cut : Option Cut}
    (h : NextRecord .paragraph text cut rest) : NextRecord .paragraph (lineEnds n ++ text) cut rest := by
  cases h with
  | paragraph hrecord hrest hend =>
    rw [← List.append_assoc, ← List.replicate_add]
    exact .paragraph hrecord hrest hend
  | noParagraph =>
    rw [← List.replicate_add]
    exact .noParagraph

/-- A text that starts with a paragraph: the paragraph, the line ends that end it, and the rest. -/
structure StartsWithParagraph (text record rest : List Char) (k : Nat) : Prop where
  eq : text = record ++ (lineEnds k ++ rest)
  record : IsParagraph record
  whole : rest.head? ≠ some '\n'
  ends : 2 ≤ k ∨ rest = []

private lemma UpToBlankLine.startsWithParagraph {text record rest : List Char} {k : Nat}
    (h : UpToBlankLine text record rest k) (hhead : text.head? ≠ some '\n') :
    StartsWithParagraph text record rest k where
  eq := h.eq
  record := ⟨starts_of_append h.eq (by have hk := h.blank; simp [h.eq]; omega) hhead (.inl h.blank), h.ends, h.inside⟩
  whole := h.whole
  ends := .inl h.blank

private lemma lastParagraph_bounds {text : List Char} (hne : text ≠ []) (hhead : text.head? ≠ some '\n') :
    ∃ record rest k, (findBlankLine text 0).getD
        (let k := (text.reverse.takeWhile (· == '\n')).length; (text.length - k, k)) = (record.length, k) ∧
      StartsWithParagraph text record rest k := by
  cases hfind : findBlankLine text 0 with
  | some bounds =>
    obtain ⟨n, k⟩ := bounds
    obtain ⟨record, rest, rfl, hup⟩ := findBlankLine_some hfind
    exact ⟨record, rest, k, by simp, hup.startsWithParagraph hhead⟩
  | none =>
    obtain ⟨record, heq, hends⟩ := trailing_lineEnds text
    generalize (text.reverse.takeWhile (· == '\n')).length = k at heq
    have hinside : ¬ lineEnds 2 <:+: record := fun hin =>
      findBlankLine_none hfind (hin.trans ⟨[], lineEnds k, heq.symm⟩)
    rw [← List.append_nil (lineEnds k)] at heq
    refine ⟨record, [], k, by simp [heq], heq, ⟨?_, hends, hinside⟩, by simp, .inr rfl⟩
    exact starts_of_append heq hne hhead (.inr rfl)

/-- A blank line that has arrived with something behind it decides the paragraph before it. -/
lemma divides_paragraph : Divides .paragraph (NextRecord .paragraph) where
  ready b cut b' h todo _ := by
    obtain ⟨n, htext, hhead⟩ := skipNewlines_text b
    simp only [readyFrom?] at h
    split at h
    · next m k hfind =>
      obtain ⟨record, rest, rfl, hup⟩ := findBlankLine_some hfind
      have hrest : ¬ b.skipNewlines.usesAll (0 + record.length + k) = true → rest ≠ [] := by
        rintro hall rfl
        exact hall (by simp [usesAll, hup.eq])
      have hpar := hup.startsWithParagraph hhead
      obtain ⟨b'', htake, hleft⟩ := take_append hup.eq
      rw [List.length_replicate] at htake
      split_ifs at h with hall
      rw [Nat.zero_add, htake] at h
      cases h
      rw [htext, hup.eq, hleft]
      simp only [List.append_assoc]
      refine .paragraph hpar.record ?_ (.inl hup.blank)
      rw [List.head?_append_of_ne_nil _ (hrest hall)]
      exact hup.whole
    · cases h
  last before b h _ _ := by
    obtain ⟨n, htext, hhead⟩ := skipNewlines_text b
    simp only [last, lastParagraph]
    split_ifs with hempty
    · rw [List.isEmpty_iff.1 hempty, List.append_nil] at htext
      rw [List.isEmpty_iff.1 hempty, htext]
      exact .noParagraph
    · obtain ⟨record, rest, k, hbounds, hpar⟩ := lastParagraph_bounds (by simpa using hempty) hhead
      obtain ⟨b', htake, hleft⟩ := take_append hpar.eq
      rw [List.length_replicate] at htake
      simp only at hbounds
      rw [hbounds]
      simp only [htake]
      rw [htext, hpar.eq, hleft]
      exact .paragraph hpar.record hpar.whole hpar.ends
  skipped b todo cut rest h := by
    obtain ⟨n, htext, -⟩ := skipNewlines_text b
    rw [htext, List.append_assoc]
    exact h.lineEnds_append

/-- Reading with a separator that is no pattern gives the record that the remaining text starts with. -/
lemma divides_nextRecord {sep : RecordSep} (h : sep.isPattern = false) : Divides sep (NextRecord sep) := by
  cases sep with
  | char c => exact divides_char c
  | paragraph => exact divides_paragraph
  | pattern p => cases h

/-! ## All records -/

/-- Reads of a text with separators that are characters or blank lines give the records of its divisions,
of which there is exactly one series, for all ways of cutting its bytes into pieces. -/
theorem readEach_of_pieces (text : List Char) (seps : List RecordSep) (hseps : ∀ sep ∈ seps, sep.isPattern = false) :
    ∃ cuts unread, (∀ cuts' rest, Divisions NextRecord seps text cuts' rest ↔ cuts' = cuts ∧ rest = unread) ∧
      ∀ (ε : Type) (chunks : List (List UInt8)), chunks.flatten = Utf8.encode text →
        ∃ b s todo, readEach (Supply.pieces : Supply _ ε) seps {} chunks = (.ok cuts, b, s) ∧
          b.Awaits (Supply.pieces : Supply _ ε) s todo ∧ b.text ++ todo = unread := by
  have hdivides (sep : RecordSep) (hsep : sep ∈ seps) := divides_nextRecord (hseps sep hsep)
  have opens (ε : Type) (chunks : List (List UInt8)) (hbytes : chunks.flatten = Utf8.encode text) :
      Awaits (Supply.pieces : Supply _ ε) {} chunks text := awaits_open (hbytes ▸ Supply.delivers_pieces chunks)
  have unique := fun sep text cut cut' rest rest' => @nextRecord_unique sep text rest rest' cut cut'
  obtain ⟨cuts, b, _, todo, -, -, hcuts⟩ := readEach_divides hdivides (opens Empty [Utf8.encode text] (by simp))
  refine ⟨cuts, b.text ++ todo, fun cuts' rest => ⟨fun h => h.unique hcuts unique, ?_⟩, fun ε chunks hbytes => ?_⟩
  · rintro ⟨rfl, rfl⟩
    exact hcuts
  · obtain ⟨cuts', b', s', todo', hread, hawaits, hcuts'⟩ := readEach_divides hdivides (opens ε chunks hbytes)
    obtain ⟨rfl, hunread⟩ := hcuts'.unique hcuts unique
    exact ⟨b', s', todo', hread, hawaits, hunread⟩

/-- A text read with a character, by paragraphs and with a character again, of which one piece ends
within a character and one within the line ends between paragraphs. -/
theorem readEach_mixed_separators :
    ∃ b s, readEach (Supply.pieces : Supply _ Empty) [.char ';', .paragraph, .char ';'] {}
        [[0x61, 0x3B, 0x0A, 0xC3], [0xA9, 0x0A], [0x0A, 0x62]] =
      (.ok [some (['a'], [';']), some (['é'], ['\n', '\n']), some (['b'], [])], b, s) := by
  have hseps : ∀ sep ∈ [RecordSep.char ';', .paragraph, .char ';'], sep.isPattern = false := by simp [RecordSep.isPattern]
  obtain ⟨cuts, unread, hcuts, hread⟩ := readEach_of_pieces ['a', ';', '\n', 'é', '\n', '\n', 'b'] _ hseps
  have hfirst : NextRecord (.char ';') _ (some (['a'], [';'])) ['\n', 'é', '\n', '\n', 'b'] := .character (by decide)
  have hsecond : NextRecord .paragraph _ (some (['é'], ['\n', '\n'])) ['b'] :=
    .paragraph (n := 1) (k := 2) ⟨⟨'é', by decide⟩, by decide, by decide⟩ (by decide) (by decide)
  have hthird : NextRecord (.char ';') ['b'] (some (['b'], [])) [] := .lastCharacter (by decide) (by decide)
  obtain ⟨rfl, -⟩ := (hcuts _ _).1 (.cons hfirst (.cons hsecond (.cons hthird .nil)))
  obtain ⟨b, s, -, heq, -, -⟩ := hread Empty [[0x61, 0x3B, 0x0A, 0xC3], [0xA9, 0x0A], [0x0A, 0x62]] (by decide)
  exact ⟨b, s, heq⟩

end Buffer

end Awk
