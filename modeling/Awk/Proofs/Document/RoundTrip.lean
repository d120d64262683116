import Mathlib.Data.List.TakeDrop
import Awk.Document.Read
import Awk.Document.Write

/-!
# Documents read back

Reading the text of a document gives the document.  What is written for a value never goes on into what
follows it: behind a numeral there is a line end or a comma, and texts and lists are closed.
-/

namespace Awk.Document

attribute [local simp] readParts readValue readItems readEntries

/-! ## What the notation has -/

def AreDigits (ds : List Char) : Prop := ds ≠ [] ∧ ∀ c ∈ ds, c.isDigit = true

/-- A numeral that can be written: digits in all places, and no zero in front of others. -/
structure Numeral.WellFormed (n : Numeral) : Prop where
  whole : AreDigits n.whole
  first : n.whole.head? = some '0' → n.whole.length = 1
  fraction : ∀ ds ∈ n.fraction, AreDigits ds
  exponent : ∀ e ∈ n.exponent, AreDigits e.2

mutual

/-- A document that can be written: its numerals can, and all its texts have a value. -/
def WellFormed : Document → Prop
  | null | bool _ => True
  | num n => n.WellFormed
  | str s => s.isSome
  | arr items => WellFormedItems items
  | obj entries => WellFormedEntries entries

def WellFormedItems : List Document → Prop
  | [] => True
  | d :: rest => d.WellFormed ∧ WellFormedItems rest

def WellFormedEntries : List (Option String × Document) → Prop
  | [] => True
  | (k, d) :: rest => k.isSome ∧ d.WellFormed ∧ WellFormedEntries rest

end

/-- A text that no numeral goes on with. -/
def Quiet (s : List Char) : Prop := ∀ c ∈ s.head?, c.isDigit = false ∧ c ≠ '.' ∧ c ≠ 'e' ∧ c ≠ 'E'

lemma quiet_nil : Quiet [] := by simp [Quiet]

lemma quiet_newLine (depth : Nat) (s : List Char) : Quiet (newLine depth ++ s) := by
  simp [Quiet, newLine, Char.isDigit]

lemma quiet_comma (s : List Char) : Quiet (',' :: s) := by
  simp [Quiet, Char.isDigit]

/-! ## Texts -/

lemma hexUnit?_control {n : Nat} (h : n < 32) : hexUnit? '0' '0' (hexDigit (n / 16)) (hexDigit (n % 16)) = some n := by
  revert n
  decide

lemma readParts_escapeChar (c : Char) (rest : List Char) :
    readParts (escapeChar c ++ rest) = (readParts rest).map fun (parts, rest) => (.char c :: parts, rest) := by
  have simple (e : Char) (he : e ≠ 'u') (c : Char) (h : escaped? e = some c) : readParts ('\\' :: e :: rest) =
      (readParts rest).map fun (parts, rest) => (.char c :: parts, rest) := by
    rw [readParts.eq_4 _ _ (by simp [he]), h]
    cases readParts rest <;> rfl
  unfold escapeChar
  split_ifs with h₁ h₂ h₃ h₄ h₅ h₆ h₇ h₈
  · exact h₁ ▸ simple '"' (by decide) _ rfl
  · exact h₂ ▸ simple '\\' (by decide) _ rfl
  · exact h₃ ▸ simple 'b' (by decide) _ rfl
  · exact h₄ ▸ simple 'f' (by decide) _ rfl
  · exact h₅ ▸ simple 'n' (by decide) _ rfl
  · exact h₆ ▸ simple 'r' (by decide) _ rfl
  · exact h₇ ▸ simple 't' (by decide) _ rfl
  · have hunit : TextPart.ofUnit c.toNat = .char c := by
      rw [TextPart.ofUnit, if_neg (by omega), Char.ofNat_toNat]
    simp only [List.cons_append, List.nil_append, readParts.eq_3, hexUnit?_control h₈]
    cases readParts rest <;> simp [hunit]
  · rw [List.singleton_append, readParts.eq_5 _ _ (by simpa using h₁) (by simp [h₂]) (by simp [h₂]),
      if_neg (by tauto)]
    cases readParts rest <;> rfl

lemma readParts_escape (s rest : List Char) :
    readParts (s.flatMap escapeChar ++ '"' :: rest) = some (s.map .char, rest) := by
  induction s with
  | nil => simp [readParts]
  | cons c s ih => simp [readParts_escapeChar, ih]

lemma joinParts_chars (s : List Char) : joinParts (s.map .char) = some s := by
  induction s with
  | nil => rfl
  | cons c s ih => simp [joinParts, ih]

lemma readText_writeText (s : String) (rest : List Char) :
    readText (s.toList.flatMap escapeChar ++ '"' :: rest) = some (some s, rest) := by
  simp [readText, readParts_escape, joinParts_chars]

/-! ## Numerals -/

variable {rest s blanks t t' : List Char} {n : Numeral} {c : Char} {bound : Nat} {d : Document}
  {entries : List (Option String × Document)} {key : Option String}

lemma readDigits_append {ds : List Char} (hds : AreDigits ds) (hrest : ∀ c ∈ rest.head?, c.isDigit = false) :
    readDigits (ds ++ rest) = some (ds, rest) := by
  have hspan : (ds ++ rest).span Char.isDigit = (ds, rest) := by
    rw [List.span_eq_takeWhile_dropWhile, List.takeWhile_append_of_pos hds.2, List.dropWhile_append_of_pos hds.2]
    cases rest with
    | nil => simp
    | cons c rest => simp [hrest c rfl]
  rw [readDigits, hspan]
  match ds, hds with
  | _ :: _, _ => rfl

def Numeral.writeFraction (n : Numeral) : List Char := n.fraction.elim [] ('.' :: ·)

def Numeral.writeExponent (n : Numeral) : List Char :=
  n.exponent.elim [] fun (negative, digits) => 'e' :: (if negative then '-' else '+') :: digits

namespace Numeral.WellFormed

variable {n : Numeral} (hn : n.WellFormed) {rest : List Char}

include hn

lemma readExponent_write (hrest : Quiet rest) : readExponent (n.writeExponent ++ rest) = some (n.exponent, rest) := by
  cases he : n.exponent with
  | none =>
    cases rest with
    | nil => simp [writeExponent, he, readExponent]
    | cons c rest =>
      obtain ⟨-, -, hlow, hhigh⟩ := hrest c rfl
      simp [writeExponent, he, readExponent, hlow, hhigh]
  | some e =>
    obtain ⟨negative, digits⟩ := e
    have hdigits := readDigits_append (hn.exponent _ he) fun c hc => (hrest c hc).1
    cases negative <;> simp [writeExponent, he, readExponent, readSign, hdigits]

lemma readFraction_write (hrest : Quiet rest) :
    readFraction (n.writeFraction ++ (n.writeExponent ++ rest)) = some (n.fraction, n.writeExponent ++ rest) := by
  have htail : ∀ c ∈ (n.writeExponent ++ rest).head?, c.isDigit = false ∧ c ≠ '.' := by
    intro c hc
    cases he : n.exponent with
    | none =>
      simp only [writeExponent, he, Option.elim_none, List.nil_append] at hc
      exact ⟨(hrest c hc).1, (hrest c hc).2.1⟩
    | some e =>
      obtain rfl : 'e' = c := by simpa [writeExponent, he] using hc
      decide
  generalize n.writeExponent ++ rest = tail at htail
  cases hf : n.fraction with
  | none =>
    cases tail with
    | nil => simp [writeFraction, hf, readFraction]
    | cons c tail =>
      have hc := (htail c rfl).2
      simp [writeFraction, hf, readFraction, hc]
  | some digits =>
    simp [writeFraction, hf, readFraction, readDigits_append (hn.fraction _ hf) fun c hc => (htail c hc).1]

lemma readWhole_write (hrest : Quiet rest) :
    readWhole (n.whole ++ (n.writeFraction ++ (n.writeExponent ++ rest))) =
      some (n.whole, n.writeFraction ++ (n.writeExponent ++ rest)) := by
  have htail : ∀ c ∈ (n.writeFraction ++ (n.writeExponent ++ rest)).head?, c.isDigit = false := by
    intro c hc
    cases hf : n.fraction with
    | some digits =>
      obtain rfl : '.' = c := by simpa [writeFraction, hf] using hc
      decide
    | none =>
      cases he : n.exponent with
      | none => exact (hrest c (by simpa [writeFraction, writeExponent, hf, he] using hc)).1
      | some e =>
        obtain rfl : 'e' = c := by simpa [writeFraction, writeExponent, hf, he] using hc
        decide
  have hfirst : ¬(n.whole.head? = some '0' ∧ n.whole.length ≠ 1) := fun h => h.2 (hn.first h.1)
  rw [readWhole, readDigits_append hn.whole htail, Option.bind_some]
  simp only [if_neg hfirst]

lemma readNumeral_write (hrest : Quiet rest) : readNumeral (n.write ++ rest) = some (n, rest) := by
  have hwrite : n.write ++ rest =
      (if n.negative then ['-'] else []) ++ (n.whole ++ (n.writeFraction ++ (n.writeExponent ++ rest))) := by
    simp [write, writeFraction, writeExponent]
  have hwhole := hn.readWhole_write hrest
  have hfraction := hn.readFraction_write hrest
  have hexponent := hn.readExponent_write hrest
  rw [hwrite]
  cases hneg : n.negative with
  | true =>
    simp only [if_true, List.singleton_append, readNumeral, hwhole, hfraction, hexponent, Option.bind_eq_bind,
      Option.bind_some, Option.pure_def]
    rw [← hneg]
  | false =>
    obtain ⟨c, whole, hc⟩ := List.exists_cons_of_ne_nil hn.whole.1
    have hminus : c ≠ '-' := by
      rintro rfl
      exact absurd (hn.whole.2 '-' (hc ▸ List.mem_cons_self)) (by decide)
    rw [hc, List.cons_append] at hwhole
    simp [hc, readNumeral, hminus, hwhole, hfraction, hexponent]
    rw [← hneg, ← hc]

end Numeral.WellFormed

lemma Numeral.WellFormed.write_starts (hn : n.WellFormed) :
    ∃ c s, n.write = c :: s ∧ (c.isDigit = true ∨ c = '-') := by
  obtain ⟨hne, hdigits⟩ := hn.whole
  cases hneg : n.negative with
  | true =>
    exact ⟨'-', n.whole ++ n.writeFraction ++ n.writeExponent,
      by simp [write, writeFraction, writeExponent, hneg], .inr rfl⟩
  | false =>
    obtain ⟨c, whole, hc⟩ := List.exists_cons_of_ne_nil hne
    exact ⟨c, whole ++ n.writeFraction ++ n.writeExponent,
      by simp [write, writeFraction, writeExponent, hneg, hc], .inl (hdigits c (hc ▸ List.mem_cons_self))⟩

lemma ne_of_numeral (hc : c.isDigit = true ∨ c = '-') {x : Char} (hdigit : x.isDigit = false) (hminus : x ≠ '-') :
    c ≠ x := by
  rintro rfl
  obtain hc | hc := hc
  · rw [hdigit] at hc
    cases hc
  · exact hminus hc

lemma isBlank_numeral (hc : c.isDigit = true ∨ c = '-') : isBlank c = false := by
  have hspace : c ≠ ' ' := ne_of_numeral hc rfl (by decide)
  have hline : c ≠ '\n' := ne_of_numeral hc rfl (by decide)
  have htab : c ≠ '\t' := ne_of_numeral hc rfl (by decide)
  have hreturn : c ≠ '\r' := ne_of_numeral hc rfl (by decide)
  simp [isBlank, hspace, hline, htab, hreturn]

lemma readValue_numeral (hc : c.isDigit = true ∨ c = '-') (h : readNumeral (c :: s) = some (n, rest)) :
    readValue (bound + 1) (c :: s) = some (.num n, rest) := by
  have hskip : skipBlanks (c :: s) = c :: s := by
    simp [skipBlanks, isBlank_numeral hc]
  have hnull : c ≠ 'n' := ne_of_numeral hc rfl (by decide)
  have htrue : c ≠ 't' := ne_of_numeral hc rfl (by decide)
  have hfalse : c ≠ 'f' := ne_of_numeral hc rfl (by decide)
  have hquote : c ≠ '"' := ne_of_numeral hc rfl (by decide)
  have hlist : c ≠ '[' := ne_of_numeral hc rfl (by decide)
  have hobject : c ≠ '\x7b' := ne_of_numeral hc rfl (by decide)
  rw [readValue, hskip]
  simp [hnull, htrue, hfalse, hquote, hlist, hobject, h]

/-! ## Blanks -/

lemma isBlank_newLine (depth : Nat) : ∀ c ∈ newLine depth, isBlank c = true := by
  simp [newLine, isBlank]

lemma skipBlanks_append (h : ∀ c ∈ blanks, isBlank c = true) (s : List Char) :
    skipBlanks (blanks ++ s) = skipBlanks s := List.dropWhile_append_of_pos h

lemma readValue_blanks (h : ∀ c ∈ blanks, isBlank c = true) (bound : Nat) (s : List Char) :
    readValue bound (blanks ++ s) = readValue bound s := by
  cases bound with
  | zero => rw [readValue, readValue]
  | succ bound => rw [readValue, readValue, skipBlanks_append h]

lemma readItems_blanks (h : ∀ c ∈ blanks, isBlank c = true) (bound : Nat) (s : List Char) :
    readItems bound (blanks ++ s) = readItems bound s := by
  cases bound with
  | zero => rw [readItems, readItems]
  | succ bound => rw [readItems, readItems, readValue_blanks h]

lemma readEntries_blanks (h : ∀ c ∈ blanks, isBlank c = true) (bound : Nat) (s : List Char) :
    readEntries bound (blanks ++ s) = readEntries bound s := by
  cases bound with
  | zero => rw [readEntries, readEntries]
  | succ bound => rw [readEntries, readEntries, skipBlanks_append h]

variable {d : Document} {bound : Nat} {s t rest : List Char} {items : List Document}

/-- No blank and no closing bracket stands at the start of a value. -/
lemma write_starts (hd : d.WellFormed) (depth : Nat) :
    ∃ c s, d.write depth = c :: s ∧ isBlank c = false ∧ c ≠ ']' := by
  cases d with
  | null => exact ⟨'n', _, rfl, rfl, by decide⟩
  | bool b =>
    cases b with
    | true => exact ⟨'t', _, by rw [write]; rfl, rfl, by decide⟩
    | false => exact ⟨'f', _, by rw [write]; rfl, rfl, by decide⟩
  | num n =>
    obtain ⟨c, s, hs, hc⟩ := Numeral.WellFormed.write_starts hd
    exact ⟨c, s, hs, isBlank_numeral hc, ne_of_numeral hc rfl (by decide)⟩
  | str s => exact ⟨'"', _, by rw [write]; rfl, rfl, by decide⟩
  | arr items =>
    cases items with
    | nil | cons d items => exact ⟨'[', _, by rw [write], rfl, by decide⟩
  | obj entries =>
    cases entries with
    | nil | cons e entries => exact ⟨'\x7b', _, by rw [write], rfl, by decide⟩

lemma skipBlanks_write (hd : d.WellFormed) (depth : Nat) (rest : List Char) :
    skipBlanks (d.write depth ++ rest) = d.write depth ++ rest := by
  obtain ⟨c, s, hs, hblank, -⟩ := write_starts hd depth
  simp [skipBlanks, hs, hblank]

/-! ## Values -/

def afterItem (depth : Nat) (items : List Document) (rest : List Char) : List Char :=
  writeItems (depth + 1) items ++ (newLine depth ++ ']' :: rest)

/-- What stands behind an entry of an object. -/
def afterEntry (depth : Nat) (entries : List (Option String × Document)) (rest : List Char) : List Char :=
  writeEntries (depth + 1) entries ++ (newLine depth ++ '\x7d' :: rest)

lemma quiet_afterItem (depth : Nat) (items : List Document) (rest : List Char) :
    Quiet (afterItem depth items rest) := by
  cases items with
  | nil =>
    rw [afterItem, writeItems]
    exact quiet_newLine _ _
  | cons d items =>
    rw [afterItem, writeItems]
    exact quiet_comma _

lemma quiet_afterEntry (depth : Nat) (entries : List (Option String × Document)) (rest : List Char) :
    Quiet (afterEntry depth entries rest) := by
  cases entries with
  | nil =>
    rw [afterEntry, writeEntries]
    exact quiet_newLine _ _
  | cons e entries =>
    rw [afterEntry, writeEntries]
    exact quiet_comma _

lemma readValue_list (h : skipBlanks s = t)
    (ht : t.head? ≠ some ']') (hitems : readItems bound t = some (items, rest)) :
    readValue (bound + 1) ('[' :: s) = some (.arr items, rest) := by
  have hopen : skipBlanks ('[' :: s) = '[' :: s := rfl
  rw [readValue, hopen]
  cases t with
  | nil => simp [h, hitems]
  | cons c t =>
    have hc : c ≠ ']' := fun hc => ht (by rw [hc]; rfl)
    simp [h, hc, hitems]

lemma readValue_object (h : skipBlanks s = '"' :: t) (hentries : readEntries bound ('"' :: t) = some (entries, rest)) :
    readValue (bound + 1) ('\x7b' :: s) = some (.obj entries, rest) := by
  have hopen : skipBlanks ('\x7b' :: s) = '\x7b' :: s := rfl
  rw [readValue, hopen]
  simp [h, hentries]

lemma readItems_last (h : readValue bound s = some (d, t))
    (ht : skipBlanks t = ']' :: rest) : readItems (bound + 1) s = some ([d], rest) := by
  rw [readItems, h]
  simp [ht]

lemma readItems_more (h : readValue bound s = some (d, t)) (ht : skipBlanks t = ',' :: t')
    (hmore : readItems bound t' = some (items, rest)) : readItems (bound + 1) s = some (d :: items, rest) := by
  rw [readItems, h]
  simp [ht, hmore]

lemma readEntries_last (hkey : readText s = some (key, ':' :: t)) (h : readValue bound t = some (d, t'))
    (ht : skipBlanks t' = '\x7d' :: rest) : readEntries (bound + 1) ('"' :: s) = some ([(key, d)], rest) := by
  have hopen : skipBlanks ('"' :: s) = '"' :: s := rfl
  have hcolon : skipBlanks (':' :: t) = ':' :: t := rfl
  rw [readEntries, hopen]
  simp [hkey, hcolon, h, ht]

lemma readEntries_more {t'' : List Char} (hkey : readText s = some (key, ':' :: t))
    (h : readValue bound t = some (d, t')) (ht : skipBlanks t' = ',' :: t'')
    (hmore : readEntries bound t'' = some (entries, rest)) :
    readEntries (bound + 1) ('"' :: s) = some ((key, d) :: entries, rest) := by
  have hopen : skipBlanks ('"' :: s) = '"' :: s := rfl
  have hcolon : skipBlanks (':' :: t) = ':' :: t := rfl
  rw [readEntries, hopen]
  simp [hkey, hcolon, h, ht, hmore]

/-- With a bound, values that are short enough read back. -/
def ReadsValues (bound : Nat) : Prop := ∀ (d : Document) (depth : Nat) (rest : List Char), d.WellFormed →
  2 * (d.write depth).length ≤ bound → Quiet rest → readValue bound (d.write depth ++ rest) = some (d, rest)

/-- With a bound, the items of a list that is short enough read back. -/
def ReadsItems (bound : Nat) : Prop := ∀ (d : Document) (items : List Document) (depth : Nat) (rest : List Char),
  d.WellFormed → WellFormedItems items →
  2 * ((d.write (depth + 1)).length + (writeItems (depth + 1) items).length) + 1 ≤ bound →
  readItems bound (d.write (depth + 1) ++ afterItem depth items rest) = some (d :: items, rest)

/-- With a bound, the entries of an object that is short enough read back. -/
def ReadsEntries (bound : Nat) : Prop :=
  ∀ (key : String) (d : Document) (entries : List (Option String × Document)) (depth : Nat) (rest : List Char),
  d.WellFormed → WellFormedEntries entries →
  2 * ((d.write (depth + 1)).length + (writeEntries (depth + 1) entries).length) + 1 ≤ bound →
  readEntries bound ('"' :: (key.toList.flatMap escapeChar ++ '"' :: ':' :: ' ' ::
    (d.write (depth + 1) ++ afterEntry depth entries rest))) = some ((some key, d) :: entries, rest)

lemma readsValues_succ (hitems : ReadsItems bound) (hentries : ReadsEntries bound) : ReadsValues (bound + 1) := by
  intro d depth rest hd hbound hrest
  cases d with
  | null => rfl
  | bool b => cases b <;> rfl
  | num n =>
    obtain ⟨c, s, hs, hc⟩ := Numeral.WellFormed.write_starts hd
    have hread := Numeral.WellFormed.readNumeral_write hd hrest
    rw [write, hs, List.cons_append]
    rw [hs, List.cons_append] at hread
    exact readValue_numeral hc hread
  | str s =>
    obtain ⟨s, rfl⟩ := Option.isSome_iff_exists.mp hd
    rw [readValue, skipBlanks_write hd]
    simp [write, writeText, readText_writeText]
  | arr items =>
    cases items with
    | nil => rfl
    | cons d items =>
      rw [write] at hbound ⊢
      simp only [List.cons_append, List.append_assoc, List.nil_append, List.length_cons, List.length_append]
        at hbound ⊢
      obtain ⟨c, s, hs, -, hc⟩ := write_starts hd.1 (depth + 1)
      refine readValue_list ((skipBlanks_append (isBlank_newLine (depth + 1)) _).trans (skipBlanks_write hd.1 _ _))
        ?_ (hitems d items depth rest hd.1 hd.2 (by omega))
      rw [hs]
      simpa using hc
  | obj entries =>
    cases entries with
    | nil => rfl
    | cons e entries =>
      obtain ⟨key, d⟩ := e
      obtain ⟨hkey, hd⟩ : key.isSome ∧ d.WellFormed ∧ WellFormedEntries entries := hd
      obtain ⟨key, rfl⟩ := Option.isSome_iff_exists.mp hkey
      rw [write] at hbound ⊢
      simp only [List.cons_append, List.append_assoc, List.nil_append, List.length_cons, List.length_append, writeText,
        Option.getD_some] at hbound ⊢
      exact readValue_object (skipBlanks_append (isBlank_newLine (depth + 1)) _)
        (hentries key d entries depth rest hd.1 hd.2 (by omega))

lemma readsItems_succ (hvalues : ReadsValues bound) (hitems : ReadsItems bound) : ReadsItems (bound + 1) := by
  intro d items depth rest hd hall hbound
  have hvalue := hvalues d (depth + 1) _ hd (by omega) (quiet_afterItem depth items rest)
  cases items with
  | nil =>
    refine readItems_last hvalue ?_
    rw [afterItem, writeItems, List.nil_append, skipBlanks_append (isBlank_newLine depth)]
    rfl
  | cons d' items =>
    rw [writeItems] at hbound
    simp only [List.length_cons, List.length_append] at hbound
    have hmore := hitems d' items depth rest hall.1 hall.2 (by omega)
    refine readItems_more hvalue ?_ ((readItems_blanks (isBlank_newLine (depth + 1)) _ _).trans hmore)
    rw [afterItem, writeItems, afterItem]
    simp [skipBlanks, isBlank]

lemma readsEntries_succ (hvalues : ReadsValues bound) (hentries : ReadsEntries bound) : ReadsEntries (bound + 1) := by
  intro key d entries depth rest hd hall hbound
  have hkey := readText_writeText key (':' :: ' ' :: (d.write (depth + 1) ++ afterEntry depth entries rest))
  have hblank : ∀ c ∈ [' '], isBlank c = true := by simp [isBlank]
  have hvalue := (readValue_blanks hblank bound _).trans
    (hvalues d (depth + 1) _ hd (by omega) (quiet_afterEntry depth entries rest))
  cases entries with
  | nil =>
    refine readEntries_last hkey hvalue ?_
    rw [afterEntry, writeEntries, List.nil_append, skipBlanks_append (isBlank_newLine depth)]
    rfl
  | cons e entries =>
    obtain ⟨key', d'⟩ := e
    obtain ⟨hkey', hall⟩ : key'.isSome ∧ d'.WellFormed ∧ WellFormedEntries entries := hall
    obtain ⟨key', rfl⟩ := Option.isSome_iff_exists.mp hkey'
    rw [writeEntries] at hbound
    simp only [List.length_cons, List.length_append] at hbound
    have hmore := hentries key' d' entries depth rest hall.1 hall.2 (by omega)
    refine readEntries_more hkey hvalue ?_ ((readEntries_blanks (isBlank_newLine (depth + 1)) _ _).trans hmore)
    rw [afterEntry, writeEntries, afterEntry]
    simp [skipBlanks, isBlank, writeText]

/-- All readers read back what is short enough for their bound. -/
lemma reads (bound : Nat) : ReadsValues bound ∧ ReadsItems bound ∧ ReadsEntries bound := by
  induction bound with
  | zero =>
    refine ⟨fun d depth rest hd hbound _ => ?_, fun _ _ _ _ _ _ h => by omega, fun _ _ _ _ _ _ _ h => by omega⟩
    obtain ⟨c, s, hs, -⟩ := write_starts hd depth
    rw [hs] at hbound
    simp at hbound
  | succ bound ih =>
    obtain ⟨hvalues, hitems, hentries⟩ := ih
    exact ⟨readsValues_succ hitems hentries, readsItems_succ hvalues hitems, readsEntries_succ hvalues hentries⟩

/-- A document that can be written reads back. -/
theorem parse?_render (hd : d.WellFormed) : parse? d.render = some d := by
  have hread := (reads (2 * d.render.length + 2)).1 d 0 [] hd (by simp [render]) quiet_nil
  rw [List.append_nil] at hread
  have htext : d.render.toList = d.write 0 := by simp [render]
  rw [parse?, htext, hread]
  rfl

end Awk.Document
