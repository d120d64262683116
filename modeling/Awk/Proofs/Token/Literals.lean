import Mathlib
import Awk.CommandLine.Escape
import Awk.Token.Lexer

/-!
# Literals

Strings and regexes are read as one token each.  The text of a string is what the same text stands for in
an operand of the command line.  A regex ends at the first slash that is neither escaped nor in a bracket
expression, where, for the reader, a bracket expression ends with the first class in it.
-/

namespace Awk

namespace Lexer

attribute [local simp] blanks octalCode scanString scanRegex

/-! ## Tokens of a text -/

variable {c : Char} {s rest : List Char}

lemma blanks_eq_zero (h : c ∉ ['\\', '#', ' ', '\t', '\r', '\n']) : blanks false (c :: s) = 0 := by
  simp only [List.mem_cons, List.not_mem_nil, or_false, not_or] at h
  unfold blanks
  split <;> simp_all

lemma lexFrom_nil (pos : Position) (tokens : List Token) :
    lexFrom pos tokens [] = .ok (tokens.reverse ++ [⟨.mark .eof, .between pos pos⟩]) := by
  rw [lexFrom]
  split
  next => simp [Position.after]
  next h => simp at h

lemma lexFrom_cons {pos : Position} {tokens : List Token} {kind : Token.Kind} {used : Nat}
    (hb : blanks false (c :: s) = 0)
    (h : scanToken (tokens.head?.all fun t => !t.kind.endsOperand) c s = .ok (kind, used)) :
    lexFrom pos tokens (c :: s) = lexFrom (pos.after (c :: s.take used))
      (⟨kind, .between pos (pos.after (c :: s.take used))⟩ :: tokens) (s.drop used) := by
  have hdrop : (c :: s).drop (blanks false (c :: s)) = c :: s := by rw [hb, List.drop_zero]
  have htake : pos.after ((c :: s).take (blanks false (c :: s))) = pos := by rw [hb]; rfl
  rw [lexFrom]
  split
  next hnil => cases hdrop.symm.trans hnil
  next c' s' hcons =>
    cases hdrop.symm.trans hcons
    rw [h, htake]

/-! ## Strings -/

/-- The number of backslashes at the end of a text that stands behind `n` of them. -/
def backslashes (n : Nat) (s : List Char) : Nat := s.foldl (fun n c => if c = '\\' then n + 1 else 0) n

/-- A text that may stand between quotes: no line ends in it, all quotes in it are escaped, and its end is
not. -/
structure Quotable (n : Nat) (s : List Char) : Prop where
  line : '\n' ∉ s
  quotes : ∀ before after, s = before ++ '"' :: after → Odd (backslashes n before)
  ending : Even (backslashes n s)

variable {n d : Nat}

lemma Quotable.tail (h : Quotable n (c :: s)) : Quotable (if c = '\\' then n + 1 else 0) s where
  line := fun hs => h.line (List.mem_cons_of_mem c hs)
  quotes before after hs := h.quotes (c :: before) after (by rw [hs, List.cons_append])
  ending := h.ending

/-- The tables of strings and of operands agree. -/
lemma escapeLetter?_eq (c : Char) : escapeLetter? c = CommandLine.escapeLetter? c := by
  unfold escapeLetter? CommandLine.escapeLetter?
  split <;> first | rfl | simp_all

/-- The digits that a string counts are those that an operand takes off. -/
lemma takeOctal_eq (n code : Nat) (s : List Char) :
    CommandLine.takeOctal n code s = ((octalCode n code s).1, s.drop (octalCode n code s).2) := by
  fun_induction octalCode n code s with
  | case1 n code c rest d hd ih => simp [CommandLine.takeOctal, hd, ih]
  | case2 n code c rest hd => simp [CommandLine.takeOctal, hd]
  | case3 n code s hs =>
    obtain _ | n := n
    · rfl
    obtain _ | ⟨c, s⟩ := s
    · rfl
    · exact absurd rfl (hs n c s rfl)

lemma octalDigit?_lt (h : Text.octalDigit? c = some d) : d < 8 := by
  unfold Text.octalDigit? at h
  split at h
  · rename_i hc
    obtain ⟨-, hle⟩ := hc
    have hle : c.toNat ≤ '7'.toNat := hle
    have h7 : '7'.toNat = 55 := rfl
    have h0 : '0'.toNat = 48 := rfl
    obtain rfl := Option.some.inj h
    omega
  · cases h

lemma octalCode_lt {code bound : Nat} (h : code < bound) (n : Nat) (s : List Char) :
    (octalCode n code s).1 < bound * 8 ^ n := by
  fun_induction octalCode n code s generalizing bound with
  | case1 n code c rest d hd ih =>
    have hd := octalDigit?_lt hd
    have hcode : code * 8 + d < bound * 8 := by omega
    simpa [pow_succ, mul_assoc, mul_comm 8] using ih hcode
  | case2 n code | case3 n code => exact h.trans_le (Nat.le_mul_of_pos_right _ (by positivity))

/-- Three octal digits are the code of a character, so neither reader falls back. -/
lemma charOf?_octalCode (hd : Text.octalDigit? c = some d) (s : List Char) :
    Text.charOf? (octalCode 2 d s).1 = some (Char.ofNat (octalCode 2 d s).1) := by
  have hlt := octalCode_lt (octalDigit?_lt hd) 2 s
  exact if_pos (.inl (hlt.trans (by decide)))

lemma octalCode_quoted (n code : Nat) (s rest : List Char) :
    octalCode n code (s ++ '"' :: rest) = octalCode n code s := by
  fun_induction octalCode n code s with
  | case1 n code c s d hd ih => simp [hd, ih]
  | case2 n code c s hd => simp [hd]
  | case3 n code s hs =>
    obtain _ | n := n
    · simp
    obtain _ | ⟨c, s⟩ := s
    · simp [show Text.octalDigit? '"' = none from rfl]
    · exact absurd rfl (hs n c s rfl)

lemma Quotable.drop_octal (h : Quotable 0 s) (n code : Nat) :
    (octalCode n code s).2 ≤ s.length ∧ Quotable 0 (s.drop (octalCode n code s).2) := by
  fun_induction octalCode n code s with
  | case1 n code c s d hd ih =>
    have hs := h.tail
    rw [if_neg (by rintro rfl; cases hd)] at hs
    simpa using ih hs
  | case2 | case3 => exact ⟨Nat.zero_le _, h⟩

/-- Behind an escape the text goes on as at its start. -/
lemma Quotable.behind_escape (h : Quotable n ('\\' :: c :: s)) (hn : Even n) :
    c ≠ '\n' ∧ ∃ m, Even m ∧ (c ≠ '\\' → m = 0) ∧ Quotable m s := by
  refine ⟨fun hc => h.line (by simp [hc]), _, ?_, fun hc => if_neg hc, h.tail.tail⟩
  rw [if_pos rfl]
  split
  · exact Nat.even_add_one.mpr (Nat.even_add_one.not.mpr (not_not.mpr hn))
  · exact Even.zero

lemma scanString_escape (hc : c ≠ '\n') (used : Nat) (out : List Char) :
    scanString used out ('\\' :: c :: s) = match escapeLetter? c with
      | some e => scanString (used + 2) (e :: out) s
      | none =>
        match Text.octalDigit? c with
        | some d =>
          scanString (used + 2 + (octalCode 2 d s).2)
            ((Text.charOf? (octalCode 2 d s).1).getD '\ufffd' :: out) (s.drop (octalCode 2 d s).2)
        | none => scanString (used + 2) (c :: '\\' :: out) s := by
  rw [scanString.eq_def]
  cases hd : Text.octalDigit? c <;> cases he : escapeLetter? c <;> simp [hd, he]

lemma scanString_quotable (out : List Char) (h : Quotable n s) (hn : Even n) (used : Nat) :
    scanString used out (s ++ '"' :: rest) =
      some (CommandLine.unescapeFrom out s, used + s.length + 1) := by
  fun_induction CommandLine.unescapeFrom out s generalizing used n with
  | case1 out => simp
  | case2 out =>
    have hodd : Even (n + 1) := by simpa [backslashes] using h.ending
    exact absurd hn (Nat.even_add_one.mp hodd)
  | case3 out c s e he ih =>
    obtain ⟨hc, m, hm, -, hs⟩ := h.behind_escape hn
    rw [List.cons_append, List.cons_append, scanString_escape hc, escapeLetter?_eq, he]
    simp [ih hs hm]
    omega
  | case4 out c s he d hd code =>
    rename_i ih
    obtain ⟨hc, m, hm, hzero, hs⟩ := h.behind_escape hn
    obtain rfl := hzero (by rintro rfl; cases hd)
    obtain ⟨hmore, hs⟩ := hs.drop_octal 2 d
    have hread := charOf?_octalCode hd s
    have hcode : code = _ := takeOctal_eq 2 d s
    rw [hcode, hread] at ih ⊢
    rw [List.cons_append, List.cons_append, scanString_escape hc,
      escapeLetter?_eq, he, hd]
    simp only [octalCode_quoted, hread, List.drop_append_of_le_length hmore, Option.getD_some]
    rw [← List.singleton_append, ← Option.toList_some, ih hs hm]
    simp
    omega
  | case5 out c s he hd ih =>
    obtain ⟨hc, m, hm, -, hs⟩ := h.behind_escape hn
    rw [List.cons_append, List.cons_append, scanString_escape hc, escapeLetter?_eq, he, hd]
    simp [ih hs hm]
    omega
  | case6 out c s hc ih =>
    have hs := h.tail
    rw [if_neg hc] at hs
    have hquote : c ≠ '"' := by
      rintro rfl
      exact absurd hn (Nat.not_even_iff_odd.mpr (h.quotes [] s rfl))
    have hline : c ≠ '\n' := fun hc => h.line (by simp [hc])
    have hstep : scanString used out (c :: (s ++ '"' :: rest)) =
        scanString (used + 1) (c :: out) (s ++ '"' :: rest) := by
      rw [scanString] <;> simp_all
    rw [List.cons_append, hstep, ih hs Even.zero, List.length_cons]
    simp
    omega

/-- A text between quotes is one token, and stands for what it stands for on the command line. -/
theorem lex_quoted (s : String) (hline : '\n' ∉ s.toList)
    (hquotes : ∀ before after, s.toList = before ++ '"' :: after → Odd (backslashes 0 before))
    (hend : Even (backslashes 0 s.toList)) : (Token.lex ("\"" ++ s ++ "\"")).map (List.map Token.kind) =
      .ok [.str (CommandLine.unescape s), .mark .eof] := by
  have hscan : scanString 0 [] (s.toList ++ ['"']) = some (CommandLine.unescapeFrom [] s.toList, _) :=
    scanString_quotable [] ⟨hline, hquotes, hend⟩ Even.zero 0
  have htoken : scanToken true '"' (s.toList ++ ['"']) =
      .ok (.str (CommandLine.unescape s), 0 + s.toList.length + 1) := by
    simp [scanToken, hscan, show Text.startsName '"' = false by decide, CommandLine.unescape]
  have hlex : lexFrom .start [] ('"' :: (s.toList ++ ['"'])) = _ :=
    lexFrom_cons (blanks_eq_zero (by decide)) htoken
  rw [Token.lex, show ("\"" ++ s ++ "\"").toList = '"' :: (s.toList ++ ['"']) by simp, hlex,
    List.drop_eq_nil_of_le (by simp), lexFrom_nil]
  rfl

theorem lex_quoted_escapes :
    (Token.lex "\"\\\"\\1013\"").map (List.map Token.kind) = .ok [.str "\"A3", .mark .eof] := by
  have hunescape : CommandLine.unescape "\\\"\\1013" = "\"A3" := by
    simp [CommandLine.unescape, CommandLine.unescapeFrom, CommandLine.escapeLetter?,
      CommandLine.takeOctal, Text.octalDigit?, Text.charOf?, Nat.isValidChar]
  have hquotes : ∀ before after, "\\\"\\1013".toList = before ++ '"' :: after →
      Odd (backslashes 0 before) := by
    intro before after h
    obtain _ | ⟨a, _ | ⟨b, before⟩⟩ := before
    · simp at h
    · obtain ⟨rfl, -⟩ := List.cons.inj h
      decide
    · have hrest : ['\\', '1', '0', '1', '3'] = before ++ '"' :: after := (List.cons.inj (List.cons.inj h).2).2
      have hmem : '"' ∈ before ++ '"' :: after := by simp
      rw [← hrest] at hmem
      exact absurd hmem (by decide)
  rw [← hunescape]
  exact lex_quoted "\\\"\\1013" (by decide) hquotes (by decide)

/-! ## Regexes -/

def classText (name : List Char) : List Char := ['[', ':'] ++ name ++ [':', ']']

/-- What stands in a bracket expression, with the bracket that closes it; `behind` tells that a class stands
before it.  The characters `barred` do not stand by themselves behind a class. -/
inductive BracketText (barred : List Char) : (behind : Bool) → List Char → Prop where
  | close {behind : Bool} : BracketText barred behind [']']
  | escaped {behind : Bool} {c : Char} {s : List Char} (hc : c ∉ ['/', '\n'])
      (hs : BracketText barred behind s) : BracketText barred behind ('\\' :: c :: s)
  | posixClass {behind : Bool} {name s : List Char} (hname : ∀ c ∈ name, c ∉ ['[', ']', ':', '\\', '\n'])
      (hs : BracketText barred true s) : BracketText barred behind (classText name ++ s)
  | plain {behind : Bool} {c : Char} {s : List Char} (hc : c ∉ [']', '\\', '\n'])
      (hbarred : behind = true → c ∉ barred) (hs : BracketText barred behind s) :
      BracketText barred behind (c :: s)

/-- How a bracket expression starts: `^` and `]` right behind the opening bracket always belong to it. -/
def Opens (start s : List Char) : Prop :=
  (start = ['['] ∧ ∀ c ∈ s.head?, c ≠ '^' ∧ c ≠ ']') ∨ (start = ['[', '^'] ∧ ∀ c ∈ s.head?, c ≠ ']') ∨
    start = ['[', ']'] ∨ start = ['[', '^', ']']

/-- The text of a regex, and how a literal writes it between slashes. -/
inductive RegexText (barred : List Char) : (text literal : List Char) → Prop where
  | nil : RegexText barred [] []
  | escaped {c : Char} {t l : List Char} (hc : c ∉ ['/', '\n']) (h : RegexText barred t l) :
      RegexText barred ('\\' :: c :: t) ('\\' :: c :: l)
  | slash {t l : List Char} (h : RegexText barred t l) : RegexText barred ('/' :: t) ('\\' :: '/' :: l)
  | plain {c : Char} {t l : List Char} (hc : c ∉ ['\\', '[', '\n', '/']) (h : RegexText barred t l) :
      RegexText barred (c :: t) (c :: l)
  | bracket {start s t l : List Char} (hstart : Opens start s) (hs : BracketText barred false s)
      (h : RegexText barred t l) : RegexText barred (start ++ s ++ t) (start ++ s ++ l)

/-- The reader takes `p` for the text `w`; `b` and `b'` tell whether a bracket expression is open. -/
def Takes (b : Bool) (p w : List Char) (b' : Bool) : Prop := ∀ used out rest,
  scanRegex b used out (p ++ rest) = scanRegex b' (used + p.length) (w.reverse ++ out) rest

/-- The reader ends within a text. -/
def EndsWithin (b : Bool) (p : List Char) : Prop := ∀ used out rest,
  ∃ t n, scanRegex b used out (p ++ rest) = some (t, n) ∧ n ≤ used + p.length

section

variable {b b' b'' behind : Bool} {p q w v t l start : List Char}

lemma Takes.append (hp : Takes b p w b') (hq : Takes b' q v b'') : Takes b (p ++ q) (w ++ v) b'' := by
  intro used out rest
  rw [List.append_assoc, hp, hq]
  simp [Nat.add_assoc]

lemma Takes.endsWithin (hp : Takes b p w b') (hq : EndsWithin b' q) : EndsWithin b (p ++ q) := by
  intro used out rest
  obtain ⟨t, n, hscan, hn⟩ := hq (used + p.length) (w.reverse ++ out) rest
  exact ⟨t, n, by rw [List.append_assoc, hp, hscan], by simpa [Nat.add_assoc] using hn⟩

lemma EndsWithin.append (hp : EndsWithin b p) (q : List Char) : EndsWithin b (p ++ q) := by
  intro used out rest
  obtain ⟨t, n, hscan, hn⟩ := hp used out (q ++ rest)
  exact ⟨t, n, by rw [List.append_assoc, hscan], by rw [List.length_append]; omega⟩

lemma takes_escape (hc : c ∉ ['/', '\n']) : Takes b ['\\', c] ['\\', c] b := by
  intro used out rest
  simp only [List.mem_cons, List.not_mem_nil, or_false, not_or] at hc
  rw [scanRegex.eq_def]
  simp [hc]

lemma takes_plain (hc : c ∉ [']', '\\', '\n']) (hopen : b = false → c ∉ ['[', '/']) : Takes b [c] [c] b := by
  intro used out rest
  simp only [List.mem_cons, List.not_mem_nil, or_false, not_or] at hc hopen
  rw [scanRegex.eq_def]
  cases b
  · simp_all
  · simp only [List.cons_append, List.nil_append]
    split <;> simp_all

lemma takes_slash : Takes b ['\\', '/'] ['/'] b := by
  intro used out rest
  simp

lemma takes_close : Takes b [']'] [']'] false := by
  intro used out rest
  rw [scanRegex.eq_def]
  simp

lemma takes_outside (hc : c ∉ ['\\', '[', '\n', '/']) : Takes false [c] [c] false := by
  simp only [List.mem_cons, List.not_mem_nil, or_false, not_or] at hc
  by_cases hclose : c = ']'
  · subst hclose
    exact takes_close
  · exact takes_plain (by simp [hc, hclose]) (by simp [hc])

/-- The bracket at the end of a class closes, for the reader, the expression that the class stands in. -/
lemma takes_class {name : List Char} (hname : ∀ c ∈ name, c ∉ ['[', ']', ':', '\\', '\n']) :
    Takes (!behind) (classText name) (classText name) false := by
  have hopen : Takes (!behind) ['[', ':'] ['[', ':'] true := by
    intro used out rest
    cases behind <;> simp
  have hinner : Takes true name name true := by
    induction name with
    | nil => exact fun _ _ _ => rfl
    | cons c name ih =>
      have hc : c ∉ [']', '\\', '\n'] := fun hmem =>
        hname c (by simp) (by simp only [List.mem_cons, List.not_mem_nil, or_false] at hmem ⊢; tauto)
      exact (takes_plain (b := true) hc nofun).append (ih fun d hd => hname d (by simp [hd]))
  have hcolon : Takes true [':'] [':'] true := takes_plain (by decide) nofun
  exact (hopen.append hinner).append (hcolon.append takes_close)

lemma BracketText.takes (h : BracketText ['[', '/'] behind s) : Takes (!behind) s s false := by
  induction h with
  | close => exact takes_close
  | escaped hc _ ih => exact (takes_escape hc).append ih
  | posixClass hname _ ih => exact (takes_class hname).append ih
  | plain hc hbarred _ ih => exact (takes_plain hc (by simpa using hbarred)).append ih

/-- A slash behind a class ends the regex. -/
lemma BracketText.takes_or (h : BracketText ['['] behind s) :
    BracketText ['[', '/'] behind s ∨ EndsWithin (!behind) s := by
  induction h with
  | close => exact .inl .close
  | escaped hc _ ih => exact ih.imp (.escaped hc) (takes_escape hc).endsWithin
  | posixClass hname _ ih => exact ih.imp (.posixClass hname) (takes_class hname).endsWithin
  | @plain behind c s hc hbarred _ ih =>
    by_cases hslash : behind = true ∧ c = '/'
    · obtain ⟨rfl, rfl⟩ := hslash
      exact .inr fun used out rest => ⟨out.reverse, used + 1, by simp, by simp⟩
    · have hboth : behind = true → c ∉ ['[', '/'] := by
        intro hb
        simpa using ⟨by simpa using hbarred hb, fun hc => hslash ⟨hb, hc⟩⟩
      exact ih.imp (.plain hc hboth) (takes_plain hc (by simpa using hboth)).endsWithin

lemma BracketText.exists_cons {barred : List Char} (h : BracketText barred behind s) : ∃ c u, s = c :: u := by
  cases h <;> exact ⟨_, _, rfl⟩

lemma Opens.scan (h : Opens start s) (hs : ∃ c u, s = c :: u) (used : Nat) (out rest : List Char) :
    scanRegex false used out (start ++ s ++ rest) =
      scanRegex true (used + start.length) (start.reverse ++ out) (s ++ rest) := by
  obtain ⟨c, u, rfl⟩ := hs
  rcases h with ⟨rfl, hc⟩ | ⟨rfl, hc⟩ | rfl | rfl
  · obtain ⟨hcaret, hclose⟩ := hc c rfl
    simp [hcaret, hclose]
  · simp [hc c rfl]
  · simp
  · simp

lemma Opens.takes (h : Opens start s) (hs : BracketText ['[', '/'] false s) :
    Takes false (start ++ s) (start ++ s) false := by
  intro used out rest
  rw [h.scan hs.exists_cons]
  refine (hs.takes _ _ _).trans ?_
  simp [Nat.add_assoc]

lemma RegexText.takes (h : RegexText ['[', '/'] t l) : Takes false l t false := by
  induction h with
  | nil => exact fun _ _ _ => rfl
  | escaped hc _ ih => exact (takes_escape hc).append ih
  | slash _ ih => exact takes_slash.append ih
  | plain hc _ ih => exact (takes_outside hc).append ih
  | bracket hstart hs _ ih => exact (hstart.takes hs).append ih

lemma RegexText.takes_or (h : RegexText ['['] t l) : RegexText ['[', '/'] t l ∨ EndsWithin false l := by
  induction h with
  | nil => exact .inl .nil
  | escaped hc _ ih => exact ih.imp (.escaped hc) (takes_escape hc).endsWithin
  | slash _ ih => exact ih.imp .slash takes_slash.endsWithin
  | plain hc _ ih => exact ih.imp (.plain hc) (takes_outside hc).endsWithin
  | @bracket start s t l hstart hs _ ih =>
    rcases hs.takes_or with hboth | hends
    · exact ih.imp (.bracket hstart hboth) (hstart.takes hboth).endsWithin
    · refine .inr (EndsWithin.append (fun used out rest => ?_) l)
      obtain ⟨t, n, hscan, hn⟩ := hends (used + start.length) (start.reverse ++ out) rest
      exact ⟨t, n, (hstart.scan hs.exists_cons used out rest).trans hscan, by simpa [Nat.add_assoc] using hn⟩

end

lemma scanToken_regex {t : List Char} {n : Nat} (h : scanRegex false 0 [] s = some (t, n)) :
    scanToken true '/' s = .ok (.regex (String.ofList t), n) := by
  simp [scanToken, h, show Text.startsName '/' = false by decide]

/-- Of the regexes in which no bracket stands by itself behind a class, exactly those are read as they are
written in which no slash does. -/
theorem scanToken_regexLiteral (text literal rest : List Char) (h : RegexText ['['] text literal) :
    (scanToken true '/' (literal ++ '/' :: rest) = .ok (.regex (String.ofList text), literal.length + 1) ↔
      RegexText ['[', '/'] text literal) ∧
    (RegexText ['[', '/'] text literal → ∀ (pos : Position) (tokens : List Token),
      (∀ t ∈ tokens.head?, t.kind.endsOperand = false) →
        let stop := pos.after ('/' :: literal ++ ['/'])
        lexFrom pos tokens ('/' :: literal ++ '/' :: rest) =
          lexFrom stop (⟨.regex (String.ofList text), .between pos stop⟩ :: tokens) rest) := by
  have hread (hboth : RegexText ['[', '/'] text literal) : scanToken true '/' (literal ++ '/' :: rest) =
      .ok (.regex (String.ofList text), literal.length + 1) := by
    have hscan := hboth.takes 0 [] ('/' :: rest)
    rw [scanRegex] at hscan
    rw [scanToken_regex hscan]
    simp
  refine ⟨⟨fun hscan => ?_, hread⟩, fun hboth pos tokens hallowed => ?_⟩
  · refine h.takes_or.resolve_right fun hends => ?_
    obtain ⟨t, n, hearly, hn⟩ := hends 0 [] ('/' :: rest)
    have hused := (Prod.mk.inj (Except.ok.inj ((scanToken_regex hearly).symm.trans hscan))).2
    omega
  · have hflag : (tokens.head?.all fun t => !t.kind.endsOperand) = true := by
      cases tokens with
      | nil => rfl
      | cons t tokens => simpa using hallowed t rfl
    have hlex : lexFrom pos tokens ('/' :: (literal ++ '/' :: rest)) = _ :=
      lexFrom_cons (blanks_eq_zero (by decide)) (hflag ▸ hread hboth)
    have hlen : (literal ++ ['/']).length = literal.length + 1 := by simp
    rw [List.append_cons, List.take_left' hlen, List.drop_left' hlen] at hlex
    simpa using hlex

/-- In `a/[]/[:alpha:]]` the slashes stand before the class. -/
theorem slash_before_class_read : scanToken true '/' "a\\/[]/[:alpha:]]/".toList =
    .ok (.regex "a/[]/[:alpha:]]", 17) := by
  have h (barred : List Char) : RegexText barred
      ('a' :: '/' :: (['[', ']'] ++ ('/' :: (classText ['a', 'l', 'p', 'h', 'a'] ++ [']'])) ++ []))
      ('a' :: '\\' :: '/' :: (['[', ']'] ++ ('/' :: (classText ['a', 'l', 'p', 'h', 'a'] ++ [']'])) ++ [])) :=
    .plain (by decide) (.slash (.bracket (.inr (.inr (.inl rfl)))
      (.plain (by decide) nofun (.posixClass (by simp) .close)) .nil))
  exact (scanToken_regexLiteral _ _ [] (h ['['])).1.mpr (h _)

/-- In `[[:alpha:]/]` the slash stands behind the class, and is read as the end of the regex. -/
theorem slash_behind_class_unread :
    let text := ['['] ++ (classText ['a', 'l', 'p', 'h', 'a'] ++ ['/', ']']) ++ []
    RegexText [] text text ∧ String.ofList text = "[[:alpha:]/]" ∧
      (Token.lex "/[[:alpha:]/]/").map (List.map Token.kind) =
        .ok [.regex "[[:alpha:]", .mark .rBracket, .mark .slash, .mark .eof] := by
  refine ⟨.bracket (.inl ⟨rfl, by simp [classText]⟩) (.posixClass (by simp) ?_) .nil, by decide, by cbv⟩
  exact .plain (by decide) (by simp) .close

end Lexer

end Awk
