import Awk.Proofs.Script.Precedence
import Awk.Proofs.Token.Literals

/-!
# Expressions shown as text

The text that messages show for an expression is read back as the expression.
-/

namespace Awk

namespace Lexer

/-! ## Tokens of a text -/

/-- Behind tokens of some kinds, the last one first, a text is read up to what stands behind it, with
more tokens then. -/
def Lexes (ks : List Token.Kind) (s : List Char) (js : List Token.Kind) (rest : List Char) : Prop :=
  ∀ pos tokens, tokens.map Token.kind = ks → ∃ pos' tokens', tokens'.map Token.kind = js ∧
    lexFrom pos tokens s = lexFrom pos' tokens' rest

variable {ks js is : List Token.Kind} {s u rest : List Char} {c : Char}

lemma Lexes.trans (h : Lexes ks s js u) (h' : Lexes js u is rest) : Lexes ks s is rest := by
  intro pos tokens ht
  obtain ⟨pos', tokens', ht', he⟩ := h pos tokens ht
  obtain ⟨pos'', tokens'', ht'', he'⟩ := h' pos' tokens' ht'
  exact ⟨pos'', tokens'', ht'', he.trans he'⟩

lemma lexes_blank : Lexes ks (' ' :: s) ks s := by
  intro pos tokens ht
  refine ⟨pos.next ' ', tokens, ht, ?_⟩
  have hb : blanks false (' ' :: s) = blanks false s + 1 := by simp [blanks]
  rw [lexFrom, lexFrom, hb]
  rfl

lemma lexes_token {kind : Token.Kind} {used : Nat} (hb : blanks false (c :: s) = 0)
    (h : scanToken (ks.head?.all fun k => !k.endsOperand) c s = .ok (kind, used)) :
    Lexes ks (c :: s) (kind :: ks) (s.drop used) := by
  intro pos tokens ht
  subst ht
  have hflag : (tokens.head?.all fun t => !t.kind.endsOperand) =
      ((tokens.map Token.kind).head?.all fun k => !k.endsOperand) := by
    cases tokens <;> rfl
  refine ⟨pos.after (c :: s.take used), ⟨kind, .between pos (pos.after (c :: s.take used))⟩ :: tokens,
    rfl, ?_⟩
  exact lexFrom_cons hb (hflag ▸ h)

def IsSign (c : Char) : Bool :=
  !c.isDigit && !Text.startsName c && c ∉ ['.', '"', '\\', '#', ' ', '\t', '\r', '\n']

lemma lexes_sign {cs : List Char} {m : Mark} (hc : IsSign c = true)
    (hslash : c = '/' → ∃ k ∈ ks.head?, k.endsOperand = true)
    (h : scanSign c (cs ++ s) = some (m, cs.length)) :
    Lexes ks (c :: cs ++ s) (.mark m :: ks) s := by
  obtain ⟨⟨hdigit, hname⟩, hmem⟩ : (c.isDigit = false ∧ Text.startsName c = false) ∧ _ := by
    simpa [IsSign] using hc
  have hregex : ¬ (c = '/' ∧ (ks.head?.all fun k => !k.endsOperand) = true) := by
    rintro ⟨rfl, hall⟩
    obtain ⟨k, hk, hends⟩ := hslash rfl
    rw [Option.mem_def] at hk
    simp [hk, hends] at hall
  have htoken : scanToken (ks.head?.all fun k => !k.endsOperand) c (cs ++ s) = .ok (.mark m, cs.length) := by
    simp [scanToken, hdigit, hname, hmem, hregex, h]
  have := lexes_token (blanks_eq_zero (by simp [hmem])) htoken
  rwa [List.drop_left] at this

lemma isDigit_of_startsName (h : Text.startsName c = true) : c.isDigit = false := by
  by_contra hdigit
  have hrange : 48 ≤ c.toNat ∧ c.toNat ≤ 57 := by
    simpa [Char.isDigit, UInt32.le_iff_toNat_le] using hdigit
  have hlow : c.toNat < 128 := lt_of_le_of_lt hrange.2 (by decide)
  rw [Text.startsName, Text.isLetter, if_pos hlow] at h
  simp [Char.isAlpha, Char.isUpper, Char.isLower, UInt32.le_iff_toNat_le] at h
  rcases h with (h | h) | rfl
  · omega
  · omega
  · simp at hrange

lemma lexes_word {w : String} {cs : List Char} (hw : w.toList = c :: cs) (hc : Text.startsName c = true)
    (hcs : ∀ d ∈ cs, Text.continuesName d = true) (hs : ∀ d ∈ s.head?, Text.continuesName d = false) :
    Lexes ks (w.toList ++ s) (wordKind w s.head? :: ks) s := by
  have htake : (cs ++ s).takeWhile Text.continuesName = cs := by
    rw [List.takeWhile_append_of_pos hcs]
    cases s with
    | nil => simp
    | cons d s => simp [hs d rfl]
  have hne : c ∉ ['.', '\\', '#', ' ', '\t', '\r', '\n'] := by
    intro hmem
    fin_cases hmem <;> revert hc <;> decide
  simp only [List.mem_cons, List.not_mem_nil, or_false, not_or] at hne
  have hname : scanName c (cs ++ s) = (wordKind w s.head?, cs.length) := by
    rw [scanName, htake, List.drop_left, ← hw, String.ofList_toList]
  have htoken : scanToken (ks.head?.all fun k => !k.endsOperand) c (cs ++ s) =
      .ok (wordKind w s.head?, cs.length) := by
    simp [scanToken, hne, isDigit_of_startsName hc, hc, hname]
  have := lexes_token (blanks_eq_zero (by simp [hne])) htoken
  rwa [List.drop_left, ← List.cons_append, ← hw] at this

/-- What may stand behind an operand: nothing that would make its last name longer or call it. -/
def Clear (s : List Char) : Prop := ∀ c ∈ s.head?, Text.continuesName c = false ∧ c ≠ '('

def Starts (s : List Char) : Prop :=
  ∃ c u, s = c :: u ∧ (Text.startsName c = true ∨ c = '$' ∨ c = '(')

lemma Starts.exists_cons (h : Starts s) :
    ∃ c u, s = c :: u ∧ c ∉ ['=', '+', '-', '*', '~', '>', '&', '|'] := by
  obtain ⟨c, u, rfl, hc⟩ := h
  refine ⟨c, u, rfl, fun hmem => ?_⟩
  fin_cases hmem <;> revert hc <;> decide

lemma scanSign_sign (op : BinaryOp) (hop : op ≠ .concat) (hs : Starts s) : ∃ c cs m,
    op.sign.toList = c :: cs ∧ op.kinds = [.mark m] ∧
      (IsSign c = true ∧ Text.continuesName c = false ∧ c ≠ '(') ∧
      scanSign c (cs ++ s) = some (m, cs.length) := by
  obtain ⟨d, u, rfl, hd⟩ := hs.exists_cons
  simp only [List.mem_cons, List.not_mem_nil, or_false, not_or] at hd
  cases op with
  | concat => exact absurd rfl hop
  | arith op =>
    cases op with
    | add => exact ⟨'+', [], .plus, rfl, rfl, by decide, by simp [scanSign, hd]⟩
    | sub => exact ⟨'-', [], .minus, rfl, rfl, by decide, by simp [scanSign, hd]⟩
    | mul => exact ⟨'*', [], .star, rfl, rfl, by decide, by simp [scanSign, hd]⟩
    | div => exact ⟨'/', [], .slash, rfl, rfl, by decide, by simp [scanSign, hd]⟩
    | mod => exact ⟨'%', [], .percent, rfl, rfl, by decide, by simp [scanSign, hd]⟩
    | pow => exact ⟨'^', [], .caret, rfl, rfl, by decide, by simp [scanSign, hd]⟩
  | compare op =>
    cases op with
    | equal => exact ⟨'=', ['='], .equals, rfl, rfl, by decide, by simp [scanSign]⟩
    | notEqual => exact ⟨'!', ['='], .notEquals, rfl, rfl, by decide, by simp [scanSign]⟩
    | less => exact ⟨'<', [], .less, rfl, rfl, by decide, by simp [scanSign, hd]⟩
    | lessOrEqual => exact ⟨'<', ['='], .lessOrEqual, rfl, rfl, by decide, by simp [scanSign]⟩
    | greater => exact ⟨'>', [], .greater, rfl, rfl, by decide, by simp [scanSign, hd]⟩
    | greaterOrEqual => exact ⟨'>', ['='], .greaterOrEqual, rfl, rfl, by decide, by simp [scanSign]⟩
  | «match» op =>
    cases op with
    | false => exact ⟨'~', [], .match, rfl, rfl, by decide, by simp [scanSign]⟩
    | true => exact ⟨'!', ['~'], .notMatch, rfl, rfl, by decide, by simp [scanSign]⟩
  | and => exact ⟨'&', ['&'], .and, rfl, rfl, by decide, by simp [scanSign]⟩
  | or => exact ⟨'|', ['|'], .or, rfl, rfl, by decide, by simp [scanSign]⟩

lemma lexes_operator (op : BinaryOp) (hs : Starts s) (hk : ∃ k ∈ ks.head?, k.endsOperand = true) :
    Lexes ks (op.sign.toList ++ s) (op.kinds.reverse ++ ks) s := by
  by_cases hop : op = .concat
  · subst hop
    exact lexes_blank
  · obtain ⟨c, cs, m, hsign, hkinds, ⟨hc, -⟩, hscan⟩ := scanSign_sign op hop hs
    rw [hsign, hkinds]
    exact lexes_sign hc (fun _ => hk) hscan

lemma clear_operator (op : BinaryOp) (hs : Starts s) : Clear (op.sign.toList ++ s) := by
  by_cases hop : op = .concat
  · subst hop
    rintro c ⟨⟩
    decide
  · obtain ⟨c, cs, m, hsign, -, ⟨-, hc⟩, -⟩ := scanSign_sign op hop hs
    rw [hsign]
    rintro d ⟨⟩
    exact hc

/-- A single character that is a mark whatever stands behind it. -/
lemma lexes_mark {m : Mark} (c : Char) (hc : IsSign c = true) (hslash : c ≠ '/')
    (h : ∀ s, scanSign c s = some (m, 0)) : Lexes ks (c :: s) (.mark m :: ks) s := by
  have hscan : scanSign c ([] ++ s) = some (m, ([] : List Char).length) := h s
  exact lexes_sign hc (fun h => absurd h hslash) hscan

lemma clear_cons (h : Text.continuesName c = false ∧ c ≠ '(') : Clear (c :: s) := by
  rintro d ⟨⟩
  exact h

lemma Lexes.parens (h : Lexes (.mark .lParen :: ks) (s ++ ')' :: rest) (js.reverse ++ .mark .lParen :: ks)
    (')' :: rest)) : Lexes ks ('(' :: (s ++ ')' :: rest)) ((inParens true js).reverse ++ ks) rest := by
  have hopen : Lexes ks ('(' :: (s ++ ')' :: rest)) (.mark .lParen :: ks) (s ++ ')' :: rest) :=
    lexes_mark '(' (by decide) (by decide) fun _ => rfl
  have hclose : Lexes (js.reverse ++ .mark .lParen :: ks) (')' :: rest) (.mark .rParen :: _) rest :=
    lexes_mark ')' (by decide) (by decide) fun _ => rfl
  simpa [inParens] using hopen.trans (h.trans hclose)

/-- A name that is neither a word of the language nor a builtin function. -/
structure IsName (w : String) : Prop where
  letters : ∃ c cs, w.toList = c :: cs ∧ Text.startsName c = true ∧ ∀ d ∈ cs, Text.continuesName d = true
  noMark : Mark.ofWord? w = none
  noBuiltin : Builtin.ofName? w = none

variable {w : String}

lemma IsName.lexes (h : IsName w) (hs : Clear s) : Lexes ks (w.toList ++ s) (.name w :: ks) s := by
  obtain ⟨c, cs, hw, hc, hcs⟩ := h.letters
  have hkind : wordKind w s.head? = .name w := by
    have hne : s.head? ≠ some '(' := fun hp => (hs _ hp).2 rfl
    simp [wordKind, h.noMark, h.noBuiltin, hne]
  rw [← hkind]
  exact lexes_word hw hc hcs fun d hd => (hs d hd).1

lemma IsName.lexes_call (h : IsName w) :
    Lexes ks (w.toList ++ '(' :: s) (.mark .lParen :: .funcName w :: ks) s := by
  obtain ⟨c, cs, hw, hc, hcs⟩ := h.letters
  have hkind : wordKind w (some '(') = .funcName w := by
    simp [wordKind, h.noMark, h.noBuiltin]
  have hword : Lexes ks (w.toList ++ '(' :: s) (wordKind w ('(' :: s).head? :: ks) ('(' :: s) :=
    lexes_word hw hc hcs (by rintro d ⟨⟩; decide)
  rw [List.head?_cons, hkind] at hword
  exact hword.trans (lexes_mark '(' (by decide) (by decide) fun _ => rfl)

lemma IsName.starts (h : IsName w) : Starts (w.toList ++ s) := by
  obtain ⟨c, cs, hw, hc, -⟩ := h.letters
  exact ⟨c, cs ++ s, by rw [hw, List.cons_append], .inl hc⟩

end Lexer

open Lexer

/-! ## The text of an expression -/

/-- The constructs whose text can be read back, with names that are free; no index is empty. -/
def Expr.Shown : Expr → Prop
  | .place (.var v) => IsName v.name
  | .place (.index array index) => IsName array.name ∧ index ≠ []
  | .place (.field _) | .cond _ _ _ | .binary _ _ _ => True
  | .member index array => IsName array.name ∧ index ≠ []
  | .userCall name _ _ => IsName name
  | _ => False

lemma Expr.Shown.inTable {e : Expr} (h : e.Shown) : e.InTable := by
  cases e with
  | place p =>
    cases p with
    | index a es => exact h.2
    | _ => trivial
  | member es a => exact h.2
  | cond _ _ _ | binary _ _ _ | userCall _ _ _ => trivial
  | _ => exact h.elim

lemma Expr.Shown.starts {e : Expr} (h : e.Shown) {s : List Char} : Starts (e.show.toList ++ s) := by
  cases e with
  | place p =>
    cases p with
    | var v =>
      rw [Expr.show, Place.show]
      exact IsName.starts h
    | index a es =>
      rw [Expr.show, Place.show]
      simp only [String.toList_append, List.append_assoc]
      exact h.1.starts
    | field e => 
      rw [Expr.show, Place.show, String.toList_append]
      exact ⟨'$', _, rfl, by decide⟩
  | userCall a es _ =>
    rw [Expr.show]
    simp only [String.toList_append, List.append_assoc]
    exact IsName.starts h
  | member es a | cond _ _ _ | binary _ _ _ =>
    rw [Expr.show]
    simp only [String.toList_append, List.append_assoc]
    exact ⟨'(', _, rfl, by decide⟩
  | _ => exact h.elim

lemma Expr.kindsAt_ends : ∀ {e : Expr}, e.All Expr.Shown → ∀ l, ∃ k ∈ (e.kindsAt true l).reverse.head?,
    k.endsOperand = true
  | .place (.field e), h, l => by
    obtain ⟨k, hk, hends⟩ := Expr.kindsAt_ends h.2 14
    refine ⟨k, ?_, hends⟩
    rw [Expr.kindsAt, Place.kinds, List.reverse_cons]
    simp_all
  | .place (.var v), _, l => by
    rw [Expr.kindsAt, Place.kinds]
    exact ⟨_, rfl, rfl⟩
  | .place (.index a es), _, l => by
    rw [Expr.kindsAt, Place.kinds]
    simp [Token.Kind.endsOperand]
  | .cond _ _ _, _, l | .binary _ _ _, _, l | .member [_] _, _, l => by
    rw [Expr.kindsAt]
    simp [inParens, Token.Kind.endsOperand]
  | .member (_ :: _ :: _) _, _, l => by
    rw [Expr.kindsAt]
    · simp [inParens, Token.Kind.endsOperand]
    · simp
  | .userCall a es _, _, l => by
    rw [Expr.kindsAt]
    simp [Token.Kind.endsOperand]

section

variable {ks js is : List Token.Kind} {s u v rest : List Char}

lemma lexes_spaced {m : Mark} (c : Char) (hc : IsSign c = true) (hslash : c ≠ '/')
    (h : ∀ s, scanSign c s = some (m, 0)) : Lexes ks (' ' :: c :: ' ' :: s) (.mark m :: ks) s :=
  lexes_blank.trans ((lexes_mark c hc hslash h).trans lexes_blank)

lemma lexes_in : Lexes ks (' ' :: 'i' :: 'n' :: ' ' :: s) (.mark .in :: ks) s := by
  have hword : Lexes ks ("in".toList ++ ' ' :: s) (wordKind "in" (some ' ') :: ks) (' ' :: s) := by
    refine lexes_word rfl (by decide) (fun d hd => ?_) (by rintro d ⟨⟩; decide)
    obtain rfl := List.mem_singleton.mp hd
    decide
  exact lexes_blank.trans (hword.trans lexes_blank)

/-- An index in parentheses with `in` and the name of an array behind it, all in parentheses. -/
lemma lexes_member {w : String} (hw : IsName w)
    (h : ∀ {ks rest}, Clear rest → Lexes ks (s ++ rest) (js.reverse ++ ks) rest) :
    Lexes ks ('(' :: '(' :: (s ++ ')' :: ' ' :: 'i' :: 'n' :: ' ' :: (w.toList ++ ')' :: rest)))
      ((inParens true (inParens true js ++ [.mark .in, .name w])).reverse ++ ks) rest := by
  have hindex : Lexes (.mark .lParen :: ks)
      ('(' :: (s ++ ')' :: ' ' :: 'i' :: 'n' :: ' ' :: (w.toList ++ ')' :: rest))) _ _ :=
    (h (clear_cons (by decide))).parens
  have hname := (hindex.trans lexes_in).trans (hw.lexes (clear_cons (by decide)))
  have hparens : Lexes ks ('(' :: (('(' :: (s ++ ')' :: ' ' :: 'i' :: 'n' :: ' ' :: w.toList)) ++ ')' :: rest))
      ((inParens true (inParens true js ++ [.mark .in, .name w])).reverse ++ ks) rest :=
    Lexes.parens (by simpa using hname)
  simpa using hparens

mutual

lemma Place.lexes : ∀ p : Place, (Expr.place p).Shown → p.All Expr.Shown → ∀ {ks rest}, Clear rest →
    Lexes ks (p.show.toList ++ rest) ((p.kinds true).reverse ++ ks) rest
  | .var v, hp, _, _, _, hr => by
    rw [Place.show, Place.kinds]
    exact IsName.lexes hp hr
  | .index a es, hp, h, ks, rest, _ => by
    have hname : Lexes ks (a.name.toList ++ '[' :: ((", ".intercalate (showAll es)).toList ++ ']' :: rest))
        _ _ := hp.1.lexes (clear_cons (by decide))
    have hopen := hname.trans (lexes_mark '[' (by decide) (by decide) fun _ => rfl)
    have hlist := hopen.trans (listKinds_lexes es h (clear_cons (by decide)))
    have hclose := hlist.trans (lexes_mark ']' (by decide) (by decide) fun _ => rfl)
    simpa [Place.show, Place.kinds] using hclose
  | .field e, _, h, ks, rest, hr => by
    have hdollar : Lexes ks ('$' :: (e.show.toList ++ rest)) _ _ :=
      lexes_mark '$' (by decide) (by decide) fun _ => rfl
    simpa [Place.show, Place.kinds] using hdollar.trans (Expr.lexes e h 14 hr)

lemma Expr.lexes : ∀ e : Expr, e.All Expr.Shown → ∀ l {ks rest}, Clear rest →
    Lexes ks (e.show.toList ++ rest) ((e.kindsAt true l).reverse ++ ks) rest
  | .place p, h, l, _, _, hr => by
    rw [Expr.show, Expr.kindsAt]
    exact Place.lexes p h.1 h.2 hr
  | .cond e f g, h, l, ks, rest, _ => by
    have he : Lexes (.mark .lParen :: ks)
        (e.show.toList ++ ' ' :: '?' :: ' ' :: (f.show.toList ++ ' ' :: ':' :: ' ' ::
          (g.show.toList ++ ')' :: rest))) _ _ := Expr.lexes e h.2.1 2 (clear_cons (by decide))
    have hf := (he.trans (lexes_spaced '?' (by decide) (by decide) fun _ => rfl)).trans
      (Expr.lexes f h.2.2.1 0 (clear_cons (by decide)))
    have hg := (hf.trans (lexes_spaced ':' (by decide) (by decide) fun _ => rfl)).trans
      (Expr.lexes g h.2.2.2 0 (clear_cons (by decide)))
    have hparens : Lexes ks ('(' :: (e.show.toList ++ ' ' :: '?' :: ' ' :: (f.show.toList ++
        ' ' :: ':' :: ' ' :: g.show.toList) ++ ')' :: rest)) ((inParens true (e.kindsAt true 2 ++
        .mark .question :: (f.kindsAt true 0 ++ .mark .colon :: g.kindsAt true 0))).reverse ++ ks) rest :=
      Lexes.parens (by simpa using hg)
    simpa [Expr.show, Expr.kindsAt] using hparens
  | .binary e op f, h, l, ks, rest, _ => by
    have hstarts : Starts (f.show.toList ++ ')' :: rest) := h.2.2.self.starts
    have he : Lexes (.mark .lParen :: ks)
        (e.show.toList ++ (op.sign.toList ++ (f.show.toList ++ ')' :: rest))) _ _ :=
      Expr.lexes e h.2.1 op.leftLevel (clear_operator op hstarts)
    have hends : ∃ k ∈ ((e.kindsAt true op.leftLevel).reverse ++ .mark .lParen :: ks).head?,
        k.endsOperand = true := by
      obtain ⟨k, hk, hends⟩ := Expr.kindsAt_ends h.2.1 op.leftLevel
      exact ⟨k, by rw [Option.mem_def] at hk ⊢; simp [hk], hends⟩
    have hf := (he.trans (lexes_operator op hstarts hends)).trans
      (Expr.lexes f h.2.2 op.rightLevel (clear_cons (by decide)))
    have hparens : Lexes ks ('(' :: (e.show.toList ++ (op.sign.toList ++ f.show.toList) ++ ')' :: rest))
        ((inParens true (e.kindsAt true op.leftLevel ++ op.kinds ++
          f.kindsAt true op.rightLevel)).reverse ++ ks) rest :=
      Lexes.parens (by simpa using hf)
    simpa [Expr.show, Expr.kindsAt] using hparens
  | .member [e] a, h, l, ks, rest, _ => by
    simpa [Expr.show, Expr.kindsAt, showAll] using lexes_member h.1.1 (Expr.lexes e h.2.1 4)
  | .member (e :: f :: es) a, h, l, ks, rest, _ => by
    simpa [Expr.show, Expr.kindsAt] using lexes_member h.1.1 (listKinds_lexes (e :: f :: es) h.2)
  | .userCall a es _, h, l, ks, rest, _ => by
    have hname : Lexes ks (a.toList ++ '(' :: ((", ".intercalate (showAll es)).toList ++ ')' :: rest)) _ _ :=
      IsName.lexes_call h.1
    have hlist := hname.trans (listKinds_lexes es h.2 (clear_cons (by decide)))
    have hclose := hlist.trans (lexes_mark ')' (by decide) (by decide) fun _ => rfl)
    simpa [Expr.show, Expr.kindsAt] using hclose
  | .member [] _, h, _, _, _, _ => absurd rfl h.1.2
  | .num _, h, _, _, _, _ | .str _, h, _, _, _, _ | .regex _, h, _, _, _, _ => h.elim
  | .incr _ _ _, h, _, _, _, _ | .unary _ _, h, _, _, _, _ | .call _ _ _, h, _, _, _, _
  | .getline _, h, _, _, _, _ | .getlineFile _ _, h, _, _, _, _ | .getlineCommand _ _, h, _, _, _, _
  | .assign _ _, h, _, _, _, _ | .augAssign _ _ _, h, _, _, _, _ => h.1.elim

lemma listKinds_lexes : ∀ es : List Expr, AllIn Expr.Shown es → ∀ {ks rest}, Clear rest →
    Lexes ks ((", ".intercalate (showAll es)).toList ++ rest) ((listKinds true es).reverse ++ ks) rest
  | [], _, ks, _, _ => by
    intro pos tokens ht
    exact ⟨pos, tokens, by simpa [listKinds] using ht, by simp [showAll]⟩
  | [e], h, _, _, hr => by
    simpa [showAll, listKinds] using Expr.lexes e h.1 0 hr
  | e :: f :: es, h, ks, rest, hr => by
    have he : Lexes ks
        (e.show.toList ++ ',' :: ' ' :: ((", ".intercalate (showAll (f :: es))).toList ++ rest)) _ _ :=
      Expr.lexes e h.1 0 (clear_cons (by decide))
    have hcomma := he.trans ((lexes_mark ',' (by decide) (by decide) fun _ => rfl).trans lexes_blank)
    have hes := hcomma.trans (listKinds_lexes (f :: es) h.2 hr)
    simpa [showAll, listKinds, String.intercalate_cons_cons] using hes

end

end

/-- The text of an expression has tokens, and all of them but the end are read as the expression. -/
theorem Expr.ofTokens_show (e : Expr) (he : e.All Expr.Shown) : ∃ tokens e' last,
    Token.lex e.show = .ok tokens ∧ Expr.ofTokens tokens = .ok (e', [last]) ∧
      last.kind = .mark .eof ∧ e'.bare = e.bare := by
  have hlexes : Lexes [] (e.show.toList ++ []) _ [] := e.lexes he 0 (by simp [Clear])
  obtain ⟨pos, tokens, hkinds, hlex⟩ := hlexes .start [] rfl
  rw [List.append_nil] at hlex
  have hts : tokens.reverse.map Token.kind = e.kindsAt true 0 := by simp [hkinds]
  obtain ⟨e', hbare, hreads⟩ := e.spells (fun _ h => h.inTable) he (Nat.zero_le 14) tokens.reverse hts
  exact ⟨_, e', _, hlex.trans (lexFrom_nil pos tokens), hreads.closed (by simp) (by simp [Reader.Stops, Reader.joins,
    Reader.headKind, Reader.markJoins]), rfl, hbare⟩

/-- `(f(a, (b/$c)) ? ((i, j) in x) : (y[k] z))` -/
def shownExpr : Expr :=
  let v (name : String) : Expr := .place (.var ⟨name, default⟩)
  .cond
    (.userCall "f" [v "a", .binary (v "b") (.arith .div) (.place (.field (v "c")))] default)
    (.member [v "i", v "j"] ⟨"x", default⟩)
    (.binary (.place (.index ⟨"y", default⟩ [v "k"])) .concat (v "z"))

theorem shownExpr_read : shownExpr.show = "(f(a, (b/$c)) ? ((i, j) in x) : (y[k] z))" ∧
    ∃ tokens e' last, Token.lex shownExpr.show = .ok tokens ∧
      Expr.ofTokens tokens = .ok (e', [last]) ∧ last.kind = .mark .eof ∧ e'.bare = shownExpr.bare := by
  have hname : ∀ w ∈ ["f", "a", "b", "c", "i", "j", "x", "y", "k", "z"], IsName w := by
    intro w hw
    fin_cases hw <;> exact ⟨⟨_, _, rfl, by decide, by simp⟩, by decide, by decide⟩
  refine ⟨by decide, Expr.ofTokens_show shownExpr ?_⟩
  simp [shownExpr, Expr.All, Place.All, AllIn, Expr.Shown, hname]

end Awk
