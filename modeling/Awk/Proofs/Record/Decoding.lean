import Awk.Proofs.Record.Reader

/-!
# Text that arrives in pieces of bytes

A reader decodes every piece by itself, together with the start of a character that it has kept back.  It
keeps nothing back of a piece in which some bytes are no text, also if the piece ends within a character: so
that character is lost, although the rest of it is still to come.
-/

namespace Awk

namespace Text.Utf8

/-! ## What bytes begin with -/

variable {b x : UInt8} {rest bytes : List UInt8}

/-- The bytes that may follow the first byte of a character all continue one. -/
lemma isTail_of_second
    (h : (decide ((secondBounds b).1 ≤ x) && decide (x ≤ (secondBounds b).2)) = true) : isTail x = true := by
  have hlow : (0x80 : UInt8) ≤ (secondBounds b).1 := by
    unfold secondBounds
    split_ifs <;> decide
  have hhigh : (secondBounds b).2 ≤ (0xBF : UInt8) := by
    unfold secondBounds
    split_ifs <;> decide
  simp only [Bool.and_eq_true, decide_eq_true_eq] at h
  simp only [isTail, Bool.and_eq_true, decide_eq_true_eq]
  exact ⟨UInt8.le_trans hlow h.1, UInt8.le_trans h.2 hhigh⟩

/-- How many of the bytes behind the first belong to what bytes begin with. -/
def Head.more : Head → List UInt8 → Nat
  | .char _ k, _ | .invalid k, _ => k
  | .cut, rest => rest.length

lemma head_more (b : UInt8) (rest : List UInt8) :
    (head b rest).more rest ≤ rest.length ∧ ∀ x ∈ rest.take ((head b rest).more rest), isTail x = true := by
  have second := @isTail_of_second b
  unfold head
  generalize secondBounds b = bounds at second
  match moreBytes b, rest with
  | none, _ | some 0, _ | some 1, [] | some 2, [] | some (_ + 3), [] => simp [Head.more]
  | some 1, x :: _ | some 2, [x] | some 2, x :: y :: _ => simp only; split_ifs <;> simp_all [Head.more]
  | some (_ + 3), [x] | some (_ + 3), [x, y] => simp only; split_ifs <;> simp_all [Head.more]
  | some (_ + 3), x :: y :: z :: _ => simp only; split_ifs <;> simp_all [Head.more]

/-- Bytes that follow change nothing unless a character is cut. -/
lemma head_append (h : head b rest ≠ .cut) (more : List UInt8) :
    head b (rest ++ more) = head b rest := by
  unfold head at *
  match hb : moreBytes b, rest with
  | none, _ | some 0, _ | some 1, [] | some 2, [] | some (_ + 3), [] => simp_all
  | some 1, x :: _ | some 2, x :: y :: _ | some (_ + 3), x :: y :: z :: _ => simp_all
  | some 2, [x] | some (_ + 3), [x] =>
    simp only [hb] at h
    split_ifs at h with hx
    · exact absurd rfl h
    · simp [hx]
  | some (_ + 3), [x, y] =>
    simp only [hb] at h
    split_ifs at h with hx hy
    · exact absurd rfl h
    · simp [hx, hy]
    · simp [hx]

/-- The next byte goes on with a character that is cut, or completes it, or breaks it off. -/
lemma head_cut_snoc (h : head b rest = .cut) (x : UInt8) :
    head b (rest ++ [x]) = .cut ∨ head b (rest ++ [x]) = .invalid rest.length ∨
      ∃ c, head b (rest ++ [x]) = .char c (rest.length + 1) := by
  unfold head at *
  match hb : moreBytes b, rest with
  | none, _ | some 0, _ => simp_all
  | some 1, [] | some 2, [] | some (_ + 3), [] => simp only [List.nil_append]; split_ifs <;> simp
  | some 1, _ :: _ | some 2, _ :: _ :: _ | some (_ + 3), _ :: _ :: _ :: _ =>
    simp only [hb] at h
    split_ifs at h
  | some 2, [y] | some (_ + 3), [y] =>
    simp only [hb] at h
    split_ifs at h with hy
    simp only [List.cons_append, List.nil_append, hy, if_true]
    split_ifs <;> simp
  | some (_ + 3), [y, z] =>
    simp only [hb] at h
    split_ifs at h with hy hz
    simp only [List.cons_append, List.nil_append, hy, hz, if_true]
    split_ifs <;> simp

/-- All bytes of a cut character belong to what stands there in the end. -/
lemma length_le_more {b : UInt8} {rest : List UInt8} (h : head b rest = .cut) (more : List UInt8) :
    rest.length ≤ (head b (rest ++ more)).more (rest ++ more) := by
  induction more generalizing rest with
  | nil => simp [h, Head.more]
  | cons x more ih =>
    rw [← List.singleton_append, ← List.append_assoc]
    obtain hcut | hinvalid | ⟨c, hchar⟩ := head_cut_snoc h x
    · refine Nat.le_trans ?_ (ih hcut)
      simp
    · rw [head_append (by simp [hinvalid]), hinvalid]
      exact Nat.le_refl _
    · rw [head_append (by simp [hchar]), hchar]
      exact Nat.le_succ _

/-! ## All bytes -/

/-- What bytes begin with is one character of their text. -/
lemma length_decode_cons (b : UInt8) (rest : List UInt8) :
    (decode (b :: rest)).length = 1 + (decode (rest.drop ((head b rest).more rest))).length := by
  rw [decode]
  cases hhead : head b rest with
  | char c k | invalid k => simp [Head.more, Nat.add_comm]
  | cut => simp [Head.more, decode]

/-- A byte that continues a character begins none. -/
lemma decode_tail (h : isTail x = true) (rest : List UInt8) :
    decode (x :: rest) = replacement :: decode rest := by
  have hmore : moreBytes x = none := by
    simp only [isTail, Bool.and_eq_true, decide_eq_true_eq, UInt8.le_iff_toNat_le] at h
    simp only [moreBytes, UInt8.lt_iff_toNat_lt, UInt8.le_iff_toNat_le, Bool.and_eq_true, decide_eq_true_eq]
    have hlow : (0x80 : UInt8).toNat = 128 := rfl
    have hhigh : (0xBF : UInt8).toNat = 191 := rfl
    rw [if_neg (by omega), if_neg (by simp; omega), if_neg (by simp; omega), if_neg (by simp; omega)]
  have hhead : head x rest = .invalid 0 := by
    unfold head
    rw [hmore]
  rw [decode, hhead]
  rfl

lemma length_decode_tails {n : Nat} (hn : n ≤ bytes.length)
    (h : ∀ x ∈ bytes.take n, isTail x = true) :
    (decode bytes).length = n + (decode (bytes.drop n)).length := by
  induction n generalizing bytes with
  | zero => simp
  | succ n ih =>
    cases bytes with
    | nil => simp at hn
    | cons x bytes =>
      rw [List.take_succ_cons, List.forall_mem_cons] at h
      rw [decode_tail h.1, List.length_cons, ih (Nat.le_of_succ_le_succ hn) h.2, List.drop_succ_cons]
      omega

/-- The bytes of a character that goes on after the last byte. -/
def leftover : List UInt8 → List UInt8
  | [] => []
  | b :: rest =>
    match head b rest with
    | .char _ k | .invalid k => leftover (rest.drop k)
    | .cut => b :: rest
termination_by bytes => bytes.length
decreasing_by all_goals (simp only [List.length_drop, List.length_cons]; omega)

lemma decode_append_of_char {b : UInt8} {rest : List UInt8} {c : Char} {k : Nat} (h : head b rest = .char c k)
    (more : List UInt8) : decode (b :: rest ++ more) = c :: decode (rest.drop k ++ more) := by
  have hk : k ≤ rest.length := by
    simpa [h, Head.more] using (head_more b rest).1
  rw [List.cons_append, decode, head_append (by simp [h]), h]
  simp only [List.drop_append_of_le_length hk]

lemma decode_append_of_invalid {b : UInt8} {rest : List UInt8} {k : Nat} (h : head b rest = .invalid k)
    (more : List UInt8) : decode (b :: rest ++ more) = replacement :: decode (rest.drop k ++ more) := by
  have hk : k ≤ rest.length := by
    simpa [h, Head.more] using (head_more b rest).1
  rw [List.cons_append, decode, head_append (by simp [h]), h]
  simp only [List.drop_append_of_le_length hk]

/-- Bytes that follow go on with a character that is cut. -/
def GoesOn (cut more : List UInt8) : Prop :=
  ∃ b rest x, cut = b :: rest ∧ more.head? = some x ∧ ∀ k, head b (rest ++ [x]) ≠ .invalid k

/-- All text but that of a cut character stays as it is, whatever follows. -/
theorem decode_leftover (bytes : List UInt8) :
    (∀ b rest, leftover bytes = b :: rest → head b rest = .cut) ∧
      ∃ text, ∀ more, decode (bytes ++ more) = text ++ decode (leftover bytes ++ more) := by
  fun_induction leftover bytes with
  | case1 => exact ⟨nofun, [], fun _ => rfl⟩
  | case2 b rest c k hhead ih =>
    obtain ⟨hcut, text, htext⟩ := ih
    refine ⟨hcut, c :: text, fun more => ?_⟩
    rw [decode_append_of_char hhead, htext, List.cons_append]
  | case3 b rest k hhead ih =>
    obtain ⟨hcut, text, htext⟩ := ih
    refine ⟨hcut, replacement :: text, fun more => ?_⟩
    rw [decode_append_of_invalid hhead, htext, List.cons_append]
  | case4 b rest hhead =>
    refine ⟨?_, [], fun _ => rfl⟩
    rintro _ _ ⟨⟩
    exact hhead

/-- Bytes that do not go on with a cut character are read by themselves. -/
lemma decode_append_of_not_goesOn {more : List UInt8} (h : ¬ GoesOn (leftover bytes) more) :
    decode (bytes ++ more) = decode bytes ++ decode more := by
  obtain ⟨hcut, text, htext⟩ := decode_leftover bytes
  have hself := htext []
  rw [List.append_nil, List.append_nil] at hself
  rw [htext, hself, List.append_assoc]
  congr 1
  cases hleft : leftover bytes with
  | nil => simp [decode]
  | cons b rest =>
    have hhead := hcut b rest hleft
    cases more with
    | nil => simp [decode]
    | cons x more =>
      have hinvalid : head b (rest ++ [x]) = .invalid rest.length := by
        by_contra hne
        refine h ⟨b, rest, x, hleft, rfl, fun k hk => ?_⟩
        obtain hcut' | hinvalid | ⟨c, hchar⟩ := head_cut_snoc hhead x
        · rw [hk] at hcut'
          cases hcut'
        · exact hne hinvalid
        · rw [hk] at hchar
          cases hchar
      have hmore : head b (rest ++ x :: more) = .invalid rest.length := by
        rw [← List.singleton_append, ← List.append_assoc, head_append (by simp [hinvalid]), hinvalid]
      rw [List.cons_append, decode, hmore, decode, hhead]
      simp

/-- Bytes that go on with a cut character give more text by themselves: every one of them stands for a
character that is none. -/
lemma length_decode_append_lt {bytes more : List UInt8} (h : GoesOn (leftover bytes) more) :
    (decode (bytes ++ more)).length < (decode bytes).length + (decode more).length := by
  obtain ⟨hcut, text, htext⟩ := decode_leftover bytes
  obtain ⟨b, rest, x, hleft, hx, hgoes⟩ := h
  have hhead := hcut b rest hleft
  have hself := htext []
  rw [List.append_nil, List.append_nil, hleft, decode, hhead] at hself
  obtain ⟨tail, rfl⟩ : ∃ tail, more = x :: tail := by
    cases more with
    | nil => cases hx
    | cons y tail => exact ⟨tail, by rw [Option.some.inj hx]⟩
  -- the bytes that belong to the character go beyond the cut
  obtain ⟨hle, htails⟩ := head_more b (rest ++ x :: tail)
  have hbeyond : rest.length + 1 ≤ (head b (rest ++ x :: tail)).more (rest ++ x :: tail) := by
    have hassoc : rest ++ x :: tail = (rest ++ [x]) ++ tail := by simp
    obtain hcut' | hinvalid | ⟨c, hchar⟩ := head_cut_snoc hhead x
    · rw [hassoc]
      exact Nat.le_trans (by simp) (length_le_more hcut' tail)
    · exact absurd hinvalid (hgoes _)
    · rw [hassoc, head_append (by simp [hchar]), hchar]
      exact Nat.le_refl _
  have hwhole := length_decode_cons b (rest ++ x :: tail)
  generalize (head b (rest ++ x :: tail)).more (rest ++ x :: tail) = k at hle htails hbeyond hwhole
  rw [List.drop_append, List.drop_of_length_le (by omega), List.nil_append] at hwhole
  have hmore : (decode (x :: tail)).length =
      k - rest.length + (decode ((x :: tail).drop (k - rest.length))).length := by
    refine length_decode_tails ?_ fun y hy => htails y ?_
    · rw [List.length_append] at hle
      omega
    · rw [List.take_append]
      exact List.mem_append_right _ hy
  rw [htext, hself, hleft, List.cons_append]
  simp only [List.length_append, List.length_singleton]
  omega

/-! ## Pieces -/

/-- The text of a piece is what no bytes behind it change, if it is UTF-8 up to a cut character. -/
lemma decodeValid_eq (before : List Char) (bytes : List UInt8) :
    (decodeValid before bytes).2 = .invalid ∨
      ∃ text, (∀ more, decode (bytes ++ more) = text ++ decode (leftover bytes ++ more)) ∧
        (decodeValid before bytes = (before.reverse ++ text, .complete) ∧ leftover bytes = [] ∨
          decodeValid before bytes = (before.reverse ++ text, .cut (leftover bytes))) := by
  fun_induction decodeValid before bytes with
  | case1 before => exact .inr ⟨[], by simp [leftover]⟩
  | case2 before b rest c k hhead ih =>
    have hleft : leftover (b :: rest) = leftover (rest.drop k) := by
      rw [leftover, hhead]
    refine ih.imp id ?_
    rintro ⟨text, htext, hvalid⟩
    refine ⟨c :: text, fun more => ?_, by simpa [hleft] using hvalid⟩
    rw [decode_append_of_char hhead, htext, hleft, List.cons_append]
  | case3 before b rest k hhead => exact .inl rfl
  | case4 before b rest hhead =>
    have hleft : leftover (b :: rest) = b :: rest := by
      rw [leftover, hhead]
    exact .inr ⟨[], by simp [hleft]⟩

lemma decodePiece_valid (h : (decodeValid [] bytes).2 ≠ .invalid) :
    (decodePiece bytes).2 = leftover bytes ∧
      ∀ more, decode (bytes ++ more) = (decodePiece bytes).1 ++ decode (leftover bytes ++ more) := by
  obtain hinvalid | ⟨text, htext, ⟨hvalid, hleft⟩ | hvalid⟩ := decodeValid_eq [] bytes
  · exact absurd hinvalid h
  · simp [decodePiece, hvalid, hleft, htext]
  · simp [decodePiece, hvalid, htext]

lemma decodePiece_invalid (h : (decodeValid [] bytes).2 = .invalid) :
    decodePiece bytes = (decode bytes, []) := by
  unfold decodePiece
  generalize decodeValid [] bytes = valid at h
  obtain ⟨text, ending⟩ := valid
  cases h
  rfl

/-- The text of pieces that are decoded one by one, behind bytes that have been kept back. -/
def piecewise : List UInt8 → List (List UInt8) → List Char
  | kept, [] => decode kept
  | kept, piece :: pieces =>
    (decodePiece (kept ++ piece)).1 ++ piecewise (decodePiece (kept ++ piece)).2 pieces

/-- The bytes that are kept back after pieces have been decoded. -/
def keptAfter (kept : List UInt8) (pieces : List (List UInt8)) : List UInt8 :=
  pieces.foldl (fun kept piece => (decodePiece (kept ++ piece)).2) kept

/-- A piece has a fault, and ends within a character that the pieces after it go on with. -/
def Breaks (kept piece : List UInt8) (after : List (List UInt8)) : Prop :=
  (decodeValid [] (kept ++ piece)).2 = .invalid ∧ GoesOn (leftover (kept ++ piece)) after.flatten

/-- Pieces give no less text than all their bytes at once, and the same text exactly if none of them
breaks a character. -/
theorem piecewise_eq_decode_iff (kept : List UInt8) (pieces : List (List UInt8)) :
    (decode (kept ++ pieces.flatten)).length ≤ (piecewise kept pieces).length ∧
      (piecewise kept pieces = decode (kept ++ pieces.flatten) ↔
        ∀ before piece after, pieces = before ++ piece :: after →
          ¬ Breaks (keptAfter kept before) piece after) := by
  induction pieces generalizing kept with
  | nil => simp [piecewise]
  | cons piece pieces ih =>
    -- the first piece stands by itself, the others behind what it keeps back
    have hsplit : (∀ before p after, piece :: pieces = before ++ p :: after →
          ¬ Breaks (keptAfter kept before) p after) ↔
        ¬ Breaks kept piece pieces ∧ ∀ before p after, pieces = before ++ p :: after →
          ¬ Breaks (keptAfter (decodePiece (kept ++ piece)).2 before) p after := by
      constructor
      · intro h
        exact ⟨h [] piece pieces rfl, fun before p after hp => h (piece :: before) p after (by rw [hp]; rfl)⟩
      · rintro ⟨hfirst, hrest⟩ before p after hp
        cases before with
        | nil =>
          cases hp
          exact hfirst
        | cons q before =>
          cases hp
          exact hrest before p after rfl
    rw [hsplit, piecewise, List.flatten_cons, ← List.append_assoc]
    by_cases hinvalid : (decodeValid [] (kept ++ piece)).2 = .invalid
    · obtain ⟨hle, hiff⟩ := ih []
      rw [List.nil_append] at hle hiff
      rw [decodePiece_invalid hinvalid]
      dsimp only
      by_cases hgoes : GoesOn (leftover (kept ++ piece)) pieces.flatten
      · have hlt := length_decode_append_lt hgoes
        refine ⟨by rw [List.length_append]; omega, iff_of_false (fun heq => ?_) fun h => h.1 ⟨hinvalid, hgoes⟩⟩
        have hlength := congrArg List.length heq
        rw [List.length_append] at hlength
        omega
      · rw [decode_append_of_not_goesOn hgoes]
        refine ⟨by rw [List.length_append, List.length_append]; omega, ?_⟩
        rw [List.append_cancel_left_eq, hiff]
        exact ⟨fun h => ⟨fun hbreaks => hgoes hbreaks.2, h⟩, And.right⟩
    · obtain ⟨hkept, htext⟩ := decodePiece_valid hinvalid
      obtain ⟨hle, hiff⟩ := ih (leftover (kept ++ piece))
      rw [htext, hkept, List.append_cancel_left_eq, hiff, List.length_append, List.length_append]
      exact ⟨by omega, fun h => ⟨fun hbreaks => hinvalid hbreaks.1, h⟩, And.right⟩

end Text.Utf8

open Text

variable {σ ε : Type}

/-- The pieces that a source still gives, none of them empty, before it ends. -/
inductive Supply.Gives (supply : Supply σ ε) : σ → List (List UInt8) → Prop where
  | done {s s' : σ} (hpull : supply.pull s = (.ok [], s')) : Gives supply s []
  | piece {s s' : σ} {piece : List UInt8} {pieces : List (List UInt8)} (hpull : supply.pull s = (.ok piece, s'))
      (hpiece : piece ≠ []) (hleft : supply.left s' < supply.left s) (more : Gives supply s' pieces) :
      Gives supply s (piece :: pieces)

namespace Buffer

/-- Asks for more text until the input ends. -/
def fillAll (supply : Supply σ ε) : Nat → Buffer → σ → Answer σ ε Unit
  | 0, b, s => (.ok (), b, s)
  | bound + 1, b, s =>
    match b.fill supply s with
    | (.error e, b, s) => (.error e, b, s)
    | (.ok false, b, s) => (.ok (), b, s)
    | (.ok true, b, s) => fillAll supply bound b s

lemma fillAll_gives {supply : Supply σ ε} {s : σ} {pieces : List (List UInt8)}
    (h : supply.Gives s pieces) {bound : Nat} (hbound : supply.left s < bound) {b : Buffer}
    (hb : b.ended = false) :
    ∃ b' s', fillAll supply bound b s = (.ok (), b', s') ∧ b'.ended = true ∧ b'.pending = [] ∧
      b'.text = b.text ++ Utf8.piecewise b.pending pieces := by
  obtain ⟨bound, rfl⟩ := Nat.exists_eq_add_one.mpr (Nat.zero_lt_of_lt hbound)
  induction h generalizing bound b with
  | @done s s' hpull =>
    obtain ⟨b', hfill, hb'⟩ := fill_end hb hpull
    rw [fillAll, hfill]
    exact ⟨b', s', rfl, hb'⟩
  | @piece s s' piece pieces hpull hpiece hleft more ih =>
    obtain ⟨b', hfill, hended, hpending, htext⟩ := fill_piece hb hpull hpiece
    obtain ⟨bound, rfl⟩ := Nat.exists_eq_add_one.mpr (by omega : 0 < bound)
    obtain ⟨b'', s'', hall, hended', hpending', htext'⟩ := ih hended bound (by omega)
    rw [fillAll, hfill]
    refine ⟨b'', s'', hall, hended', hpending', ?_⟩
    rw [htext', htext, hpending, List.append_assoc]
    rfl

/-- Whatever the bytes of a source are, all of them arrive as text, and the pieces that they come in do not
matter exactly as long as no piece has a fault and ends within a character that the next one goes on with. -/
theorem fillAll_eq_decode_iff {supply : Supply σ ε} {s : σ} {pieces : List (List UInt8)}
    (h : supply.Gives s pieces) :
    ∃ b s', fillAll supply (supply.left s + 1) {} s = (.ok (), b, s') ∧ b.ended = true ∧ b.pending = [] ∧
      (b.text = Utf8.decode pieces.flatten ↔ ∀ before piece after, pieces = before ++ piece :: after →
        ¬ Utf8.Breaks (Utf8.keptAfter [] before) piece after) := by
  obtain ⟨b, s', hall, hended, hpending, htext⟩ := fillAll_gives h (Nat.lt_succ_self _) (b := {}) rfl
  refine ⟨b, s', hall, hended, hpending, ?_⟩
  rw [htext]
  exact (Utf8.piecewise_eq_decode_iff [] pieces).2

/-- A character may be cut, and a piece may have a fault: a byte that begins no character stands before two
halves of an `é` here. -/
theorem fillAll_eq_decode_faulty :
    (Supply.pieces : Supply (List (List UInt8)) Empty).Gives [[0xFF, 0x61], [0xC3], [0xA9]]
        [[0xFF, 0x61], [0xC3], [0xA9]] ∧
      ∃ b s', fillAll (Supply.pieces : Supply (List (List UInt8)) Empty) 5 {} [[0xFF, 0x61], [0xC3], [0xA9]] =
          (.ok (), b, s') ∧ b.text = Utf8.decode [0xFF, 0x61, 0xC3, 0xA9] := by
  have hgives : (Supply.pieces : Supply (List (List UInt8)) Empty).Gives [[0xFF, 0x61], [0xC3], [0xA9]]
      [[0xFF, 0x61], [0xC3], [0xA9]] :=
    .piece rfl (by decide) (by decide) (.piece rfl (by decide) (by decide)
      (.piece rfl (by decide) (by decide) (.done (show Supply.pieces.pull [] = (.ok [], []) from rfl))))
  obtain ⟨b, s', hall, -, -, htext⟩ := fillAll_eq_decode_iff hgives
  refine ⟨hgives, b, s', hall, htext.2 fun before piece after hsplit => ?_⟩
  match before with
  | [] =>
    have hleft : Utf8.leftover [0xFF, 0x61] = [] := by decide +kernel
    cases hsplit
    rintro ⟨-, _, _, _, hcut, -⟩
    cases hleft.symm.trans hcut
  | [_] =>
    have hcut : (Utf8.decodeValid [] (Utf8.keptAfter [] [[0xFF, 0x61]] ++ [0xC3])).2 = .cut [0xC3] := by
      decide +kernel
    cases hsplit
    rintro ⟨hinvalid, -⟩
    cases hcut.symm.trans hinvalid
  | [_, _] =>
    have hcomplete : (Utf8.decodeValid [] (Utf8.keptAfter [] [[0xFF, 0x61], [0xC3]] ++ [0xA9])).2 = .complete := by
      decide +kernel
    cases hsplit
    rintro ⟨hinvalid, -⟩
    cases hcomplete.symm.trans hinvalid
  | _ :: _ :: _ :: _ => simp at hsplit

/-- A piece with a fault that ends within a character: two bytes that are an `é` together arrive as two
characters that are none. -/
theorem fillAll_breaks :
    (fillAll (Supply.pieces : Supply (List (List UInt8)) Empty) 4 {} [[0xFF, 0xC3], [0xA9]]).2.1.text =
        [Utf8.replacement, Utf8.replacement, Utf8.replacement] ∧
      Utf8.decode [0xFF, 0xC3, 0xA9] = [Utf8.replacement, 'é'] := by
  constructor <;> decide +kernel

end Buffer

end Awk
