import Mathlib.Data.List.Basic
import Awk.Text.Utf8

/-!
# Reading what was written as UTF-8

`encode` writes a text as bytes.  Reading a piece of such bytes, cut anywhere, gives the characters that
are complete in it and keeps the start of the next one back.
-/

namespace Awk.Text.Utf8

def encode (text : List Char) : List UInt8 := text.flatMap String.utf8EncodeChar

@[simp] theorem encode_nil : encode [] = [] := rfl

theorem encode_cons (c : Char) (text : List Char) :
    encode (c :: text) = String.utf8EncodeChar c ++ encode text := List.flatMap_cons

/-- Every character has a byte at least. -/
theorem length_le_encode (text : List Char) : text.length ≤ (encode text).length := by
  induction text with
  | nil => exact Nat.le_refl 0
  | cons c text ih =>
    have hpos := List.length_pos_iff.2 (String.utf8EncodeChar_ne_nil (c := c))
    rw [encode_cons, List.length_append, List.length_cons]
    omega

variable {text : List Char} {n v : Nat} {bytes more : List UInt8}

/-- A text without bytes is empty. -/
theorem encode_eq_nil (h : encode text = []) : text = [] := by
  have hle := length_le_encode text
  rw [h] at hle
  exact List.eq_nil_of_length_eq_zero (Nat.le_zero.1 hle)

/-! ## Single bytes -/

private theorem toNat_byte (h : n < 256) : (UInt8.ofNat n).toNat = n := by
  simp [UInt8.toNat_ofNat', Nat.mod_eq_of_lt h]

/-- Six bits behind the mark of a continuing byte. -/
private def tailByte (n : Nat) : UInt8 := UInt8.ofNat (n % 64 + 128)

private theorem toNat_tailByte (n : Nat) : (tailByte n).toNat = n % 64 + 128 :=
  toNat_byte (by omega)

private theorem isTail_tailByte (n : Nat) : isTail (tailByte n) = true := by
  have hn := toNat_tailByte n
  simp only [isTail, Bool.and_eq_true, decide_eq_true_eq, UInt8.le_iff_toNat_le, hn]
  exact ⟨by simp, by simp; omega⟩

private theorem appendBits_tailByte (code n : Nat) : appendBits code (tailByte n) = code * 64 + n % 64 := by
  rw [appendBits, toNat_tailByte]
  omega

private theorem moreBytes_byte (h : n < 256) : moreBytes (UInt8.ofNat n) =
      if n < 0x80 then some 0 else if 0xC2 ≤ n ∧ n ≤ 0xDF then some 1
      else if 0xE0 ≤ n ∧ n ≤ 0xEF then some 2 else if 0xF0 ≤ n ∧ n ≤ 0xF4 then some 3 else none := by
  simp [moreBytes, UInt8.lt_iff_toNat_lt, UInt8.le_iff_toNat_le, toNat_byte h]

/-- Whether a second byte is within the bounds that the first one sets, as numbers. -/
private theorem secondBounds_byte (h : n < 256) (b : UInt8) :
    (decide ((secondBounds (UInt8.ofNat n)).1 ≤ b) && decide (b ≤ (secondBounds (UInt8.ofNat n)).2)) = true ↔
      (if n = 0xE0 then 0xA0 else if n = 0xF0 then 0x90 else 0x80) ≤ b.toNat ∧
        b.toNat ≤ (if n = 0xED then 0x9F else if n = 0xF4 then 0x8F else 0xBF) := by
  have eq_byte (m : Nat) (hm : m < 256) : UInt8.ofNat n = UInt8.ofNat m ↔ n = m := by
    rw [← UInt8.toNat_inj, toNat_byte h, toNat_byte hm]
  have e0 : UInt8.ofNat n = 0xE0 ↔ n = 0xE0 := eq_byte 0xE0 (by decide)
  have ed : UInt8.ofNat n = 0xED ↔ n = 0xED := eq_byte 0xED (by decide)
  have f0 : UInt8.ofNat n = 0xF0 ↔ n = 0xF0 := eq_byte 0xF0 (by decide)
  have f4 : UInt8.ofNat n = 0xF4 ↔ n = 0xF4 := eq_byte 0xF4 (by decide)
  simp only [secondBounds, e0, ed, f0, f4]
  split_ifs <;> simp_all [UInt8.le_iff_toNat_le]

/-! ## Single characters -/

/-- A first byte and the bytes behind it are read as a character, and as a cut one as long as some of
them are missing. -/
structure Decodes (c : Char) (b : UInt8) (tail : List UInt8) : Prop where
  whole : ∀ rest, head b (tail ++ rest) = .char c tail.length
  part : ∀ t u, tail = t ++ u → u ≠ [] → head b t = .cut

private theorem decodes_one (h : v ≤ 127) : Decodes (Char.ofNat v) (UInt8.ofNat v) [] where
  whole rest := by
    have hm : moreBytes (UInt8.ofNat v) = some 0 := by
      rw [moreBytes_byte (by omega), if_pos (by omega)]
    simp only [head, hm, toNat_byte (show v < 256 by omega), List.length_nil]
  part t u h hu := absurd (List.append_eq_nil_iff.1 h.symm).2 hu

private theorem decodes_two (h : 127 < v) (h' : v ≤ 2047) :
    Decodes (Char.ofNat v) (UInt8.ofNat (v / 64 % 32 + 192)) [tailByte v] := by
  have hm : moreBytes (UInt8.ofNat (v / 64 % 32 + 192)) = some 1 := by
    rw [moreBytes_byte (by omega), if_neg (by omega), if_pos (by omega)]
  constructor
  · intro rest
    have hv : (v / 64 % 32 + 192) % 32 * 64 + v % 64 = v := by omega
    simp only [head, hm, List.cons_append, isTail_tailByte, if_true, appendBits_tailByte,
      toNat_byte (show v / 64 % 32 + 192 < 256 by omega), hv, List.length_singleton]
  · intro t u htu hu
    cases t with
    | nil => simp only [head, hm]
    | cons x t => simp_all

private theorem decodes_three (h : 2047 < v) (h' : v ≤ 65535) (hvalid : v < 0xD800 ∨ 0xDFFF < v) :
    Decodes (Char.ofNat v) (UInt8.ofNat (v / 4096 % 16 + 224)) [tailByte (v / 64), tailByte v] := by
  have hb : v / 4096 % 16 + 224 < 256 := by omega
  have hm : moreBytes (UInt8.ofNat (v / 4096 % 16 + 224)) = some 2 := by
    rw [moreBytes_byte hb, if_neg (by omega), if_neg (by omega), if_pos (by omega)]
  have hs := (secondBounds_byte hb (tailByte (v / 64))).2 (by
    rw [toNat_tailByte]
    split_ifs <;> omega)
  constructor
  · intro rest
    have hv : ((v / 4096 % 16 + 224) % 16 * 64 + v / 64 % 64) * 64 + v % 64 = v := by omega
    simp only [head, hm, hs, List.cons_append, isTail_tailByte, if_true, appendBits_tailByte, toNat_byte hb, hv,
      List.length_cons, List.length_nil]
  · intro t u htu hu
    obtain _ | ⟨x, _ | ⟨y, t⟩⟩ := t
    · simp only [head, hm]
    · obtain ⟨rfl, -⟩ := List.cons.inj htu
      simp only [head, hm, hs, if_true]
    · simp_all

private theorem decodes_four (h : 65535 < v) (h' : v ≤ 0x10FFFF) :
    Decodes (Char.ofNat v) (UInt8.ofNat (v / 262144 % 8 + 240))
      [tailByte (v / 4096), tailByte (v / 64), tailByte v] := by
  have hb : v / 262144 % 8 + 240 < 256 := by omega
  have hm : moreBytes (UInt8.ofNat (v / 262144 % 8 + 240)) = some 3 := by
    rw [moreBytes_byte hb, if_neg (by omega), if_neg (by omega), if_neg (by omega), if_pos (by omega)]
  have hs := (secondBounds_byte hb (tailByte (v / 4096))).2 (by
    rw [toNat_tailByte]
    split_ifs <;> omega)
  constructor
  · intro rest
    have hv : (((v / 262144 % 8 + 240) % 8 * 64 + v / 4096 % 64) * 64 + v / 64 % 64) * 64 + v % 64 = v := by omega
    simp only [head, hm, hs, List.cons_append, isTail_tailByte, if_true, appendBits_tailByte, toNat_byte hb, hv,
      List.length_cons, List.length_nil]
  · intro t u htu hu
    obtain _ | ⟨x, _ | ⟨y, _ | ⟨z, t⟩⟩⟩ := t
    · simp only [head, hm]
    · obtain ⟨rfl, -⟩ := List.cons.inj htu
      simp only [head, hm, hs, if_true]
    · obtain ⟨rfl, hyu⟩ := List.cons.inj htu
      obtain ⟨rfl, -⟩ := List.cons.inj hyu
      simp only [head, hm, hs, isTail_tailByte, if_true]
    · simp_all

/-- The bytes of a character are read as that character. -/
theorem decodes_encodeChar (c : Char) :
    ∃ b tail, String.utf8EncodeChar c = b :: tail ∧ Decodes c b tail := by
  have hc : Char.ofNat c.val.toNat = c := Char.ofNat_toNat c
  have hvalid : c.val.toNat < 0xD800 ∨ 0xDFFF < c.val.toNat ∧ c.val.toNat < 0x110000 := c.valid
  rw [String.utf8EncodeChar.eq_1]
  generalize c.val.toNat = v at hc hvalid
  subst hc
  split_ifs with h1 h2 h3
  · exact ⟨_, _, rfl, decodes_one h1⟩
  · exact ⟨_, _, rfl, decodes_two (by omega) h2⟩
  · exact ⟨_, _, rfl, decodes_three (by omega) h3 (by omega)⟩
  · exact ⟨_, _, rfl, decodes_four (by omega) (by omega)⟩

/-! ## Pieces -/

theorem decodeValid_char {c : Char} {b : UInt8} {tail : List UInt8} (h : Decodes c b tail) (before : List Char)
    (rest : List UInt8) : decodeValid before (b :: (tail ++ rest)) = decodeValid (c :: before) rest := by
  rw [decodeValid, h.whole]
  simp

/-- Reading bytes of a text up to any place gives the characters that are complete there, and either all
bytes are used or those of a cut character are left. -/
theorem decodeValid_encode (h : bytes ++ more = encode text) (before : List Char) : ∃ done todo, text = done ++ todo ∧
      (decodeValid before bytes = (before.reverse ++ done, .complete) ∧ more = encode todo ∨
        ∃ kept, decodeValid before bytes = (before.reverse ++ done, .cut kept) ∧ kept ++ more = encode todo ∧
          more ≠ []) := by
  induction text generalizing bytes before with
  | nil =>
    obtain ⟨rfl, rfl⟩ := List.append_eq_nil_iff.1 h
    exact ⟨[], [], rfl, .inl ⟨by simp [decodeValid], rfl⟩⟩
  | cons c text ih =>
    obtain ⟨b, tail, henc, hc⟩ := decodes_encodeChar c
    rw [encode_cons, henc, List.cons_append] at h
    cases bytes with
    | nil =>
      refine ⟨[], c :: text, rfl, .inl ⟨by simp [decodeValid], ?_⟩⟩
      rw [encode_cons, henc, List.cons_append, ← h, List.nil_append]
    | cons b' bytes =>
      obtain ⟨rfl, htail⟩ := List.cons.inj h
      obtain ⟨u, rfl, rfl⟩ | ⟨rest, rfl, hrest⟩ := List.append_eq_append_iff.1 htail
      · -- the piece ends within the character or behind it
        by_cases hu : u = []
        · subst hu
          refine ⟨[c], text, rfl, .inl ⟨?_, rfl⟩⟩
          simpa [decodeValid] using decodeValid_char hc before []
        · refine ⟨[], c :: text, rfl, .inr ⟨b' :: bytes, ?_, ?_, by simp [hu]⟩⟩
          · simp [decodeValid, hc.part bytes u rfl hu]
          · simp [encode_cons, henc]
      · obtain ⟨done, todo, rfl, hdone⟩ := ih hrest.symm (c :: before)
        refine ⟨c :: done, todo, rfl, ?_⟩
        rw [decodeValid_char hc]
        simpa using hdone

/-- A piece of the bytes of a text, cut anywhere, gives a first part of the text; what it keeps back is a
first part of the bytes of the rest, and nothing once all bytes have come. -/
theorem decodePiece_encode (h : bytes ++ more = encode text) :
    ∃ done todo kept, text = done ++ todo ∧ decodePiece bytes = (done, kept) ∧
      kept ++ more = encode todo ∧ (more = [] → todo = []) := by
  obtain ⟨done, todo, htext, ⟨hd, hmore⟩ | ⟨kept, hd, hkept, hmore⟩⟩ := decodeValid_encode h []
  · refine ⟨done, todo, [], htext, by simp [decodePiece, hd], hmore, fun hnil => ?_⟩
    exact encode_eq_nil (hmore.symm.trans hnil)
  · exact ⟨done, todo, kept, htext, by simp [decodePiece, hd], hkept, fun hnil => absurd hnil hmore⟩

end Awk.Text.Utf8
