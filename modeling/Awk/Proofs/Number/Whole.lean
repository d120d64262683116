import Awk.Compile.Expr
import Awk.Machine.Variables
import Awk.Proofs.Number.Exact

/-!
# Whole numbers as doubles

A whole number that fits a mantissa, with zeros behind it, is a double: rounding leaves it as it is
(`round_of_val`), and `Float.ofNat` and `ofInt` give it (`ofNat_eq_pack`, `ofInt_eq_pack`).  No two
doubles but the zeros are the same whole number (`eq_pack_of_exact`, `ofInt_of_exact`).  Hence the
instruction that reads a field by a number of its own reads the field that the literal names
(`Run.fieldNumber_ofNat`).
-/

namespace Awk.Number

open Float.Model (Format UnpackedFloat totalExponent)
open Float.Model.UnpackedFloat

/-! ## Rounding what needs none -/

lemma log2_mul_two_pow {n : Nat} (hn : 0 < n) (k : Nat) : (n * 2 ^ k).log2 = n.log2 + k := by
  obtain ⟨hlo, hhi⟩ := (Nat.log2_eq_iff hn.ne').mp rfl
  have hpow : 0 < 2 ^ k := Nat.two_pow_pos k
  rw [Nat.log2_eq_iff (Nat.mul_pos hn hpow).ne', Nat.pow_add, Nat.add_right_comm, Nat.pow_add 2 (n.log2 + 1)]
  exact ⟨Nat.mul_le_mul_right _ hlo, Nat.mul_lt_mul_of_pos_right hhi hpow⟩

lemma shiftRight_exact (m k : Nat) :
    (⟨m * 2 ^ k, false, false⟩ : ExtendedMantissa) >>> k = ⟨m, false, false⟩ := by
  change Nat.repeat ExtendedMantissa.shiftRightOne k _ = _
  induction k generalizing m with
  | zero =>
    rw [Nat.pow_zero, Nat.mul_one]
    rfl
  | succ k ih =>
    rw [Nat.repeat, Nat.pow_succ', ← Nat.mul_assoc, ih, ExtendedMantissa.shiftRightOne]
    simp

section

-- a mantissa of 53 bits
variable {m : Nat} (hpos : 0 < m) (hm : m.log2 = 52)

include hm

variable {e : Int}

lemma targetExponent_eq (he : -1074 ≤ e) : Format.binary64.targetExponent (totalExponent m e) = e := by
  have hmin : Format.binary64.minExponent = -1074 := by decide
  have hbits : Format.binary64.mantissaBits = 53 := rfl
  rw [Format.targetExponent, totalExponent, hm, hmin, hbits]
  omega

include hpos

lemma shiftToTarget_exact (he : -1074 ≤ e) (k : Nat) :
    shiftToTargetExponent .binary64 (m * 2 ^ k) (e - k) .exact = (⟨m, false, false⟩, e) := by
  have htotal : totalExponent (m * 2 ^ k) (e - k) = totalExponent m e := by
    rw [totalExponent, totalExponent, log2_mul_two_pow hpos]
    omega
  have hshift : (e - (e - k)).toNat = k := by omega
  rw [shiftToTargetExponent, htotal, targetExponent_eq hm he, shiftToExponent, hshift,
    ExtendedMantissa.ofMantissaAndAccuracy, shiftRight_exact, Int.sub_add_cancel]

variable (s : Sign)

/-- Rounding leaves a mantissa of 53 bits, and takes away zeros behind it. -/
lemma round_exact (he : -1074 ≤ e) (k : Nat) :
    roundWithAccuracy .binary64 s (m * 2 ^ k) (e - k) .exact = .finite s m e hpos := by
  have hagain := shiftToTarget_exact hpos hm he 0
  rw [Nat.pow_zero, Nat.mul_one, Int.natCast_zero, Int.sub_zero] at hagain
  rw [roundWithAccuracy, shiftToTarget_exact hpos hm he k]
  dsimp only
  rw [show (⟨m, false, false⟩ : ExtendedMantissa).roundedMantissa = m from rfl, hagain]
  exact dif_neg hpos.ne'

variable {n j : Nat}

lemma log2_of_val (hval : n * 2 ^ 52 = m * 2 ^ j) : n ≠ 0 ∧ n.log2 = j := by
  have hn : n ≠ 0 := fun h => by simp [h, hpos.ne'] at hval
  have := congrArg Nat.log2 hval
  rw [log2_mul_two_pow (Nat.pos_of_ne_zero hn), log2_mul_two_pow hpos] at this
  exact ⟨hn, by omega⟩

/-- A whole number that fits a mantissa stays as it is, with zeros in front or behind. -/
lemma round_of_val (hval : n * 2 ^ 52 = m * 2 ^ j) (t : Nat) :
    UnpackedFloat.round .binary64 s (n * 2 ^ t) (-t) = .finite s m ((j : Int) - 52) hpos := by
  obtain ⟨hn, hlog⟩ := log2_of_val hpos hm hval
  have htarget : Format.binary64.targetExponent (totalExponent (n * 2 ^ t) (-t)) =
      (j : Int) - 52 := by
    rw [← targetExponent_eq hm (by omega : -1074 ≤ (j : Int) - 52), totalExponent, totalExponent,
      hm, log2_mul_two_pow (Nat.pos_of_ne_zero hn), hlog]
    congr 1
    omega
  have hshift : (-(t : Int) - ((j : Int) - 52)).toNat = 52 - j - t := by omega
  have hmantissa : n * 2 ^ t * 2 ^ (52 - j - t) = m * 2 ^ (j + t - 52) := by
    refine Nat.eq_of_mul_eq_mul_right (Nat.two_pow_pos 52) ?_
    calc n * 2 ^ t * 2 ^ (52 - j - t) * 2 ^ 52 = n * 2 ^ 52 * 2 ^ (t + (52 - j - t)) := by
          rw [Nat.pow_add]
          ring
      _ = m * 2 ^ (j + (t + (52 - j - t))) := by rw [hval, Nat.mul_assoc, ← Nat.pow_add]
      _ = m * 2 ^ (j + t - 52) * 2 ^ 52 := by
          rw [Nat.mul_assoc, ← Nat.pow_add]
          congr 2
          omega
  rw [UnpackedFloat.round, htarget, decreaseExponent]
  dsimp only
  rw [hshift, Nat.shiftLeft_eq, hmantissa, ← round_exact hpos hm s (by omega) (j + t - 52)]
  congr 1
  omega

/-! ## Packing -/

variable (he : -1074 ≤ e ∧ e ≤ 971)

include he

lemma pack_finite : pack .binary64 (.finite s m e hpos) =
    packComponents .binary64 s (BitVec.ofNat _ (e + 1075).toNat) (BitVec.ofNat _ m) := by
  have hbias : Format.binary64.exponentBias = 1023 := by decide
  have hbiased : e + (1023 : Nat) + (52 : Nat) = e + 1075 := by omega
  rw [pack]
  dsimp only
  rw [hbias, hm, hbiased, if_neg (by norm_num; omega)]
  exact if_pos rfl

/-- The parts of what is packed. -/
lemma ofFloat?_pack : Binary.ofFloat? (.ofModel (.pack (.finite s m e hpos))) =
    some ⟨s.toBitVec.toNat == 1, m, e⟩ := by
  obtain ⟨hlo, hhi⟩ := (Nat.log2_eq_iff hpos.ne').mp hm
  have hbits : (Float.ofModel (.pack (.finite s m e hpos))).toBits.toNat =
      (s.toBitVec.toNat * 2 ^ 11 + (e + 1075).toNat) * 2 ^ 52 + m % 2 ^ 52 := by
    change (pack .binary64 _).toNat = _
    rw [pack_finite hpos hm s he, packComponents, BitVec.toNat_append, BitVec.toNat_append,
      ← Nat.shiftLeft_add_eq_or_of_lt (BitVec.isLt _), ← Nat.shiftLeft_add_eq_or_of_lt (BitVec.isLt _),
      Nat.shiftLeft_eq, Nat.shiftLeft_eq]
    simp
    omega
  have hsign := s.toBitVec.isLt
  rw [ofFloat?_eq, hbits, if_neg (by omega), if_neg (by omega)]
  congr 2
  · cases s <;> simp [Sign.toBitVec] <;> omega
  · omega
  · omega

/-- What is packed can be taken apart. -/
lemma unpack_pack :
    (Float.ofModel (.pack (.finite s m e hpos))).toModel.unpack = .finite s m e hpos := by
  rw [unpack_of_parts (ofFloat?_pack hpos hm s he), dif_neg hpos.ne']
  cases s <;> rfl

/-! ## The double of an integer -/

omit he

variable {i : Int}

lemma ofNat_unpacked (hval : n * 2 ^ 52 = m * 2 ^ j) :
    UnpackedFloat.ofNat .binary64 n = .finite .positive m ((j : Int) - 52) hpos := by
  have hn := (log2_of_val hpos hm hval).1
  have hcompare : compare (n : Int) 0 = .gt := Int.compare_eq_gt.mpr (by omega)
  rw [UnpackedFloat.ofNat, UnpackedFloat.ofInt, UnpackedFloat.normalize, hcompare]
  simpa using round_of_val hpos hm .positive hval 0

lemma ofNat_eq_pack (hval : n * 2 ^ 52 = m * 2 ^ j) (hj : j ≤ 1023) :
    Float.ofNat n = .ofModel (.pack (.finite .positive m ((j : Int) - 52) hpos)) := by
  obtain ⟨hn, hlog⟩ := log2_of_val hpos hm hval
  change Float.ofScientific n false 0 = _
  unfold Float.ofScientific
  by_cases hlt : n < 2 ^ 53
  · -- small numbers are converted and multiplied by one
    rw [dif_pos ⟨hlt, Nat.zero_le _⟩]
    have hself : n.toUInt64.toFloat.toModel.unpack = .finite .positive m ((j : Int) - 52) hpos := by
      have htoNat : n.toUInt64.toNat = n := Nat.mod_eq_of_lt (by omega)
      have := (Nat.log2_lt hn).mpr hlt
      change (Float.Model.pack (UnpackedFloat.ofNat .binary64 n.toUInt64.toNat)).unpack = _
      rw [htoNat, ofNat_unpacked hpos hm hval]
      exact unpack_pack hpos hm _ (by omega)
    have hone : (Float.ofBits 0x3FF0000000000000).toModel.unpack = .finite .positive (2 ^ 52) (-52) (by decide) := rfl
    change Float.ofModel (.pack (UnpackedFloat.mul .binary64 n.toUInt64.toFloat.toModel.unpack
      (Float.ofBits 0x3FF0000000000000).toModel.unpack)) = _
    rw [hself, hone]
    exact congrArg (fun u => Float.ofModel (.pack u)) (round_exact hpos hm .positive (by omega) 52)
  · rw [dif_neg fun h => hlt h.1]
    change Float.ofModel (.pack (UnpackedFloat.ofScientific .binary64 n 0)) = _
    have hround := round_exact hpos hm .positive (by omega : -1074 ≤ (j : Int) - 52) (j + 1)
    have hproduct : n <<< 53 * 10 ^ (0 : Int).toNat = m * 2 ^ (j + 1) := by
      rw [Nat.shiftLeft_eq, Int.toNat_zero, Nat.pow_zero, Nat.mul_one, Nat.pow_succ 2 52, ← Nat.mul_assoc, hval,
        Nat.mul_assoc, Nat.pow_succ]
    rw [UnpackedFloat.ofScientific, dif_neg hn, if_neg (by decide), if_neg (by simp), if_pos le_rfl]
    change Float.ofModel
      (.pack (roundWithAccuracy .binary64 .positive (n <<< 53 * 10 ^ (0 : Int).toNat) (-53 + 0) .exact)) = _
    rw [hproduct, show (-53 + 0 : Int) = (j : Int) - 52 - (j + 1 : Nat) by omega, hround]

/-- An integer that fits a mantissa, with zeros behind it, is a double. -/
lemma ofInt_eq_pack (hval : i.natAbs * 2 ^ 52 = m * 2 ^ j) (hj : j ≤ 1023) : ofInt i =
    .ofModel (.pack (.finite (if i < 0 then .negative else .positive) m ((j : Int) - 52) hpos)) := by
  rw [ofInt, ofNat_eq_pack hpos hm hval hj]
  split
  · change Float.ofModel (.pack (UnpackedFloat.neg (Float.ofModel (.pack _)).toModel.unpack)) = _
    rw [unpack_pack hpos hm _ (by omega)]
    rfl
  · rfl

end

variable {x : Float} {n : Int}

/-- A double that is a whole number other than zero, taken apart. -/
lemma eq_pack_of_exact (h : rational? x = some (n : ℚ)) (hn : n ≠ 0) : ∃ (m j : Nat) (hpos : 0 < m),
    x = .ofModel (.pack (.finite (if n < 0 then .negative else .positive) m ((j : Int) - 52) hpos)) ∧ m.log2 = 52 ∧
      j ≤ 1023 ∧ n.natAbs * 2 ^ 52 = m * 2 ^ j := by
  obtain ⟨m, j, hx, hm, hj, hval⟩ := parts_of_exact h hn
  have hpos : 0 < m := Nat.pos_of_ne_zero fun h => by simp [h] at hm
  refine ⟨m, j, hpos, ofFloat?_inj hx ?_, hm, hj, hval⟩
  rw [ofFloat?_pack hpos hm _ (by omega)]
  by_cases hneg : n < 0 <;> simp [hneg, Sign.toBitVec]

lemma ofInt_of_exact (h : rational? x = some (n : ℚ)) (hn : n ≠ 0) : ofInt n = x := by
  obtain ⟨m, j, hpos, rfl, hm, hj, hval⟩ := eq_pack_of_exact h hn
  exact ofInt_eq_pack hpos hm hval hj

/-! ## Steps by one -/

lemma add_neg_finite (x : UnpackedFloat) (s : Sign) (k : Nat) (e : Int) (hk : 0 < k) :
    UnpackedFloat.add .binary64 x (.finite (-s) k e hk) = UnpackedFloat.sub .binary64 x (.finite s k e hk) := by
  cases x with
  | notANumber | infinity | zero => rfl
  | finite s' k' e' hk' =>
    have hneg (n : Int) : (-s).apply n = -s.apply n := by
      cases s with
      | positive => rfl
      | negative => exact (Int.neg_neg n).symm
    rw [UnpackedFloat.add, UnpackedFloat.sub]
    simp only [hneg, Int.sub_eq_add_neg]

lemma ofInt_one : ofInt 1 = 1 := by decide +kernel

lemma add_ofInt_neg_one (a : Float) : a + ofInt (-1) = a - 1 := by
  have hone : (1 : Float).toModel.unpack = .finite .positive (2 ^ 52) (-52) (by decide) := by rfl
  have hneg : (ofInt (-1)).toModel.unpack = .finite (-.positive) (2 ^ 52) (-52) (by decide) := by rfl
  change Float.ofModel (.pack (.add .binary64 a.toModel.unpack (ofInt (-1)).toModel.unpack)) =
    Float.ofModel (.pack (.sub .binary64 a.toModel.unpack (1 : Float).toModel.unpack))
  rw [hone, hneg, add_neg_finite]

end Awk.Number

namespace Awk

open Number Compile

variable {x : Float}

/-- The number of a field in an instruction and in a literal are the same, or not in range both. -/
lemma Run.fieldNumber_ofNat {n : Nat} (h : smallField? x = some n) : fieldNumber (Float.ofNat n) = fieldNumber x := by
  rw [smallField?] at h
  split at h
  · rename_i i hi
    have hexact := (whole?_eq_some_iff.mp hi).1
    split at h
    · rename_i hrange
      obtain rfl := Option.some.inj h
      obtain rfl | hpos := hrange.1.eq_or_lt
      · -- there are two zeros
        have hboth : ∀ y : Float, y = 0 ∨ y = -0 → fieldNumber y = pure 0 := by
          rintro y (rfl | rfl)
          · rw [fieldNumber, if_pos (by decide +kernel), show toNat64 0 = 0 by decide +kernel]
          · rw [fieldNumber, if_pos (by decide +kernel), show toNat64 (-0) = 0 by decide +kernel]
        rw [hboth x (eq_zero_of_exact hexact)]
        exact hboth 0 (.inl rfl)
      · have hx := ofInt_of_exact hexact hpos.ne'
        rw [ofInt, if_neg hpos.not_gt] at hx
        rw [← Int.natAbs_of_nonneg hrange.1, Int.toNat_natCast, hx]
    · cases h
  · cases h

lemma Value.text_of_whole {n : Int} (h : whole? x = some n) (convfmt : String) :
    (Value.num x).text convfmt = intText n := by
  rw [Value.text, Value.textWith, Format.numberText, Value.numberTextWith, h]

end Awk
