import Awk.Proofs.Number.Exact

/-!
# Doubles on a line

Doubles are compared by sign, exponent and mantissa.  `place` gives every double but NaN its place
on the line of the rational numbers, where the infinities stand beyond all numbers, and
`lt_iff_place` says that comparing doubles is comparing their places.  The place of a finite double
is its exact value (`place_of_rational`), and a conversion to a natural number of 64 bits is the
whole part of the place, as far as 64 bits go (`toNat64_eq`).  Hence the order of doubles that are
numbers is total: `order_swap`, `order_isLE_iff`.
-/

namespace Awk.Number

open Float.Model (Format UnpackedFloat)
open Float.Model.UnpackedFloat

/-! ## Magnitudes -/

/-- What a mantissa and an exponent stand for. -/
def magnitude (m : Nat) (e : ℤ) : ℚ := m * 2 ^ e

variable {m n : Nat} {e f : ℤ}

lemma magnitude_pos (hm : 0 < m) (e : ℤ) : 0 < magnitude m e := by
  rw [magnitude]
  positivity

namespace Canonical

lemma magnitude_lt (hm : Canonical m e) : magnitude m e < 2 ^ (53 + e) := by
  have hmantissa : (m : ℚ) < 2 ^ (53 : ℤ) := by exact_mod_cast hm.mantissa
  rw [magnitude, zpow_add₀ two_ne_zero]
  gcongr

/-- No double is as large as the place of infinity. -/
lemma lt_infinity (hm : Canonical m e) : magnitude m e < 2 ^ 1024 := by
  have hexponent := hm.exponent
  refine hm.magnitude_lt.trans_le ?_
  rw [← zpow_natCast]
  exact zpow_le_zpow_right₀ one_le_two (by push_cast; omega)

lemma lt_of_exponent_lt (hm : Canonical m e) (hn : Canonical n f) (h : e < f) :
    magnitude m e < magnitude n f := by
  have hnormal : 2 ^ 52 ≤ n := by
    have := hm.normal
    have := hn.normal
    omega
  have hmantissa : (2 ^ (52 : ℤ) : ℚ) ≤ n := by exact_mod_cast hnormal
  calc magnitude m e < 2 ^ (53 + e) := hm.magnitude_lt
    _ ≤ 2 ^ (52 + f) := zpow_le_zpow_right₀ one_le_two (by omega)
    _ = 2 ^ (52 : ℤ) * 2 ^ f := zpow_add₀ two_ne_zero _ _
    _ ≤ magnitude n f := mul_le_mul_of_nonneg_right hmantissa (by positivity)

/-- Magnitudes are ordered by exponents first, as mantissas are normalized. -/
lemma magnitude_lt_iff (hm : Canonical m e) (hn : Canonical n f) :
    magnitude m e < magnitude n f ↔ e < f ∨ (e = f ∧ m < n) := by
  rcases lt_trichotomy e f with h | rfl | h
  · exact iff_of_true (hm.lt_of_exponent_lt hn h) (.inl h)
  · have hpow : (0 : ℚ) < 2 ^ e := by positivity
    simp [magnitude, mul_lt_mul_iff_left₀ hpow]
  · exact iff_of_false (hn.lt_of_exponent_lt hm h).not_gt (by omega)

end Canonical

/-! ## Places -/

/-- The place of a number on the line; the infinities stand beyond all doubles, and NaN anywhere. -/
def line : UnpackedFloat → ℚ
  | .infinity .positive => 2 ^ 1024
  | .infinity .negative => -2 ^ 1024
  | .finite .positive m e _ => magnitude m e
  | .finite .negative m e _ => -magnitude m e
  | .zero _ | .notANumber => 0

/-- Not NaN, and no longer than a double. -/
def IsCanonical : UnpackedFloat → Prop
  | .finite _ m e _ => Canonical m e
  | .notANumber => False
  | .zero _ | .infinity _ => True

lemma compare_eq_lt_iff {a b : UnpackedFloat} (ha : IsCanonical a) (hb : IsCanonical b) :
    a.compare b = some .lt ↔ line a < line b := by
  have hinf : (0 : ℚ) < 2 ^ 1024 := by positivity
  have hsign (s t : Sign) : compare s t = .lt ↔ s = .negative ∧ t = .positive := by
    cases s <;> cases t <;> simp [compare]
  rcases a with ⟨_ | _⟩ | _ | _ | ⟨_ | _, m, e, hm⟩ <;>
    rcases b with ⟨_ | _⟩ | _ | _ | ⟨_ | _, n, f, hn⟩ <;>
    simp only [IsCanonical, UnpackedFloat.compare, line, Option.some.injEq, hsign, neg_lt_neg_iff,
      Ordering.then_eq_lt, Ordering.then_eq_gt, Ordering.swap_eq_lt, Nat.compare_eq_lt,
      Nat.compare_eq_gt, Int.compare_eq_lt, Int.compare_eq_gt] at ha hb ⊢
  all_goals grind [magnitude_pos, Canonical.lt_infinity, Canonical.magnitude_lt_iff]

/-- The place of a double on the line. -/
def place (x : Float) : ℚ := line x.toModel.unpack

variable {x y : Float} {b : Binary} {q : ℚ}

lemma place_of_parts (h : Binary.ofFloat? x = some b) : place x = b.value := by
  rw [place, unpack_of_parts h, Binary.value]
  split_ifs with hb hneg hneg
  · simp [line, hb]
  · simp [line, hb]
  · simp [line, Binary.sign, magnitude, hneg]
  · simp [line, Binary.sign, magnitude, hneg]

lemma place_of_rational (h : rational? x = some q) : place x = q := by
  obtain ⟨b, hb, rfl⟩ := Option.map_eq_some_iff.mp h
  exact place_of_parts hb

lemma infinity_of_none (h : Binary.ofFloat? x = none) (hx : x.isNaN = false) :
    ∃ s, x.toModel.unpack = .infinity s := by
  refine (unpack_of_none h).resolve_left fun hnan => ?_
  have hx : x.toModel.unpack.isNaN = false := hx
  rw [hnan] at hx
  cases hx

lemma isCanonical_unpack (hx : x.isNaN = false) : IsCanonical x.toModel.unpack := by
  cases h : Binary.ofFloat? x with
  | none =>
    obtain ⟨s, hinf⟩ := infinity_of_none h hx
    rw [hinf]
    trivial
  | some b =>
    rw [unpack_of_parts h]
    split
    · trivial
    · exact ofFloat?_canonical h

/-- Doubles are compared by their places. -/
lemma lt_iff_place (hx : x.isNaN = false) (hy : y.isNaN = false) :
    x < y ↔ place x < place y := by
  rw [place, place, ← compare_eq_lt_iff (isCanonical_unpack hx) (isCanonical_unpack hy)]
  change decide ((x.toModel.unpack.compare y.toModel.unpack == some .lt) = true) = true ↔ _
  rw [decide_eq_true_iff, beq_iff_eq]

/-- A comparison with NaN fails. -/
lemma isNaN_of_lt (h : x < y) : x.isNaN = false ∧ y.isNaN = false := by
  have h : (x.toModel.unpack.compare y.toModel.unpack == some .lt) = true := of_decide_eq_true h
  change x.toModel.unpack.isNaN = false ∧ y.toModel.unpack.isNaN = false
  cases hx : x.toModel.unpack <;> cases hy : y.toModel.unpack <;>
    simp_all [UnpackedFloat.compare, UnpackedFloat.isNaN]

/-! ## The order of doubles -/

lemma order_swap (x y : Float) : order x y = (order y x).swap := by
  by_cases hxy : x < y
  · obtain ⟨hx, hy⟩ := isNaN_of_lt hxy
    have hyx : ¬ y < x := by
      rw [lt_iff_place hy hx]
      exact ((lt_iff_place hx hy).mp hxy).asymm
    simp [order, hxy, hyx]
  · by_cases hyx : y < x <;> simp [order, hxy, hyx]

lemma order_isLE_iff (hx : x.isNaN = false) (hy : y.isNaN = false) :
    (order x y).isLE ↔ place x ≤ place y := by
  unfold order
  split_ifs with h h'
  · exact iff_of_true rfl ((lt_iff_place hx hy).mp h).le
  · exact iff_of_false (by decide) ((lt_iff_place hy hx).mp h').not_ge
  · exact iff_of_true rfl (not_lt.mp ((lt_iff_place hy hx).not.mp h'))

/-! ## Conversions -/

/-- The whole part of a double as a natural number of 64 bits. -/
lemma toNat64_eq (hx : x.isNaN = false) : toNat64 x = min (2 ^ 64 - 1) ⌊place x⌋₊ := by
  have hpow : ((twoPow 64 : Nat) : ℤ) = 2 ^ 64 := rfl
  rw [toNat64, clamp, truncate?, hpow]
  cases h : Binary.ofFloat? x with
  | none =>
    have hzero : place 0 = 0 := rfl
    have hinfinity : (0 : ℚ) < 2 ^ 1024 := by positivity
    obtain ⟨s, hs⟩ := infinity_of_none h hx
    simp only [Option.map_none, hx, Bool.false_eq_true, if_false, lt_iff_place hx (y := 0) rfl,
      hzero]
    rw [place, hs]
    cases s with
    | negative =>
      rw [line, if_pos (neg_lt_zero.mpr hinfinity),
        Nat.floor_of_nonpos (neg_nonpos.mpr hinfinity.le)]
      rfl
    | positive =>
      have hlarge : ((2 ^ 64 - 1 : Nat) : ℚ) ≤ 2 ^ 1024 :=
        le_trans (by norm_num) (pow_le_pow_right₀ one_le_two (by decide : 64 ≤ 1024))
      rw [line, if_neg hinfinity.not_gt, min_eq_left (Nat.le_floor hlarge)]
      rfl
  | some b =>
    have hfloor := b.floorMagnitude_eq
    have hnonneg : (0 : ℚ) ≤ b.mantissa * 2 ^ b.exponent := by positivity
    rw [place_of_parts h, Binary.value]
    simp only [Option.map_some, Binary.signed]
    split_ifs
    · rw [neg_one_mul, Nat.floor_of_nonpos (neg_nonpos.mpr hnonneg)]
      omega
    · rw [one_mul, ← Int.floor_toNat, ← hfloor]
      omega

end Awk.Number
