import Mathlib
import Awk.Proofs.Document.RoundTrip

/-!
# Values kept in documents

Numbers, lists, structures and alternatives that are kept in a document come out of it again, and what is kept
can be written.
-/

namespace Awk

/-! ## Finite numbers -/

namespace Number.Binary

lemma isSome_ofFloat? (x : Float) : (ofFloat? x).isSome = x.isFinite := by
  have hfield : (@Float.Model.UnpackedFloat.unpackExponent .binary64 x.toBits.toBitVec).toNat =
      x.toBits.toNat / twoPow fractionBits % 2048 := by
    simp [Float.Model.UnpackedFloat.unpackExponent, twoPow, fractionBits, Nat.shiftRight_eq_div_pow]
  have hfinite : x.isFinite = !decide (x.toBits.toNat / twoPow fractionBits % 2048 = 2047) := by
    rw [← hfield]
    change (Float.Model.UnpackedFloat.unpack .binary64 x.toBits.toBitVec).isFinite = _
    rw [Float.Model.UnpackedFloat.unpack]
    by_cases h : @Float.Model.UnpackedFloat.unpackExponent .binary64 x.toBits.toBitVec = -1#11
    · simp only [h, if_true]
      split_ifs <;> rfl
    · have hne : (@Float.Model.UnpackedFloat.unpackExponent .binary64 x.toBits.toBitVec).toNat ≠ 2047 :=
        fun h' => h (BitVec.eq_of_toNat_eq h')
      simp only [h, if_false, hne, decide_false, Bool.not_false]
      split_ifs <;> rfl
  rw [hfinite, ofFloat?]
  split_ifs <;> simp_all
end Number.Binary

namespace Document

/-! ## Digits -/

lemma digitsValue_toDigits (n : Nat) : Number.digitsValue (Nat.toDigits 10 n) = n := by
  have h := Nat.ofDigitChars_ten_toDigits (n := n)
  rw [Nat.ofDigitChars_eq_foldl] at h
  simpa only [Number.digitsValue, Nat.mul_comm] using h

lemma areDigits_toDigits (n : Nat) : AreDigits (Nat.toDigits 10 n) :=
  ⟨Nat.toDigits_ne_nil, fun _ hc => Nat.isDigit_of_mem_toDigits (by omega) (by omega) hc⟩

variable {n : Nat} {α : Type} {xs : List α} {f : α → Document} {g : Document → Option α}
  {fields : List (String × Document)} {items : List Document}

lemma eq_zero_of_head_toDigits (h : (Nat.toDigits 10 n).head? = some '0') : n = 0 := by
  induction n using Nat.strongRecOn with
  | _ n ih =>
    by_cases hn : n < 10
    · rw [Nat.toDigits_of_lt_base hn] at h
      interval_cases n <;> first | rfl | cases h
    · rw [Nat.toDigits_of_base_le (by omega) (by omega), List.head?_append_of_ne_nil _ Nat.toDigits_ne_nil] at h
      have := ih (n / 10) (by omega) h
      omega

namespace Numeral

lemma wellFormed_ofInt (n : Int) : (ofInt n).WellFormed where
  whole := areDigits_toDigits _
  first h := by
    have hzero := eq_zero_of_head_toDigits h
    simp [ofInt, hzero]
  fraction := nofun
  exponent := nofun

lemma toInt?_ofInt (n : Int) : (ofInt n).toInt? = some n := by
  simp only [toInt?, ofInt, digitsValue_toDigits, Option.isSome_none, Bool.false_eq_true, or_self, if_false,
    decide_eq_true_eq]
  split_ifs with hneg hzero
  · omega
  · rw [Option.some_inj]
    omega
  · rw [Option.some_inj]
    omega

/-! ## Numbers -/

/-- Digits on both sides of a point can be written, unless there are zeros before others. -/
lemma wellFormed_pointAfter (k lead : Nat) (hlead : 0 < lead) (hzero : k = 0 → lead = 1) :
    AreDigits (pointAfter (Nat.toDigits 10 k) lead).1 ∧
      ((pointAfter (Nat.toDigits 10 k) lead).1.head? = some '0' → (pointAfter (Nat.toDigits 10 k) lead).1.length = 1) ∧
      AreDigits (pointAfter (Nat.toDigits 10 k) lead).2 := by
  have hdigits := areDigits_toDigits k
  have hlength : 0 < (Nat.toDigits 10 k).length := Nat.length_toDigits_pos
  have htake : (Nat.toDigits 10 k).take lead ≠ [] := by
    rw [Ne, List.take_eq_nil_iff, not_or]
    exact ⟨by omega, hdigits.1⟩
  refine ⟨⟨?_, fun c hc => ?_⟩, fun hfirst => ?_, ?_⟩
  · exact List.append_ne_nil_of_left_ne_nil htake _
  · obtain hc | hc := List.mem_append.mp hc
    · exact hdigits.2 c (List.take_subset _ _ hc)
    · rw [List.eq_of_mem_replicate hc]
      rfl
  · have hk : k = 0 := by
      refine eq_zero_of_head_toDigits ?_
      simp only [pointAfter] at hfirst
      rwa [List.head?_append_of_ne_nil _ htake, List.head?_take, if_neg (by omega)] at hfirst
    simp [pointAfter, hk, hzero hk]
  · simp only [pointAfter]
    split
    · exact ⟨by simp, by simp⟩
    · rename_i hempty
      exact ⟨by simpa using hempty, fun c hc => hdigits.2 c (List.drop_subset _ _ hc)⟩

/-- The numeral for some digits can be written, unless zeros would stand before the point. -/
lemma wellFormed_ofDigits (negative : Bool) (d : Number.Digits)
    (h : d.digits = 0 → 0 < d.power → greatestPlain < d.power) : (ofDigits negative d).WellFormed := by
  have hdigits := areDigits_toDigits d.digits
  have hlength : 0 < (Nat.toDigits 10 d.digits).length := Nat.length_toDigits_pos
  have hsub {l : List Char} (hl : l ⊆ Nat.toDigits 10 d.digits) : ∀ c ∈ l, c.isDigit = true :=
    fun c hc => hdigits.2 c (hl hc)
  rw [ofDigits]
  dsimp only
  split_ifs with hpower hone hneg
  · refine ⟨⟨by simp, hsub (List.take_subset _ _)⟩, fun _ => ?_, nofun, ?_⟩
    · simp only [List.length_take]
      omega
    · simpa using areDigits_toDigits _
  · refine ⟨⟨by simp, hsub (List.take_subset _ _)⟩, fun _ => ?_, ?_, ?_⟩
    · simp only [List.length_take]
      omega
    · simp only [Option.mem_some_iff, forall_eq']
      refine ⟨fun hnil => ?_, hsub (List.drop_subset _ _)⟩
      rw [List.drop_eq_nil_iff] at hnil
      omega
    · simpa using areDigits_toDigits _
  · refine ⟨⟨by simp, by simp⟩, fun _ => rfl, ?_, nofun⟩
    simp only [Option.mem_some_iff, forall_eq']
    refine ⟨by simp, fun c hc => ?_⟩
    obtain hc | hc := List.mem_append.mp hc
    · rw [List.eq_of_mem_replicate hc]
      rfl
    · exact hdigits.2 c hc
  · have hpoint := wellFormed_pointAfter d.digits (d.power.toNat + 1) (Nat.succ_pos _) fun hzero => by
      have := h hzero
      omega
    exact ⟨hpoint.1, hpoint.2.1, by simpa using hpoint.2.2, nofun⟩

lemma gather_zeros (k : Nat) : gather 0 (List.replicate k '0') = (0, k) := by
  induction k with
  | zero => rfl
  | succ k ih => simp [List.replicate_succ, gather, ih, Number.twoPow]

/-- No digits before a point are left out, and if they are all zero, the number is zero. -/
lemma toFloat?_zeros (negative : Bool) (k : Nat) :
    ({ negative, whole := List.replicate k '0', fraction := some ['0'] } : Numeral).toFloat? =
      some (if negative then -shrink 0 1 else shrink 0 1) := by
  have hone : gather 0 ['0'] = (0, 1) := gather_zeros 1
  simp only [toFloat?, gather_zeros, Option.getD_some, hone, List.length_replicate, sub_self, zero_sub]
  rfl

lemma wellFormed_ofFloat {x : Float} {n : Numeral} (hn : ofFloat? x = some n) (hread : n.toFloat? = some x) :
    n.WellFormed := by
  obtain ⟨b, hb, rfl⟩ := Option.map_eq_some_iff.mp hn
  refine wellFormed_ofDigits _ _ fun hzero hpower => ?_
  by_contra hplain
  -- only zeros in front of others could stand in the way, and these read back as zero
  have hnumeral : ofDigits b.negative (Number.shortest b) =
      { negative := b.negative, whole := List.replicate ((Number.shortest b).power.toNat + 1) '0'
        fraction := some ['0'] } := by
    have hless : ¬((Number.shortest b).power < leastPlain ∨ greatestPlain < (Number.shortest b).power) := by
      simp only [leastPlain]
      omega
    rw [ofDigits, if_neg hless, if_neg (by omega), hzero]
    simp [pointAfter, List.replicate_succ]
  rw [hnumeral, toFloat?_zeros, Option.some_inj] at hread
  have hparts (negative : Bool) : (Number.Binary.ofFloat? (if negative then -shrink 0 1 else shrink 0 1)).map
      Number.Binary.mantissa = some 0 := by
    cases negative <;> decide +kernel
  have hmantissa := hparts b.negative
  rw [hread, hb] at hmantissa
  have hshortest : Number.shortest b = ⟨0, 1, 0⟩ := if_pos (Option.some_inj.mp hmantissa)
  rw [hshortest] at hpower
  cases hpower

end Numeral

/-! ## Simple values -/

lemma int?_ofInt {lo hi n : Int} (h : lo ≤ n ∧ n ≤ hi) : (ofInt n).int? lo hi = some n := by
  rw [ofInt, int?, Numeral.toInt?_ofInt, Option.bind_some, if_pos h]

lemma nat?_ofNat {bits : Nat} (h : n < Number.twoPow bits) : (ofNat n).nat? bits = some n := by
  have hint : (ofNat n).int? 0 (Number.twoPow bits - 1) = some (n : Int) := int?_ofInt (by omega)
  rw [nat?, hint]
  rfl

/-! ## Lists and structures -/

lemma mapM_map {β γ : Type} {f : α → β} {g : β → Option γ} {h : α → γ} (hxs : ∀ x ∈ xs, g (f x) = some (h x)) :
    (xs.map f).mapM g = some (xs.map h) := by
  induction xs with
  | nil => rfl
  | cons x xs ih =>
    have hhead := hxs x List.mem_cons_self
    have htail := ih fun y hy => hxs y (List.mem_cons_of_mem x hy)
    rw [List.map_cons, List.mapM_cons, hhead, htail]
    rfl

lemma list?_ofList (h : ∀ x ∈ xs, g (f x) = some x) : (ofList f xs).list? g = some xs :=
  (mapM_map h).trans (by rw [List.map_id'])

lemma list?_eq_none {x : α} (hx : x ∈ xs) (h : g (f x) = none) : (ofList f xs).list? g = none := by
  change (xs.map f).mapM g = none
  induction xs with
  | nil => cases hx
  | cons y xs ih =>
    rw [List.map_cons, List.mapM_cons]
    obtain rfl | hx := List.mem_cons.mp hx
    · rw [h]
      rfl
    · cases g (f y) with
      | none => rfl
      | some z =>
        rw [ih hx]
        rfl

lemma lookup?_ofFields (h : (fields.map Prod.fst).Nodup) {field : String × Document} (hfield : field ∈ fields) :
    lookup? (fields.map fun (k, v) => (some k, v)) field.1 = some (some field.2) := by
  have hfilter : fields.filter (·.1 == field.1) = [field] := by
    induction fields with
    | nil => cases hfield
    | cons other fields ih =>
      rw [List.map_cons, List.nodup_cons] at h
      obtain rfl | hrest := List.mem_cons.mp hfield
      · have hnone : fields.filter (·.1 == field.1) = [] := by
          rw [List.filter_eq_nil_iff]
          intro other hother heq
          exact h.1 (eq_of_beq heq ▸ List.mem_map_of_mem hother)
        simp [hnone]
      · have hne : other.1 ≠ field.1 := fun heq => h.1 (heq ▸ List.mem_map_of_mem hrest)
        rw [List.filter_cons_of_neg (by simpa using hne), ih h.2 hrest]
  have hentries : (fields.map fun (k, v) => (some k, v)).filter (·.1 == some field.1) = [(some field.1, field.2)] := by
    rw [List.filter_map]
    exact congrArg (List.map _) hfilter
  rw [lookup?, hentries]

lemma fieldsOrNone?_ofFields (h : (fields.map Prod.fst).Nodup) :
    (ofFields fields).fieldsOrNone? (fields.map Prod.fst) = some (fields.map fun field => some field.2) := by
  have hkeys : (fields.map fun (k, v) => (some k, v)).any (·.1.isNone) = false := by
    simp
  rw [ofFields, fieldsOrNone?, if_neg (by simp [hkeys])]
  exact mapM_map fun field hfield => lookup?_ofFields h hfield

lemma fields?_ofFields (h : (fields.map Prod.fst).Nodup) :
    (ofFields fields).fields? (fields.map Prod.fst) = some (fields.map Prod.snd) := by
  rw [fields?, fieldsOrNone?_ofFields h, Option.bind_some]
  exact mapM_map fun _ _ => rfl

/-! ## Documents that can be written -/

lemma wellFormedItems_iff : WellFormedItems items ↔ ∀ d ∈ items, d.WellFormed := by
  induction items with
  | nil => simp [WellFormedItems]
  | cons d items ih => simp [WellFormedItems, ih]

lemma wellFormedEntries_iff {entries : List (Option String × Document)} :
    WellFormedEntries entries ↔ ∀ e ∈ entries, e.1.isSome ∧ e.2.WellFormed := by
  induction entries with
  | nil => simp [WellFormedEntries]
  | cons e entries ih => simp [WellFormedEntries, ih, and_assoc]

@[simp] lemma wellFormed_ofText (s : String) : (ofText s).WellFormed := rfl

@[simp] lemma wellFormed_bool (b : Bool) : (bool b).WellFormed := trivial

@[simp] lemma wellFormed_null : null.WellFormed := trivial

@[simp] lemma wellFormed_ofInt (n : Int) : (ofInt n).WellFormed := Numeral.wellFormed_ofInt n

@[simp] lemma wellFormed_ofNat (n : Nat) : (ofNat n).WellFormed := Numeral.wellFormed_ofInt n

@[simp] lemma wellFormed_ofVariant {name : String} {d : Document} : (ofVariant name d).WellFormed ↔ d.WellFormed := by
  simp [ofVariant, WellFormed, WellFormedEntries]

@[simp] lemma wellFormed_arr : (arr items).WellFormed ↔ ∀ d ∈ items, d.WellFormed :=
  wellFormedItems_iff

@[simp] lemma wellFormed_ofList : (ofList f xs).WellFormed ↔ ∀ x ∈ xs, (f x).WellFormed := by
  simp [ofList]

@[simp] lemma wellFormed_ofFields : (ofFields fields).WellFormed ↔ ∀ field ∈ fields, field.2.WellFormed := by
  rw [ofFields, WellFormed, wellFormedEntries_iff, List.forall_mem_map]
  simp

end Document

end Awk
