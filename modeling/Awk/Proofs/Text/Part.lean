import Awk.Proofs.Number.Sum
import Awk.Text.Part

/-!
# Parts of a text

A part of a text is cut out between two doubles, which are brought into the text, made into indices
and used without a further look.  `cut_eq` says which indices these are, and hence that they are in
order and within the text: for no doubles at all does `substr` lead outside (`substr_within`).
Doubles that are whole numbers cut out the characters at the positions between them, which `charsAt`
selects by their numbers: `substr_whole`, `substr_whole_length`.  This needs that the sum of a
position and a length is exact, or so large that it does not matter (`Number.near_add`).
-/

namespace Awk.Text

open Number (place rational? Near)

variable {text : List Char}

/-! ## Positions in range -/

lemma place_one : place 1 = 1 := by
  have h := Number.place_of_rational (Number.rational?_ofNat (n := 1) (by decide))
  rwa [Nat.cast_one] at h

/-- The position behind the last character is a double. -/
lemma last_spec (htext : text.length + 1 < 2 ^ 53) :
    (Float.ofNat text.length + 1).isNaN = false ∧
      place (Float.ofNat text.length + 1) = text.length + 1 := by
  obtain ⟨hnan, hplace⟩ := Number.near_add (i := text.length) (k := (1 : Nat))
    (Number.rational?_ofNat (by omega)) (Number.rational?_ofNat (n := 1) (by decide)) (by omega)
    (by decide)
  refine ⟨hnan, ?_⟩
  rcases hplace with h | ⟨h, -⟩ | ⟨h, -⟩
  · exact_mod_cast h
  · omega
  · omega

variable {first behind x y : Float}

lemma index?_eq (h : x.isNaN = false) (hlo : 1 ≤ place x) (hhi : ⌊place x⌋₊ < 2 ^ 53) :
    index? x = some (⌊place x⌋₊ - 1) := by
  have hfloor : 1 ≤ ⌊place x⌋₊ := Nat.le_floor (by simpa using hlo)
  have hnat : Number.toNat64 x = ⌊place x⌋₊ - 1 + 1 := by
    rw [Number.toNat64_eq h]
    omega
  rw [index?, hnat]

/-- Cutting never leads outside of a text. -/
lemma cut_eq (htext : text.length + 1 < 2 ^ 53) (hfirst : first.isNaN = false)
    (hbehind : behind.isNaN = false) : cut text first behind =
      some ((text.take (⌊min (place behind) (text.length + 1)⌋₊ - 1)).drop
        (⌊max (place first) 1⌋₊ - 1)) := by
  obtain ⟨hlast, hlastPlace⟩ := last_spec htext
  rw [cut]
  generalize Float.ofNat text.length + 1 = last at hlast hlastPlace
  obtain ⟨hnan, hplace⟩ : (if first < 1 then 1 else first).isNaN = false ∧
      place (if first < 1 then 1 else first) = max (place first) 1 := by
    have hlt := Number.lt_iff_place hfirst (y := 1) rfl
    rw [place_one] at hlt
    split_ifs with h
    · exact ⟨rfl, by rw [place_one, max_eq_right (hlt.mp h).le]⟩
    · exact ⟨hfirst, by rw [max_eq_left (not_lt.mp (hlt.not.mp h))]⟩
  obtain ⟨hnan', hplace'⟩ : (if last < behind then last else behind).isNaN = false ∧
      place (if last < behind then last else behind) = min (place behind) (text.length + 1) := by
    have hlt := Number.lt_iff_place hlast hbehind
    rw [hlastPlace] at hlt
    split_ifs with h
    · exact ⟨hlast, by rw [hlastPlace, min_eq_right (hlt.mp h).le]⟩
    · exact ⟨hbehind, by rw [min_eq_left (not_lt.mp (hlt.not.mp h))]⟩
  have hup : ⌊min (place behind) (text.length + 1)⌋₊ ≤ text.length + 1 := by
    refine (Nat.floor_mono (min_le_right _ _)).trans_eq ?_
    exact_mod_cast Nat.floor_natCast (R := ℚ) (text.length + 1)
  generalize (if first < 1 then 1 else first) = lo at hnan hplace ⊢
  generalize (if last < behind then last else behind) = hi at hnan' hplace' ⊢
  split_ifs with hlt
  · rw [Number.lt_iff_place hnan hnan', hplace, hplace'] at hlt
    have hmono := Nat.floor_mono hlt.le
    rw [index?_eq hnan (by rw [hplace]; exact le_max_right _ _) (by rw [hplace]; omega),
      index?_eq hnan' (by rw [hplace']; exact (le_max_right _ _).trans hlt.le)
        (by rw [hplace']; omega), hplace, hplace']
    exact if_pos ⟨by omega, by omega⟩
  · rw [Number.lt_iff_place hnan hnan', hplace, hplace', not_lt] at hlt
    have hmono := Nat.floor_mono hlt
    rw [List.drop_eq_nil_of_le]
    rw [List.length_take]
    omega

/-- A part of a text is within it, whatever the numbers. -/
lemma substr_within (htext : text.length + 1 < 2 ^ 53) (start : Float) (length : Option Float) :
    ∃ a b, a ≤ b ∧ b ≤ text.length ∧
      substr text start length = some ((text.take b).drop a) := by
  obtain ⟨first, behind, hsubstr⟩ : ∃ first behind, substr text start length =
      if first.isNaN || behind.isNaN then some [] else cut text first behind := ⟨_, _, rfl⟩
  rw [hsubstr]
  split_ifs with hnan
  · exact ⟨0, 0, le_rfl, Nat.zero_le _, rfl⟩
  · rw [Bool.or_eq_true, not_or, Bool.not_eq_true, Bool.not_eq_true] at hnan
    rw [cut_eq htext hnan.1 hnan.2]
    generalize ⌊min (place behind) (text.length + 1)⌋₊ - 1 = b
    generalize ⌊max (place first) 1⌋₊ - 1 = a
    refine ⟨min a (min b text.length), min b text.length, by omega, by omega, congrArg some ?_⟩
    rw [← List.take_eq_take_min, List.drop_eq_drop_iff, List.length_take]
    omega

/-! ## Whole numbers -/

/-- The characters at the positions that have a property. -/
def charsAt (text : List Char) (P : Nat → Bool) : List Char :=
  ((text.zipIdx 1).filter fun c => P c.2).map Prod.fst

lemma filter_zipIdx (text : List Char) (i j : ℤ) (k : Nat) :
    ((text.zipIdx k).filter fun c => decide (i ≤ c.2 ∧ c.2 < j)).map Prod.fst =
      (text.take (j - k).toNat).drop (i - k).toNat := by
  induction text generalizing k with
  | nil => simp
  | cons c text ih =>
    rw [List.zipIdx_cons, List.filter_cons]
    have hstep := ih (k + 1)
    obtain hj | hj := lt_or_ge (k : ℤ) j
    · have htake : (j - k).toNat = (j - (k + 1 : Nat)).toNat + 1 := by omega
      obtain hi | hi := le_or_gt i k
      · have hdrop : (i - k).toNat = 0 ∧ (i - (k + 1 : Nat)).toNat = 0 := by omega
        rw [if_pos (by simp [hi, hj]), List.map_cons, hstep, htake, List.take_succ_cons, hdrop.1,
          hdrop.2]
        rfl
      · have hdrop : (i - k).toNat = (i - (k + 1 : Nat)).toNat + 1 := by omega
        rw [if_neg (by simp [hi]), hstep, htake, hdrop, List.take_succ_cons, List.drop_succ_cons]
    · have htake : (j - k).toNat = 0 ∧ (j - (k + 1 : Nat)).toNat = 0 := by omega
      rw [if_neg (by simp; omega), hstep, htake.1, htake.2]
      simp

variable {i j k : ℤ}

lemma floor_min_of_near (h : Near j x) {n : Nat} (hn : n ≤ 2 ^ 53) :
    ⌊min (place x) n⌋₊ = (min j n).toNat := by
  have hn' : (n : ℚ) ≤ 2 ^ 53 := by exact_mod_cast hn
  rcases h.2 with h | ⟨hj, hx⟩ | ⟨hj, hx⟩
  · rw [h, ← Int.cast_natCast n, ← Int.cast_min, ← Int.floor_toNat, Int.floor_intCast]
  · rw [min_eq_right (hn'.trans hx), Nat.floor_natCast]
    omega
  · rw [Nat.floor_of_nonpos (min_le_of_left_le (hx.trans (by norm_num)))]
    omega

lemma cut_whole (htext : text.length + 1 < 2 ^ 53) (hx : rational? x = some (i : ℚ))
    (hy : Near j y) : cut text x y = some (charsAt text fun p => decide (i ≤ p ∧ p < j)) := by
  have hfirst : ⌊max (place x) 1⌋₊ = (max i 1).toNat := by
    rw [Number.place_of_rational hx, ← Int.cast_one, ← Int.cast_max, ← Int.floor_toNat,
      Int.floor_intCast]
  have hbehind := floor_min_of_near hy htext.le
  rw [Nat.cast_add_one] at hbehind
  rw [cut_eq htext (Number.near_of_rational hx).1 hy.1, hfirst, hbehind, charsAt, filter_zipIdx,
    show (max i 1).toNat - 1 = (i - (1 : Nat)).toNat by omega]
  congr 2
  rw [List.take_eq_take_iff]
  omega

lemma rounded_of_exact (hx : rational? x = some (i : ℚ)) : Number.rounded x = x := by
  obtain ⟨b, hb, hvalue⟩ := Option.map_eq_some_iff.mp hx
  rw [Number.rounded, hb]
  exact if_pos (Number.Binary.isWhole_of_value hvalue)

lemma substr_whole (htext : text.length + 1 < 2 ^ 53) (hx : rational? x = some (i : ℚ)) :
    substr text x none = some (charsAt text fun p => decide (i ≤ p)) := by
  obtain ⟨hlast, hplace⟩ := last_spec htext
  have hnear : Near (text.length + 1) (Float.ofNat text.length + 1) :=
    ⟨hlast, .inl (by exact_mod_cast hplace)⟩
  rw [substr, rounded_of_exact hx]
  rw [(Number.near_of_rational hx).1, hlast, Bool.or_self, if_neg Bool.false_ne_true,
    cut_whole htext hx hnear, charsAt, charsAt]
  congr 2
  refine List.filter_congr fun c hc => ?_
  have := List.snd_lt_of_mem_zipIdx hc
  rw [decide_eq_decide]
  omega

lemma substr_whole_length (htext : text.length + 1 < 2 ^ 53) (hx : rational? x = some (i : ℚ))
    (hy : rational? y = some (k : ℚ)) (hi : i.natAbs < 2 ^ 53) (hk : k.natAbs < 2 ^ 53) :
    substr text x (some y) = some (charsAt text fun p => decide (i ≤ p ∧ p < i + k)) := by
  have hnear := Number.near_add hx hy hi hk
  rw [substr, rounded_of_exact hx]
  rw [rounded_of_exact hy, (Number.near_of_rational hx).1, hnear.1, Bool.or_self,
    if_neg Bool.false_ne_true, cut_whole htext hx hnear]

/-- A part of a text of a length from a position on. -/
lemma substr_ofNat (htext : text.length + 1 < 2 ^ 53) {p n : Nat} (hp : p + 1 < 2 ^ 53)
    (hn : n < 2 ^ 53) : substr text (Float.ofNat (p + 1)) (some (Float.ofNat n)) =
      some ((text.drop p).take n) := by
  have hpart := substr_whole_length htext (i := (p + 1 : Nat)) (k := n) (Number.rational?_ofNat hp)
    (Number.rational?_ofNat hn) hp hn
  rw [hpart, charsAt, filter_zipIdx, List.drop_take]
  congr 2
  · omega
  · congr 1
    omega

/-! ## A text in a text -/

variable {needle : List Char}

/-- A text is found at the first place where it stands. -/
lemma indexFrom_cases (text needle : List Char) (k : Nat) :
    (indexFrom needle k text = 0 ∧ ∀ j, ¬ needle <+: text.drop j) ∨
    ∃ j, indexFrom needle k text = k + j ∧ j ≤ text.length ∧ needle <+: text.drop j ∧
      ∀ j' < j, ¬ needle <+: text.drop j' := by
  induction text generalizing k with
  | nil =>
    rw [indexFrom]
    cases needle with
    | nil => exact .inr ⟨0, rfl, le_rfl, List.nil_prefix, nofun⟩
    | cons c needle => exact .inl ⟨rfl, fun j => by simp⟩
  | cons c text ih =>
    rw [indexFrom]
    split
    · rename_i h
      exact .inr ⟨0, rfl, Nat.zero_le _, List.isPrefixOf_iff_prefix.mp h, nofun⟩
    · rename_i h
      rw [List.isPrefixOf_iff_prefix] at h
      obtain ⟨hzero, hnone⟩ | ⟨j, hj, hle, hstands, hfirst⟩ := ih (k + 1)
      · refine .inl ⟨hzero, fun j => ?_⟩
        cases j with
        | zero => exact h
        | succ j => exact hnone j
      · refine .inr ⟨j + 1, by omega, Nat.succ_le_succ hle, hstands, fun j' hj' => ?_⟩
        cases j' with
        | zero => exact h
        | succ j' => exact hfirst j' (by omega)

/-- A text stands at a position if the part of its length there is the text. -/
lemma substr_eq_iff (htext : text.length + 1 < 2 ^ 53) {p : Nat} (hp : p + 1 < 2 ^ 53) :
    substr text (Float.ofNat (p + 1)) (some (Float.ofNat needle.length)) = some needle ↔
      needle <+: text.drop p := by
  obtain hn | hn := lt_or_ge needle.length (2 ^ 53)
  · rw [substr_ofNat htext hp hn, Option.some_inj, eq_comm, List.prefix_iff_eq_take]
  · -- a text that is longer than the other stands nowhere
    refine iff_of_false (fun h => ?_) fun h => ?_
    · obtain ⟨a, b, -, -, hpart⟩ :=
        substr_within htext (Float.ofNat (p + 1)) (some (Float.ofNat needle.length))
      have := congrArg List.length (Option.some.inj (hpart.symm.trans h))
      simp only [List.length_drop, List.length_take] at this
      omega
    · have := h.length_le
      rw [List.length_drop] at this
      omega

end Awk.Text
