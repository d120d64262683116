import Awk.Machine.Functions
import Awk.Proofs.Machine.Context
import Awk.Proofs.Regex.Search
import Awk.Proofs.Text.Part

/-!
# Positions of characters

The functions that cut out a part of a text, look for a text in it and match a pattern in it count characters alike:
from one, and through numbers that are exact as long as the text is not immense.
-/

namespace Awk

namespace Run

open Number Text

variable {m : Machine} {s t : String}

lemma callBuiltin_substr_eq (s : String) (args : List Value) :
    callBuiltin .substr (.str s :: args) m =
      (if s.length + 1 < 2 ^ 53 then
        match substr s.toList (numberArg (.str s :: args) 1) (args[1]?.map Value.toNumber) with
        | some part => pure (.str (String.ofList part))
        | none => throw .outOfRange
      else throw .outOfFuel : Run Value) m := rfl

lemma callBuiltin_substr (hs : s.length + 1 < 2 ^ 53) {part : List Char} {args : List Value}
    (h : substr s.toList (numberArg (.str s :: args) 1) (args[1]?.map Value.toNumber) = some part) :
    callBuiltin .substr (.str s :: args) m = .ok (.str (String.ofList part)) m := by
  rw [callBuiltin_substr_eq, if_pos hs, h]
  rfl

lemma callBuiltin_substr_long (hs : ¬ s.length + 1 < 2 ^ 53) (args : List Value) :
    callBuiltin .substr (.str s :: args) m = .error .outOfFuel m := by
  rw [callBuiltin_substr_eq, if_neg hs]
  rfl

lemma callBuiltin_substr_iff (hs : s.length + 1 < 2 ^ 53) {j : Nat} (hj : j + 1 < 2 ^ 53) :
    callBuiltin .substr [.str s, .ofNat (j + 1), .ofNat t.length] m = .ok (.str t) m ↔
      t.toList <+: s.toList.drop j := by
  have htext : s.toList.length + 1 < 2 ^ 53 := by rwa [String.length_toList]
  rw [← substr_eq_iff htext hj, String.length_toList]
  obtain ⟨a, b, -, -, hpart⟩ :=
    substr_within htext (Float.ofNat (j + 1)) (some (Float.ofNat t.length))
  have hcall : callBuiltin .substr [.str s, .ofNat (j + 1), .ofNat t.length] m = _ :=
    callBuiltin_substr hs hpart
  rw [hcall, hpart]
  simp [← String.toList_inj]

/-- What the special variables are after a match. -/
lemma callBuiltin_match {r : String} {regex : Regex.Pattern} {m₁ : Machine} (h : pattern r m = .ok regex m₁) :
    ∃ m₂, callBuiltin .match [.str s, .str r] m = .ok (.num m₂.specials.rstart) m₂ ∧
      (m₂.specials.rstart, m₂.specials.rlength) = (regex.find s.toList).elim (0, -1)
        fun span => (Float.ofNat (span.start + 1), Float.ofNat span.length) := by
  change ∃ m₂, matchIn s r m = _ ∧ _
  rw [matchIn, bind_apply, h]
  dsimp only
  cases regex.find s.toList with
  | none => exact ⟨{ m₁ with specials := { m₁.specials with rstart := 0, rlength := -1 } }, rfl, rfl⟩
  | some span =>
    exact ⟨{ m₁ with specials := { m₁.specials with
      rstart := Float.ofNat (span.start + 1), rlength := Float.ofNat span.length } }, rfl, rfl⟩

/-- No numbers lead outside of a text.  Whole numbers cut out the characters at the positions
between them, the position where a text is found is the first one where a part of its length is that
text, and after a match the two special variables cut out what was matched. -/
theorem positions_agree (m : Machine) (s : String) :
    (∀ (x : Float) (length : Option Float),
      let result := callBuiltin .substr (.str s :: .num x :: (length.map Value.num).toList) m
      (∀ m', result ≠ .error .outOfRange m') ∧
      (s.length + 1 < 2 ^ 53 → ∃ a b, a ≤ b ∧ b ≤ s.length ∧
        result = .ok (.str (String.ofList ((s.toList.take b).drop a))) m)) ∧
    (s.length + 1 < 2 ^ 53 →
      (∀ (x : Float) (i : ℤ), rational? x = some (i : ℚ) → callBuiltin .substr [.str s, .num x] m =
        .ok (.str (String.ofList (charsAt s.toList fun p => decide (i ≤ p)))) m) ∧
      (∀ (x y : Float) (i k : ℤ), rational? x = some (i : ℚ) → rational? y = some (k : ℚ) →
        i.natAbs < 2 ^ 53 → k.natAbs < 2 ^ 53 → callBuiltin .substr [.str s, .num x, .num y] m =
          .ok (.str (String.ofList (charsAt s.toList fun p => decide (i ≤ p ∧ p < i + k)))) m) ∧
      (∀ t : String, ∃ (p : Nat) (length : Value),
        callBuiltin .index [.str s, .str t] m = .ok (.ofNat p) m ∧
        callBuiltin .length [.str t] m = .ok length m ∧
        let Stands (q : Nat) := callBuiltin .substr [.str s, .ofNat q, length] m = .ok (.str t) m
        (p = 0 ∧ ∀ q, 0 < q → q < 2 ^ 53 → ¬ Stands q) ∨
          (0 < p ∧ Stands p ∧ ∀ q, 0 < q → q < p → ¬ Stands q)) ∧
      ∀ (r : String) (regex : Regex.Pattern) (m₁ : Machine), pattern r m = .ok regex m₁ →
        ∃ m₂, callBuiltin .match [.str s, .str r] m = .ok (.num m₂.specials.rstart) m₂ ∧
          ((m₂.specials.rstart = 0 ∧ m₂.specials.rlength = -1 ∧ regex.isMatch s = false) ∨
          ∃ span, regex.find s.toList = some span ∧ span.start ≤ span.stop ∧
            span.stop ≤ s.length ∧ m₂.specials.rstart = Float.ofNat (span.start + 1) ∧
            callBuiltin .substr [.str s, .num m₂.specials.rstart, .num m₂.specials.rlength] m₂ =
              .ok (.str (String.ofList ((s.toList.drop span.start).take span.length))) m₂)) := by
  have hwithin (x : Float) (length : Option Float) (hs : s.length + 1 < 2 ^ 53) :
      ∃ a b, a ≤ b ∧ b ≤ s.length ∧
        callBuiltin .substr (.str s :: .num x :: (length.map Value.num).toList) m =
          .ok (.str (String.ofList ((s.toList.take b).drop a))) m := by
    obtain ⟨a, b, hab, hb, hpart⟩ := substr_within (by rwa [String.length_toList]) x length
    refine ⟨a, b, hab, hb, callBuiltin_substr hs ?_⟩
    cases length <;> exact hpart
  refine ⟨fun x length => ⟨fun m' => ?_, hwithin x length⟩, fun hs => ?_⟩
  · by_cases hs : s.length + 1 < 2 ^ 53
    · obtain ⟨a, b, -, -, hresult⟩ := hwithin x length hs
      rw [hresult]
      rintro ⟨⟩
    · rw [callBuiltin_substr_long hs]
      rintro ⟨⟩
  have htext : s.toList.length + 1 < 2 ^ 53 := by rwa [String.length_toList]
  refine ⟨fun x i hx => callBuiltin_substr hs (substr_whole htext hx), fun x y i k hx hy hi hk =>
    callBuiltin_substr hs (substr_whole_length htext hx hy hi hk), fun t => ?_,
    fun r regex m₁ hr => ?_⟩
  · refine ⟨indexOf s.toList t.toList, .ofNat t.length, rfl, rfl, ?_⟩
    dsimp only
    obtain ⟨hzero, hnone⟩ | ⟨j, hj, hle, hstands, hfirst⟩ := indexFrom_cases s.toList t.toList 1
    · refine .inl ⟨hzero, fun q hq hlt => ?_⟩
      obtain ⟨q, rfl⟩ := Nat.exists_eq_add_one.mpr hq
      rw [callBuiltin_substr_iff hs hlt]
      exact hnone q
    · rw [String.length_toList] at hle
      rw [indexOf, hj, Nat.add_comm 1 j]
      refine .inr ⟨j.succ_pos, (callBuiltin_substr_iff hs (by omega)).mpr hstands,
        fun q hq hlt => ?_⟩
      obtain ⟨q, rfl⟩ := Nat.exists_eq_add_one.mpr hq
      rw [callBuiltin_substr_iff hs (by omega)]
      exact hfirst q (by omega)
  · obtain ⟨m₂, hmatch, hmarks⟩ := callBuiltin_match hr
    refine ⟨m₂, hmatch, ?_⟩
    cases hfind : regex.find s.toList with
    | none =>
      rw [hfind] at hmarks
      obtain ⟨hstart, hlength⟩ := Prod.mk.inj hmarks
      exact .inl ⟨hstart, hlength, congrArg Option.isSome hfind⟩
    | some span =>
      rw [hfind] at hmarks
      obtain ⟨hrstart, hrlength⟩ := Prod.mk.inj hmarks
      obtain ⟨-, hstart, hstop⟩ := Regex.Automaton.findFrom_within hfind
      rw [Nat.zero_add, String.length_toList] at hstop
      have hlength : span.length = span.stop - span.start := rfl
      refine .inr ⟨span, rfl, hstart, hstop, hrstart, callBuiltin_substr hs ?_⟩
      rw [hrstart, hrlength]
      exact substr_ofNat htext (by omega) (by omega)

/-- In a text with a character of more than one byte. -/
theorem positions_agree_wide :
    let m : Machine := { program := default, config := {} }
    "añb".length + 1 < 2 ^ 53 ∧
      callBuiltin .substr [.str "añb", .ofNat 2, .ofNat 2] m = .ok (.str "ñb") m := by
  intro m
  have hlength : "añb".length + 1 < 2 ^ 53 := by decide
  have htwo : rational? (Float.ofNat 2) = some ((2 : ℤ) : ℚ) := rational?_ofNat (by decide)
  exact ⟨hlength, ((positions_agree m "añb").2 hlength).2.1 _ _ 2 2 htwo htwo (by decide) (by decide)⟩

end Run

end Awk
