import Mathlib.Data.List.Basic
import Awk.Regex.Pattern

/-!
# Patterns that are kept

Whoever asks for patterns, one after the other, gets what compiling each of them gives.  What is kept
never shows: not when a pattern is found again, not when all are dropped to make room, and not when a
pattern was refused.
-/

namespace Awk.Regex.PatternCache

/-- All patterns that are kept are those of their texts. -/
def Coherent (cache : PatternCache) : Prop :=
  ∀ source p, cache.entries[source]? = some p → Pattern.compile source = .ok p

lemma coherent_empty : Coherent {} := by
  intro source p h
  rw [Std.TreeMap.getElem?_emptyc] at h
  cases h

variable {cache : PatternCache} {source : String}

lemma Coherent.insert {entries : Std.TreeMap String Pattern} (h : Coherent ⟨entries⟩) {p : Pattern}
    (hp : Pattern.compile source = .ok p) : Coherent ⟨entries.insert source p⟩ := by
  intro source' p' h'
  rw [Std.TreeMap.getElem?_insert] at h'
  split at h'
  · rename_i heq
    obtain rfl := Std.LawfulEqCmp.eq_of_compare heq
    cases h'
    exact hp
  · exact h source' p' h'

lemma Coherent.get (h : cache.Coherent) (source : String) :
    (cache.get source).1 = Pattern.compile source ∧ (cache.get source).2.Coherent := by
  rw [PatternCache.get]
  split
  · rename_i p hp
    exact ⟨(h source p hp).symm, h⟩
  · split
    · rename_i e he
      exact ⟨he.symm, h⟩
    · rename_i p hp
      refine ⟨hp.symm, Coherent.insert ?_ hp⟩
      split
      · exact coherent_empty
      · exact h

lemma get_size_le (h : cache.size ≤ capacity) (source : String) : (cache.get source).2.size ≤ capacity := by
  rw [PatternCache.get]
  split
  · exact h
  · split
    · exact h
    · -- Room is made before the pattern is added, so that it always finds a place.
      have hroom : (if capacity ≤ cache.entries.size then {} else cache.entries).size < capacity := by
        split
        · exact Nat.zero_lt_succ 99
        · omega
      exact Nat.le_trans Std.TreeMap.size_insert_le hroom

lemma get_of_refused {e : RegexError} (h : Pattern.compile source = .error e) : (cache.get source).2 = cache := by
  rw [PatternCache.get]
  split
  · rfl
  · rw [h]

/-- Asks for one pattern after the other. -/
def getEach (cache : PatternCache) : List String → List (Except RegexError Pattern) × PatternCache
  | [] => ([], cache)
  | source :: rest =>
    let (pattern, cache) := cache.get source
    let (patterns, cache) := cache.getEach rest
    (pattern :: patterns, cache)

lemma Coherent.getEach (h : cache.Coherent) (hsize : cache.size ≤ capacity) (sources : List String) :
    (cache.getEach sources).1 = sources.map Pattern.compile ∧ (cache.getEach sources).2.Coherent ∧
      (cache.getEach sources).2.size ≤ capacity := by
  induction sources generalizing cache with
  | nil => exact ⟨rfl, h, hsize⟩
  | cons source rest ih =>
    obtain ⟨hanswer, hnext⟩ := h.get source
    obtain ⟨hanswers, hlast⟩ := ih hnext (get_size_le hsize source)
    exact ⟨congrArg₂ List.cons hanswer hanswers, hlast⟩

/-- Whatever was asked for before, every answer is what compiling the pattern gives.  At most a hundred
patterns are kept then, each under its own text, and asking for one that is refused changes nothing. -/
theorem getEach_transparent (sources : List String) :
    (getEach {} sources).1 = sources.map Pattern.compile ∧
    (getEach {} sources).2.size ≤ 100 ∧
    (∀ source p, (getEach {} sources).2.entries[source]? = some p → Pattern.compile source = .ok p) ∧
    ∀ source e, Pattern.compile source = .error e →
      ((getEach {} sources).2.get source).2 = (getEach {} sources).2 := by
  obtain ⟨hanswers, hcoherent, hsize⟩ := coherent_empty.getEach (Nat.zero_le 100) sources
  exact ⟨hanswers, hsize, hcoherent, fun source e h => get_of_refused h⟩

end Awk.Regex.PatternCache
