import Awk.Format.Render

/-!
# Comparing values

Two values compare as texts if either of them is a text, and as numbers otherwise.  Texts compare by
code points; NaN counts as equal to every number.
-/

namespace Awk

inductive Comparison where
  | equal
  | notEqual
  | less
  | greater
  | lessOrEqual
  | greaterOrEqual
deriving DecidableEq, Repr

/-- Whether a comparison holds of two values in the given order. -/
def Comparison.holds : Comparison → Ordering → Bool
  | equal, o => o == .eq
  | notEqual, o => o != .eq
  | less, o => o == .lt
  | greater, o => o == .gt
  | lessOrEqual, o => o != .gt
  | greaterOrEqual, o => o != .lt

/-- The order of two values; numbers become text by the format `convfmt`. -/
def Value.compare (convfmt : String) (a b : Value) : Ordering :=
  if a.isText || b.isText then Ord.compare (a.text convfmt) (b.text convfmt)
  else Number.order a.toNumber b.toNumber

end Awk
