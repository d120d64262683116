import Awk.Proofs.Expr.Realizes

/-!
# The order of values

Doubles that are numbers stand in a line (`Number.order_isLE_iff`).  Hence values that compare as
numbers are totally ordered up to equality, and so are values that compare as texts; each is an
instance of `Std.TransCmp`.  Across the two classes comparing is only antisymmetric (`compare_swap`),
which is what the six comparisons and the branches on them need to agree with each other, and
`compare_coherent` says that they do.  Texts are in order by the `codes` of their characters.
-/

namespace Awk

namespace Value

variable {convfmt : String}

lemma compare_swap (convfmt : String) (a b : Value) : a.compare convfmt b = (b.compare convfmt a).swap := by
  simp only [compare, Bool.or_comm b.isText]
  split_ifs
  · exact Std.OrientedCmp.eq_swap
  · exact Number.order_swap _ _

lemma compare_of_isText {a b : Value} (ha : a.isText) :
    a.compare convfmt b = Ord.compare (a.text convfmt) (b.text convfmt) := by
  simp [compare, ha]

lemma compare_of_not_isText {a b : Value} (ha : a.isText = false) (hb : b.isText = false) :
    a.compare convfmt b = Number.order a.toNumber b.toNumber := by
  simp [compare, ha, hb]

instance (convfmt : String) : Std.TransCmp fun a b : {v : Value // v.isText = true} => a.1.compare convfmt b.1 where
  eq_swap := compare_swap ..
  isLE_trans {a b c} hab hbc := by
    rw [compare_of_isText a.2] at hab ⊢
    rw [compare_of_isText b.2] at hbc
    exact Std.TransCmp.isLE_trans hab hbc

instance (convfmt : String) : Std.TransCmp
    fun a b : {v : Value // v.isText = false ∧ v.toNumber.isNaN = false} => a.1.compare convfmt b.1 where
  eq_swap := compare_swap ..
  isLE_trans {a b c} hab hbc := by
    rw [compare_of_not_isText a.2.1 b.2.1, Number.order_isLE_iff a.2.2 b.2.2] at hab
    rw [compare_of_not_isText b.2.1 c.2.1, Number.order_isLE_iff b.2.2 c.2.2] at hbc
    rw [compare_of_not_isText a.2.1 c.2.1, Number.order_isLE_iff a.2.2 c.2.2]
    exact hab.trans hbc

end Value

/-- The codes of a text's characters. -/
def codes (s : String) : List Nat := s.toList.map Char.toNat

lemma lt_iff_codes (s t : String) : s < t ↔ codes s < codes t := by
  rw [String.lt_iff_toList_lt, codes, codes]
  generalize s.toList = cs
  generalize t.toList = ds
  induction cs generalizing ds with
  | nil => cases ds <;> simp
  | cons c cs ih =>
    cases ds with
    | nil => simp
    | cons d ds =>
      simp only [List.map_cons, List.cons_lt_cons_iff, ih, Char.toNat_inj]
      rfl

namespace Run

variable (m : Machine) (a b : Value)

lemma pop_right : pop (m.above [a, b]) = .ok b (m.above [a]) := pop_above m [a] b

lemma step_compare (c : Comparison) :
    step (.compare c) (m.above [a, b]) = .ok () (m.above [.ofBool (c.holds (a.compare m.specials.convfmt b))]) := by
  rw [step, binary, bind_apply, pop_right]
  dsimp only
  rw [bind_apply, pop_apply]
  exact push_apply _ _

lemma taken_compare (c : Comparison) :
    taken (.compare c) (m.above [a, b]) = .ok (c.holds (a.compare m.specials.convfmt b)) m := by
  rw [taken, bind_apply, pop_right]
  dsimp only
  rw [bind_apply, pop_apply]
  rfl

end Run

namespace Value

/-- Comparing two values and comparing them the other way round give opposite orders, and the six comparisons of two
values on the stack, as results and as branches, go by one order.  On texts, and on the values that are no texts and no
NaN, comparing is a total preorder.  On texts it is the order by the codes of the characters. -/
theorem compare_coherent :
    (∀ (convfmt : String) (a b : Value), a.compare convfmt b = (b.compare convfmt a).swap) ∧
    (∀ (m : Machine) (a b : Value), ∃ r : Comparison → Bool,
      (∀ c, Run.step (.compare c) (m.above [a, b]) = .ok () (m.above [.ofBool (r c)])) ∧
      (∀ c, Run.taken (.compare c) (m.above [a, b]) = .ok (r c) m) ∧
      [r .less, r .equal, r .greater].count true = 1 ∧
      r .lessOrEqual = !r .greater ∧ r .greaterOrEqual = !r .less ∧ r .notEqual = !r .equal ∧
      ∀ c, r c.negated = !r c) ∧
    ∀ convfmt : String,
      Std.TransCmp (fun a b : {v : Value // v.isText = true} => a.1.compare convfmt b.1) ∧
      Std.TransCmp (fun a b : {v : Value // v.isText = false ∧ v.toNumber.isNaN = false} => a.1.compare convfmt b.1) ∧
      ∀ a b : {v : Value // v.isText = true},
        (a.1.compare convfmt b.1 = .lt ↔ codes (a.1.text convfmt) < codes (b.1.text convfmt)) ∧
        (a.1.compare convfmt b.1 = .eq ↔ a.1.text convfmt = b.1.text convfmt) := by
  refine ⟨compare_swap, fun m a b => ⟨fun c => c.holds (a.compare m.specials.convfmt b), Run.step_compare m a b,
    Run.taken_compare m a b, ?_⟩, fun convfmt => ⟨inferInstance, inferInstance, fun a b => ?_⟩⟩
  · cases a.compare m.specials.convfmt b <;> simp [Comparison.holds] <;> intro c <;> cases c <;> rfl
  · rw [compare_of_isText a.2, ← lt_iff_codes]
    exact ⟨compareOfLessAndEq_eq_lt, Std.LawfulEqOrd.compare_eq_iff_eq⟩

end Value

end Awk
