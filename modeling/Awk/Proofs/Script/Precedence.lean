import Awk.Proofs.Script.Levels
import Awk.Proofs.Script.Subexpr

/-!
# Precedence

An expression is written with parentheses only where the table of operators asks for them, and read back
as it was.  The table, from the loosest to the tightest: assignments and `?:`, which group to the right;
`||`; `&&`; `in`; `~` and `!~`; comparisons, which do not group; operands side by side; `+` and `-`; `*`,
`/` and `%`; `^`, which groups to the right.  All others group to the left.
-/

namespace Awk

/-! ## The table -/

/-- How tightly an operator binds.  The levels of other constructs lie between: assignments and `?:` at
`0`, `in` at `4`, and operands at `14`. -/
def BinaryOp.level : BinaryOp → Nat
  | or => 2
  | and => 3
  | «match» _ => 5
  | compare _ => 6
  | concat => 8
  | arith .add | arith .sub => 9
  | arith .mul | arith .div | arith .mod => 10
  | arith .pow => 12

/-- The level that the left operand needs to stand without parentheses. -/
def BinaryOp.leftLevel : BinaryOp → Nat
  | compare op => (compare op).level + 1
  | arith .pow => (arith .pow).level + 1
  | op => op.level

/-- The level that the right operand needs to stand without parentheses. -/
def BinaryOp.rightLevel : BinaryOp → Nat
  | arith .pow => (arith .pow).level
  | op => op.level + 1

lemma BinaryOp.level_le (op : BinaryOp) : op.level ≤ 14 ∧ op.leftLevel ≤ 14 ∧ op.rightLevel ≤ 14 := by
  cases op with
  | arith op | compare op | «match» op => cases op <;> decide
  | _ => decide

/-! ## Tokens of an expression -/

def Arith.mark : Arith → Mark
  | add => .plus
  | sub => .minus
  | mul => .star
  | div => .slash
  | mod => .percent
  | pow => .caret

def Arith.assignMark : Arith → Mark
  | add => .addAssign
  | sub => .subAssign
  | mul => .mulAssign
  | div => .divAssign
  | mod => .modAssign
  | pow => .powAssign

def Comparison.mark : Comparison → Mark
  | equal => .equals
  | notEqual => .notEquals
  | less => .less
  | lessOrEqual => .lessOrEqual
  | greater => .greater
  | greaterOrEqual => .greaterOrEqual

def BinaryOp.kinds : BinaryOp → List Token.Kind
  | arith op => [.mark op.mark]
  | concat => []
  | compare op => [.mark op.mark]
  | «match» negated => [.mark (if negated then .notMatch else .match)]
  | and => [.mark .and]
  | or => [.mark .or]

def inParens (wanted : Bool) (ks : List Token.Kind) : List Token.Kind :=
  if wanted then .mark .lParen :: (ks ++ [.mark .rParen]) else ks

section

-- With `full`, parentheses stand around every operator and every index in front of `in`.
variable (full : Bool)

mutual

def Place.kinds : Place → List Token.Kind
  | .var v => [.name v.name]
  | .index array index =>
    .name array.name :: .mark .lBracket :: (listKinds index ++ [.mark .rBracket])
  | .field e => .mark .dollar :: e.kindsAt 14

/-- The tokens of an expression where a level is wanted: one that binds less tightly has parentheses. -/
def Expr.kindsAt (wanted : Nat) : Expr → List Token.Kind
  | .place p => p.kinds
  | .assign target value =>
    inParens (full || 0 < wanted) (target.kinds ++ .mark .assign :: value.kindsAt 0)
  | .augAssign target op value =>
    inParens (full || 0 < wanted) (target.kinds ++ .mark op.assignMark :: value.kindsAt 0)
  | .cond test yes no =>
    inParens (full || 0 < wanted)
      (test.kindsAt 2 ++ .mark .question :: (yes.kindsAt 0 ++ .mark .colon :: no.kindsAt 0))
  | .binary left op right =>
    inParens (full || op.level < wanted)
      (left.kindsAt op.leftLevel ++ op.kinds ++ right.kindsAt op.rightLevel)
  | .member [e] array =>
    inParens (full || 4 < wanted) (inParens full (e.kindsAt 4) ++ [.mark .in, .name array.name])
  | .member index array =>
    inParens (full || 4 < wanted) (inParens true (listKinds index) ++ [.mark .in, .name array.name])
  | .userCall name args _ => .funcName name :: .mark .lParen :: (listKinds args ++ [.mark .rParen])
  | _ => []

def listKinds : List Expr → List Token.Kind
  | [] => []
  | [e] => e.kindsAt 0
  | e :: rest => e.kindsAt 0 ++ .mark .comma :: listKinds rest

end

end

/-- The tokens of an expression, with parentheses only where the table asks for them. -/
def Expr.kinds (e : Expr) : List Token.Kind := e.kindsAt false 0

/-! ## Without places in the text -/

def VarRef.bare (v : VarRef) : VarRef := { v with extent := default }

mutual

def Place.bare : Place → Place
  | .var v => .var v.bare
  | .index array index => .index array.bare (bareList index)
  | .field e => .field e.bare

/-- An expression without the places in the text where its parts stand. -/
def Expr.bare : Expr → Expr
  | .place p => .place p.bare
  | .assign target value => .assign target.bare value.bare
  | .augAssign target op value => .augAssign target.bare op value.bare
  | .incr target decr pre => .incr target.bare decr pre
  | .unary op e => .unary op e.bare
  | .binary left op right => .binary left.bare op right.bare
  | .cond test yes no => .cond test.bare yes.bare no.bare
  | .member index array => .member (bareList index) array.bare
  | .call func args _ => .call func (bareList args) default
  | .userCall name args _ => .userCall name (bareList args) default
  | .getline target => .getline (bareTarget target)
  | .getlineFile file target => .getlineFile file.bare (bareTarget target)
  | .getlineCommand command target => .getlineCommand command.bare (bareTarget target)
  | .num x => .num x
  | .str s => .str s
  | .regex s => .regex s

def bareTarget : Option Place → Option Place
  | none => none
  | some p => some p.bare

def bareList : List Expr → List Expr
  | [] => []
  | e :: rest => e.bare :: bareList rest

end

/-- The constructs that the table is about, with operands and calls; no index is empty. -/
def Expr.InTable : Expr → Prop
  | .place (.index _ index) | .assign (.index _ index) _ | .augAssign (.index _ index) _ _
  | .member index _ => index ≠ []
  | .place _ | .assign _ _ | .augAssign _ _ _ | .cond _ _ _ | .binary _ _ _ | .userCall _ _ _ => True
  | _ => False

namespace Reader

/-! ## Tokens of given kinds -/

/-- All tokens of the given kinds are read at a level as the expression, up to places in the text. -/
def Spells (l : Nat) (ks : List Token.Kind) (e : Expr) : Prop :=
  ∀ ts : List Token, ts.map Token.kind = ks → ∃ e', e'.bare = e.bare ∧ Reads l ts e'

/-- All tokens of the given kinds are read as the list of expressions, up to places in the text. -/
def SpellsList (ks : List Token.Kind) (es : List Expr) : Prop :=
  ∀ ts : List Token, ts.map Token.kind = ks → ∃ es', bareList es' = bareList es ∧ ReadsList ts es'

variable {l k : Nat} {ks js : List Token.Kind} {e f g : Expr} {es : List Expr} {p : Place}

lemma Spells.mono (h : Spells k ks e) (hlk : l ≤ k) (hk : k ≤ 14) : Spells l ks e := by
  intro ts hts
  obtain ⟨e', he, hr⟩ := h ts hts
  exact ⟨e', he, hr.mono hlk hk⟩

lemma split_kinds {ts : List Token} {kind : Token.Kind} (h : ts.map Token.kind = ks ++ kind :: js) :
    ∃ us t vs, ts = us ++ t :: vs ∧ us.map Token.kind = ks ∧ t.kind = kind ∧ vs.map Token.kind = js := by
  obtain ⟨us, ws, rfl, hus, hws⟩ := List.map_eq_append_iff.mp h
  obtain ⟨t, vs, rfl, ht, hvs⟩ := List.map_eq_cons_iff.mp hws
  exact ⟨us, t, vs, rfl, hus, ht, hvs⟩

lemma Spells.parens (h : Spells 0 ks e) : Spells 14 (inParens true ks) e := by
  intro ts hts
  obtain ⟨t, us, rfl, ht, hus⟩ := List.map_eq_cons_iff.mp hts
  obtain ⟨vs, c, ws, rfl, hvs, hc, hws⟩ := split_kinds hus
  obtain rfl := List.map_eq_nil_iff.mp hws
  obtain ⟨e', he, hr⟩ := h vs hvs
  exact ⟨e', he, hr.parens ht hc⟩

lemma Spells.inParens {full : Bool} (h : Spells k ks e) (hk : k ≤ 14) (hl : l ≤ 14) :
    Spells l (inParens (full || k < l) ks) e := by
  cases hp : full || decide (k < l) with
  | true => exact (h.mono (Nat.zero_le k) hk).parens.mono hl le_rfl
  | false =>
    have : l ≤ k := by simp_all
    exact h.mono this hk

lemma bare_asPattern (e : Expr) : e.asPattern.bare = e.bare.asPattern := by
  cases e <;> rfl

lemma Spells.binary (op : BinaryOp) (he : Spells op.leftLevel ks e) (hf : Spells op.rightLevel js f)
    (hpattern : f.asPattern = f) : Spells op.level (ks ++ op.kinds ++ js) (.binary e op f) := by
  intro ts hts
  obtain ⟨us, vs, rfl, hus, hvs⟩ := List.map_eq_append_iff.mp hts
  obtain ⟨us, ms, rfl, hus, hms⟩ := List.map_eq_append_iff.mp hus
  obtain ⟨e', he', hr⟩ := he us hus
  obtain ⟨f', hf', hs⟩ := hf vs hvs
  refine ⟨.binary e' op f', by simp [Expr.bare, he', hf'], ?_⟩
  have hpattern' : f'.asPattern = f' := by
    have hbare : f'.bare.asPattern = f'.bare := by rw [hf', ← bare_asPattern, hpattern]
    cases f' <;> first | rfl | cases hbare
  rw [List.append_assoc]
  cases op with
  | concat =>
    obtain rfl := List.map_eq_nil_iff.mp hms
    exact hr.concat hs
  | compare op =>
    obtain ⟨t, rfl, ht⟩ := List.map_eq_singleton_iff.mp hms
    cases op <;> exact hr.compare rfl ht hs
  | «match» negated =>
    obtain ⟨t, rfl, ht⟩ := List.map_eq_singleton_iff.mp hms
    cases negated <;> exact hr.left (by simp [BinaryOp.level]) rfl ht hs hpattern'
  | and | or =>
    obtain ⟨t, rfl, ht⟩ := List.map_eq_singleton_iff.mp hms
    exact hr.left (by simp [BinaryOp.level]) rfl ht hs hpattern'
  | arith op =>
    obtain ⟨t, rfl, ht⟩ := List.map_eq_singleton_iff.mp hms
    cases op with
    | pow => exact hr.pow ht hs
    | _ => exact hr.left (by simp [BinaryOp.level]) rfl ht hs hpattern'

lemma Spells.cond {is : List Token.Kind} (he : Spells 2 ks e) (hf : Spells 0 js f) (hg : Spells 0 is g) :
    Spells 0 (ks ++ .mark .question :: (js ++ .mark .colon :: is)) (.cond e f g) := by
  intro ts hts
  obtain ⟨us, t, vs, rfl, hus, ht, hvs⟩ := split_kinds hts
  obtain ⟨ws, c, xs, rfl, hws, hc, hxs⟩ := split_kinds hvs
  obtain ⟨e', he', hr⟩ := he us hus
  obtain ⟨f', hf', hs⟩ := hf ws hws
  obtain ⟨g', hg', hq⟩ := hg xs hxs
  exact ⟨.cond e' f' g', by simp [Expr.bare, he', hf', hg'], hr.cond ht hc hs hq⟩

lemma Spells.assign {m : Mark} {op : Option Arith} (hop : assignment? m = some op)
    (hp : Spells 14 ks (.place p)) (hf : Spells 0 js f) :
    Spells 0 (ks ++ .mark m :: js) (assigned p op f) := by
  intro ts hts
  obtain ⟨us, t, vs, rfl, hus, ht, hvs⟩ := split_kinds hts
  obtain ⟨e', he', hr⟩ := hp us hus
  obtain ⟨f', hf', hs⟩ := hf vs hvs
  -- Only a place has the bare form of one.
  cases e' with
  | place p' =>
    refine ⟨assigned p' op f', ?_, hr.assign hop ht hs⟩
    cases op <;> simp_all [assigned, Expr.bare]
  | _ => cases he'

lemma Spells.member {a : VarRef} (he : Spells 4 ks e) :
    Spells 4 (ks ++ [.mark .in, .name a.name]) (.member [e] a) := by
  intro ts hts
  obtain ⟨us, t, vs, rfl, hus, ht, hvs⟩ := split_kinds hts
  obtain ⟨n, rfl, hn⟩ := List.map_eq_singleton_iff.mp hvs
  obtain ⟨e', he', hr⟩ := he us hus
  exact ⟨_, by simp [Expr.bare, bareList, VarRef.bare, he'], hr.member ht hn⟩

lemma bareList_eq_map : bareList es = es.map Expr.bare := by
  induction es with
  | nil => rfl
  | cons e es ih => simp [bareList, ih]

lemma SpellsList.member {a : VarRef} (h : SpellsList ks es) (hes : 2 ≤ es.length) :
    Spells 14 (Awk.inParens true ks ++ [.mark .in, .name a.name]) (.member es a) := by
  intro ts hts
  rw [inParens, if_pos rfl, List.cons_append, List.append_assoc] at hts
  obtain ⟨t, us, rfl, ht, hus⟩ := List.map_eq_cons_iff.mp hts
  obtain ⟨vs, c, ws, rfl, hvs, hc, hws⟩ := split_kinds hus
  obtain ⟨i, xs, rfl, hi, hxs⟩ := List.map_eq_cons_iff.mp hws
  obtain ⟨n, rfl, hn⟩ := List.map_eq_singleton_iff.mp hxs
  obtain ⟨es', hes', hr⟩ := h vs hvs
  have hlen : es'.length = es.length := by simpa [bareList_eq_map] using congrArg List.length hes'
  exact ⟨_, by simp [Expr.bare, VarRef.bare, hes'], hr.member ht hc hi hn (by omega)⟩

lemma SpellsList.index {a : VarRef} (h : SpellsList ks es) (hes : es ≠ []) :
    Spells 14 (.name a.name :: .mark .lBracket :: (ks ++ [.mark .rBracket])) (.place (.index a es)) := by
  intro ts hts
  obtain ⟨t, us, rfl, ht, hus⟩ := List.map_eq_cons_iff.mp hts
  obtain ⟨b, vs, rfl, hb, hvs⟩ := List.map_eq_cons_iff.mp hus
  obtain ⟨ws, c, xs, rfl, hws, hc, hxs⟩ := split_kinds hvs
  obtain rfl := List.map_eq_nil_iff.mp hxs
  obtain ⟨es', hes', hr⟩ := h ws hws
  have hne : es' ≠ [] := by
    rintro rfl
    exact hes (by simpa [bareList_eq_map, eq_comm] using hes')
  exact ⟨_, by simp [Expr.bare, Place.bare, VarRef.bare, hes'], hr.index ht hb hc hne⟩

lemma SpellsList.call {a : String} {extent : Extent} (h : SpellsList ks es) :
    Spells 14 (.funcName a :: .mark .lParen :: (ks ++ [.mark .rParen])) (.userCall a es extent) := by
  intro ts hts
  obtain ⟨t, us, rfl, ht, hus⟩ := List.map_eq_cons_iff.mp hts
  obtain ⟨b, vs, rfl, hb, hvs⟩ := List.map_eq_cons_iff.mp hus
  obtain ⟨ws, c, xs, rfl, hws, hc, hxs⟩ := split_kinds hvs
  obtain rfl := List.map_eq_nil_iff.mp hxs
  obtain ⟨es', hes', hr⟩ := h ws hws
  exact ⟨_, by simp [Expr.bare, hes'], hr.call ht hb hc⟩

lemma Spells.field (h : Spells 14 ks e) : Spells 14 (.mark .dollar :: ks) (.place (.field e)) := by
  intro ts hts
  obtain ⟨t, us, rfl, ht, hus⟩ := List.map_eq_cons_iff.mp hts
  obtain ⟨e', he', hr⟩ := h us hus
  exact ⟨_, by simp [Expr.bare, Place.bare, he'], hr.field ht⟩

lemma spells_var {v : VarRef} : Spells 14 [.name v.name] (.place (.var v)) := by
  intro ts hts
  obtain ⟨t, rfl, ht⟩ := List.map_eq_singleton_iff.mp hts
  exact ⟨_, by simp [Expr.bare, Place.bare, VarRef.bare], reads_var ht⟩

lemma spellsList_nil : SpellsList [] [] := by
  intro ts hts
  obtain rfl := List.map_eq_nil_iff.mp hts
  exact ⟨[], rfl, readsList_nil⟩

lemma Spells.single (h : Spells 0 ks e) : SpellsList ks [e] := by
  intro ts hts
  obtain ⟨e', he', hr⟩ := h ts hts
  exact ⟨[e'], by simp [bareList, he'], hr.single⟩

lemma Spells.more (h : Spells 0 ks e) (hes : SpellsList js es) :
    SpellsList (ks ++ .mark .comma :: js) (e :: es) := by
  intro ts hts
  obtain ⟨us, t, vs, rfl, hus, ht, hvs⟩ := split_kinds hts
  obtain ⟨e', he', hr⟩ := h us hus
  obtain ⟨es', hes', hs⟩ := hes vs hvs
  exact ⟨e' :: es', by simp [bareList, he', hes'], hr.more ht hs⟩

end Reader

/-! ## Reading back -/

section

variable {full : Bool} {P : Expr → Prop}

open Reader (Spells SpellsList)

mutual

lemma Place.spells (hP : ∀ e, P e → e.InTable) : ∀ p : Place, (Expr.place p).InTable → p.All P →
    Spells 14 (p.kinds full) (.place p)
  | .var v, _, _ => by
    rw [Place.kinds]
    exact Reader.spells_var
  | .index a es, hes, h => by
    rw [Place.kinds]
    exact (listKinds_spells hP es h).index hes
  | .field e, _, h => by
    rw [Place.kinds]
    exact (Expr.spells hP e h (by omega)).field

lemma Expr.spells (hP : ∀ e, P e → e.InTable) : ∀ e : Expr, e.All P → ∀ {l}, l ≤ 14 →
    Spells l (e.kindsAt full l) e
  | .place p, h, l, hl => by
    rw [Expr.kindsAt]
    exact (Place.spells hP p (hP _ h.1) h.2).mono hl le_rfl
  | .assign p f, h, l, hl => by
    rw [Expr.kindsAt]
    have hp : (Expr.place p).InTable := by
      have htable := hP _ h.1
      cases p <;> exact htable
    have hop : Reader.assignment? .assign = some none := rfl
    exact ((Place.spells hP p hp h.2.1).assign hop (Expr.spells hP f h.2.2 (by omega))).inParens
      (by omega) hl
  | .augAssign p op f, h, l, hl => by
    rw [Expr.kindsAt]
    have hp : (Expr.place p).InTable := by
      have htable := hP _ h.1
      cases p <;> exact htable
    have hop : Reader.assignment? op.assignMark = some (some op) := by cases op <;> rfl
    exact ((Place.spells hP p hp h.2.1).assign hop (Expr.spells hP f h.2.2 (by omega))).inParens
      (by omega) hl
  | .cond e f g, h, l, hl => by
    rw [Expr.kindsAt]
    exact ((Expr.spells hP e h.2.1 (by omega)).cond (Expr.spells hP f h.2.2.1 (by omega))
      (Expr.spells hP g h.2.2.2 (by omega))).inParens (by omega) hl
  | .binary e op f, h, l, hl => by
    rw [Expr.kindsAt]
    have hlevel := op.level_le
    have hpattern : f.asPattern = f := by
      cases f <;> first | rfl | exact (hP _ h.2.2.self).elim
    exact (Spells.binary op (Expr.spells hP e h.2.1 hlevel.2.1) (Expr.spells hP f h.2.2 hlevel.2.2)
      hpattern).inParens hlevel.1 hl
  | .member [e] a, h, l, hl => by
    rw [Expr.kindsAt]
    have he := Expr.spells hP e h.2.1 (by omega : 4 ≤ 14)
    refine (Spells.member ?_).inParens (by omega) hl
    cases full with
    | true => exact (he.mono (by omega) (by omega)).parens.mono (by omega) le_rfl
    | false => exact he
  | .member (e :: f :: es) a, h, l, hl => by
    have hes := listKinds_spells hP (e :: f :: es) h.2
    rw [Expr.kindsAt]
    · exact ((hes.member (by simp)).mono (by omega) le_rfl).inParens (by omega) hl
    · simp
  | .userCall a es _, h, l, hl => by
    rw [Expr.kindsAt]
    exact (listKinds_spells hP es h.2).call.mono hl le_rfl
  | .member [] _, h, _, _ => absurd rfl (hP _ h.1)
  | .num _, h, _, _ | .str _, h, _, _ | .regex _, h, _, _ => (hP _ h).elim
  | .incr _ _ _, h, _, _ | .unary _ _, h, _, _ | .call _ _ _, h, _, _ | .getline _, h, _, _
  | .getlineFile _ _, h, _, _ | .getlineCommand _ _, h, _, _ => (hP _ h.1).elim

lemma listKinds_spells (hP : ∀ e, P e → e.InTable) : ∀ es : List Expr, AllIn P es →
    SpellsList (listKinds full es) es
  | [], _ => by
    rw [listKinds]
    exact Reader.spellsList_nil
  | [e], h => by
    rw [listKinds]
    exact (Expr.spells hP e h.1 (by omega)).single
  | e :: f :: es, h => by
    rw [listKinds]
    · exact (Expr.spells hP e h.1 (by omega)).more (listKinds_spells hP (f :: es) h.2)
    · simp

end

end

/-- Whatever tokens spell an expression and stand before tokens that cannot carry it on, it is read from
them, and these are left. -/
theorem Expr.ofTokens_kinds (e : Expr) (he : e.All Expr.InTable) (ts rest : List Token)
    (hts : ts.map Token.kind = e.kinds) (hrest : Reader.joins rest = none) :
    ∃ e', Expr.ofTokens (ts ++ rest) = .ok (e', rest) ∧ e'.bare = e.bare := by
  obtain ⟨e', hbare, hreads⟩ := e.spells (fun _ h => h) he (Nat.zero_le 14) ts hts
  refine ⟨e', ?_, hbare⟩
  exact hreads.closed (by simp) (by simp [Reader.Stops, hrest])

/-- `x[i] = a ~ b && (c, d) in s ? $(e - (f - g)) ^ h ^ i < (j < k) : y += (l || m) n` -/
def tableExpr : Expr :=
  let v (name : String) : Expr := .place (.var ⟨name, default⟩)
  .assign (.index ⟨"x", default⟩ [v "i"])
    (.cond
      (.binary (.binary (v "a") (.match false) (v "b")) .and (.member [v "c", v "d"] ⟨"s", default⟩))
      (.binary
        (.binary
          (.place (.field (.binary (v "e") (.arith .sub) (.binary (v "f") (.arith .sub) (v "g")))))
          (.arith .pow) (.binary (v "h") (.arith .pow) (v "i")))
        (.compare .less) (.binary (v "j") (.compare .less) (v "k")))
      (.augAssign (.var ⟨"y", default⟩) .add
        (.binary (.binary (v "l") .or (v "m")) .concat (v "n"))))

theorem tableExpr_read : ∃ e',
    Expr.ofTokens (tableExpr.kinds.map (⟨·, default⟩) ++ [⟨.mark .semicolon, default⟩]) =
      .ok (e', [⟨.mark .semicolon, default⟩]) ∧ e'.bare = tableExpr.bare :=
  Expr.ofTokens_kinds tableExpr (by simp [tableExpr, Expr.All, Place.All, AllIn, Expr.InTable])
    (tableExpr.kinds.map (⟨·, default⟩)) [⟨.mark .semicolon, default⟩] (by simp [Function.comp_def]) rfl

end Awk
