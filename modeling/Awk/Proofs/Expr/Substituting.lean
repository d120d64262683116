import Awk.Proofs.Expr.Assigning

/-!
# Places in which texts are replaced

A substitution reads a place and, if something was replaced, assigns the new text to it.  Its code holds the code of the
place twice: once where the text is read, and once where it is stored.  So the key of a field or element is computed a
second time when something was replaced, and if that gives another key the new text goes to another place.
-/

namespace Awk

open Compile Run

namespace Run

/-! ## What substitutions mean -/

def put (c : Cell) (k value : Value) : Run Unit := c.at k >>= (store · value)

/-- The key of the place whose text is replaced, the new text, and how often something was replaced.  The operands and
the key are computed from left to right, each of them once. -/
def replaced (fuel : Nat) (all : Bool) (pattern replacement key : List Op) (c : Cell) :
    Evaluation (Value × Value × Nat) := do
  let source ← pushed fuel pattern
  let replacement ← pushed fuel replacement
  let (k, old) ← fetch fuel key c
  let (new, count) ← substitute source replacement old all
  return (k, new, count)

/-- Replaces texts in a cell.  If something was replaced, the new text goes to the cell whose text was read. -/
def storeOnce (fuel : Nat) (all : Bool) (pattern replacement key : List Op) (c : Cell) : Evaluation Value := do
  let (k, new, count) ← replaced fuel all pattern replacement key c
  if (Value.ofNat count).isTrue then put c k new
  return .ofNat count

/-- Replaces texts in a cell.  If something was replaced, the key is computed again, and the new text goes where that
leads. -/
def storeAgain (fuel : Nat) (all : Bool) (pattern replacement key : List Op) (c : Cell) : Evaluation Value := do
  let (_, new, count) ← replaced fuel all pattern replacement key c
  if (Value.ofNat count).isTrue then
    let k ← keyed fuel key c
    put c k new
  return .ofNat count

section

variable (fuel : Nat) (all : Bool) (pattern replacement key : List Op) (c : Cell) {m n : Machine} {k new : Value}
  {count : Nat}

/-- When something was replaced, computing the key again leads to the same cell and changes nothing. -/
def Repeats (m : Machine) : Prop :=
  ∀ k new count n, (replaced fuel all pattern replacement key c).run m = .ok (.ok (k, new, count)) n →
    (Value.ofNat count).isTrue = true → ∃ k', (keyed fuel key c).run n = .ok (.ok k') n ∧ c.at k' = c.at k

variable {fuel all pattern replacement key c}

/-- It makes no difference how often the key is computed if it can be computed again. -/
lemma storeAgain_eq_storeOnce (h : Repeats fuel all pattern replacement key c m) :
    (storeAgain fuel all pattern replacement key c).run m = (storeOnce fuel all pattern replacement key c).run m := by
  rw [storeAgain, storeOnce, Evaluation.bind_apply, Evaluation.bind_apply]
  match hr : (replaced fuel all pattern replacement key c).run m with
  | .ok (.ok (k, new, count)) n =>
    dsimp only
    split_ifs with hcount
    · obtain ⟨k', hkey, hat⟩ := h k new count n hr hcount
      have hput : put c k' new = put c k new := by rw [put, put, hat]
      refine (Evaluation.bind_apply _ _ n).trans ?_
      rw [hkey, ← hput]
    · rfl
  | .ok (.error _) _ | .error _ _ => rfl

lemma Evaluation.bind_ok {α β : Type} {x : Evaluation α} {f : α → Evaluation β} {b : β}
    (h : (x >>= f).run m = .ok (.ok b) n) : ∃ a q, x.run m = .ok (.ok a) q ∧ (f a).run q = .ok (.ok b) n := by
  rw [Evaluation.bind_apply] at h
  match hr : x.run m with
  | .ok (.ok a) q =>
    rw [hr] at h
    exact ⟨a, q, rfl, h⟩
  | .ok (.error _) _ =>
    rw [hr] at h
    cases h
  | .error _ _ =>
    rw [hr] at h
    cases h

lemma repeats_scalar (r : ScalarRef) : Repeats fuel all pattern replacement key (.scalar r) m :=
  fun _ _ _ _ _ _ => ⟨.null, rfl, rfl⟩

end

/-! ## Instructions -/

section

variable {I : Machine → Prop} {p : Program} {env : Env} {s : Array Value}

lemma Realizes.swap (a b : Value) : Realizes I [.swap] [a, b] (Pure.pure ()) fun _ => [b, a] :=
  .step rfl (.pop_bind [a] (.pop_bind [] (.push_bind [] (.push_bind [b] (.of_below (.pure ()) [b, a])))))

lemma Realizes.callSub (all : Bool) (source replacement old : Value) :
    Realizes (Machine.Hosts p env s) [.callSub all] [source, replacement, old] (substitute source replacement old all)
      fun (new, count) => [new, .ofNat count] := by
  have hbelow : Below (Machine.Hosts p env s) (substitute source replacement old all) :=
    (Composed.substitute source replacement old all).tame.below
  have hpush (r : Value × Nat) : Acts (Machine.Hosts p env s) (push r.1 >>= fun _ => push (.ofNat r.2)) []
      (Pure.pure r) (fun _ => ()) fun (new, count) => [new, .ofNat count] := by
    intro m vs hm
    refine ⟨hm, ?_⟩
    rw [bind_apply, push_above]
    dsimp only
    rw [push_above]
    simp
  have h := (Acts.of_below hbelow []).bind fun r => hpush r
  rw [bind_pure] at h
  exact .step rfl (.pop_bind [source, replacement] (.pop_bind [source] (.pop_bind [] h)))

/-- Code that pushes a number or a text of the program. -/
inductive ConstantCode (p : Program) : List Op → Value → Prop where
  | num {i : Nat} {x : Float} (h : p.nums[i]? = some x) : ConstantCode p [.num i] (.num x)
  | str {i : Nat} {t : String} (h : p.strs[i]? = some t) : ConstantCode p [.str i] (.str t)

lemma ConstantCode.pushed {code : List Op} {v : Value} (h : ConstantCode p code v) {m : Machine} (hm : m.program = p) (fuel : Nat) :
    (fuel < 2 → ∃ n, (pushed fuel code).run m = .error .outOfFuel n) ∧
      (2 ≤ fuel → (Run.pushed fuel code).run m = .ok (.ok v) m) := by
  obtain ⟨op, rfl, hc, hstep⟩ : ∃ op, code = [op] ∧ op.isControl = false ∧ Run.step op m = .ok () (m.above [v]) := by
    cases h with
    | @num i x h =>
      refine ⟨_, rfl, rfl, ?_⟩
      rw [step_num (hm ▸ h), push_apply]
    | @str i t h =>
      refine ⟨_, rfl, rfl, ?_⟩
      rw [step_str (hm ▸ h), push_apply]
  have hproceed (fuel : Nat) : proceed (fuel + 1) [op].toArray 0 m = proceed fuel [op].toArray 1 (m.above [v]) := by
    rw [proceed_succ]
    change (advance fuel [op].toArray 0 op >>= _) m = _
    rw [advance_step hc, bind_assoc, bind_apply, hstep]
    rfl
  rw [Run.pushed, ExceptT.run_mk, bind_apply]
  refine ⟨fun hfuel => ?_, fun hfuel => ?_⟩
  · obtain rfl | rfl : fuel = 0 ∨ fuel = 1 := by omega
    · exact ⟨m, rfl⟩
    · rw [hproceed]
      exact ⟨_, rfl⟩
  · obtain ⟨fuel, rfl⟩ : ∃ k, fuel = k + 2 := ⟨fuel - 2, by omega⟩
    rw [hproceed, proceed_succ]
    change (pop >>= fun v => pure (Except.ok v)) (m.above [v]) = _
    rw [bind_apply, pop_apply]
    rfl

end

/-! ## Code -/

section

variable {p : Program} {room : Room} {env : Env} {s : Array Value} {m : Machine}

/-- The code that reads a cell: its key and the instruction that takes it, or one instruction for a field whose number
is a literal. -/
def TextCode (p : Program) (key text : List Op) (c : Cell) : Prop :=
  text = key ++ [.load c] ∨ ∃ i x n, p.nums[i]? = some x ∧ smallField? x = some n ∧ key = [.num i] ∧ c = .field ∧
    text = [.fieldInt n]

namespace KeyCode

variable {pattern replacement key text : List Op} {c : Cell} (h : KeyCode p room env key c) (fuel : Nat)
  (hm : m.Serves p room env s)

include h hm

/-- The code that reads a cell leaves its value on the stack, and not its key. -/
lemma text_carries (htext : TextCode p key text c) :
    Carries m text [] (fetch fuel key c) (fun fetched => [fetched.2]) fun _ q => q.Serves p room env s := by
  obtain rfl | ⟨i, x, n, hi, hn, rfl, rfl, rfl⟩ := htext
  · exact (h.keyed_carries fuel hm).bind fun k q hq => ((Realizes.load h.within [] k).carries hq.hosts fun _ _ =>
      load_serves h.wellFormed hq).map (fun _ _ hn => hn) fun _ => rfl
  · have hnum := (ConstantCode.num hi).pushed hm.hosts.program fuel
    have hload : Carries m [.fieldInt n] [] (do return (Value.num x, ← (Cell.field.at (.num x) >>= load : Run Value)))
        (fun fetched => [fetched.2]) fun _ q => q.Serves p room env s :=
      ((Realizes.fieldInt hn).carries hm.hosts fun _ _ => load_serves h.wellFormed hm).map (fun _ _ hn => hn)
        fun _ => rfl
    intro full o hs vs
    rw [fetch, keyed, Evaluation.bind_apply]
    rcases Nat.lt_or_ge fuel 2 with hlt | hge
    · obtain ⟨n, hout⟩ := hnum.1 hlt
      rw [hout]
      exact .inl rfl
    · rw [hnum.2 hge]
      exact hload full o hs vs

/-- The code behind a substitution: either way the count is left on the stack. -/
lemma storing_carries (new : Value) (count : Nat) : Carries m
    (.dupe :: .branch (.truth true) 3 :: .swap :: .drop :: .jump ((key ++ [Op.store c]).length + 1) :: .swap ::
      (key ++ [.store c])) [new, .ofNat count] (do
        if (Value.ofNat count).isTrue then
          let k ← keyed fuel key c
          put c k new
        return .ofNat count) (fun v => [v]) fun _ _ => True := by
  set v := Value.ofNat count
  have hkept : Realizes (Machine.Hosts p env s) [.swap, .drop] [new, v] (Pure.pure () >>= fun _ => Pure.pure ())
      fun _ => [v] := (Realizes.swap new v).bind fun _ => Realizes.drop [v] new
  have hstored : Carries m (.swap :: (key ++ [.store c])) [new, v] (do
      let k ← keyed fuel key c
      put c k new
      return v) (fun v => [v]) fun _ _ => True := by
    have hput (k : Value) {q : Machine} (hq : q.Serves p room env s) : Carries q [.store c] ([v, new] ++ c.keyed k)
        (do put c k new; return v) (fun v => [v]) fun _ _ => True :=
      ((Realizes.store h.within [v] k new).carries hq.hosts fun _ _ _ _ => trivial).map (fun _ _ hn => hn) fun _ => rfl
    have hswap := ((Realizes.swap new v).carries (Q := fun _ q => q = m) hm.hosts fun _ n hn _ => by cases hn; rfl).bind
      fun _ q hq => ((h.keyed_carries fuel (hq ▸ hm)).behind [v, new]).bind fun k n hn => hput k hn
    rwa [liftM_pure, pure_bind] at hswap
  have hbehind : Carries m (.branch (.truth true) 3 :: ([.swap, .drop] ++
      .jump ((key ++ [Op.store c]).length + 1) :: .swap :: (key ++ [.store c]))) [new, v, v] (do
        if v.isTrue then
          let k ← keyed fuel key c
          put c k new
        return v) (fun v => [v]) fun _ _ => True := by
    intro full o hs vs
    obtain ⟨hbranch, hs⟩ := along_cons.mp hs
    obtain ⟨hkept', hs⟩ := along_append.mp hs
    obtain ⟨hjump, hs⟩ := along_cons.mp hs
    have htaken := (acts_truth (I := fun _ => True) true [new, v] v m vs trivial).2
    have hstop : o + (Op.branch (.truth true) 3 :: ([.swap, .drop] ++ .jump ((key ++ [Op.store c]).length + 1) ::
        .swap :: (key ++ [Op.store c]))).length = o + 1 + 2 + 1 + (Op.swap :: (key ++ [Op.store c])).length := by
      simp
      omega
    rw [hstop]
    cases hcount : v.isTrue with
    | true =>
      rw [hcount] at htaken
      refine (hstored full _ hs vs).extend fun r hr => .branch hbranch htaken ?_ hr
      simp
      omega
    | false =>
      rw [hcount] at htaken
      exact Delivers.extend (.pure (m := m) trivial rfl) fun r hr => .branch hbranch htaken (by simp)
        ((hkept full _ hkept' m hm.hosts vs).2 r (.jump hjump (by simp) hr))
  have hdupe := (Realizes.dupe [new] v).carries (Q := fun _ q => q = m) hm.hosts fun _ n hn _ => by cases hn; rfl
  have hall := hdupe.bind fun _ q hq => hq ▸ hbehind
  rwa [liftM_pure, pure_bind] at hall

variable (all : Bool) (hpattern : Turns p room pattern 0 1) (hreplacement : Turns p room replacement 0 1)

include hpattern hreplacement

/-- The code of a substitution computes the key again if something was replaced. -/
lemma storeAgain_carries (htext : TextCode p key text c) :
    Carries m (subCode pattern replacement text all (key ++ [.store c])) []
      (storeAgain fuel all pattern replacement key c) (fun v => [v]) fun _ _ => True := by
  have hmeans : storeAgain fuel all pattern replacement key c = (do
      let source ← pushed fuel pattern
      let replacement ← pushed fuel replacement
      let fetched ← fetch fuel key c
      let result ← substitute source replacement fetched.2 all
      if (Value.ofNat result.2).isTrue then
        let k ← keyed fuel key c
        put c k result.1
      return .ofNat result.2) := by
    simp only [storeAgain, replaced, bind_assoc, pure_bind]
  rw [hmeans, subCode, List.append_assoc, List.append_assoc, List.append_assoc]
  refine (h.pushed_carries fuel hm hpattern).bind fun source q hq => ?_
  refine ((h.pushed_carries fuel hq hreplacement).behind [source]).bind fun replacement n hn => ?_
  refine ((h.text_carries fuel hn htext).behind [source, replacement]).bind fun fetched q' hq' => ?_
  exact ((Realizes.callSub all source replacement fetched.2).carries hq'.hosts fun _ _ =>
    Resizes.serves (Composed.substitute _ _ _ _).tame.sized hq').bind fun result n' hn' =>
      h.storing_carries fuel hn' result.1 result.2

lemma repeats_constant {v : Value} (hconst : ConstantCode p key v) (hone : c.keys = 1) :
    Repeats fuel all pattern replacement key c m := by
  have hkeyed : keyed fuel key c = pushed fuel key := by
    cases c with
    | scalar r => cases hone
    | field | element a => rfl
  intro k new count n hrun _
  obtain ⟨source, q₁, h₁, hrun⟩ := Evaluation.bind_ok hrun
  obtain ⟨replacement', q₂, h₂, hrun⟩ := Evaluation.bind_ok hrun
  obtain ⟨⟨k', old⟩, q₃, h₃, hrun⟩ := Evaluation.bind_ok hrun
  obtain ⟨⟨new', count'⟩, q₄, h₄, hrun⟩ := Evaluation.bind_ok hrun
  cases hrun
  -- on all these machines the program is the same
  have hq₁ := (h.pushed_carries fuel hm hpattern).result h₁
  have hq₂ := (h.pushed_carries fuel hq₁ hreplacement).result h₂
  have hq₃ := (h.fetch_carries fuel hq₂).result h₃
  have hq₄ : n.Hosts p env s :=
    ((Realizes.callSub all source replacement' old).carries hq₃.hosts fun _ _ _ hn => hn).result h₄
  obtain ⟨k', q, hk, h₃⟩ := Evaluation.bind_ok h₃
  obtain ⟨old', q', -, h₃⟩ := Evaluation.bind_ok h₃
  cases h₃
  rw [hkeyed] at hk ⊢
  rcases Nat.lt_or_ge fuel 2 with hlt | hge
  · obtain ⟨q, hout⟩ := (hconst.pushed hq₂.hosts.program fuel).1 hlt
    rw [hout] at hk
    cases hk
  · rw [(hconst.pushed hq₂.hosts.program fuel).2 hge] at hk
    cases hk
    exact ⟨v, (hconst.pushed hq₄.program fuel).2 hge, rfl⟩

end KeyCode

end

/-- Texts are replaced in a cell by code, on a machine that is at work. -/
structure ReplacesIn (p : Program) (fuel : Nat) (all : Bool) (pattern replacement key : List Op) (c : Cell) (code : Code)
    (m : Machine) : Prop where
  /-- The code computes the key again if something was replaced. -/
  again : (∀ n, (storeAgain fuel all pattern replacement key c).run m ≠ .error .outOfFuel n) →
    ∃ e, EndsAs code m e ∧ Akin (pushing (storeAgain fuel all pattern replacement key c) m) e
  /-- If the key can be computed again, the new text goes to the cell that was read. -/
  once : Repeats fuel all pattern replacement key c m →
    (∀ n, (storeAgain fuel all pattern replacement key c).run m ≠ .error .outOfFuel n) →
    ∃ e, EndsAs code m e ∧ Akin (pushing (storeOnce fuel all pattern replacement key c) m) e
  /-- A variable has no key, and a constant can be computed again. -/
  plain : (c.keys = 0 ∨ ∃ v, ConstantCode p key v) → Repeats fuel all pattern replacement key c m

end Run

/-! ## All substitutions of a program -/

/-- The place whose text is replaced: the record if none is given. -/
def Expr.replacedIn? : List Expr → Option Place
  | [] => some (.field (.num 0))
  | .place target :: _ => some target
  | _ => none

/-- If an expression replaces texts in a place, in a function or outside all functions, then it has the meaning of its
code, whatever machine is at work. -/
def Expr.Substitutes (p : Program) (r : Resolution) (func : Option String) : Expr → Prop
  | .call f (pattern :: replacement :: rest) extent => f = .sub ∨ f = .gsub →
    ∀ target ∈ Expr.replacedIn? rest, ∀ code,
      Gives (exprCode ⟨r, func⟩ (.call f (pattern :: replacement :: rest) extent)).value p.pools code →
      ∃ source new key c, Gives (exprCode ⟨r, func⟩ pattern).value p.pools source ∧
        Gives (exprCode ⟨r, func⟩ replacement).value p.pools new ∧
        Gives (placeCode ⟨r, func⟩ target).key p.pools key ∧ Gives (placeCode ⟨r, func⟩ target).cell p.pools c ∧
        ∀ fuel (m : Machine), m.Serves p (r.room func) ⟨r, func⟩ m.stack →
          ReplacesIn p fuel (f == .gsub) source new key c code.toArray m
  | _ => True

section

variable {source : String} {natives : List NativeFunc} {p : Program} {r : Resolution} {env : Env}

lemma Compile.callCode_record {f : Builtin} (hf : f = .sub ∨ f = .gsub) (args : List Expr) (a b : ExprCode) :
    callCode env f args [a, b] = callCode env f args [a, b, exprCode env (.place (.field (.num 0)))] := by
  have hzero : smallField? 0 = some 0 := by decide +kernel
  rcases hf with rfl | rfl <;>
    simp [callCode, exprCode, placeCode, PlaceCode.store, ExprCode.ofValue, hzero]

lemma Compile.textCode_of_gives {pl : Place} {key text : List Op} {c : Cell} (hkey : Gives (placeCode env pl).key p.pools key)
    (hcell : Gives (placeCode env pl).cell p.pools c) (htext : Gives (placeCode env pl).value p.pools text) :
    TextCode p key text c := by
  cases pl with
  | var v =>
    obtain ⟨s, hs, rfl⟩ := gives_map.mp htext
    obtain ⟨s', hs', rfl⟩ := gives_map.mp hcell
    obtain rfl := gives_pure.mp hkey
    rw [hs.unique hs']
    exact .inl rfl
  | index array index =>
    obtain ⟨key', hkey', a, ha, rfl⟩ := gives_map₂.mp htext
    obtain ⟨a', ha', rfl⟩ := gives_map.mp hcell
    rw [hkey'.unique hkey, ha.unique ha']
    exact .inl rfl
  | field e =>
    obtain rfl := gives_pure.mp hcell
    have hload (h : Gives (do return (← (exprCode env e).value) ++ [Op.load .field]) p.pools text) :
        TextCode p key text .field := by
      obtain ⟨number, hnumber, rfl⟩ := gives_map.mp h
      rw [hnumber.unique hkey]
      exact .inl rfl
    rw [placeCode.eq_def] at htext
    dsimp only at htext
    split at htext
    · split at htext
      · rename_i x _ n hfield
        obtain ⟨op, hop, rfl⟩ := gives_map.mp hkey
        obtain ⟨i, rfl, hi⟩ := hop.num
        exact .inr ⟨i, x, n, hi, hfield, rfl, rfl, (gives_pure.mp htext).symm⟩
      · exact hload htext
    · exact hload htext

lemma Expr.CallSound.substitutes (hp : p.Verified) {func : Option String} (hset : Setting p (r.room func) ⟨r, func⟩)
    {e : Expr} (he : e.CallSound ⟨r, func⟩) : e.Substitutes p r func := by
  unfold Expr.Substitutes
  split
  · rename_i f pattern replacement rest extent
    intro hf target htarget code hcode
    obtain ⟨hk, hproper⟩ := he
    have hk : AllKinded ⟨r, func⟩ (pattern :: replacement :: rest) := by
      rcases hf with rfl | rfl <;> exact hk
    obtain ⟨-, hpattern, hreplacement, hrest⟩ := hproper
    -- the place, which is the record if none is given
    obtain ⟨es, hcode, hplace⟩ : ∃ es, Gives (callCode ⟨r, func⟩ f (pattern :: replacement :: rest)
        (exprCodes ⟨r, func⟩ (pattern :: replacement :: .place target :: es))) p.pools code ∧
          (placeCode ⟨r, func⟩ target).Shapes p (r.room func) := by
      rw [exprCode] at hcode
      cases rest with
      | nil =>
        cases htarget
        exact ⟨[], callCode_record hf _ _ _ ▸ hcode, place_shapes hset trivial trivial⟩
      | cons t rest =>
        cases t with
        | place pl =>
          cases htarget
          exact ⟨rest, hcode, place_shapes hset hk.2.2.1 hrest.1.2⟩
        | _ => cases htarget
    obtain ⟨source, new, text, store, hsource, hnew, htext, hstore, rfl⟩ : ∃ source new text store,
        Gives (exprCode ⟨r, func⟩ pattern).value p.pools source ∧
        Gives (exprCode ⟨r, func⟩ replacement).value p.pools new ∧
        Gives (placeCode ⟨r, func⟩ target).value p.pools text ∧
        Gives (placeCode ⟨r, func⟩ target).store p.pools store ∧ code = subCode source new text (f == .gsub) store := by
      cases gives_subCode hf hcode with
      | sub _ hsource hnew htext hstore => exact ⟨_, _, _, _, hsource, hnew, htext, hstore, rfl⟩
      | split => exact absurd hf (by decide)
      | plain hplain => exact (hf.elim hplain.2.1 hplain.2.2).elim
    obtain ⟨key, c, hkey, hcell, rfl⟩ := gives_store hstore
    refine ⟨source, new, key, c, hsource, hnew, hkey, hcell, fun fuel m hm => ?_⟩
    have hread := KeyCode.of_gives hp hplace hkey hcell
    have hsource := (expr_shapes hset hk.1 hpattern).value hsource
    have hnew := (expr_shapes hset hk.2.1 hreplacement).value hnew
    have hends :=
      (hread.storeAgain_carries fuel hm (f == .gsub) hsource hnew (textCode_of_gives hkey hcell htext)).endsAs
    refine ⟨pushing_apply _ m ▸ hends, fun hrepeats hfuel => ?_, fun hplain => ?_⟩
    · rw [pushing_apply, ← storeAgain_eq_storeOnce hrepeats]
      exact hends hfuel
    · rcases hplain with hzero | ⟨v, hconst⟩
      · cases c with
        | scalar s => exact repeats_scalar s
        | field | element a => cases hzero
      · cases c with
        | scalar s => exact repeats_scalar s
        | field | element a =>
          exact hread.repeats_constant fuel hm _ hsource hnew hconst rfl
  · trivial

/-- Every substitution in a place, wherever it stands in a program text and whatever machine is at work, means the
following.  The pattern, the replacement and the key of the place are computed in this order, the text of the place is
read and replaced, and if something was replaced the key is computed again, and the new text goes to the place where
that leads; otherwise nothing is stored.  If computing the key again leads to the same place and changes nothing, as is
the case of variables and constant keys, the new text goes to the very place that was read. -/
theorem Program.ofSource_substitutes (h : Program.ofSource source natives = .ok p) :
    ∃ r, Resolution.ofSource source natives = .ok r ∧
      r.script.Each (fun func => AllBody (Expr.Substitutes p r func)) (Expr.All (Expr.Substitutes p r none)) :=
  Program.ofSource_each h fun _ _ _ hp hset he => he.substitutes hp hset

end

/-- A program that replaces texts in a variable, where a function gives the pattern. -/
def replacingProgram : String :=
  "function f(v) \x7b y = v y; return y \x7d BEGIN \x7b gsub(f(\"\"), \"b\", x) \x7d"

/-- The code of the only statement of a program, if it replaces all texts in a variable and does not run out of fuel,
and the codes of its operands and the cell. -/
def replacingBegin (fuel : Nat) (p : Program) (r : Resolution) (m : Machine) :
    Option (List Op × List Op × List Op × Cell) :=
  match r.script.begin with
  | [[.expr (.call .gsub [pattern, replacement, .place (.var x)] extent)]] => do
    let code ← given? (exprCode ⟨r, none⟩ (.call .gsub [pattern, replacement, .place (.var x)] extent)).value p.pools
    let source ← given? (exprCode ⟨r, none⟩ pattern).value p.pools
    let new ← given? (exprCode ⟨r, none⟩ replacement).value p.pools
    let c ← given? (placeCode ⟨r, none⟩ (.var x)).cell p.pools
    match c, (storeAgain fuel true source new [] c).run m with
    | .scalar _, .ok _ _ => some (code, source, new, c)
    | _, _ => none
  | _ => none

theorem replacingProgram_substitutes : ∃ p r m code source new c e, Program.ofSource replacingProgram [] = .ok p ∧
    Resolution.ofSource replacingProgram [] = .ok r ∧ Machine.create p {} {} {} = .ok m ∧
    replacingBegin 60 p r m = some (code, source, new, c) ∧ EndsAs code.toArray m e ∧
    Akin (pushing (storeOnce 60 true source new [] c) m) e := by
  obtain ⟨p, r, m, ⟨code, source, new, c⟩, hp, hr, hm, h⟩ :=
    Machine.exists_of_resolved replacingProgram (replacingBegin 60) (by decide +kernel)
  obtain ⟨r', hr', heach⟩ := Program.ofSource_substitutes hp
  obtain rfl : r' = r := Except.ok.inj (hr'.symm.trans hr)
  suffices ∃ e, EndsAs code.toArray m e ∧ Akin (pushing (storeOnce 60 true source new [] c) m) e by
    obtain ⟨e, hends⟩ := this
    exact ⟨p, r', m, code, source, new, c, e, hp, hr, hm, h, hends⟩
  rw [replacingBegin] at h
  split at h
  · rename_i pattern replacement x extent hbegin
    obtain ⟨code', hcode, h⟩ := Option.bind_eq_some_iff.mp h
    obtain ⟨source', hsource, h⟩ := Option.bind_eq_some_iff.mp h
    obtain ⟨new', hnew, h⟩ := Option.bind_eq_some_iff.mp h
    obtain ⟨c', hcell, h⟩ := Option.bind_eq_some_iff.mp h
    split at h
    · rename_i s result n hresult
      cases h
      have hbody := heach.begin _ (hbegin ▸ List.mem_singleton_self _)
      obtain ⟨source', new', key, c', hsource', hnew', hkey, hcell', hin⟩ :=
        Expr.All.self hbody.1 (.inr rfl) (.var x) rfl code (gives_of_given? hcode)
      obtain rfl := hsource'.unique (gives_of_given? hsource)
      obtain rfl := hnew'.unique (gives_of_given? hnew)
      obtain rfl := hcell'.unique (gives_of_given? hcell)
      obtain rfl := gives_key_bare hkey hcell' rfl
      have hin := hin 60 m ⟨m.hosts_create hm r', Machine.ready_create hm⟩
      have hrun : (storeAgain 60 (Builtin.gsub == .gsub) source' new' [] (.scalar s)).run m = .ok result n := hresult
      refine hin.once (hin.plain (.inl rfl)) fun q hq => ?_
      rw [hrun] at hq
      cases hq
    · cases h
  · cases h

/-- A program that replaces a text in an element whose subscript changes when it is computed. -/
def steppingProgram : String :=
  "BEGIN \x7b i = 1; x[1] = \"a\"; n = sub(/a/, \"b\", x[i++]); print i, x[1], x[2] \x7d"

/-- The text is read from the first element and stored into the second. -/
theorem steppingProgram_strays : ∃ p m, Program.ofSource steppingProgram [] = .ok p ∧
    Machine.create p {} {} {} = .ok m ∧ (m.after [.run 200]).takeDelivered.1 = "3 a b\n" :=
  Machine.exists_of_tried steppingProgram {} {} _ (by decide +kernel)

end Awk
