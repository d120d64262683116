import Awk.Proofs.Machine.RunsTo

/-!
# Code that does what an operation does

Code keeps values on the stack that are needed later; the operation it stands for does not.  `Realizes` says
that running code, above whatever is on the stack, does what an operation does and leaves its result there.
Stretches of code are put together as the operations are.
-/

namespace Awk

def Context.above (values : List Value) (c : Context) : Context := { c with stack := c.stack ++ values.toArray }

def Machine.above (m : Machine) (values : List Value) : Machine := m.onContext (.above values)

namespace Machine

@[simp] lemma above_nil (m : Machine) : m.above [] = m := by
  simp [above, onContext, Context.above, within, context]

lemma stack_above (m : Machine) (vs : List Value) : (m.above vs).stack = m.stack ++ vs.toArray := rfl

lemma stack_above_concat (m : Machine) (vs : List Value) (v : Value) :
    (m.above (vs ++ [v])).stack = (m.above vs).stack.push v := by
  rw [stack_above, stack_above, ← List.append_toArray, ← Array.append_assoc, Array.push_eq_append]

end Machine

namespace Run

variable {α β γ δ : Type} {I : Machine → Prop}

/-! ## Operations below the stack -/

/-- An operation that does not see values pushed above, and keeps a property of machines. -/
def Below (I : Machine → Prop) (x : Run α) : Prop := ∀ vs, Respects (.above vs) I x

variable {x y : Run α} {post : α → List Value} {full : Code} {stop : Nat} {m : Machine}
   {yes no : List Op}

namespace Below

lemma pure (a : α) : Below I (Pure.pure a : Run α) := fun _ => .pure a

lemma throw (f : Fault) : Below I (MonadExcept.throw f : Run α) := fun _ => .throw f

lemma bind {f : α → Run β} (hx : Below I x) (hf : ∀ a, Below I (f a)) : Below I (x >>= f) :=
  fun vs => (hx vs).bind fun a => hf a vs

lemma get_bind {f : Machine → Run β} (hf : ∀ m vs, I m → f (m.above vs) = f m)
    (hb : ∀ m, I m → Below I (f m)) : Below I (get >>= f) :=
  fun vs => .get_bind (fun m hm => hf m vs hm) fun m hm => hb m hm vs

lemma modify {f : Machine → Machine} (hf : ∀ m vs, I m → f (m.above vs) = (f m).above vs)
    (hk : ∀ m, I m → I (f m)) : Below I (modify f : Run Unit) := fun vs => .modify (fun m hm => hf m vs hm) hk

end Below

/-! ## Operations on the stack -/

section

variable (m : Machine) (vs : List Value)

lemma push_above (v : Value) : push v (m.above vs) = .ok () (m.above (vs ++ [v])) := by
  change EStateM.Result.ok () { m with stack := (m.above vs).stack.push v } = _
  rw [← m.stack_above_concat vs v]
  rfl

lemma pop_above (v : Value) : pop (m.above (vs ++ [v])) = .ok v (m.above vs) := by
  change EStateM.Result.ok ((m.above (vs ++ [v])).stack.back?.getD .null)
    { m with stack := (m.above (vs ++ [v])).stack.pop } = _
  rw [m.stack_above_concat vs v, Array.back?_push, Array.pop_push]
  rfl

lemma push_apply (v : Value) : push v m = .ok () (m.above [v]) := by
  simpa using push_above m [] v

lemma pop_apply (v : Value) : pop (m.above [v]) = .ok v m := by
  simpa using pop_above m [] v

lemma popMany_above (ws : List Value) : popMany ws.length (m.above (vs ++ ws)) = .ok ws (m.above vs) := by
  have hstack : (m.above (vs ++ ws)).stack = (m.above vs).stack ++ ws.toArray := by
    rw [Machine.stack_above, Machine.stack_above, ← List.append_toArray, Array.append_assoc]
  have hplace : (m.above (vs ++ ws)).stack.size - ws.length = (m.above vs).stack.size := by
    simp [hstack]
  change (let place := (m.above (vs ++ ws)).stack.size - ws.length
    EStateM.Result.ok ((m.above (vs ++ ws)).stack.extract place (m.above (vs ++ ws)).stack.size).toList
      { m with stack := (m.above (vs ++ ws)).stack.shrink place }) = _
  rw [hplace, hstack]
  simp
  rfl

end

/-- An operation takes values off the stack, does what another operation does below them, and leaves other
values there.  When it fails, the stack may be any. -/
def Acts (I : Machine → Prop) (y : Run β) (pre : List Value) (x : Run α) (ret : α → β)
    (post : α → List Value) : Prop :=
  ∀ m vs, I m → match x m with
    | .ok a n => I n ∧ y (m.above (vs ++ pre)) = .ok (ret a) (n.above (vs ++ post a))
    | .error f n => ∃ stack, y (m.above (vs ++ pre)) = .error f { n with stack }

namespace Acts

variable {pre : List Value} {x : Run α}

lemma bind {y : Run γ} {g : γ → Run δ} {f : α → Run β} {ret : α → γ} {ret' : β → δ} {mid : α → List Value}
    {post : β → List Value} (hx : Acts I y pre x ret mid) (hf : ∀ a, Acts I (g (ret a)) (mid a) (f a) ret' post) :
    Acts I (y >>= g) pre (x >>= f) ret' post := by
  intro m vs hm
  have h := hx m vs hm
  rw [bind_apply, bind_apply]
  cases hr : x m with
  | ok a n =>
    rw [hr] at h
    rw [h.2]
    exact hf a n vs h.1
  | error e n =>
    rw [hr] at h
    obtain ⟨stack, h⟩ := h
    rw [h]
    exact ⟨stack, rfl⟩

lemma congr {y y' : Run β} {ret : α → β} (h' : Acts I y' pre x ret post)
    (h : ∀ m vs, I m → y (m.above (vs ++ pre)) = y' (m.above (vs ++ pre))) : Acts I y pre x ret post := by
  intro m vs hm
  rw [h m vs hm]
  exact h' m vs hm

lemma of_below (hx : Below I x) (pre : List Value) : Acts I x pre x (fun a => a) fun _ => pre := by
  intro m vs hm
  have hcommutes := (hx (vs ++ pre)).commutes m hm
  have hkeeps := (hx []).keeps m hm
  change x (m.above (vs ++ pre)) = _ at hcommutes
  rw [hcommutes]
  cases hr : x m with
  | ok a n =>
    rw [hr] at hkeeps
    exact ⟨hkeeps, rfl⟩
  | error f n => exact ⟨_, rfl⟩

section

variable (us : List Value) {x : Run α} {ret : α → γ} {post : α → List Value}

variable {v : Value}

lemma pop_bind {g : Value → Run γ} (h : Acts I (g v) us x ret post) : Acts I (pop >>= g) (us ++ [v]) x ret post := by
  intro m vs hm
  rw [bind_apply, ← List.append_assoc, pop_above]
  exact h m vs hm

lemma push_bind {g : Run γ} (h : Acts I g (us ++ [v]) x ret post) : Acts I (push v >>= fun _ => g) us x ret post := by
  intro m vs hm
  rw [bind_apply, push_above, List.append_assoc]
  exact h m vs hm

lemma popMany_bind {ws : List Value} {g : List Value → Run γ} (h : Acts I (g ws) us x ret post) :
    Acts I (popMany ws.length >>= g) (us ++ ws) x ret post := by
  intro m vs hm
  rw [bind_apply, ← List.append_assoc, popMany_above]
  exact h m vs hm

lemma push_result (hx : Below I x) (f : α → Value) :
    Acts I (x >>= fun a => push (f a)) us x (fun _ => ()) fun a => us ++ [f a] := by
  intro m vs hm
  have h := of_below hx us m vs hm
  rw [bind_apply]
  cases hr : x m with
  | ok a n =>
    rw [hr] at h
    rw [h.2]
    refine ⟨h.1, ?_⟩
    dsimp only
    rw [push_above, List.append_assoc]
  | error f n =>
    rw [hr] at h
    obtain ⟨stack, h⟩ := h
    rw [h]
    exact ⟨stack, rfl⟩

end

end Acts

/-! ## Code -/

open Compile (along_append along_cons along_singleton)

/-- A run from one address reaches another one with the result of an operation on its stack, or it fails as the
operation does. -/
def Reaches (I : Machine → Prop) (full : Code) (start : Nat) (m : Machine) (stop : Nat) (post : α → List Value) :
    EStateM.Result Fault Machine α → Prop
  | .ok a n => I n ∧ ∀ r, RunsTo full stop (n.above (post a)) r → RunsTo full start m r
  | .error f n => ∃ stack, RunsTo full start m (.error f { n with stack })

/-- What is reached from an address to which another one leads, and what leads on from there. -/
lemma Reaches.extend {start start' stop' : Nat} {m' : Machine}
    {res : EStateM.Result Fault Machine α} (h : Reaches I full start m stop post res)
    (hstart : ∀ r, RunsTo full start m r → RunsTo full start' m' r)
    (hstop : ∀ n r, RunsTo full stop' n r → RunsTo full stop n r) : Reaches I full start' m' stop' post res := by
  cases res with
  | ok a n => exact ⟨h.1, fun r hr => hstart r (h.2 r (hstop _ r hr))⟩
  | error f n =>
    obtain ⟨stack, h⟩ := h
    exact ⟨stack, hstart _ h⟩

/-- Running code, above any values, does what an operation does, takes values off the stack and leaves others
there. -/
def Realizes (I : Machine → Prop) (code : List Op) (pre : List Value) (x : Run α)
    (post : α → List Value) : Prop :=
  ∀ (full : Code) (o : Nat), Stands full o code → ∀ m : Machine, I m → ∀ vs,
    Reaches I full o (m.above (vs ++ pre)) (o + code.length) (fun a => vs ++ post a) (x m)

namespace Realizes

variable {code first rest : List Op} {pre : List Value} {x : Run α} {post : α → List Value}

variable {a : α}

lemma pure (h : post a = pre) : Realizes I [] pre (Pure.pure a) post := by
  intro full o _ m hm vs
  exact ⟨hm, fun r hr => h ▸ hr⟩

lemma step {op : Op} (hc : op.isControl = false) (h : Acts I (step op) pre x (fun _ => ()) post) :
    Realizes I [op] pre x post := by
  intro full o hs m hm vs
  have hop : full[o]? = some op := along_singleton.mp hs
  have h := h m vs hm
  cases hr : x m with
  | ok a n =>
    rw [hr] at h
    exact ⟨h.1, fun r hr => .step hop hc h.2 hr⟩
  | error f n =>
    rw [hr] at h
    obtain ⟨stack, h⟩ := h
    exact ⟨stack, .stepFault hop hc h⟩

variable {f : α → Run β} {post' : β → List Value}

/-- One stretch of code behind another, which may rely on what the first one can give. -/
lemma append {P : α → Prop} (hx : Realizes I first pre x post) (hP : Ensures x P)
    (hf : ∀ a, P a → Realizes I rest (post a) (f a) post') : Realizes I (first ++ rest) pre (x >>= f) post' := by
  intro full o hs m hm vs
  obtain ⟨hfirst, hrest⟩ := along_append.mp hs
  have h := hx full o hfirst m hm vs
  rw [bind_apply]
  cases hr : x m with
  | error e n =>
    rw [hr] at h
    exact h
  | ok a n =>
    rw [hr] at h
    refine (hf a (hP m a n hr) full _ hrest n h.1 vs).extend h.2 fun n r hr => ?_
    rwa [List.length_append, ← Nat.add_assoc] at hr

lemma bind (hx : Realizes I first pre x post) (hf : ∀ a, Realizes I rest (post a) (f a) post') :
    Realizes I (first ++ rest) pre (x >>= f) post' :=
  hx.append (P := fun _ => True) (fun _ _ _ _ => trivial) fun a _ => hf a

lemma frame (us : List Value) (h : Realizes I code pre x post) :
    Realizes I code (us ++ pre) x fun a => us ++ post a := by
  intro full o hs m hm vs
  simpa only [List.append_assoc] using h full o hs m hm (vs ++ us)

lemma behind (us : List Value) (h : Realizes I code [] x post) : Realizes I code us x fun a => us ++ post a := by
  simpa only [List.append_nil] using h.frame us

lemma map {g : α → β} (h : Realizes I code pre x post) (hg : ∀ a, post' (g a) = post a) :
    Realizes I code pre (x >>= fun a => Pure.pure (g a)) post' := by
  have := h.bind fun a => Realizes.pure (hg a)
  rwa [List.append_nil] at this

lemma pure_congr {b : β} (h : Realizes I code pre (Pure.pure a) post) (hb : post' b = post a) :
    Realizes I code pre (Pure.pure b) post' := by
  intro full o hs m hm vs
  have h := h full o hs m hm vs
  refine ⟨h.1, fun r hr => h.2 r ?_⟩
  dsimp only at hr
  rwa [hb] at hr

lemma giving (v : Value) (h : Realizes I code pre x fun _ => [v]) :
    Realizes I code pre (x >>= fun _ => Pure.pure v) fun v => [v] := h.map fun _ => rfl

section

variable {t : Test} {f : Run Bool} {mid : List Value} (ht : Acts I (taken t) pre f (fun a => a) fun _ => mid)

include ht

/-- A conditional jump, and what is done at either address it leads to. -/
lemma branch {o target : Nat} {offset : Int} (hop : full[o]? = some (.branch t offset))
    (htarget : (o : Int) + 1 + offset = target) (hm : I m) {vs : List Value}
    (hx : ∀ n, I n → Reaches I full target (n.above (vs ++ mid)) stop (fun a => vs ++ post a) (x n))
    (hy : ∀ n, I n → Reaches I full (o + 1) (n.above (vs ++ mid)) stop (fun a => vs ++ post a) (y n)) :
    Reaches I full o (m.above (vs ++ pre)) stop (fun a => vs ++ post a) ((do if ← f then x else y) m) := by
  have h := ht m vs hm
  rw [bind_apply]
  cases hr : f m with
  | error e n =>
    rw [hr] at h
    obtain ⟨stack, h⟩ := h
    exact ⟨stack, .branchFault hop h⟩
  | ok b n =>
    rw [hr] at h
    cases b with
    | true => exact (hx n h.1).extend (fun r => .branch hop h.2 htarget) fun _ _ hr => hr
    | false => exact (hy n h.1).extend (fun r => .branch hop h.2 (by simp)) fun _ _ hr => hr

lemma skip (ha : post a = mid) (hx : Realizes I code mid x post) :
    Realizes I (.branch t code.length :: code) pre (do if ← f then return a else x) post := by
  intro full o hs m hm vs
  obtain ⟨hop, hcode⟩ := along_cons.mp hs
  rw [List.length_cons, Nat.add_comm code.length, ← Nat.add_assoc]
  have htarget : (o : Int) + 1 + code.length = (o + 1 + code.length : Nat) := by omega
  refine branch ht hop htarget hm (fun n hn => ⟨hn, fun r hr => ?_⟩) fun n hn => hx full _ hcode n hn vs
  dsimp only at hr
  rwa [ha] at hr

lemma either (hy : Realizes I yes mid y post) (hx : Realizes I no mid x post) :
    Realizes I (.branch t (yes.length + 1) :: (yes ++ .jump no.length :: no)) pre (do if ← f then x else y) post := by
  intro full o hs m hm vs
  obtain ⟨hop, hcode⟩ := along_cons.mp hs
  obtain ⟨hyes, hcode⟩ := along_append.mp hcode
  obtain ⟨hjump, hno⟩ := along_cons.mp hcode
  have hstop : o + (Op.branch t (yes.length + 1) :: (yes ++ Op.jump no.length :: no)).length =
      o + 1 + yes.length + 1 + no.length := by
    simp
    omega
  rw [hstop]
  refine branch ht hop (by omega) hm (fun n hn => hx full _ hno n hn vs) fun n hn => ?_
  exact (hy full _ hyes n hn vs).extend (fun _ hr => hr) fun n r hr => .jump hjump (by omega) hr

end

end Realizes

/-! ## Tests -/

/-- Code and a test decide what an operation decides. -/
def Tests (I : Machine → Prop) (code : List Op) (t : Test) (x : Run Bool) : Prop :=
  ∃ (α : Type) (y : Run α) (post : α → List Value) (f : α → Run Bool), Realizes I code [] y post ∧
    (∀ a, Acts I (taken t) (post a) (f a) (fun a => a) fun _ => []) ∧ x = y >>= f

lemma Tests.choice {code : List Op} {t : Test} {b : Run Bool}
    (ht : Tests I code t b) (hy : Realizes I yes [] y post) (hx : Realizes I no [] x post) :
    Realizes I (Compile.choiceCode (code, t) yes no) [] (do if ← b then x else y) post := by
  obtain ⟨γ, z, mid, f, hz, hf, rfl⟩ := ht
  have h := hz.bind fun a => Realizes.either (hf a) hy hx
  rw [← List.singleton_append, ← List.singleton_append (l := no), ← List.append_assoc, ← List.append_assoc,
    ← List.append_assoc, ← bind_assoc] at h
  exact h

end Run

end Awk
