import Awk.Proofs.Compile.Verified
import Awk.Proofs.Machine.Padding

/-!
# Code that passes the verifier is safe

On a machine that is ready for it, code that passes the verifier runs the same whether it is watched or not:
the stack is as high as the verifier says at every address, so every instruction finds what it uses.  A stretch
of code stands for itself when no way leads out of it, as for the bodies of loops over arrays.
-/

namespace Awk.Run

variable {α β : Type} {p : Program} {room : Room} {floor k : Nat} {vs : Array Value} {m m' : Machine}

variable {n missing s e a final : Nat} {op : Op} {args : List ArrayRef} {bound : List Nat} {f : CompiledFunction}
  {code : Code} {height : Nat → Nat}

/-- Nobody notices the watch before an instruction that finds what it uses. -/
lemma watch_safely (h : op.inReach m floor) (hm : m.Padded k vs room m') :
    Safely k vs room m m' (watch floor op) tick fun _ q => q.stack.size = m.stack.size := by
  obtain ⟨stack, base, rfl⟩ : ∃ stack base, m' = { m with stack, base } := ⟨_, _, hm.rest⟩
  have hpad := hm.of_stack (q := (counted m).2) rfl rfl
  have hwatch : watch floor op m = tick m := by
    rw [watch, bind_apply, tick_apply]
    split_ifs with hstopped
    · rfl
    · change (if op.inReach m floor then _ else _ : Run Unit) (counted m).2 = _
      rw [if_pos h]
      rfl
  have htick : tick { m with stack, base } = if (counted m).1 then
      .error (.error .cancelled) { (counted m).2 with stack, base } else .ok () { (counted m).2 with stack, base } :=
    tick_apply _
  rw [tick_apply] at hwatch
  cases hstopped : (counted m).1 with
  | true =>
    rw [hstopped] at hwatch htick
    exact .of_error hwatch htick ⟨rfl, rfl, rfl, rfl⟩ hpad trivial
  | false =>
    rw [hstopped] at hwatch htick
    exact .of_ok hwatch htick ⟨rfl, rfl, rfl, rfl⟩ hpad rfl

/-! ## Calls -/

lemma slotsIn_of_inReach (h : ∀ a ∈ args, a.inReach m) :
    ∃ bound : List Nat, args.mapM (slotIn m.frames) = .ok bound ∧ bound.length = args.length ∧
      ∀ slot ∈ bound, slot < m.arrays.size := by
  induction args with
  | nil => exact ⟨[], rfl, rfl, nofun⟩
  | cons a args ih =>
    obtain ⟨slot, hslot, ha⟩ := slotIn_of_inReach (h a List.mem_cons_self)
    obtain ⟨bound, hargs, hlen, hbound⟩ := ih fun b hb => h b (List.mem_cons_of_mem a hb)
    refine ⟨slot :: bound, ?_, congrArg (· + 1) hlen, List.forall_mem_cons.mpr ⟨hslot, hbound⟩⟩
    rw [List.mapM_cons, ha, hargs]
    rfl

lemma size_arrays_calling : (m.calling f bound).arrays.size = m.arrays.size + (f.arrayCount - bound.length) := by
  rw [Machine.calling, Machine.enter, Machine.withArrays, Array.size_append, Array.size_replicate]

lemma keeps_leave {n : Machine} (h : (m.calling f bound).Keeps n) :
    m.Keeps (n.leave m f.scalarCount m.arrays.size) := by
  refine ⟨?_, rfl, congrArg List.tail h.frames, h.inRange⟩
  have hprogram : n.program = m.program := h.program
  have hregexes : n.regexes = m.regexes := h.regexes
  have hglobals : n.globals.size = m.globals.size := h.globals
  change Outline.mk n.program n.regexes n.globals.size (n.arrays.shrink m.arrays.size).size = m.outline
  rw [hprogram, hregexes, hglobals, Array.size_shrink, h.arrays, size_arrays_calling,
    Nat.min_eq_left (Nat.le_add_right _ _)]
  rfl

lemma ready_calling (hm : m.Ready p room floor) (hlen : bound.length ≤ f.arrayCount)
    (hbound : ∀ slot ∈ bound, slot < m.arrays.size) (hsize : f.scalarCount ≤ m.stack.size) :
    (m.calling f bound).Ready p f.room m.stack.size where
  program := hm.program
  regexes := hm.regexes
  fits := ⟨hm.fits.globals, hm.fits.arrays.trans ((Nat.le_add_right _ _).trans_eq size_arrays_calling.symm)⟩
  scalars := Nat.le_of_eq (Nat.sub_add_cancel hsize)
  arrays i hi := by
    have hi : i < (m.slots f bound).size := by
      rw [Machine.slots, List.size_toArray, List.length_append, List.length_map, List.length_range]
      exact Nat.lt_of_lt_of_eq hi (Nat.add_sub_cancel' hlen).symm
    have hslots : ∀ slot ∈ m.slots f bound, slot < (m.calling f bound).arrays.size := by
      intro slot hslot
      rw [size_arrays_calling]
      rw [Machine.slots, List.mem_toArray, List.mem_append, List.mem_map] at hslot
      rcases hslot with hslot | ⟨j, hj, rfl⟩
      · have := hbound slot hslot
        omega
      · have := List.mem_range.mp hj
        omega
    change ((m.slots f bound)[i]?).any (· < (m.calling f bound).arrays.size) = true
    rw [Array.getElem?_eq_getElem hi]
    exact decide_eq_true (hslots _ (Array.getElem_mem hi))

/-- At the start of a function's body the further values still lie below what the body sees. -/
lemma padded_calling (hm : m.Padded k vs room m') (hsize : k + f.scalarCount ≤ m.stack.size) :
    (m.calling f bound).Padded k vs f.room (m'.calling f bound) := by
  have hsize' := hm.size_eq
  refine ⟨hm.stack, .inl ⟨?_, ?_⟩, ?_⟩
  · change k ≤ m.stack.size - f.scalarCount
    omega
  · change m'.stack.size - f.scalarCount = m.stack.size - f.scalarCount + vs.size
    omega
  · rw [hm.rest]
    rfl

/-- Behind it the variables are taken away on both machines, and the further values stay. -/
lemma padded_leave {room' : Room} {q q' : Machine} (arrayCount : Nat) (hm : m.Padded k vs room m') {scalarCount : Nat}
    (hsize : k + scalarCount ≤ m.stack.size) (hq : q.Padded k vs room' q') :
    (q.leave m scalarCount arrayCount).Padded k vs room (q'.leave m' scalarCount arrayCount) := by
  have hsize' := hm.size_eq
  obtain ⟨⟨lower, upper, hk, hstack, hstack'⟩, -, hrest⟩ := hq
  have hplace : m.stack.size - scalarCount = lower.size + (m.stack.size - scalarCount - k) := by omega
  have hplace' : m'.stack.size - scalarCount = (lower ++ vs).size + (m.stack.size - scalarCount - k) := by
    rw [Array.size_append]
    omega
  refine ⟨⟨lower, upper.shrink (m.stack.size - scalarCount - k), hk, ?_, ?_⟩, hm.base, ?_⟩
  · change q.stack.shrink (m.stack.size - scalarCount) = _
    rw [hstack, hplace, shrink_append]
    congr 2
    omega
  · change q'.stack.shrink (m'.stack.size - scalarCount) = _
    rw [hstack', hplace', shrink_append]
  · rw [Machine.leave, Machine.leave, hrest, hm.rest]

/-- How a call ends that took the arguments of the function down to `n` values. -/
def Called (n : Nat) : Completion → Machine → Prop
  | .normal, m => m.stack.size = n + 1
  | .breakForIn, _ => False
  | _, m => m.stack.size = n

lemma conclude_safely (hm : Poised p room floor k vs n m m') (c : Completion) :
    Safely k vs room m m' (conclude c) (conclude c) (Called (floor + n)) := by
  have hpush (v : Value) : Safely k vs room m m' (push v >>= fun _ => Pure.pure Completion.normal)
      (push v >>= fun _ => Pure.pure Completion.normal) (Called (floor + n)) :=
    (push_sized v hm).bind fun _ _ _ _ hq h => .pure hq h.1
  cases c with
  | «return» v => exact hpush v
  | normal | breakForIn => exact hpush .null
  | next | nextFile | exit => exact .pure hm.padded hm.size

variable {i length s e : Nat} {code : Code} {before : Nat → Op → Run Unit} {before' : Run Unit}

lemma callUser_safely {run run' : Code → Run Completion} (hm : Poised p room floor k vs (n + f.scalarCount) m m') (hf : p.functions[i]? = some f) (hargs : ∀ a ∈ args, a.WellFormed p room)
    (hrun : ∀ {q q' : Machine}, Poised p f.room q.stack.size k vs 0 q q' → q.base + f.scalarCount = q.stack.size →
      Safely k vs f.room q q' (run f.body) (run' f.body) fun _ r => q.stack.size ≤ r.stack.size) :
    Safely k vs room m m' (callUser run i args) (callUser run' i args) (Called (floor + n)) := by
  have hsize := hm.size
  have hbelow := hm.below
  have hpad := hm.padded
  obtain ⟨stack, base, rfl⟩ : ∃ stack base, m' = { m with stack, base } := ⟨_, _, hpad.rest⟩
  have hf : m.program.functions[i]? = some f := hm.ready.program ▸ hf
  have hx := callUser_apply run i args m
  have hy := callUser_apply run' i args { m with stack, base }
  rw [show ({ m with stack, base } : Machine).callee i args = m.callee i args from rfl] at hy
  rcases Nat.lt_or_ge m.frames.length m.config.maxCallDepth with hdepth | hdepth
  case inr =>
    rw [Machine.callee_tooDeep hf hdepth] at hx hy
    exact .of_error hx hy (.refl m) hpad trivial
  obtain ⟨bound, hslots, hlen, hbound⟩ := slotsIn_of_inReach fun a (ha : a ∈ args.take f.arrayCount) =>
    hm.ready.array_inReach (hargs a (List.mem_of_mem_take ha))
  rw [Machine.callee_eq_ok.mpr ⟨hf, hdepth, hslots⟩] at hx hy
  have henter : k + f.scalarCount ≤ m.stack.size := by omega
  have hready := ready_calling hm.ready (hlen.trans_le (List.length_take_le _ _)) hbound (by omega)
  have hpoised : Poised p f.room m.stack.size k vs 0 (m.calling f bound) _ :=
    ⟨hready, padded_calling hpad henter, by omega, rfl⟩
  obtain ⟨horderly, q', hq', hsame⟩ := hrun (q := m.calling f bound) hpoised
    (Nat.sub_add_cancel (by omega : f.scalarCount ≤ m.stack.size))
  have hleave := padded_leave m.arrays.size hpad henter hq'
  dsimp only at hx hy
  rw [hsame] at hy
  cases hr : run f.body (m.calling f bound) with
  | error e q =>
    rw [hr] at horderly hleave hx hy
    exact .of_error hx hy (keeps_leave horderly.1) hleave horderly.2
  | ok c q =>
    rw [hr] at horderly hleave hx hy
    have hle : m.stack.size ≤ q.stack.size := horderly.2
    have hleft : (q.leave m f.scalarCount m.arrays.size).stack.size = floor + n := by
      rw [Machine.leave, Array.size_shrink]
      omega
    have hkeeps := keeps_leave horderly.1
    have hend := conclude_safely (hm.next hkeeps hleave hleft) c
    exact ⟨by rw [hx]; exact hend.orderly.trans hkeeps, by rw [hx, hy]; exact hend.same⟩

/-! ## Loops over arrays -/

/-- How a loop over an array ends whose body keeps a stack of `n` values. -/
def Looped (floor n : Nat) : Completion → Machine → Prop
  | .normal, m => m.stack.size = n
  | .breakForIn, _ => False
  | _, m => floor ≤ m.stack.size

lemma overKeys_safely {body body' : Run Completion} {var : ScalarRef} {a : ArrayRef} (hvar : var.WellFormed p room)
    (ha : a.WellFormed p room) (hbody : ∀ {m m' : Machine}, Poised p room floor k vs n m m' →
      Safely k vs room m m' body body' fun c q => match c with
        | .normal | .breakForIn => q.stack.size = floor + n
        | _ => floor ≤ q.stack.size) (keys : List String) (hm : Poised p room floor k vs n m m') :
    Safely k vs room m m' (overKeys var a body keys) (overKeys var a body' keys) (Looped floor (floor + n)) := by
  induction keys generalizing m m' with
  | nil => exact .pure hm.padded hm.size
  | cons key keys ih =>
    refine (arrayOf_sized ha hm).bind fun slot m₁ _ hk₁ hpad₁ hsize₁ => ?_
    have hm₁ := hm.next hk₁ hpad₁ hsize₁.1
    dsimp only
    split
    · refine (setScalar_sized hvar _ hm₁).bind fun _ m₂ _ hk₂ hpad₂ hsize₂ => ?_
      have hm₂ := hm₁.next hk₂ hpad₂ hsize₂.1
      refine (hbody hm₂).bind fun c m₃ _ hk₃ hpad₃ hc => ?_
      cases c with
      | normal => exact ih (hm₂.next hk₃ hpad₃ hc)
      | breakForIn | next | nextFile | exit | «return» v => exact .pure hpad₃ hc
    · exact ih hm₁

/-! ## Code -/

/-- A stretch of code, from `s` up to `e`, that no way leaves. -/
structure Window (code : Code) (s e : Nat) : Prop where
  ordered : s ≤ e
  inside : e ≤ code.size
  closed : ∀ {pc : Nat} {t : Int}, s ≤ pc → pc < e → code.Edge pc t → s ≤ t ∧ t ≤ e

/-- How a stretch of code ends, at the heights of the verifier. -/
def Ends (code : Code) (height : Nat → Nat) (floor s e : Nat) : Completion → Machine → Prop
  | .normal, m => m.stack.size = floor + height e
  | .breakForIn, m => ∃ q, s ≤ q ∧ q < e ∧ code[q]? = some .breakForIn ∧ m.stack.size = floor + height q
  | _, m => floor ≤ m.stack.size

section

variable {final : Nat} {code : Code} {height : Nat → Nat} (hv : code.Verified p room final height)

include hv

lemma window_all : Window code 0 code.size where
  ordered := Nat.zero_le _
  inside := Nat.le_refl _
  closed _ _ h := by
    obtain ⟨op, hop, ht⟩ := h
    obtain ⟨h0, hsize, -⟩ := hv.edges hop ht
    exact ⟨h0, hsize⟩

lemma window_body (h : code.LoopAt i length) : Window code (i + 1) (i + 1 + length) where
  ordered := Nat.le_add_right _ _
  inside := by have := hv.loops h; omega
  closed hs he hedge := by
    have := hv.stays h ⟨hs, by omega⟩ hedge
    omega

end

lemma Window.getElem?_extract {a : Nat} (hw : Window code s e) (hs : s ≤ a) (he : a < e) :
    (code.extract s e)[a - s]? = code[a]? := by
  have := hw.inside
  rw [Array.getElem?_extract, if_pos (by omega), Nat.add_sub_cancel' hs]

lemma Window.size_extract (hw : Window code s e) : (code.extract s e).size = e - s := by
  rw [Array.size_extract, Nat.min_eq_left hw.inside]

lemma mem_of_mem_extract (h : op ∈ code.extract s e) : op ∈ code := by
  obtain ⟨i, hi, rfl⟩ := Array.mem_extract_iff_getElem.mp h
  exact Array.getElem_mem _

lemma arrayArgs_wellFormed (h : ∀ op ∈ code, op.WellFormed p room) {start stop : Nat} :
    ∀ a ∈ arrayArgs code start stop, a.WellFormed p room := by
  intro a ha
  obtain ⟨op, hop, hsome⟩ := List.mem_filterMap.mp ha
  have hmem : op ∈ code := mem_of_mem_extract (Array.mem_toList_iff.mp hop)
  cases op <;> cases hsome
  exact h _ hmem

lemma extract_extract_body (hs : s ≤ a) (he : a + 1 + length ≤ e) :
    (code.extract s e).extract (a - s + 1) (a + 1 + length - s) = code.extract (a + 1) (a + 1 + length) := by
  rw [Array.extract_extract]
  congr 1 <;> omega

/-- An instruction and the rest of the code are safe if the rest is, as are the bodies that it runs. -/
lemma follow_safely (hv : code.Verified p room final height) (hw : Window code s e) (hs : s ≤ a) (he : a < e)
    (hop : code[a]? = some op) (hm : Poised p room floor k vs (height a) m m')
    {next next' : Nat → Run Completion} {inner inner' : Code → Run Completion}
    {called called' : Nat → Code → Run Completion}
    (hnext : ∀ {b : Nat} {q q' : Machine}, (b : Int) ∈ op.targets a → Poised p room floor k vs (height b) q q' →
      Safely k vs room q q' (next (b - s)) (next' (b - s)) (Ends code height floor s e))
    (hinner : ∀ {length : Nat} {q q' : Machine}, code.LoopAt a length → Poised p room floor k vs (height a) q q' →
      Safely k vs room q q' (inner (code.extract (a + 1) (a + 1 + length)))
        (inner' (code.extract (a + 1) (a + 1 + length))) (Ends code height floor (a + 1) (a + 1 + length)))
    (hcalled : ∀ {i : Nat} {f : CompiledFunction} {q q' : Machine}, p.functions[i]? = some f →
      Poised p f.room q.stack.size k vs 0 q q' → q.base + f.scalarCount = q.stack.size →
      Safely k vs f.room q q' (called i f.body) (called' i f.body) fun _ r => q.stack.size ≤ r.stack.size) :
    Safely k vs room m m' (follow next inner called (code.extract s e) (a - s) op)
      (follow next' inner' called' (code.extract s e) (a - s) op) (Ends code height floor s e) := by
  have hwf : op.WellFormed p room := hv.wellFormed op (Array.mem_of_getElem? hop)
  -- what the instruction takes lies above `d` operands, and what it puts there makes the height behind every way
  obtain ⟨d, hd⟩ : ∃ d, height a = d + op.takes p := ⟨_, (Nat.sub_add_cancel (hv.enough hop)).symm⟩
  have hheight {b : Nat} (hb : (b : Int) ∈ op.targets a) : height b = d + op.puts := by
    obtain ⟨-, -, hb⟩ := hv.edges hop hb
    rw [Int.toNat_natCast] at hb
    omega
  have hgo {b : Nat} {q q' : Machine} (hb : (b : Int) ∈ op.targets a) (hk : m.Keeps q) (hq : q.Padded k vs room q')
      (hsize : q.stack.size = floor + (d + op.puts)) :
      Safely k vs room q q' (next (b - s)) (next' (b - s)) (Ends code height floor s e) :=
    hnext hb (hm.next hk hq (hheight hb ▸ hsize))
  have hjump : ∀ offset : Int, (a + 1 + offset : Int) ∈ op.targets a →
      ∃ b : Nat, (b : Int) ∈ op.targets a ∧ jumpFrom (a - s + 1) offset = b - s := by
    intro offset ht
    obtain ⟨h1, -⟩ := hw.closed hs he ⟨op, hop, ht⟩
    refine ⟨(a + 1 + offset : Int).toNat, ?_, ?_⟩
    · rwa [Int.toNat_of_nonneg (by omega)]
    · rw [jumpFrom]
      omega
  have hm' := hd ▸ hm
  by_cases hc : op.isControl = false
  · have ht : ((a + 1 : Nat) : Int) ∈ op.targets a := by
      rw [Op.targets_of_not_isControl hc]
      exact List.mem_singleton.mpr rfl
    rw [follow_step hc, follow_step hc, show a - s + 1 = a + 1 - s by omega]
    exact (step_sized hwf hc hm').bind fun _ _ _ hk hq h => hgo ht hk hq h.1
  cases op <;> first | exact absurd rfl hc | skip
  case jump offset =>
    obtain ⟨b, hb, hjump⟩ := hjump offset (List.mem_singleton.mpr rfl)
    rw [follow, follow, hjump]
    exact hgo hb (.refl m) hm.padded hm'.size
  case branch t offset =>
    obtain ⟨b, hb, hjump⟩ := hjump offset (List.mem_cons_of_mem _ (List.mem_singleton.mpr rfl))
    rw [follow, follow, hjump, show a - s + 1 = a + 1 - s by omega]
    refine ((taken_works t).sized hm').bind fun yes _ _ hk hq h => ?_
    cases yes with
    | true => exact hgo hb hk hq h.1
    | false => exact hgo List.mem_cons_self hk hq h.1
  case next | nextFile | exit | returnNull => exact .pure hm.padded (Nat.le.intro hm.size.symm)
  case breakForIn => exact .pure hm.padded ⟨a, hs, he, hop, hm.size⟩
  case exitStatus =>
    refine (pop_sized hm').bind fun v q q' hk hq h => ?_
    obtain ⟨stack, base, rfl⟩ : ∃ stack base, q' = { q with stack, base } := ⟨_, _, hq.rest⟩
    exact .of_ok rfl rfl ⟨rfl, rfl, rfl, rfl⟩ ⟨hq.stack, hq.base, rfl⟩ (Nat.le.intro h.1.symm)
  case «return» => exact (pop_sized hm').bind fun v _ _ _ hq h => .pure hq (Nat.le.intro h.1.symm)
  case forIn var array length =>
    have hloop : code.LoopAt a length := ⟨var, array, hop⟩
    have htarget : ((a + 1 + length : Nat) : Int) ∈ (Op.forIn var array length).targets a :=
      List.mem_cons_of_mem _ (List.mem_singleton.mpr rfl)
    have hstop : a + 1 + length ≤ e := by
      have := (hw.closed hs he ⟨_, hop, htarget⟩).2
      omega
    have hmin : min (a - s + 1 + length) (code.extract s e).size = a + 1 + length - s := by
      rw [hw.size_extract]
      omega
    rw [follow, follow, hmin, extract_extract_body hs hstop]
    refine (arrayOf_sized hwf.2 hm).bind fun slot m₁ m₁' hk₁ hq₁ h₁ => ?_
    obtain ⟨stack, base, rfl⟩ : ∃ stack base, m₁' = { m₁ with stack, base } := ⟨_, _, hq₁.rest⟩
    have hkeys : Safely k vs room m₁ { m₁ with stack, base } (loopKeys slot.2) (loopKeys slot.2)
        fun _ q => q.stack.size = m₁.stack.size :=
      .of_ok rfl rfl ⟨rfl, rfl, rfl, rfl⟩ ⟨hq₁.stack, hq₁.base, rfl⟩ rfl
    refine hkeys.bind fun keys m₂ _ hk₂ hq₂ h₂ => ?_
    have hk := hk₁.trans hk₂
    refine (overKeys_safely hwf.1 hwf.2 (fun hq => (hinner hloop hq).mono fun c r _ hc => ?_) keys
      (hm.next hk hq₂ (h₂.trans h₁.1))).bind fun c m₃ _ hk₃ hq₃ hc => ?_
    · cases c with
      | normal => exact hc.trans (by rw [hheight htarget, hd]; rfl)
      | breakForIn =>
        obtain ⟨q, hsq, hqe, hq, hc⟩ := hc
        exact hc.trans (by rw [(hv.breaks hq).2 hloop ⟨hsq, by omega⟩])
      | next | nextFile | exit | «return» v => exact hc
    · cases c with
      | normal => exact hgo htarget (hk.trans hk₃) hq₃ (hc.trans (by rw [hd]; rfl))
      | breakForIn => cases hc
      | next | nextFile | exit | «return» v => exact .pure hq₃ hc
  case callUser i count =>
    obtain ⟨f, hf⟩ : ∃ f, p.functions[i]? = some f := ⟨_, Array.getElem?_eq_getElem hwf⟩
    have hcount : p.scalarCount i = f.scalarCount := by rw [Program.scalarCount, hf]; rfl
    have htarget : ((a + 1 + count : Nat) : Int) ∈ (Op.callUser i count).targets a :=
      List.mem_singleton.mpr rfl
    have hmin : min (a - s + 1 + count) (code.extract s e).size = a + 1 + count - s := by
      have := (hw.closed hs he ⟨_, hop, htarget⟩).2
      rw [hw.size_extract]
      omega
    have hargs : ∀ arg ∈ arrayArgs (code.extract s e) (a - s + 1) (a + 1 + count - s), arg.WellFormed p room :=
      arrayArgs_wellFormed fun op h => hv.wellFormed op (mem_of_mem_extract h)
    rw [follow, follow, hmin]
    rw [show (Op.callUser i count).takes p = f.scalarCount from hcount] at hm'
    refine (callUser_safely hm' hf hargs (hcalled hf)).bind fun c q _ hk hq hc => ?_
    cases c with
    | normal => exact hgo htarget hk hq hc
    | breakForIn => cases hc
    | next | nextFile | exit | «return» v => exact .pure hq (Nat.le.intro hc.symm)

/-- Code that passes the verifier ends at the heights of the verifier.  It runs the same whatever lies below its own
values, and with any two actions between which nobody can tell the difference where an instruction finds what it uses. -/
theorem execWith_safely
    (hbefore : ∀ {room : Room} {m m' : Machine} {floor : Nat} {op : Op}, op.inReach m floor →
      m.Padded k vs room m' →
      Safely k vs room m m' (before floor op) before' fun _ q => q.stack.size = m.stack.size)
    (hp : p.Verified) (fuel floor' : Nat)
    (hv : code.Verified p room final height) (hw : Window code s e) (hs : s ≤ a) (he : a ≤ e)
    (hm : Poised p room floor k vs (height a) m m') :
    Safely k vs room m m' (execWith before fuel floor (code.extract s e) (a - s))
      (execWith (fun _ _ => before') fuel floor' (code.extract s e) (a - s)) (Ends code height floor s e) := by
  induction fuel generalizing room floor floor' final code height s e a m m' with
  | zero => exact .throw hm.padded trivial
  | succ fuel ih =>
    rw [execWith, execWith]
    rcases Nat.lt_or_eq_of_le he with hlt | rfl
    case inr =>
      rw [Array.getElem?_eq_none (by rw [hw.size_extract])]
      exact .pure hm.padded hm.size
    rw [hw.getElem?_extract hs hlt]
    obtain ⟨op, hop⟩ : ∃ op, code[a]? = some op :=
      ⟨_, Array.getElem?_eq_getElem (Nat.lt_of_lt_of_le hlt hw.inside)⟩
    rw [hop]
    have hreach : op.inReach m floor := hm.ready.inReach (hv.wellFormed op (Array.mem_of_getElem? hop))
      (by rw [hm.size]; exact Nat.add_le_add_left (hv.enough hop) floor)
    refine (hbefore hreach hm.padded).bind fun _ m₁ _ hk₁ hpad₁ hsize₁ => ?_
    refine follow_safely hv hw hs hlt hop (hm.next hk₁ hpad₁ (hsize₁.trans hm.size)) ?_ ?_ ?_
    case refine_1 =>
      intro b q q' hb hq
      obtain ⟨hsb, hbe⟩ := hw.closed hs hlt ⟨op, hop, hb⟩
      exact ih floor' hv hw (by omega) (by omega) hq
    case refine_2 =>
      rintro length q q' ⟨var, array, hloop⟩ hq
      obtain ⟨-, -, hheight⟩ := hv.edges hloop (List.mem_cons_self : (a + 1 : Int) ∈ _)
      have hheight : height (a + 1) = height a := hheight
      have hbody := ih floor' hv (window_body hv ⟨var, array, hloop⟩) (Nat.le_refl (a + 1)) (Nat.le_add_right _ _)
        (hheight ▸ hq)
      rwa [Nat.sub_self] at hbody
    case refine_3 =>
      intro i f q q' hf hq hbase
      obtain ⟨height', hv'⟩ := hp.functions f (Array.mem_of_getElem? hf)
      have hbody := ih (q'.base + q'.program.scalarCount i) hv' (window_all hv') (Nat.le_refl 0) (Nat.zero_le _)
        (hv'.starts ▸ hq)
      rw [Array.extract_size, Nat.sub_self] at hbody
      have hfloor : q.base + q.program.scalarCount i = q.stack.size := by
        rw [hq.ready.program, Program.scalarCount, hf]
        exact hbase
      refine .get_bind ?_
      rw [hfloor]
      refine hbody.mono fun c r _ hc => ?_
      cases c with
      | normal => exact Nat.le.intro hc.symm
      | breakForIn =>
        obtain ⟨b, -, -, -, hc⟩ := hc
        exact Nat.le.intro hc.symm
      | next | nextFile | exit | «return» v => exact hc

/-- The same of code as a whole. -/
theorem execWith_safely_whole
    (hbefore : ∀ {room : Room} {m m' : Machine} {floor : Nat} {op : Op}, op.inReach m floor →
      m.Padded k vs room m' →
      Safely k vs room m m' (before floor op) before' fun _ q => q.stack.size = m.stack.size)
    (hp : p.Verified) (fuel floor' : Nat) (hv : code.Verified p room final height)
    (hm : Poised p room floor k vs 0 m m') :
    Safely k vs room m m' (execWith before fuel floor code 0) (execWith (fun _ _ => before') fuel floor' code 0)
      (Ends code height floor 0 code.size) := by
  have h := execWith_safely hbefore hp fuel floor' hv (window_all hv) (Nat.le_refl 0) (Nat.zero_le _) (hv.starts ▸ hm)
  rwa [Array.extract_size, Nat.sub_self] at h

end Awk.Run
