import Awk.Proofs.Code.Pieces

/-!
# Verified code from verified parts

What the verifier asks of code can be told address by address, but for the ways through it: those stay in a part, or
lead to some addresses outside of it.  A part of code has a shape if there are heights of the stack for which all this
holds wherever it stands.  Whatever is put together from such parts is such a part, and a whole block of that kind
passes the verifier.
-/

namespace Awk.Compile

/-- What the loops over arrays of code are: a property of the variable, the array, the length and the instructions of
the body. -/
abbrev Loops := ScalarRef → ArrayRef → Nat → Code → Prop

/-- Code with the heights of the stack at its addresses. -/
structure Frame (p : Program) (room : Room) (loops : Loops) where
  code : Code
  height : Nat → Nat

variable {p : Program} {room : Room} {loops : Loops}

/-! ## Instructions at their addresses -/

namespace Frame

/-- What the verifier asks of an instruction at an address, but for where it leads to. -/
structure Fine (F : Frame p room loops) (pc : Nat) (op : Op) : Prop where
  wellFormed : op.WellFormed p room
  enough : op.takes p ≤ F.height pc
  heights : ∀ t ∈ op.targets pc, 0 ≤ t ∧ F.height t.toNat + op.takes p = F.height pc + op.puts
  /-- Loops over arrays, and what leaves them, stand where nothing is on the stack. -/
  low : op.isLoop = true → F.height pc = 0
  forIns : ∀ {var a n}, op = .forIn var a n → loops var a n (F.code.extract (pc + 1) (pc + 1 + n))
  breaks : op = .breakForIn → ∃ i n, F.code.LoopAt i n ∧ InBody i n pc
  args : ∀ {f count}, op = .callUser f count →
    (∀ i < count, ∃ a, F.code[pc + 1 + i]? = some (.arrayArg a)) ∧ ∃ start ≤ pc,
      F.height pc = F.height start + p.scalarCount f ∧ ∀ q, start ≤ q → q ≤ pc → F.height start ≤ F.height q
  argsOf : ∀ {a}, op = .arrayArg a → ∃ i f count, F.code[i]? = some (.callUser f count) ∧ InBody i count pc

/-- The instructions of a part are fine, and lead to each other, right behind the part, or to some exits.  The bodies of
loops over arrays are left and entered only by the loop itself. -/
structure Good (F : Frame p room loops) (exits : Int → Prop) (s e : Nat) : Prop where
  fine : ∀ {pc}, s ≤ pc → pc < e → ∃ op, F.code[pc]? = some op ∧ F.Fine pc op
  edges : ∀ {pc t}, s ≤ pc → pc < e → F.code.Edge pc t → (s ≤ t ∧ t ≤ e) ∨ exits t
  loops : ∀ {i n}, s ≤ i → i < e → F.code.LoopAt i n → i + n < e
  /-- A way that starts in a body stays there or ends right behind it, and others lead around it. -/
  around : ∀ {i n pc t}, s ≤ i → i < e → F.code.LoopAt i n → s ≤ pc → pc < e → pc ≠ i → F.code.Edge pc t →
    (i < pc ∧ pc ≤ i + n ∧ i < t ∧ t ≤ i + n + 1) ∨ ((pc ≤ i ∨ i + n < pc) ∧ (t ≤ i ∨ i + n < t))

end Frame

/-- Exits lie outside of a part. -/
def Avoids (exits : Int → Prop) (s e : Nat) : Prop := ∀ t, exits t → t ≤ s ∨ e ≤ t

variable {F : Frame p room loops} {exits exits' : Int → Prop} {s m e pc : Nat} {op : Op}

lemma Avoids.one : Avoids exits pc (pc + 1) := fun _ _ => by omega

lemma Avoids.or {target : Nat} (h : Avoids exits s e) (ht : target ≤ s ∨ e ≤ target) :
    Avoids (fun t => exits t ∨ t = target) s e := by
  rintro t (hexit | rfl)
  · exact h t hexit
  · omega

namespace Frame.Good

lemma imp (hx : F.Good exits s e) (h : ∀ t, exits t → (s ≤ t ∧ t ≤ e) ∨ exits' t) : F.Good exits' s e :=
  { hx with edges := fun hle hlt he => (hx.edges hle hlt he).elim .inl (h _) }

lemma append (hx : F.Good exits s m) (hy : F.Good exits m e) (hs : s ≤ m) (he : m ≤ e) (hx' : Avoids exits s m)
    (hy' : Avoids exits m e) : F.Good exits s e where
  fine {pc} hle hlt := by
    by_cases hpc : pc < m
    · exact hx.fine hle hpc
    · exact hy.fine (by omega) hlt
  edges {pc t} hle hlt hedge := by
    by_cases hpc : pc < m
    · exact (hx.edges hle hpc hedge).imp_left (by omega)
    · exact (hy.edges (by omega) hlt hedge).imp_left (by omega)
  loops {i n} hle hlt hl := by
    by_cases hi : i < m
    · have := hx.loops hle hi hl
      omega
    · exact hy.loops (by omega) hlt hl
  around {i n pc t} hi hi' hl hpc hpc' hne hedge := by
    by_cases him : i < m <;> by_cases hpcm : pc < m
    · exact hx.around hi him hl hpc hpcm hne hedge
    · have := hx.loops hi him hl
      have := (hy.edges (by omega) hpc' hedge).imp_right (hx' t)
      omega
    · have := hy.loops (by omega) hi' hl
      have := (hx.edges hpc hpcm hedge).imp_right (hy' t)
      omega
    · exact hy.around (by omega) hi' hl (by omega) hpc' hne hedge

/-- Code without loops over arrays needs only ways that stay in it. -/
lemma loopFree (h : ∀ pc, s ≤ pc → pc < e → ∃ op, F.code[pc]? = some op ∧ F.Fine pc op ∧
    (∀ var a n, op ≠ .forIn var a n) ∧ ∀ t ∈ op.targets pc, (s ≤ t ∧ t ≤ e) ∨ exits t) : F.Good exits s e := by
  have hno {i n : Nat} (hle : s ≤ i) (hlt : i < e) : ¬ F.code.LoopAt i n := by
    rintro ⟨var, a, hi⟩
    obtain ⟨op, hop, -, hforIn, -⟩ := h i hle hlt
    exact hforIn var a n (Option.some.inj (hop.symm.trans hi))
  refine ⟨fun hle hlt => ?_, fun {pc t} hle hlt ⟨op, hop, ht⟩ => ?_, fun hle hlt hl => (hno hle hlt hl).elim,
    fun hle hlt hl => (hno hle hlt hl).elim⟩
  · obtain ⟨op, hop, hfine, -⟩ := h _ hle hlt
    exact ⟨op, hop, hfine⟩
  · obtain ⟨op', hop', -, -, htargets⟩ := h pc hle hlt
    obtain rfl := Option.some.inj (hop.symm.trans hop')
    exact htargets t ht

lemma single (hop : F.code[pc]? = some op) (hfine : F.Fine pc op) (hforIn : ∀ var a n, op ≠ .forIn var a n)
    (ht : ∀ t ∈ op.targets pc, t = pc + 1 ∨ exits t) : F.Good exits pc (pc + 1) := by
  refine loopFree fun pc' hle hlt => ?_
  obtain rfl : pc' = pc := by omega
  exact ⟨op, hop, hfine, hforIn, fun t h => (ht t h).imp_left (by omega)⟩

end Frame.Good

/-! ## Instructions that belong to nothing else -/

/-- An instruction that is no part of a loop over an array or of a call. -/
def isPlain : Op → Bool
  | .forIn _ _ _ | .breakForIn | .callUser _ _ | .arrayArg _ => false
  | _ => true

namespace Frame.Good

lemma plain (hop : F.code[pc]? = some op) (hplain : isPlain op = true) (hw : op.WellFormed p room)
    (henough : op.takes p ≤ F.height pc)
    (ht : ∀ t ∈ op.targets pc, 0 ≤ t ∧ F.height t.toNat + op.takes p = F.height pc + op.puts ∧
      (t = pc + 1 ∨ exits t)) : F.Good exits pc (pc + 1) := by
  have hne {op' : Op} (h : isPlain op' = false) : op ≠ op' := by
    rintro rfl
    rw [hplain] at h
    cases h
  refine .single hop ⟨hw, henough, fun t h => ⟨(ht t h).1, (ht t h).2.1⟩, fun hl => ?_, fun h => (hne rfl h).elim,
    fun h => (hne rfl h).elim, fun h => (hne rfl h).elim, fun h => (hne rfl h).elim⟩ (fun _ _ _ => hne rfl)
    fun t h => (ht t h).2.2
  cases op <;> simp_all [isPlain, Op.isLoop]

variable {c target : Nat} {offset : Int} {t : Test}

lemma jump (hop : F.code[pc]? = some (.jump offset)) (ht : (pc : Int) + 1 + offset = target)
    (hheight : F.height target = F.height pc) (hexit : target = pc + 1 ∨ exits target) : F.Good exits pc (pc + 1) := by
  refine .plain hop rfl trivial (Nat.zero_le _) fun u hu => ?_
  obtain rfl : u = target := (List.mem_singleton.mp hu).trans ht
  exact ⟨by omega, by rw [Int.toNat_natCast, hheight]; rfl, hexit.imp_left (by omega)⟩

lemma branch (hop : F.code[pc]? = some (.branch t offset)) (ht : (pc : Int) + 1 + offset = target)
    (hpc : F.height pc = c + t.operands) (hnext : F.height (pc + 1) = c) (hheight : F.height target = c)
    (hexit : exits target) : F.Good exits pc (pc + 1) := by
  refine .plain hop rfl trivial (by rw [hpc]; exact Nat.le_add_left _ _) fun u hu => ?_
  rcases List.mem_cons.mp hu with rfl | hu
  · refine ⟨by omega, ?_, .inl rfl⟩
    rw [show ((pc : Int) + 1).toNat = pc + 1 by omega, hnext, hpc]
    rfl
  · obtain rfl : u = target := (List.mem_singleton.mp hu).trans ht
    refine ⟨by omega, ?_, .inr hexit⟩
    rw [Int.toNat_natCast, hheight, hpc]
    rfl

end Frame.Good

/-! ## Parts of code -/

/-- A piece stands at an address.  What a jump out of a loop leads to is known when the loop is put together. -/
def Piece.Stands (F : Frame p room loops) (exits : Int → Prop) (pc : Nat) : Piece → Prop
  | .op o => F.code[pc]? = some o
  | .leave | .again => F.height pc = 0 → F.height (pc + 1) = 0 → F.Good exits pc (pc + 1)

/-- Pieces stand from an address on. -/
abbrev Placed (F : Frame p room loops) (exits : Int → Prop) : Nat → List Piece → Prop :=
  Along fun pc x => x.Stands F exits pc

/-- Code takes the stack from a height to another and never below a third one, wherever it stands, and does all that the
verifier asks for. -/
def Shape (p : Program) (room : Room) (loops : Loops) (low : Nat) (code : List Piece) (start stop : Nat) : Prop :=
  ∃ f : Nat → Nat, f 0 = start ∧ f code.length = stop ∧ (∀ i ≤ code.length, low ≤ f i) ∧
    ∀ {F : Frame p room loops} {exits : Int → Prop} {o : Nat}, Placed F exits o code →
      (∀ i ≤ code.length, F.height (o + i) = f i) → Avoids exits o (o + code.length) →
        F.Good exits o (o + code.length)

variable {xs ys body post : List Piece} {x : Piece} {low a b c o n : Nat}

lemma Placed.mono (h : Placed F exits o xs) (himp : ∀ t, exits t → exits' t) : Placed F exits' o xs := by
  intro i x hi
  have hx := h i x hi
  cases x with
  | op o => exact hx
  | leave | again => exact fun hz hz' => (hx hz hz').imp fun t ht => .inr (himp t ht)

/-- Heights of a part in front of another one. -/
def glue (f : Nat → Nat) (n : Nat) (g : Nat → Nat) (i : Nat) : Nat := if i < n then f i else g (i - n)

variable {m n : Nat} {code : List Op} {var : ScalarRef} {array : ArrayRef}

section

variable {f g : Nat → Nat} {i : Nat}

lemma glue_of_lt (h : i < n) : glue f n g i = f i := if_pos h

lemma glue_add (i : Nat) : glue f n g (n + i) = g i := by
  rw [glue, if_neg (by omega), Nat.add_sub_cancel_left]

lemma glue_of_le (hfg : f n = g 0) (h : i ≤ n) : glue f n g i = f i := by
  rcases Nat.lt_or_eq_of_le h with h | rfl
  · exact glue_of_lt h
  · exact (glue_add 0).trans hfg.symm

lemma le_glue (hf : ∀ i < n, low ≤ f i) (hg : ∀ i ≤ m, low ≤ g i) (hi : i ≤ n + m) :
    low ≤ glue f n g i := by
  rw [glue]
  split
  · exact hf i ‹_›
  · exact hg _ (by omega)

end

namespace Shape

lemma nil (h : low ≤ a) : Shape p room loops low [] a a :=
  ⟨fun _ => a, rfl, rfl, fun _ _ => h, fun _ _ _ => .loopFree fun pc hle hlt => by simp at hlt; omega⟩

lemma mono {low' : Nat} (h : Shape p room loops low xs a b) (hl : low' ≤ low) : Shape p room loops low' xs a b := by
  obtain ⟨f, ha, hb, hlow, hgood⟩ := h
  exact ⟨f, ha, hb, fun i hi => hl.trans (hlow i hi), hgood⟩

lemma append (hx : Shape p room loops low xs a b) (hy : Shape p room loops low ys b c) :
    Shape p room loops low (xs ++ ys) a c := by
  obtain ⟨f, hfa, hfb, hflow, hf⟩ := hx
  obtain ⟨g, hgb, hgc, hglow, hg⟩ := hy
  have hfg : f xs.length = g 0 := hfb.trans hgb.symm
  rw [Shape, List.length_append]
  refine ⟨glue f xs.length g, (glue_of_le hfg (Nat.zero_le _)).trans hfa, (glue_add _).trans hgc,
    fun i => le_glue (fun i hi => hflow i hi.le) hglow, fun {F exits o} hp hh he => ?_⟩
  obtain ⟨hpx, hpy⟩ := along_append.mp hp
  rw [← Nat.add_assoc] at he ⊢
  have hex : Avoids exits o (o + xs.length) := fun t ht => (he t ht).imp_right (by omega)
  have hey : Avoids exits (o + xs.length) (o + xs.length + ys.length) := fun t ht => (he t ht).imp_left (by omega)
  refine (hf hpx (fun i hi => ?_) hex).append (hg hpy (fun i hi => ?_) hey) (by omega) (by omega) hex hey
  · rw [hh i (by omega), glue_of_le hfg hi]
  · rw [Nat.add_assoc, hh _ (by omega), glue_add]

lemma single (ha : low ≤ a) (hb : low ≤ b) (h : ∀ {F : Frame p room loops} {exits : Int → Prop} {pc : Nat},
    x.Stands F exits pc → F.height pc = a → F.height (pc + 1) = b → F.Good exits pc (pc + 1)) :
    Shape p room loops low [x] a b := by
  refine ⟨glue (fun _ => a) 1 fun _ => b, rfl, rfl, fun i => le_glue (m := 0) (fun _ _ => ha) fun _ _ => hb,
    fun hp hh _ => h (along_singleton.mp hp) (hh 0 (Nat.zero_le 1)) (hh 1 le_rfl)⟩

lemma leave : Shape p room loops 0 [.leave] 0 0 := .single le_rfl le_rfl id

lemma again : Shape p room loops 0 [.again] 0 0 := .single le_rfl le_rfl id

end Shape

/-! ## Instructions one behind another -/

/-- Instructions that always go on with the next one. -/
def isStep (o : Op) : Bool :=
  match o with
  | .jump _ | .branch _ _ | .next | .nextFile | .exit | .exitStatus | .return | .returnNull
  | .forIn _ _ _ | .breakForIn | .callUser _ _ | .arrayArg _ => false
  | _ => true

def isStop (o : Op) : Bool :=
  match o with
  | .next | .nextFile | .exit | .exitStatus | .return | .returnNull => true
  | _ => false

/-- How many values lie above some height behind instructions of which each goes on with the next one; none
if one of them does not find what it takes. -/
def rise (p : Program) : List Op → Nat → Option Nat
  | [], n => some n
  | o :: rest, n => if o.takes p ≤ n then rise p rest (n - o.takes p + o.puts) else none

lemma ops_append {code' : List Op} : ops (code ++ code') = ops code ++ ops code' := List.map_append

namespace Shape

lemma step (ho : isStep op = true) (hw : op.WellFormed p room) (ha : low ≤ a) (hb : low ≤ b) (ht : op.takes p ≤ a)
    (heq : b + op.takes p = a + op.puts) : Shape p room loops low [.op op] a b := by
  have htargets : ∀ pc, isPlain op = true ∧ op.targets pc = [(pc : Int) + 1] := by
    cases op <;> first | exact fun _ => ⟨rfl, rfl⟩ | cases ho
  refine .single ha hb fun {F exits pc} hop hpc hnext => .plain hop (htargets pc).1 hw (hpc ▸ ht) fun t h => ?_
  rw [(htargets pc).2, List.mem_singleton] at h
  subst h
  exact ⟨by omega, by rw [show ((pc : Int) + 1).toNat = pc + 1 by omega, hpc, hnext, heq], .inl rfl⟩

lemma stop (ho : isStop op = true) (ha : low ≤ a) (hb : low ≤ b) (ht : op.takes p ≤ a) :
    Shape p room loops low [.op op] a b := by
  have htargets : ∀ pc, isPlain op = true ∧ op.targets pc = [] ∧ op.WellFormed p room := by
    cases op <;> first | exact fun _ => ⟨rfl, rfl, trivial⟩ | cases ho
  refine .single ha hb fun {F exits pc} hop hpc _ =>
    .plain hop (htargets pc).1 (htargets pc).2.2 (hpc ▸ ht) fun t h => ?_
  rw [(htargets pc).2.1] at h
  cases h

lemma straight (low : Nat) (h : rise p code n = some m)
    (hcode : code.Forall fun o => isStep o = true ∧ o.WellFormed p room) :
    Shape p room loops low (ops code) (low + n) (low + m) := by
  induction code generalizing n with
  | nil =>
    cases h
    exact .nil (Nat.le_add_right low _)
  | cons o rest ih =>
    obtain ⟨⟨ho, hw⟩, hrest⟩ := (List.forall_cons _ o rest).mp hcode
    rw [rise] at h
    split at h
    · have hstep : Shape p room loops low [.op o] (low + n) (low + (n - o.takes p + o.puts)) :=
        .step ho hw (by omega) (by omega) (by omega) (by omega)
      exact hstep.append (ih h hrest)
    · cases h

variable {t : Test}

/-! ## Choices -/

lemma skip (hx : Shape p room loops low xs a a) :
    Shape p room loops low (Compile.skip t xs) (a + t.operands) a := by
  obtain ⟨f, ha, hb, hlow, hf⟩ := hx
  rw [Shape, show (Compile.skip t xs).length = 1 + xs.length from Nat.add_comm _ _]
  refine ⟨glue (fun _ => a + t.operands) 1 f, rfl, (glue_add _).trans hb,
    fun i => le_glue (fun _ _ => (hb ▸ hlow _ le_rfl).trans (Nat.le_add_right _ _)) hlow, fun {F exits o} hp hh he => ?_⟩
  obtain ⟨hop, hp⟩ := along_cons.mp hp
  rw [← Nat.add_assoc] at he ⊢
  have hxs : ∀ i ≤ xs.length, F.height (o + 1 + i) = f i := fun i hi => by
    rw [Nat.add_assoc, hh _ (by omega), glue_add]
  let ends : Int → Prop := fun t => exits t ∨ t = (o + 1 + xs.length : Nat)
  have hends : Avoids ends (o + 1) (o + 1 + xs.length) :=
    .or (fun t ht => (he t ht).imp_left (by omega)) (.inr le_rfl)
  have hbranch : F.Good ends o (o + 1) := .branch hop (by push_cast; ring) (hh 0 (Nat.zero_le _))
    ((hxs 0 (Nat.zero_le _)).trans ha) ((hxs _ le_rfl).trans hb) (.inr rfl)
  have hrest := hf (Placed.mono hp fun _ => .inl) hxs hends
  exact (hbranch.append hrest (by omega) (by omega) .one hends).imp fun t ht => ht.symm.imp_left (by omega)

lemma either (hx : Shape p room loops low xs a b) (hy : Shape p room loops low ys a b) :
    Shape p room loops low (Compile.either t xs ys) (a + t.operands) b := by
  obtain ⟨f, hfa, hfb, hflow, hf⟩ := hx
  obtain ⟨g, hga, hgb, hglow, hg⟩ := hy
  have hlength : (Compile.either t xs ys).length = 1 + (xs.length + 1 + ys.length) := by
    simp only [Compile.either, List.length_cons, List.length_append]
    omega
  rw [Shape, hlength]
  refine ⟨glue (fun _ => a + t.operands) 1 (glue f (xs.length + 1) g), rfl, by rw [glue_add, glue_add, hgb],
    fun i => le_glue (fun _ _ => (hga ▸ hglow 0 (Nat.zero_le _)).trans (Nat.le_add_right _ _))
      fun i => le_glue (fun i hi => hflow i (by omega)) hglow, fun {F exits o} hp hh he => ?_⟩
  obtain ⟨hop, hp⟩ := along_cons.mp hp
  obtain ⟨hpx, hp⟩ := along_append.mp hp
  obtain ⟨hjump, hpy⟩ := along_cons.mp hp
  have hxs : ∀ i ≤ xs.length, F.height (o + 1 + i) = f i := fun i hi => by
    rw [Nat.add_assoc, hh _ (by omega), glue_add, glue_of_lt (by omega)]
  have hys : ∀ i ≤ ys.length, F.height (o + 1 + xs.length + 1 + i) = g i := fun i hi => by
    rw [show o + 1 + xs.length + 1 + i = o + (1 + (xs.length + 1 + i)) by omega, hh _ (by omega), glue_add, glue_add]
  rw [show o + (1 + (xs.length + 1 + ys.length)) = o + 1 + xs.length + 1 + ys.length by omega] at he ⊢
  set second := o + 1 + xs.length + 1 with hsecond
  -- the start of the second part and the end are exits of the jumps
  let ends : Int → Prop := fun t => (exits t ∨ t = second) ∨ t = (second + ys.length : Nat)
  have hends {s e : Nat} (hs : o ≤ s) (he' : e ≤ second + ys.length) (h : e ≤ second ∨ second ≤ s) : Avoids ends s e :=
    .or (.or (fun t ht => (he t ht).imp (by omega) (by omega)) (by omega)) (.inr he')
  have hbranch : F.Good ends o (o + 1) := .branch hop (by push_cast [hsecond]; ring) (hh 0 (Nat.zero_le _))
    ((hxs 0 (Nat.zero_le _)).trans hfa) ((hys 0 (Nat.zero_le _)).trans hga) (.inl (.inr rfl))
  have hleave : F.Good ends (o + 1 + xs.length) second := .jump hjump (by push_cast [hsecond]; ring)
    (((hys _ le_rfl).trans hgb).trans ((hxs _ le_rfl).trans hfb).symm) (.inr (.inr rfl))
  have hfirst := hf (Placed.mono hpx fun _ h => .inl (.inl h)) hxs (hends (by omega) (by omega) (by omega))
  have hother := hg (Placed.mono hpy fun _ h => .inl (.inl h)) hys (hends (by omega) (by omega) (by omega))
  have hstart := hbranch.append hfirst (by omega) (by omega) .one (hends (by omega) (by omega) (by omega))
  have hmiddle := hstart.append hleave (by omega) (by omega) (hends (by omega) (by omega) (by omega)) .one
  refine (hmiddle.append hother (by omega) (by omega) (hends (by omega) (by omega) (by omega))
    (hends (by omega) (by omega) (by omega))).imp ?_
  rintro t ((ht | rfl) | rfl)
  · exact .inr ht
  · exact .inl (by omega)
  · exact .inl (by omega)

/-! ## Calls -/

lemma call {f : Nat} {refs : List ArrayRef} (hx : Shape p room loops low xs low (low + p.scalarCount f))
    (hf : f < p.functions.size) (hrefs : ∀ a ∈ refs, a.WellFormed p room) :
    Shape p room loops low (xs ++ ops (.callUser f refs.length :: refs.map .arrayArg)) low (low + 1) := by
  obtain ⟨g, hga, hgb, hlow, hg⟩ := hx
  have hlength : (xs ++ ops (.callUser f refs.length :: refs.map .arrayArg)).length =
      xs.length + 1 + refs.length := by
    simp only [ops, List.length_append, List.length_map, List.length_cons]
    omega
  rw [Shape, hlength]
  refine ⟨glue g (xs.length + 1) fun _ => low + 1, (glue_of_lt (Nat.succ_pos _)).trans hga, glue_add _,
    fun i => le_glue (fun i hi => hlow i (by omega)) fun _ _ => Nat.le_succ low, fun {F exits o} hp hh he => ?_⟩
  obtain ⟨hpx, hp⟩ := along_append.mp hp
  obtain ⟨hop, hp⟩ := along_cons.mp hp
  rw [← Nat.add_assoc, ← Nat.add_assoc] at he ⊢
  have hxs : ∀ i ≤ xs.length, F.height (o + i) = g i := fun i hi => by rw [hh i (by omega), glue_of_lt (by omega)]
  have hstart : F.height o = low := (hxs 0 (Nat.zero_le _)).trans hga
  have hpc : F.height (o + xs.length) = low + p.scalarCount f := (hxs _ le_rfl).trans hgb
  have hargs : ∀ i ≤ refs.length, F.height (o + xs.length + 1 + i) = low + 1 := fun i hi => by
    rw [show o + xs.length + 1 + i = o + (xs.length + 1 + i) by omega, hh _ (by omega), glue_add]
  have harg : ∀ i (hi : i < refs.length), F.code[o + xs.length + 1 + i]? = some (.arrayArg refs[i]) := fun i hi =>
    hp i (.op (.arrayArg refs[i])) (by simp [hi])
  have hcall : F.Good exits (o + xs.length) (o + xs.length + 1 + refs.length) := by
    refine .loopFree fun pc hle hlt => ?_
    obtain rfl | ⟨i, hi, rfl⟩ : pc = o + xs.length ∨ ∃ i < refs.length, pc = o + xs.length + 1 + i := by
      rcases Nat.eq_or_lt_of_le hle with h | h
      · exact .inl h.symm
      · exact .inr ⟨pc - (o + xs.length + 1), by omega, by omega⟩
    · refine ⟨_, hop, ⟨hf, hpc ▸ Nat.le_add_left _ _, fun t ht => ?_, by simp [Op.isLoop], by simp, by simp, ?_,
        by simp⟩, by simp, fun t ht => ?_⟩
      · obtain rfl := List.mem_singleton.mp ht
        refine ⟨by omega, ?_⟩
        rw [show ((o + xs.length : Nat) + 1 + refs.length : Int).toNat = o + xs.length + 1 + refs.length by omega,
          hargs _ le_rfl, hpc]
        simp only [Op.takes, Op.puts]
        omega
      · rintro _ _ ⟨⟩
        refine ⟨fun i hi => ⟨_, harg i hi⟩, o, Nat.le_add_right _ _, ?_, fun q hq hq' => ?_⟩
        · rw [hpc, hstart]
        · obtain ⟨i, rfl⟩ := Nat.exists_eq_add_of_le hq
          rw [hstart, hxs i (by omega)]
          exact hlow i (by omega)
      · obtain rfl := List.mem_singleton.mp ht
        exact .inl (by omega)
    · refine ⟨_, harg i hi, ⟨hrefs _ (List.getElem_mem hi), Nat.zero_le _, fun t ht => ?_, by simp [Op.isLoop], by simp,
        by simp, by simp, fun _ => ⟨_, f, _, hop, by omega, by omega⟩⟩, by simp, fun t ht => ?_⟩
      · obtain rfl := List.mem_singleton.mp ht
        refine ⟨by omega, ?_⟩
        rw [show ((o + xs.length + 1 + i : Nat) + 1 : Int).toNat = o + xs.length + 1 + (i + 1) by omega,
          hargs _ hi, hargs i hi.le]
        rfl
      · obtain rfl := List.mem_singleton.mp ht
        exact .inl (by omega)
  have hex : Avoids exits o (o + xs.length) := fun t ht => (he t ht).imp_right (by omega)
  exact (hg hpx hxs hex).append hcall (by omega) (by omega) hex fun t ht => (he t ht).imp_left (by omega)

end Shape

/-! ## Loops -/

/-- When a loop is put together its jumps get their targets. -/
lemma Placed.of_close {leave : Nat → Op} {again : Nat} (hp : Placed F exits o (ops (closeFrom leave again 0 xs)))
    (hleave : ∀ i < xs.length, F.code[o + i]? = some (leave i) → F.height (o + i) = 0 →
      F.Good exits' (o + i) (o + i + 1))
    (hagain : F.height (o + again) = 0) (hexit : exits' (o + again : Nat)) : Placed F exits' o xs := by
  intro i x hi
  have hop : F.code[o + i]? = some (x.close leave again i) :=
    hp i (.op (x.close leave again i)) (by rw [getElem?_ops_closeFrom, hi]; rfl)
  cases x with
  | op op => exact hop
  | leave => exact fun hz _ => hleave i (List.getElem?_eq_some_iff.mp hi).1 hop hz
  | again => exact fun hz _ => .jump hop (by push_cast; ring) (hagain.trans hz.symm) (.inr hexit)

/-- The jump that a loop ends with, if its test leaves some values. -/
def BackJump (p : Program) (back : Int → Op) (c : Nat) : Prop :=
  ∀ {room : Room} {loops : Loops} {F : Frame p room loops} {exits : Int → Prop} {pc target : Nat} {offset : Int},
    F.code[pc]? = some (back offset) → (pc : Int) + 1 + offset = target → F.height pc = c → F.height (pc + 1) = 0 →
      F.height target = 0 → exits target → F.Good exits pc (pc + 1)

lemma backJump_jump : BackJump p .jump 0 :=
  fun hop ht hpc _ htarget hexit => .jump hop ht (htarget.trans hpc.symm) (.inr hexit)

lemma backJump_branch (t : Test) : BackJump p (.branch t) t.operands :=
  fun hop ht hpc hnext htarget hexit => .branch hop ht (hpc.trans (Nat.zero_add _).symm) hnext htarget hexit

/-- The instructions that stand in a place. -/
lemma extract_of_placed (hp : Placed F exits o (ops code)) (hn : code.length = n) :
    F.code.extract o (o + n) = code.toArray := by
  subst hn
  refine Array.ext_getElem? fun i => ?_
  by_cases hi : i < code.length
  · have hop : F.code[o + i]? = some code[i] := hp i (.op code[i]) (by simp [ops, hi])
    have hlt := (Array.getElem?_eq_some_iff.mp hop).1
    rw [Array.getElem?_extract, if_pos (by omega), hop, List.getElem?_toArray, List.getElem?_eq_getElem hi]
  · rw [Array.getElem?_eq_none (by simp; omega), Array.getElem?_eq_none (by simpa using hi)]

namespace Shape

lemma loop {test : List Op} {back : Int → Op} (hbody : Shape p room loops 0 body 0 0)
    (hpost : Shape p room loops 0 post 0 0) (htest : Shape p room loops 0 (ops test) 0 (0 + c))
    (hback : BackJump p back c) : Shape p room loops 0 (ops (closeLoop body post test back)) 0 0 := by
  obtain ⟨f, hf0, hfn, -, hf⟩ := hbody
  obtain ⟨g, hg0, hgc, -, hg⟩ := hpost.append htest
  generalize hrest : post ++ ops test = rest at *
  have hlength : loopLength body post test = body.length + (rest.length + 1) := by
    rw [← hrest, loopLength, ops, List.length_append, List.length_map]
    omega
  have hopen : openLoop body post test back = body ++ (rest ++ [.op (back (-loopLength body post test))]) := by
    rw [openLoop, ← hrest, List.append_assoc post]
  rw [Shape, closeLoop_eq, ops, List.length_map, ← ops, length_closeFrom, length_openLoop, hlength]
  have hfg : f body.length = glue g (rest.length + 1) (fun _ => 0) 0 := by
    rw [hfn, glue_of_lt (Nat.succ_pos _), hg0]
  refine ⟨glue f body.length (glue g (rest.length + 1) fun _ => 0), (glue_of_le hfg (Nat.zero_le _)).trans hf0,
    by rw [glue_add, ← Nat.add_zero (rest.length + 1), glue_add], fun _ _ => Nat.zero_le _, fun {F exits o} hp hh he => ?_⟩
  rw [show o + (body.length + (rest.length + 1)) = o + body.length + rest.length + 1 by omega] at he ⊢
  set next := o + body.length with hnext
  have hbody : ∀ i ≤ body.length, F.height (o + i) = f i := fun i hi => by rw [hh i (by omega), glue_of_le hfg hi]
  have hrest' : ∀ i ≤ rest.length, F.height (next + i) = g i := fun i hi => by
    rw [hnext, Nat.add_assoc, hh _ (by omega), glue_add, glue_of_lt (by omega)]
  have hend : F.height (next + rest.length + 1) = 0 := by
    rw [show next + rest.length + 1 = o + (body.length + (rest.length + 1 + 0)) by omega, hh _ (by omega), glue_add,
      glue_add]
  have hstart : F.height o = 0 := (hbody 0 (Nat.zero_le _)).trans hf0
  have hagain : F.height next = 0 := (hrest' 0 (Nat.zero_le _)).trans hg0
  -- the jumps lead to the end, to what follows the body, and back to the start
  let ends : Int → Prop := fun t => (exits t ∨ t = (next + rest.length + 1 : Nat)) ∨ t = o
  have hends {s e : Nat} (hs : o ≤ s) (he' : e ≤ next + rest.length + 1) : Avoids ends s e :=
    .or (.or (fun t ht => (he t ht).imp (by omega) (by omega)) (.inr he')) (.inl hs)
  have hplaced : Placed F (fun t => ends t ∨ t = next) o (openLoop body post test back) := by
    refine .of_close hp (fun i _ hop hz => .jump hop ?_ (hend.trans hz.symm) (.inr (.inl (.inl (.inr rfl))))) ?_ (.inr rfl)
    · push_cast [hnext]
      ring
    · exact hagain
  rw [hopen] at hplaced
  obtain ⟨hpbody, hp⟩ := along_append.mp hplaced
  obtain ⟨hprest, hpback⟩ := along_append.mp hp
  have hback : F.Good ends (next + rest.length) (next + rest.length + 1) :=
    hback (along_singleton.mp hpback) (by rw [hlength]; push_cast [hnext]; ring) ((hrest' _ le_rfl).trans (hgc.trans (Nat.zero_add c)))
      hend hstart (.inr rfl)
  have hround := (hf hpbody hbody ((hends le_rfl (by omega)).or (.inr le_rfl))).append
    (hg hprest hrest' ((hends (by omega) (by omega)).or (.inl le_rfl))) (by omega) (by omega)
    ((hends le_rfl (by omega)).or (.inr le_rfl)) ((hends (by omega) (by omega)).or (.inl le_rfl))
  have hround : F.Good ends o (next + rest.length) := hround.imp fun t ht => ht.symm.imp_left (by omega)
  refine (hround.append hback (by omega) (by omega) (hends le_rfl (by omega)) .one).imp ?_
  rintro t ((ht | rfl) | rfl)
  · exact .inr ht
  · exact .inl (by omega)
  · exact .inl (by omega)

/-- A loop over an array: all of its body is new, and its start is the only way in. -/
lemma forIn (hbody : Shape p room loops 0 body 0 0)
    (hvar : var.WellFormed p room) (harray : array.WellFormed p room)
    (hloops : loops var array body.length (closeForIn body).toArray) :
    Shape p room loops 0 (ops (.forIn var array body.length :: closeForIn body)) 0 0 := by
  obtain ⟨f, hf0, hfn, -, hf⟩ := hbody
  have hlength : (closeForIn body).length = body.length := length_closeFrom
  rw [Shape, ops, List.length_map, List.length_cons, hlength, Nat.add_comm]
  refine ⟨glue (fun _ => 0) 1 f, rfl, (glue_add _).trans hfn, fun _ _ => Nat.zero_le _, fun {F exits o} hp hh _ => ?_⟩
  obtain ⟨hop, hp⟩ := along_cons.mp hp
  rw [← Nat.add_assoc]
  have hstart : F.height o = 0 := hh 0 (Nat.zero_le _)
  have hround : ∀ i ≤ body.length, F.height (o + 1 + i) = f i := fun i hi => by
    rw [Nat.add_assoc, hh _ (by omega), glue_add]
  have hend : F.height (o + 1 + body.length) = 0 := (hround _ le_rfl).trans hfn
  have hplaced : Placed F (fun t => t = (o + 1 + body.length : Nat)) (o + 1) body := by
    refine .of_close hp (fun i hi hbreak hz => .single hbreak ⟨trivial, Nat.zero_le _, by simp [Op.targets],
      fun _ => hz, by simp, fun _ => ⟨o, _, ⟨var, array, hop⟩, by omega, by omega⟩, by simp, by simp⟩ (by simp)
      (by simp [Op.targets])) hend rfl
  have hgood := hf hplaced hround fun t ht => .inr (by omega)
  have htargets {t : Int} (ht : t ∈ (Op.forIn var array body.length).targets o) :
      t = (o + 1 : Nat) ∨ t = (o + 1 + body.length : Nat) := by
    simpa only [Op.targets, List.mem_cons, List.not_mem_nil, or_false, Nat.cast_add, Nat.cast_one] using ht
  have hfine : F.Fine o (.forIn var array body.length) := by
    refine ⟨⟨hvar, harray⟩, Nat.zero_le _, fun t ht => ?_, fun _ => hstart, ?_, by simp, by simp, by simp⟩
    · rcases htargets ht with rfl | rfl
      · exact ⟨by omega, by rw [Int.toNat_natCast, hround 0 (Nat.zero_le _), hf0, hstart]; rfl⟩
      · exact ⟨by omega, by rw [Int.toNat_natCast, hend, hstart]; rfl⟩
    · rintro _ _ _ ⟨⟩
      rwa [extract_of_placed hp hlength]
  have hfirst {op : Op} (h : F.code[o]? = some op) : op = .forIn var array body.length :=
    Option.some.inj (h.symm.trans hop)
  have hedge {pc : Nat} {t : Int} (hle : o ≤ pc) (hlt : pc < o + 1 + body.length) (he : F.code.Edge pc t) :
      (pc = o ∧ (t = (o + 1 : Nat) ∨ t = (o + 1 + body.length : Nat))) ∨
        (o + 1 ≤ pc ∧ o + 1 ≤ t ∧ t ≤ (o + 1 + body.length : Nat)) := by
    rcases Nat.eq_or_lt_of_le hle with rfl | hle
    · obtain ⟨op, hop', ht⟩ := he
      exact .inl ⟨rfl, htargets (hfirst hop' ▸ ht)⟩
    · exact .inr ⟨hle, (hgood.edges hle hlt he).elim id (by omega)⟩
  have hloop {i n : Nat} (hle : o ≤ i) (hlt : i < o + 1 + body.length) (hl : F.code.LoopAt i n) :
      (i = o ∧ n = body.length) ∨ (o + 1 ≤ i ∧ i + n < o + 1 + body.length) := by
    rcases Nat.eq_or_lt_of_le hle with rfl | hle
    · obtain ⟨_, _, hi⟩ := hl
      exact .inl ⟨rfl, (Op.forIn.inj (hfirst hi)).2.2⟩
    · exact .inr ⟨hle, hgood.loops hle hlt hl⟩
  refine ⟨fun {pc} hle hlt => ?_, fun hle hlt he => ?_, fun hle hlt hl => ?_,
    fun {i n pc t} hi hi' hl hpc hpc' hne he => ?_⟩
  · rcases Nat.eq_or_lt_of_le hle with rfl | hle
    · exact ⟨_, hop, hfine⟩
    · exact hgood.fine hle hlt
  · have := hedge hle hlt he
    exact .inl (by omega)
  · have := hloop hle hlt hl
    omega
  · have hedge := hedge hpc hpc' he
    rcases hloop hi hi' hl with ⟨rfl, rfl⟩ | ⟨hi, hin⟩
    · omega
    · rcases hedge with ⟨rfl, ht⟩ | ⟨hpc, -⟩
      · omega
      · exact hgood.around hi hi' hl hpc hpc' hne he

end Shape

/-! ## Whole blocks -/

namespace Shape

/-- A block of pieces as a whole. -/
lemma good (hx : Shape p room loops low xs a b) : ∃ F : Frame p room loops, F.code = (xs.map Piece.settled).toArray ∧
    F.height 0 = a ∧ F.height xs.length = b ∧ (∀ i ≤ xs.length, low ≤ F.height i) ∧
      F.Good (fun _ => False) 0 xs.length := by
  obtain ⟨f, ha, hb, hlow, hf⟩ := hx
  refine ⟨⟨_, f⟩, rfl, ha, hb, hlow,
    Nat.zero_add xs.length ▸ hf (fun i x hi => ?_) (fun i _ => congrArg f (Nat.zero_add i)) nofun⟩
  have hop : (xs.map Piece.settled).toArray[0 + i]? = some x.settled := by
    rw [List.getElem?_toArray, List.getElem?_map, Nat.zero_add, hi]
    rfl
  cases x with
  | op op => exact hop
  | leave | again => exact fun h₀ h₁ => .jump hop (by push_cast; ring) (h₁.trans h₀.symm) (.inl rfl)

end Shape

namespace Frame.Good

variable {n : Nat}

lemma fine_of (hgood : F.Good exits 0 n) (hn : F.code.size = n) (hop : F.code[pc]? = some op) : F.Fine pc op := by
  obtain ⟨op', hop', hfine⟩ := hgood.fine (Nat.zero_le pc) (hn ▸ (Array.getElem?_eq_some_iff.mp hop).1)
  obtain rfl := Option.some.inj (hop.symm.trans hop')
  exact hfine

/-- Behind the array arguments of a call there is no other one: it would belong to a call among them, or
to one before. -/
lemma args_end (hgood : F.Good exits 0 n) (hn : F.code.size = n) {f count : Nat}
    (hpc : F.code[pc]? = some (.callUser f count)) (a : ArrayRef) : F.code[pc + 1 + count]? ≠ some (.arrayArg a) := by
  intro h
  obtain ⟨i, g, k, hi, hb⟩ := (hgood.fine_of hn h).argsOf rfl
  rw [InBody] at hb
  rcases Nat.lt_trichotomy i pc with hlt | rfl | hlt
  · obtain ⟨r, hr⟩ := ((hgood.fine_of hn hi).args rfl).1 (pc - i - 1) (by omega)
    rw [show i + 1 + (pc - i - 1) = pc by omega, hpc] at hr
    cases hr
  · rw [hpc] at hi
    cases hi
    omega
  · obtain ⟨r, hr⟩ := ((hgood.fine_of hn hpc).args rfl).1 (i - pc - 1) (by omega)
    rw [show pc + 1 + (i - pc - 1) = i by omega, hi] at hr
    cases hr

end Frame.Good

/-- A block that is put together from parts passes the verifier. -/
theorem Shape.verified {final : Nat} (hx : Shape p room loops 0 xs 0 final) :
    ∃ height, Code.Verified p room final (xs.map Piece.settled).toArray height := by
  obtain ⟨F, hcode, hstart, hend, -, hgood⟩ := hx.good
  rw [← hcode]
  have hsize : F.code.size = xs.length := by simp [hcode]
  have hlt {pc : Nat} {op : Op} (h : F.code[pc]? = some op) : pc < xs.length :=
    hsize ▸ (Array.getElem?_eq_some_iff.mp h).1
  have hfine {pc : Nat} {op : Op} (h : F.code[pc]? = some op) : F.Fine pc op := hgood.fine_of hsize h
  have haround {i n pc : Nat} {t : Int} : F.code.LoopAt i n → pc ≠ i → F.code.Edge pc t →
      (i < pc ∧ pc ≤ i + n ∧ i < t ∧ t ≤ i + n + 1) ∨ ((pc ≤ i ∨ i + n < pc) ∧ (t ≤ i ∨ i + n < t)) := by
    rintro ⟨var, a, hi⟩ hne ⟨op, hop, ht⟩
    exact hgood.around (Nat.zero_le i) (hlt hi) ⟨var, a, hi⟩ (Nat.zero_le pc) (hlt hop) hne ⟨op, hop, ht⟩
  refine ⟨F.height, ?_⟩
  constructor
  case wellFormed =>
    intro op hop
    obtain ⟨pc, hpc⟩ := Array.mem_iff_getElem?.mp hop
    exact (hfine hpc).wellFormed
  case starts => exact hstart
  case ends => rw [hsize, hend]
  case enough => exact fun hpc => (hfine hpc).enough
  case edges =>
    intro pc op t hpc ht
    obtain ⟨hnonneg, hheight⟩ := (hfine hpc).heights t ht
    refine ⟨hnonneg, ?_, hheight⟩
    rw [hsize]
    exact ((hgood.edges (Nat.zero_le pc) (hlt hpc) ⟨op, hpc, ht⟩).resolve_right id).2
  case loops =>
    rintro i n ⟨var, a, hi⟩
    rw [hsize]
    exact hgood.loops (Nat.zero_le i) (hlt hi) ⟨var, a, hi⟩
  case stays =>
    intro i n pc t hl hb he
    rw [InBody] at hb
    have := haround hl (by omega) he
    omega
  case enters =>
    intro i n pc t hl hb hi he
    rw [InBody] at hb
    have := haround hl hi he
    omega
  case breaks =>
    refine fun hpc => ⟨(hfine hpc).breaks rfl, fun {i n} ⟨var, a, hi⟩ _ => ?_⟩
    rw [(hfine hpc).low rfl, (hfine hi).low rfl]
  case arrayArgs => exact fun hpc => ⟨((hfine hpc).args rfl).1, hgood.args_end hsize hpc⟩
  case scalarArgs => exact fun hpc => ((hfine hpc).args rfl).2

lemma Shape.covers (h : Shape p room loops low xs a b) {code : Code} (hcode : code = (xs.map Piece.settled).toArray)
    {i : Nat} (hi : code[i]? = some (.forIn var array n)) :
    loops var array n (code.extract (i + 1) (i + 1 + n)) := by
  obtain ⟨F, hF, -, -, -, hgood⟩ := h.good
  rw [hcode, ← hF] at hi ⊢
  exact (hgood.fine_of (by simp [hF]) hi).forIns rfl

/-- Code that stands above a value has no loops over arrays. -/
lemma Shape.not_isLoop (h : Shape p room loops (low + 1) xs a b) : ∀ op, .op op ∈ xs → op.isLoop = false := by
  intro op hop
  obtain ⟨F, hcode, -, -, hlow, hgood⟩ := h.good
  obtain ⟨i, hi⟩ := List.mem_iff_getElem?.mp hop
  have hfine := hgood.fine_of (by simp [hcode]) (show F.code[i]? = some op by simp [hcode, hi, Piece.settled])
  have hpos := hlow i (List.getElem?_eq_some_iff.mp hi).1.le
  by_contra hloop
  have hzero := hfine.low (Bool.not_eq_false _ ▸ hloop)
  omega

end Awk.Compile
