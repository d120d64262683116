import Awk.Machine.Exec
import Awk.Proofs.Code.Verified
import Awk.Proofs.Machine.Context
import Awk.Proofs.Record.Eager
import Awk.Proofs.Text.Part

/-!
# What operations are composed of

Whatever a machine does is put together from changes of the machine, a few operations on patterns and variables by
their names, and services of the world outside.  Which changes there may be is the manner of an operation: what they do
not look at, and what they leave as it is.  What holds of the parts and goes over to the whole holds of every operation
of that manner.
-/

namespace Awk

open Regex (Pattern PatternCache RegexError)

/-! ## Parts of a machine -/

/-- What commands and written files change outside a program, and what tells of them. -/
structure Outside where
  files : Std.TreeMap String ByteArray
  directories : List String
  deeds : List Deed

/-- What there is outside a program, as far as commands and written files matter. -/
def World.outside (w : World) : Outside := ⟨w.files, w.directories, w.deeds⟩

/-- What of a machine only calls and assignments to separators change. -/
structure Core where
  program : Program
  config : Config
  regexes : Array Pattern
  keyOrder : KeyOrder
  base : Nat
  frames : List (Array Nat)
  globalCount : Nat
  arrayCount : Nat
  fs : String
  rs : String
  fieldSep : FieldSep
  recordSep : RecordSep
  paragraph : Bool
  cache : PatternCache
  /-- What the native functions do; it is given by the host. -/
  responders : Array (Option (List (List Value) → List Value → Except String Value))

/-- What of a machine only output and other streams than the main input change. -/
structure Reach where
  output : Output
  outputs : Std.TreeMap String OutputStream
  inputs : Std.TreeMap String InputStream
  outside : Outside

namespace Machine

def core (m : Machine) : Core where
  program := m.program
  config := m.config
  regexes := m.regexes
  keyOrder := m.keyOrder
  base := m.base
  frames := m.frames
  globalCount := m.globals.size
  arrayCount := m.arrays.size
  fs := m.specials.fs
  rs := m.specials.rs
  fieldSep := m.record.sep
  recordSep := m.recordSep
  paragraph := m.record.paragraph
  cache := m.cache
  responders := m.natives.map (·.map (·.respond))

def reach (m : Machine) : Reach := ⟨m.output, m.streams.outputs, m.streams.inputs, m.world.outside⟩

def withCache (m : Machine) (cache : PatternCache) : Machine := { m with cache }

/-- A machine with another context and other patterns that are kept. -/
def aside (context : Context → Context) (cache : PatternCache → PatternCache) (m : Machine) : Machine :=
  { m.within (context m.context) with cache := cache m.cache }

variable {m n : Machine}

lemma outline_eq_of_core (h : n.core = m.core) : n.outline = m.outline :=
  congrArg (fun c : Core => (⟨c.program, c.regexes, c.globalCount, c.arrayCount⟩ : Outline)) h

/-- A record with the same separators may take the place of the current one. -/
lemma core_record {record : Record} (hsep : record.sep = m.record.sep)
    (hparagraph : record.paragraph = m.record.paragraph) : ({ m with record } : Machine).core = m.core := by
  simp only [core, hsep, hparagraph]

lemma core_globals (i : Nat) (value : Value) :
    ({ m with globals := m.globals.setIfInBounds i value } : Machine).core = m.core := by
  simp only [core, Array.size_setIfInBounds]

lemma core_arrays (slot : Nat) (value : ArrayValue) :
    ({ m with arrays := m.arrays.setIfInBounds slot value } : Machine).core = m.core := by
  simp only [core, Array.size_setIfInBounds]

/-- A native function remembers a call. -/
def remember (m : Machine) (i : Nat) (args : List Value) : Machine :=
  { m with natives := m.natives.modify i (·.map fun native => { native with earlier := args :: native.earlier }) }

lemma core_remember (i : Nat) (args : List Value) : (m.remember i args).core = m.core := by
  have hsame : (m.remember i args).natives.map (·.map (·.respond)) = m.natives.map (·.map (·.respond)) := by
    refine Array.ext_getElem? fun j => ?_
    simp only [remember, Array.getElem?_map, Array.getElem?_modify]
    split_ifs <;> simp [Function.comp_def]
  simp only [core, remember] at hsame ⊢
  rw [hsame]

end Machine

/-! ## Reading changes nothing outside -/

lemma Buffer.read_keeps {σ ε : Type} {supply : Supply σ ε} {I : σ → Prop}
    (hpull : ∀ s, I s → I (supply.pull s).2) (sep : RecordSep) (b : Buffer) {s : σ} (hs : I s) :
    I (b.read supply sep s).2.2 := by
  have hfill (b : Buffer) {s : σ} (hs : I s) : I (b.fill supply s).2.2 := by
    have h := hpull s hs
    rw [fill]
    split
    · exact hs
    · split <;> simp_all
  have hmore (fuel : Nat) (b : Buffer) {s : σ} (hs : I s) : I (b.readMore supply sep fuel s).2.2 := by
    induction fuel generalizing b s with
    | zero => exact hs
    | succ fuel ih =>
      have h := hfill (b.skipped sep) hs
      rw [readMore]
      split
      · simp_all
      · simp_all
      · rename_i heq
        rw [heq] at h
        split
        · exact h
        · exact ih _ h
  rw [read]
  split
  · exact hs
  · exact hmore _ _ hs

lemma Source.pull_outside (s : World × Source) : (Source.pull s).2.1.outside = s.1.outside := by
  obtain ⟨w, source⟩ := s
  cases source <;> rfl

lemma Source.openFile_outside (w : World) (name : String) : (Source.openFile w name).2.outside = w.outside := by
  rw [Source.openFile]
  split <;> rfl

lemma Input.read_outside (i : Input) (w : World) (sep : RecordSep) : (i.read w sep).2.1.outside = w.outside :=
  Buffer.read_keeps (fun s hs => (Source.pull_outside s).trans hs) sep i.buffer
    (I := fun s => s.1.outside = w.outside) rfl

/-! ## Patterns that are looked up -/

/-- What is looked up for a text is known without the patterns that are kept, or made from the one of the text. -/
inductive Finds {α : Type} (text : String) : (PatternCache → Except RegexError α × PatternCache) → Prop
  | known (r : Except RegexError α) : Finds text fun cache => (r, cache)
  | pattern (g : Pattern → α) : Finds text fun cache => ((cache.get text).1.map g, (cache.get text).2)

lemma Regex.PatternCache.finds (text : String) : Finds text (PatternCache.get · text) := by
  have hid : (PatternCache.get · text) = fun cache => ((cache.get text).1.map id, (cache.get text).2) := by
    funext cache
    rcases cache.get text with ⟨_ | _, _⟩ <;> rfl
  rw [hid]
  exact .pattern id

lemma FieldSep.finds (text : String) : Finds text (FieldSep.ofText · text) := by
  unfold FieldSep.ofText
  split <;> constructor

lemma RecordSep.finds (text : String) : Finds text (RecordSep.ofText · text) := by
  unfold RecordSep.ofText
  split <;> constructor

namespace Run

variable {α β : Type}

lemma lookUp_apply (find : PatternCache → Except RegexError α × PatternCache) (m : Machine) :
    lookUp find m = match (find m.cache).1 with
      | .error _ => .error (.error .regex) (m.withCache (find m.cache).2)
      | .ok a => .ok a (m.withCache (find m.cache).2) := by
  rw [lookUp, get_bind_apply]
  rcases find m.cache with ⟨_ | a, cache⟩ <;> rfl

/-! ## Runs that are alike -/

/-- From machines with a property two runs are the same, and the property stays. -/
def Alike (I : Machine → Prop) (x y : Run α) : Prop := ∀ m, I m → x m = y m ∧ I (x m).state

/-- A run after which a property stays. -/
abbrev Keeping (I : Machine → Prop) (x : Run α) : Prop := Alike I x x

variable {x : Run α} {f : α → Run β} {i : Nat}

namespace Alike

variable {I : Machine → Prop}

lemma pure (a : α) : Alike I (Pure.pure a : Run α) (Pure.pure a) := fun _ hm => ⟨rfl, hm⟩

lemma throw (f : Fault) : Alike I (MonadExcept.throw f : Run α) (MonadExcept.throw f) := fun _ hm => ⟨rfl, hm⟩

lemma fail (e : RunError) : Alike I (Run.fail e : Run α) (Run.fail e) := .throw _

variable {y : Run α} {g : α → Run β}

lemma bind_of (hx : Alike I x y)
    (hf : ∀ m a m', I m → x m = .ok a m' → Alike I (f a) (g a)) : Alike I (x >>= f) (y >>= g) := by
  intro m hm
  obtain ⟨hxy, hI⟩ := hx m hm
  rw [bind_apply, bind_apply, ← hxy]
  cases hr : x m with
  | ok a m' =>
    rw [hr] at hI
    exact hf m a m' hm hr m' hI
  | error f m' =>
    rw [hr] at hI
    exact ⟨rfl, hI⟩

lemma bind (hx : Alike I x y) (hf : ∀ a, Alike I (f a) (g a)) :
    Alike I (x >>= f) (y >>= g) := hx.bind_of fun _ a _ _ _ => hf a

lemma get_bind {f g : Machine → Run β} (h : ∀ m, I m → Alike I (f m) (g m)) :
    Alike I (get >>= f : Run β) (get >>= g) := fun m hm => h m hm m hm

lemma read {f : Machine → Run β} (h : ∀ m, I m → I (EStateM.run (f m) m).state) : Keeping I (get >>= f) :=
  fun m hm => ⟨rfl, h m hm⟩

lemma modifyGet {f : Machine → α × Machine} (h : ∀ m, I m → I (f m).2) : Keeping I (modifyGet f : Run α) :=
  fun m hm => ⟨rfl, h m hm⟩

lemma modify {f : Machine → Machine} (h : ∀ m, I m → I (f m)) : Keeping I (modify f : Run Unit) :=
  modifyGet h

lemma forM {f : α → Run Unit} {l : List α} (hf : ∀ a ∈ l, Keeping I (f a)) : Keeping I (l.forM f) := by
  induction l with
  | nil => exact .pure ()
  | cons a l ih => exact (hf a List.mem_cons_self).bind fun _ => ih fun b hb => hf b (List.mem_cons_of_mem a hb)

lemma mapM (hf : ∀ a, Keeping I (f a)) (l : List α) : Keeping I (l.mapM f) := by
  induction l with
  | nil => exact .pure []
  | cons a l ih =>
    rw [List.mapM_cons]
    exact (hf a).bind fun _ => ih.bind fun _ => .pure _

lemma attempt {x y : Run α} (h : Alike I x y) : Alike I (attempt x) (attempt y) := by
  intro m hm
  obtain ⟨hxy, hI⟩ := h m hm
  rw [Run.attempt, Run.attempt, ← hxy]
  cases hr : x m with
  | ok a m' | error f m' =>
    rw [hr] at hI
    exact ⟨rfl, hI⟩

lemma resume (r : Except Fault α) : Keeping I (resume r) := by
  cases r with
  | ok a => exact .pure a
  | error f => exact .throw f

end Alike

/-! ## Manners -/

/-- Assigns a variable of the program by its name, if there is one. -/
def assignGlobal (name : String) (value : Value) : Run Unit := do
  let m ← get
  match m.program.scalarNames.findIdx? (· == name) with
  | some i => setScalar (.global i) value
  | none => pure ()

/-- Operations on patterns, and on variables by their names. -/
inductive Primitive : {α : Type} → Run α → Prop
  | lookUp {α : Type} {text : String} {find : PatternCache → Except RegexError α × PatternCache} (h : Finds text find) :
      Primitive (lookUp find)
  | setFieldSep (fs : String) : Primitive (setFieldSep fs)
  | setRecordSep (rs : String) : Primitive (setRecordSep rs)
  | argument (i : Nat) : Primitive (argument i)
  | assignGlobal (name : String) (value : Value) : Primitive (assignGlobal name value)

/-- Operations on streams other than the main input, and commands. -/
inductive Service : {α : Type} → Run α → Prop
  | readRecord {source : GetlineSource} (h : source ≠ .main) (name : String) : Service (readRecord source name)
  | writeText (dest : Option (RedirectKind × String)) (text : String) : Service (writeText dest text)
  | closeStream (name : String) : Service (closeStream name)
  | flushStream (name : Option String) : Service (flushStream name)
  | runCommand (command : String) : Service (runCommand command)

/-- A manner in which operations work. -/
structure Manner where
  {Shift Part : Type}
  /-- Changes of the machine that make no difference. -/
  shift : Shift → Machine → Machine
  part : Machine → Part
  fault : Fault → Prop
  primitives : Prop
  services : Prop

/-- What is put together from parts in a manner. -/
inductive Composed (k : Manner) : {α : Type} → Run α → Prop
  | pure {α : Type} (a : α) : Composed k (Pure.pure a : Run α)
  | throw {α : Type} {f : Fault} (h : k.fault f) : Composed k (MonadExcept.throw f : Run α)
  | modifyGet {α : Type} {f : Machine → α × Machine}
      (hf : ∀ m i, f (k.shift i m) = ((f m).1, k.shift i (f m).2)) (hk : ∀ m, k.part (f m).2 = k.part m) :
      Composed k (MonadStateOf.modifyGet f : Run α)
  | get_bind {β : Type} {f : Machine → Run β} (hf : ∀ m i, f (k.shift i m) = f m) (h : ∀ m, Composed k (f m)) :
      Composed k (get >>= f)
  | bind {α β : Type} {x : Run α} {f : α → Run β} (hx : Composed k x) (hf : ∀ a, Composed k (f a)) :
      Composed k (x >>= f)
  | attempt {α : Type} {x : Run α} (h : ∀ f, k.fault f) (hx : Composed k x) : Composed k (attempt x)
  | primitive {α : Type} {x : Run α} (h : k.primitives) (hx : Primitive x) : Composed k x
  | service {α : Type} {x : Run α} (h : k.services) (hx : Service x) : Composed k x

def Commutes (g : Machine → Machine) (x : Run α) : Prop := ∀ m, x (g m) = (x m).mapState g

namespace Composed

variable {k l : Manner} {x : Run α}

variable {e : RunError}

lemma fail (h : k.fault (.error e)) : Composed k (Run.fail e : Run α) := .throw h

lemma failIf (b : Bool) (h : k.fault (.error e)) :
    Composed k (if b then Run.fail e else Pure.pure () : Run Unit) := by
  cases b with
  | false => exact .pure ()
  | true => exact .fail h

lemma modify {f : Machine → Machine} (hf : ∀ m i, f (k.shift i m) = k.shift i (f m))
    (hk : ∀ m, k.part (f m) = k.part m) : Composed k (modify f : Run Unit) :=
  modifyGet (fun m i => by rw [hf]) hk

lemma forM {f : α → Run Unit} (hf : ∀ a, Composed k (f a)) (l : List α) : Composed k (l.forM f) := by
  induction l with
  | nil => exact .pure ()
  | cons a l ih => exact (hf a).bind fun _ => ih

lemma mapM (hf : ∀ a, Composed k (f a)) (l : List α) : Composed k (l.mapM f) := by
  induction l with
  | nil => exact .pure []
  | cons a l ih =>
    rw [List.mapM_cons]
    exact (hf a).bind fun _ => ih.bind fun _ => .pure _

lemma mono (hx : Composed k x) (hshift : ∀ j, ∃ i, l.shift j = k.shift i)
    (hpart : ∀ {m n}, k.part n = k.part m → l.part n = l.part m) (hfault : ∀ f, k.fault f → l.fault f)
    (hprimitives : k.primitives → l.primitives) (hservices : k.services → l.services) : Composed l x := by
  induction hx with
  | pure a => exact .pure a
  | throw h => exact .throw (hfault _ h)
  | modifyGet hf hk =>
    refine .modifyGet (fun m j => ?_) fun m => hpart (hk m)
    obtain ⟨i, hi⟩ := hshift j
    rw [hi]
    exact hf m i
  | get_bind hf _ ih =>
    refine .get_bind (fun m j => ?_) ih
    obtain ⟨i, hi⟩ := hshift j
    rw [hi]
    exact hf m i
  | bind _ _ ihx ihf => exact ihx.bind ihf
  | attempt h _ ih => exact .attempt (fun f => hfault f (h f)) ih
  | primitive h hx => exact .primitive (hprimitives h) hx
  | service h hx => exact .service (hservices h) hx

/-- A property that looks only at what stays is kept, if primitives and services keep it. -/
lemma keeps {I : Machine → Prop} (hx : Composed k x) (hpart : ∀ {m n}, k.part n = k.part m → I m → I n)
    (hprimitives : k.primitives → ∀ {α : Type} {x : Run α}, Primitive x → Keeping I x)
    (hservices : k.services → ∀ {α : Type} {x : Run α}, Service x → Keeping I x) : Keeping I x := by
  induction hx with
  | pure a => exact .pure a
  | throw h => exact .throw _
  | modifyGet _ hk => exact .modifyGet fun m hm => hpart (hk m) hm
  | get_bind _ _ ih => exact .get_bind fun m _ => ih m
  | bind _ _ ihx ihf => exact ihx.bind ihf
  | attempt _ _ ih => exact ih.attempt
  | primitive h hx => exact hprimitives h hx
  | service h hx => exact hservices h hx

/-- What makes no difference makes none in the end, if it makes none to primitives and services. -/
lemma commutes {g : Machine → Machine} (hx : Composed k x) (hg : ∃ i, g = k.shift i)
    (hprimitives : k.primitives → ∀ {α : Type} {x : Run α}, Primitive x → Commutes g x)
    (hservices : k.services → ∀ {α : Type} {x : Run α}, Service x → Commutes g x) : Commutes g x := by
  obtain ⟨i, rfl⟩ := hg
  induction hx with
  | pure a | throw h => exact fun _ => rfl
  | @modifyGet _ f hf _ =>
    intro m
    change EStateM.Result.ok (f (k.shift i m)).1 (f (k.shift i m)).2 = _
    rw [hf]
    rfl
  | @get_bind _ f hf _ ih =>
    intro m
    change f (k.shift i m) (k.shift i m) = _
    rw [hf]
    exact ih m m
  | @bind _ _ x _ _ _ ihx ihf =>
    intro m
    rw [bind_apply, bind_apply, ihx m]
    cases x m with
    | ok a n => exact ihf a n
    | error e n => rfl
  | @attempt _ x _ _ ih =>
    intro m
    rw [Run.attempt, Run.attempt, ih m]
    cases x m <;> rfl
  | primitive h hx => exact hprimitives h hx
  | service h hx => exact hservices h hx

/-- What does not look at the context and leaves the outline alone is tame, if primitives and services are. -/
lemma tame_of (hx : Composed k x) (hshift : ∀ c, ∃ i, k.shift i = (·.within c))
    (hpart : ∀ {m n}, k.part n = k.part m → n.outline = m.outline) (hfault : ∀ f, k.fault f → f.Allowed)
    (hprimitives : k.primitives → ∀ {α : Type} {x : Run α}, Primitive x → Tame x)
    (hservices : k.services → ∀ {α : Type} {x : Run α}, Service x → Tame x) : Tame x := by
  induction hx with
  | pure a => exact .pure a
  | throw h => exact .throw (hfault _ h)
  | modifyGet hf hk =>
    refine .modifyGet (fun m c => ?_) fun m => hpart (hk m)
    obtain ⟨i, hi⟩ := hshift c
    have h := hf m i
    rwa [hi] at h
  | get_bind hf _ ih =>
    refine .get_bind (fun m c => ?_) ih
    obtain ⟨i, hi⟩ := hshift c
    have h := hf m i
    rwa [hi] at h
  | bind _ _ ihx ihf => exact ihx.bind ihf
  | attempt h _ _ => exact (hfault _ (h .outOfRange)).elim
  | primitive h hx => exact hprimitives h hx
  | service h hx => exact hservices h hx

end Composed

/-! ## Services -/

/-- An operation below the level of instructions: it looks neither at the context nor at the patterns that are kept, and
changes no more than what a record, a variable or the main input is about. -/
def Manner.routine (services : Prop) : Manner where
  Shift := (Context → Context) × (PatternCache → PatternCache)
  shift i := Machine.aside i.1 i.2
  part m := (m.core, m.reach)
  fault := Fault.Allowed
  primitives := True
  services := services

/-- An operation that looks neither at the context nor at the patterns that are kept, and leaves the core alone. -/
def Manner.plain : Manner where
  Shift := (Context → Context) × (PatternCache → PatternCache)
  shift i := Machine.aside i.1 i.2
  part := Machine.core
  fault := Fault.Allowed
  primitives := False
  services := False

abbrev Plain (x : Run α) : Prop := Composed .plain x

namespace Plain

lemma tame (hx : Plain x) : Tame x :=
  hx.tame_of (fun c => ⟨(fun _ => c, id), rfl⟩) Machine.outline_eq_of_core (fun _ => id) False.elim False.elim

lemma core_eq (hx : Plain x) (m : Machine) : (x m).state.core = m.core :=
  (hx.keeps (I := fun n => n.core = m.core) (fun h h' => h.trans h') False.elim False.elim m rfl).2

lemma aside (hx : Plain x) (context : Context → Context) (cache : PatternCache → PatternCache) :
    Commutes (Machine.aside context cache) x :=
  hx.commutes ⟨(context, cache), rfl⟩ False.elim False.elim

end Plain

lemma takeStdin_eq : takeStdin = modifyGet fun m : Machine =>
    (m.streams.stdin.elim .stdin .pieces, { m with streams := { m.streams with stdin := none } }) := by
  rw [takeStdin]
  congr 1
  funext m
  cases h : m.streams.stdin with
  | none => exact congrArg (fun stdin => (Source.stdin, { m with streams := { m.streams with stdin } })) h
  | some pieces => rfl

namespace Composed

variable {s : Prop}

/-! ## Values, variables and fields -/

lemma textOf (v : Value) : Composed (.routine s) (textOf v) := .get_bind (fun _ _ => rfl) fun _ => .pure _

lemma textArg (args : List Value) (i : Nat) : Composed (.routine s) (textArg args i) := textOf _

lemma fieldNumber (x : Float) : Composed (.routine s) (fieldNumber x) := by
  rw [Run.fieldNumber]
  split
  · exact .pure _
  · exact .fail trivial

lemma arith (op : Arith) (left right : Float) : Composed (.routine s) (arith op left right) := by
  cases op
  case div | mod =>
    rw [Run.arith]
    split
    · exact .fail trivial
    · exact .pure _
  all_goals exact .pure _

lemma formatted (args : List Value) : Composed (.routine s) (formatted args) := by
  cases args with
  | nil => exact .pure _
  | cons format rest =>
    refine .get_bind (fun _ _ => rfl) fun m => ?_
    dsimp only
    split
    · exact .pure _
    · exact .fail trivial

lemma modifySpecials {f : Specials → Specials} (hfs : ∀ s, (f s).fs = s.fs) (hrs : ∀ s, (f s).rs = s.rs) :
    Composed (.routine s) (modifySpecials f) := by
  refine .modify (fun _ _ => rfl) fun m => Prod.ext ?_ rfl
  simp only [Manner.routine, Machine.core, hfs, hrs]

/-- A record with the same separators takes the place of the current one. -/
lemma modifyRecord {f : Machine → α × Record} (hf : ∀ m i, f ((Manner.routine s).shift i m) = f m)
    (hsep : ∀ m, (f m).2.sep = m.record.sep) (hparagraph : ∀ m, (f m).2.paragraph = m.record.paragraph) :
    Composed (.routine s) (MonadStateOf.modifyGet fun m : Machine => ((f m).1, { m with record := (f m).2 })) := by
  refine .modifyGet (fun m i => ?_) fun m => Prod.ext (Machine.core_record (hsep m) (hparagraph m)) rfl
  rw [hf]
  rfl

lemma getSpecial (v : Special) : Composed (.routine s) (getSpecial v) := by
  cases v
  case nf =>
    exact modifyRecord (f := fun m => (Value.ofNat m.record.fieldCount.1, m.record.fieldCount.2)) (fun _ _ => rfl)
      (fun _ => Record.sep_ensureSplit _) fun _ => Record.paragraph_ensureSplit _
  all_goals exact .get_bind (fun _ _ => rfl) fun _ => .pure _

lemma setSpecial (v : Special) (value : Value) : Composed (.routine s) (setSpecial v value) := by
  refine .get_bind (fun _ _ => rfl) fun m => ?_
  cases v
  case nf =>
    exact (fieldNumber _).bind fun n => modifyRecord
      (f := fun m => ((), m.record.setFieldCount n m.specials.ofs)) (fun _ _ => rfl)
      (fun _ => Record.sep_ensureSplit _) fun _ => Record.paragraph_ensureSplit _
  case fs => exact .primitive trivial (.setFieldSep _)
  case rs => exact .primitive trivial (.setRecordSep _)
  all_goals exact modifySpecials (fun _ => rfl) fun _ => rfl

lemma getField (n : Nat) : Composed (.routine s) (getField n) := by
  refine modifyRecord
    (f := fun m => ((m.record.field? n).1.elim Value.null Value.input, (m.record.field? n).2)) (fun _ _ => rfl)
    (fun m => ?_) fun m => ?_
  · cases n with
    | zero => rfl
    | succ n => exact Record.sep_ensureSplit _
  · cases n with
    | zero => rfl
    | succ n => exact Record.paragraph_ensureSplit _

lemma setField (n : Nat) (value : Value) : Composed (.routine s) (setField n value) := by
  refine modifyRecord (f := fun m => ((), m.record.setField n (value.text m.specials.convfmt) m.specials.ofs))
    (fun _ _ => rfl) (fun m => ?_) fun m => ?_
  · cases n with
    | zero => rfl
    | succ n => exact Record.sep_ensureSplit _
  · cases n with
    | zero => rfl
    | succ n => exact Record.paragraph_ensureSplit _

lemma setArray (slot : Nat) (value : ArrayValue) : Composed (.routine s) (setArray slot value) :=
  .modify (fun _ _ => rfl) fun _ => Prod.ext (Machine.core_arrays slot value) rfl

lemma assignNamed (name value : String) : Composed (.routine s) (assignNamed name value) := by
  rw [Run.assignNamed]
  split
  · exact setSpecial _ _
  · exact .primitive trivial (.assignGlobal name _)

/-! ## Streams that are read -/

lemma modifyStreams {f : Streams → Streams} (houtputs : ∀ s, (f s).outputs = s.outputs)
    (hinputs : ∀ s, (f s).inputs = s.inputs) : Composed (.routine s) (modifyStreams f) := by
  refine .modify (fun _ _ => rfl) fun m => Prod.ext rfl ?_
  simp only [Manner.routine, Machine.reach, houtputs, hinputs]

lemma takeStdin : Composed (.routine s) takeStdin := by
  rw [takeStdin_eq]
  exact .modifyGet (fun _ _ => rfl) fun _ => rfl

lemma startMain (source : Source) : Composed (.routine s) (startMain source) :=
  .modify (fun _ _ => rfl) fun _ => rfl

lemma openSource (name : String) : Composed (.routine s) (openSource name) := by
  refine .modifyGet (fun _ _ => rfl) fun m => Prod.ext rfl ?_
  exact congrArg (Reach.mk m.output m.streams.outputs m.streams.inputs) (Source.openFile_outside m.world name)

lemma openOperand (name : String) : Composed (.routine s) (openOperand name) := by
  have hname : Composed (.routine s) (Run.modifySpecials fun s => { s with filename := name }) :=
    modifySpecials (fun _ => rfl) fun _ => rfl
  refine .bind (modifyStreams (fun _ => rfl) fun _ => rfl) fun _ => ?_
  split
  · exact takeStdin.bind fun _ => hname.bind fun _ => startMain _
  · refine (openSource name).bind fun result => ?_
    cases result with
    | error e => exact .fail trivial
    | ok source => exact hname.bind fun _ => startMain source

lemma openNext (bound : Nat) : Composed (.routine s) (openNext bound) := by
  induction bound with
  | zero => exact .pure _
  | succ bound ih =>
    refine .get_bind (fun _ _ => rfl) fun m => ?_
    split
    · refine .bind (modifyStreams (fun _ => rfl) fun _ => rfl) fun _ =>
        .bind (.primitive trivial (.argument _)) fun arg => ?_
      split
      · exact ih
      · split
        · exact (assignNamed _ _).bind fun _ => ih
        · exact (openOperand arg).bind fun _ => .pure _
    · split
      · exact .pure _
      · exact .bind (modifyStreams (fun _ => rfl) fun _ => rfl) fun _ => takeStdin.bind fun _ =>
          (startMain _).bind fun _ => .pure _

end Composed

lemma composed_setLine {s : Prop} (line : String) :
    Composed (.routine s) (modify fun m : Machine => { m with record := m.record.setLine line }) :=
  .modifyRecord (f := fun m => ((), m.record.setLine line)) (fun _ _ => rfl) (fun _ => rfl) fun _ => rfl

/-- What reading from the main input gives, unless there is none at the moment, and the machine after that. -/
def readMain (m : Machine) : Option (Except OsError (Option (String × String))) × Machine :=
  match m.streams.main with
  | none => (none, m)
  | some input =>
    let (result, world, left) := input.read m.world m.recordSep
    (some result, { m with world, streams := { m.streams with main := some left } })

/-- How the search for the next record goes on: at the end of an input with the next one. -/
def afterRead (bound : Nat) : Option (Except OsError (Option (String × String))) → Run (Option String)
  | none => do if ← openNext operandBound then nextRecord bound else return none
  | some (.error e) => fail (.io .reading e)
  | some (.ok none) => do
    skipFile
    if ← openNext operandBound then nextRecord bound else return none
  | some (.ok (some (record, rt))) => do
    modifySpecials fun s => { s with rt, nr := s.nr + 1, fnr := s.fnr + 1 }
    return some record

lemma nextRecord_succ (bound : Nat) : nextRecord (bound + 1) = modifyGet readMain >>= afterRead bound := by
  funext m
  change _ = afterRead bound (readMain m).1 (readMain m).2
  rw [Run.nextRecord, get_bind_apply, readMain]
  cases m.streams.main with
  | none => rfl
  | some input =>
    dsimp only
    obtain ⟨_ | _ | ⟨record, rt⟩, world, left⟩ := input.read m.world m.recordSep <;> rfl

def readInput (name : String) (stream : InputStream) (m : Machine) :
    Except OsError (Option (String × String)) × Machine :=
  let (result, world, input) := stream.input.read m.world m.recordSep
  (result, { m with
    world
    streams := { m.streams with inputs := m.streams.inputs.insert name { stream with input } } })

/-- What a record that was read from a stream means for the one who asked. -/
def answer (source : GetlineSource) : Except OsError (Option (String × String)) → Run (Float × Option String)
  | .error _ => return (-1, none)
  | .ok none => return (0, none)
  | .ok (some (record, rt)) => do
    modifySpecials fun s => { s with rt, nr := if source = .command then s.nr + 1 else s.nr }
    return (1, some record)

lemma readStream_eq (source : GetlineSource) (name : String) (stream : InputStream) :
    readStream source name stream = modifyGet (readInput name stream) >>= answer source := by
  funext m
  rw [readStream]
  change (EStateM.bind EStateM.get _ : Run (Float × Option String)) m =
    answer source (readInput name stream m).1 (readInput name stream m).2
  rw [readInput, EStateM.bind, EStateM.get]
  dsimp only
  obtain ⟨_ | _ | ⟨record, rt⟩, world, left⟩ := stream.input.read m.world m.recordSep <;> rfl

namespace Composed

variable {s : Prop}

lemma skipFile : Composed (.routine s) skipFile := modifyStreams (fun _ => rfl) fun _ => rfl

lemma nextRecord (bound : Nat) : Composed (.routine s) (nextRecord bound) := by
  induction bound with
  | zero => exact .pure _
  | succ bound ih =>
    have hopen : Composed (.routine s)
        (do if ← Run.openNext operandBound then Run.nextRecord bound else return none) := by
      refine (openNext operandBound).bind fun opened => ?_
      split
      · exact ih
      · exact .pure _
    rw [nextRecord_succ]
    refine .bind (.modifyGet (fun m _ => ?_) fun m => ?_) fun result => ?_
    · change (match m.streams.main with
        | none => _
        | some input => _ : Option (Except OsError (Option (String × String))) × Machine) = _
      rw [readMain]
      cases m.streams.main <;> rfl
    · rw [readMain]
      cases m.streams.main with
      | none => rfl
      | some input =>
        exact congrArg (fun o => (m.core, (⟨m.output, m.streams.outputs, m.streams.inputs, o⟩ : Reach)))
          (input.read_outside m.world m.recordSep)
    · obtain _ | _ | _ | ⟨record, rt⟩ := result
      · exact hopen
      · exact .fail trivial
      · exact skipFile.bind fun _ => hopen
      · exact .bind (modifySpecials (fun _ => rfl) fun _ => rfl) fun _ => .pure _

lemma nextMainRecord : Composed (.routine s) nextMainRecord := nextRecord operandBound

end Composed

/-! ## Services -/

namespace Plain

lemma modifyStreams (f : Streams → Streams) : Plain (modifyStreams f) := .modify (fun _ _ => rfl) fun _ => rfl

lemma takeStdin : Plain takeStdin := by
  rw [takeStdin_eq]
  exact .modifyGet (fun _ _ => rfl) fun _ => rfl

lemma openInput (source : GetlineSource) (name : String) : Plain (openInput source name) := by
  rw [Run.openInput]
  split
  · refine .get_bind (fun _ _ => rfl) fun m => ?_
    split
    · exact .fail trivial
    split
    · exact .bind (.modify (fun _ _ => rfl) fun _ => rfl) fun _ => .pure _
    · exact .pure _
  split
  · exact takeStdin.bind fun _ => .pure _
  · refine .bind (.modifyGet (fun _ _ => rfl) fun _ => rfl) fun result => ?_
    cases result with
    | error e | ok source => exact .pure _

lemma readStream (source : GetlineSource) (name : String) (stream : InputStream) :
    Plain (readStream source name stream) := by
  rw [readStream_eq]
  refine .bind (.modifyGet (fun _ _ => rfl) fun _ => rfl) fun result => ?_
  obtain _ | _ | ⟨record, rt⟩ := result
  · exact .pure _
  · exact .pure _
  · exact .bind (.modify (fun _ _ => rfl) fun _ => rfl) fun _ => .pure _

lemma readRecord {source : GetlineSource} (h : source ≠ .main) (name : String) : Plain (readRecord source name) := by
  rw [Run.readRecord, if_neg h]
  refine .get_bind (fun _ _ => rfl) fun m => ?_
  split
  · exact readStream _ _ _
  · refine (openInput source name).bind fun stream => ?_
    cases stream with
    | none => exact .pure _
    | some stream => exact readStream _ _ _

lemma writeOut (bytes : ByteArray) : Plain (writeOut bytes) := .modify (fun _ _ => rfl) fun _ => rfl

lemma openOutput (kind : RedirectKind) (name : String) : Plain (openOutput kind name) := by
  rw [Run.openOutput]
  split
  · exact .pure _
  refine .get_bind (fun _ _ => rfl) fun m => ?_
  split
  · exact .fail trivial
  split
  · split
    · exact .pure _
    · exact .fail trivial
  refine .bind (.modify (fun _ _ => rfl) fun _ => rfl) fun _ => ?_
  split
  · exact .fail trivial
  · exact .pure _

lemma writeStream (name : String) (stream : OutputStream) (bytes : ByteArray) :
    Plain (writeStream name stream bytes) := by
  refine .get_bind (fun _ _ => rfl) fun m => ?_
  cases stream with
  | stderr => exact .modify (fun _ _ => rfl) fun _ => rfl
  | pipe _ _ | file _ => exact .bind (.modify (fun _ _ => rfl) fun _ => rfl) fun _ => .failIf _ trivial

lemma writeText (dest : Option (RedirectKind × String)) (text : String) : Plain (writeText dest text) := by
  obtain _ | ⟨kind, name⟩ := dest
  · exact writeOut _
  rw [Run.writeText]
  split
  · exact writeOut _
  refine .get_bind (fun _ _ => rfl) fun m => ?_
  cases m.streams.outputs[name]? with
  | some stream => exact writeStream _ _ _
  | none => exact (openOutput kind name).bind fun stream => (modifyStreams _).bind fun _ => writeStream _ _ _

lemma endOutput (stream : OutputStream) : Plain (endOutput stream) := by
  refine .get_bind (fun _ _ => rfl) fun m => ?_
  cases stream with
  | stderr => exact .pure _
  | file f => exact .bind (.modify (fun _ _ => rfl) fun _ => rfl) fun _ => .pure _
  | pipe command written =>
    exact .bind (.modify (fun _ _ => rfl) fun _ => rfl) fun _ => (writeOut _).bind fun _ => .pure _

lemma closeStream (name : String) : Plain (closeStream name) := by
  refine .get_bind (fun _ _ => rfl) fun m => ?_
  dsimp only
  cases m.streams.outputs[name]? with
  | some stream => exact (modifyStreams _).bind fun _ => endOutput stream
  | none =>
    cases m.streams.inputs[name]? with
    | some stream => exact (modifyStreams _).bind fun _ => .pure _
    | none => exact .pure _

lemma flushOutput (name : String) (stream : OutputStream) : Plain (flushOutput name stream) := by
  cases stream with
  | stderr | pipe _ _ => exact .pure _
  | file f =>
    exact .get_bind (fun _ _ => rfl) fun _ => .bind (.modify (fun _ _ => rfl) fun _ => rfl) fun _ => .pure _

lemma flushAll : Plain flushAll :=
  .get_bind (fun _ _ => rfl) fun _ => .forM (fun (_, _) => (flushOutput _ _).bind fun _ => .pure _) _

lemma flushStream (name : Option String) : Plain (flushStream name) := by
  cases name with
  | none => exact flushAll.bind fun _ => .pure _
  | some name =>
    rw [Run.flushStream]
    split
    · exact .pure _
    refine .get_bind (fun _ _ => rfl) fun m => ?_
    cases m.streams.outputs[name]? with
    | some stream => exact flushOutput name stream
    | none => exact .pure _

lemma closeAll : Plain closeAll :=
  .get_bind (fun _ _ => rfl) fun _ => .bind
    (.forM (fun (_, _) => (modifyStreams _).bind fun _ => (endOutput _).bind fun _ => .pure _) _)
    fun _ => modifyStreams _

lemma runCommand (command : String) : Plain (runCommand command) := by
  refine .get_bind (fun _ _ => rfl) fun m => ?_
  split
  · exact .fail trivial
  refine flushAll.bind fun _ => ?_
  split
  · exact .get_bind (fun _ _ => rfl) fun m => .bind (.modify (fun _ _ => rfl) fun _ => rfl) fun _ =>
      (writeOut _).bind fun _ => .pure _
  · exact .pure _

end Plain

lemma Service.plain (hx : Service x) : Plain x := by
  cases hx with
  | readRecord h name => exact .readRecord h name
  | writeText dest text => exact .writeText dest text
  | closeStream name => exact .closeStream name
  | flushStream name => exact .flushStream name
  | runCommand command => exact .runCommand command

/-! ## Primitives -/

lemma findIdx?_lt {names : Array String} {name : String}
    (h : names.findIdx? (· == name) = some i) : i < names.size :=
  (Array.findIdx?_eq_some_iff_getElem.mp h).1

lemma tame_argument (i : Nat) : Tame (argument i) := by
  constructor
  · refine .get_bind (fun _ _ => rfl) fun m => ?_
    split
    · exact .pure _
    · split
      · exact .pure _
      · exact .throw _
  · intro m hm
    rw [KeepsAt, argument, get_bind_apply]
    cases hslot : namedArray m "ARGV" with
    | none => exact ⟨rfl, trivial⟩
    | some slot =>
      have hlt : slot < m.arrays.size := (findIdx?_lt hslot).trans_le hm.arrays
      dsimp only
      rw [Array.getElem?_eq_getElem hlt]
      exact ⟨rfl, trivial⟩

lemma tame_assignGlobal (name : String) (value : Value) : Tame (assignGlobal name value) := by
  constructor
  · refine .get_bind (fun _ _ => rfl) fun m => ?_
    split
    · refine .get_bind (fun _ _ => rfl) fun m => ?_
      split
      · exact fun _ _ => rfl
      · exact .throw _
    · exact .pure _
  · intro m hm
    change KeepsAt m (match m.program.scalarNames.findIdx? (· == name) with
      | some i => setScalar (.global i) value
      | none => Pure.pure ())
    split
    · rename_i i hi
      have hlt : i < m.globals.size := (findIdx?_lt hi).trans_eq hm.globals.symm
      change KeepsAt m (if i < m.globals.size then _ else _)
      rw [if_pos hlt]
      exact ⟨Machine.outline_eq_of_core (Machine.core_globals i value), trivial⟩
    · exact ⟨rfl, trivial⟩

lemma tame_lookUp (find : PatternCache → Except RegexError α × PatternCache) : Tame (lookUp find) := by
  refine .get_bind (fun _ _ => rfl) fun m => ?_
  split
  · exact .bind (.modify (fun _ _ => rfl) fun _ => rfl) fun _ => .fail trivial
  · exact .bind (.modify (fun _ _ => rfl) fun _ => rfl) fun _ => .pure _

lemma Primitive.tame (hx : Primitive x) : Tame x := by
  cases hx with
  | argument i => exact tame_argument i
  | assignGlobal name value => exact tame_assignGlobal name value
  | lookUp _ => exact tame_lookUp _
  | setFieldSep _ | setRecordSep _ => exact (tame_lookUp _).bind fun _ => .modify (fun _ _ => rfl) fun _ => rfl

namespace Composed

variable {s : Prop}

lemma tame (hx : Composed (.routine True) x) : Tame x :=
  hx.tame_of (fun c => ⟨(fun _ => c, id), rfl⟩) (fun h => Machine.outline_eq_of_core (congrArg Prod.fst h))
    (fun _ => id) (fun _ _ _ => Primitive.tame) fun _ _ _ hx => hx.plain.tame

/-! ## Functions -/

lemma pattern (source : String) : Composed (.routine s) (pattern source) :=
  .primitive trivial (.lookUp (Regex.PatternCache.finds source))

lemma writeText (dest : Option (RedirectKind × String)) (text : String) :
    Composed (.routine True) (writeText dest text) := .service trivial (.writeText dest text)

lemma readRecord (source : GetlineSource) (name : String) : Composed (.routine True) (readRecord source name) := by
  by_cases h : source = .main
  · rw [Run.readRecord, if_pos h]
    refine nextMainRecord.bind fun record => ?_
    cases record with
    | none | some record => exact .pure _
  · exact .service trivial (.readRecord h name)

lemma drawWith (next : Number.Random → Float × Number.Random) :
    Composed (.routine s) (MonadStateOf.modifyGet fun m : Machine =>
      match next m.random with
      | (x, random) => (Value.num x, { m with random }) : Run Value) :=
  .modifyGet (fun _ _ => rfl) fun _ => rfl

lemma reseed (seed : Option Value) : Composed (.routine s) (reseed seed) := .modifyGet (fun _ _ => rfl) fun _ => rfl

lemma callBuiltin {f : Builtin} (hf : f.IsPlain) (args : List Value) :
    Composed (.routine True) (callBuiltin f args) := by
  obtain ⟨hsplit, hsub, hgsub⟩ := hf
  cases f
  case split => exact absurd rfl hsplit
  case sub => exact absurd rfl hsub
  case gsub => exact absurd rfl hgsub
  case length =>
    rw [Run.callBuiltin]
    split
    · exact .get_bind (fun _ _ => rfl) fun _ => .pure _
    · exact (textArg _ _).bind fun _ => .pure _
  case index => exact (textArg _ _).bind fun _ => (textArg _ _).bind fun _ => .pure _
  case «match» =>
    exact (textArg _ _).bind fun _ => (textArg _ _).bind fun _ => (pattern _).bind fun _ =>
      .bind (modifySpecials (fun _ => rfl) fun _ => rfl) fun _ => .pure _
  case substr =>
    refine (textArg _ _).bind fun text => ?_
    split_ifs with hroom
    · obtain ⟨a, b, -, -, hpart⟩ := Text.substr_within (by rwa [String.length_toList])
        (numberArg args 1) (args[2]?.map Value.toNumber)
      rw [hpart]
      exact .pure _
    · exact .throw trivial
  case tolower | toupper => exact (textArg _ _).bind fun _ => .pure _
  case sprintf => exact (formatted _).bind fun _ => .pure _
  case rand => exact drawWith Number.Random.next
  case srand => exact reseed _
  case system => exact (textArg _ _).bind fun _ => .bind (.service trivial (.runCommand _)) fun _ => .pure _
  case close => exact (textArg _ _).bind fun _ => .bind (.service trivial (.closeStream _)) fun _ => .pure _
  case fflush =>
    cases args with
    | nil => exact .bind (.service trivial (.flushStream _)) fun _ => .pure _
    | cons v rest => exact (textOf _).bind fun _ => .bind (.service trivial (.flushStream _)) fun _ => .pure _
  all_goals exact .pure _

lemma separator (sep : Option Value) : Composed (.routine s) (separator sep) := by
  cases sep with
  | none => exact .get_bind (fun _ _ => rfl) fun _ => .pure _
  | some v => exact (textOf v).bind fun source => .primitive trivial (.lookUp (FieldSep.finds source))

lemma substitute (source replacement value : Value) (all : Bool) :
    Composed (.routine s) (substitute source replacement value all) := by
  refine (textOf _).bind fun _ => (pattern _).bind fun _ => (textOf _).bind fun _ => (textOf _).bind fun _ => ?_
  dsimp only
  split_ifs
  all_goals exact .pure _

end Composed

/-- What comes of a native function. -/
def nativeOutcome (name : String) : Except String Value → Run Value
  | .ok v => return v
  | .error message => fail (.nativeFunction name message)

lemma callNative_apply {native : Native} {m : Machine} (h : m.natives[i]?.join = some native)
    (args : List Value) :
    callNative i args m =
      nativeOutcome (m.program.nativeNames.getD i "") (native.respond native.earlier args) (m.remember i args) := by
  have hremember : m.remember i args =
      { m with natives := m.natives.setIfInBounds i (some { native with earlier := args :: native.earlier }) } := by
    refine congrArg (fun natives => { m with natives }) (Array.ext_getElem? fun j => ?_)
    rw [Array.getElem?_modify, Array.getElem?_setIfInBounds]
    split_ifs with hij hlt
    · subst hij
      rw [Option.join_eq_some_iff.1 h]
      rfl
    · rw [Array.getElem?_eq_none (by omega)]
      rfl
    · rfl
  rw [callNative, get_bind_apply, h, hremember]
  dsimp only
  cases native.respond native.earlier args <;> rfl

lemma callNative_eq (i : Nat) (args : List Value) :
    callNative i args = get >>= fun m =>
      match m.natives[i]?.join with
      | none => fail (.nativeFunction (m.program.nativeNames.getD i "") "no implementation registered")
      | some native => (modify fun m => m.remember i args) >>= fun _ =>
          nativeOutcome (m.program.nativeNames.getD i "") (native.respond native.earlier args) := by
  funext m
  cases h : m.natives[i]?.join with
  | none => rw [callNative, get_bind_apply, get_bind_apply, h]
  | some native =>
    rw [callNative_apply h, get_bind_apply, h]
    rfl

lemma Composed.callNative (i : Nat) (args : List Value) : Composed (.routine s) (callNative i args) := by
  rw [callNative_eq]
  refine .get_bind (fun _ _ => rfl) fun m => ?_
  split
  · exact .fail trivial
  · refine .bind (.modify (fun _ _ => rfl) fun _ => Prod.ext (Machine.core_remember i args) rfl) fun _ => ?_
    unfold nativeOutcome
    split
    · exact .pure _
    · exact .fail trivial

end Run

end Awk
