import Awk.Proofs.Machine.Separators

/-!
# Machines that are reset

A machine that is reset is a new one, whatever happened to it before, but for what the host has given to it and for the
patterns that are kept, of which no program learns.  One setting is in the way: the number of operands is assigned
before the variables that the host has set, so that one of them may have the name of that number.
-/

namespace Awk

open Regex (PatternCache)

/-! ## Patterns that are kept -/

/-- Two machines are the same but for the patterns that are kept, all of which are those of their texts. -/
structure Machine.SameButCache (m m' : Machine) : Prop where
  coherent : m.cache.Coherent
  coherent' : m'.cache.Coherent
  same : m' = m.withCache m'.cache

namespace Run

variable {α β : Type}

lemma Agrees.attempt {R : Machine → Machine → Prop} {x y : Run α} (h : Agrees R (fun _ => False) x y) :
    Agrees R (fun _ => False) (attempt x) (attempt y) := by
  intro m m' hm
  rw [Run.attempt, Run.attempt]
  cases hr : x m with
  | ok a n =>
    obtain ⟨n', hn', hn⟩ := h.ok hm hr
    rw [hn']
    exact ⟨n', rfl, hn⟩
  | error f n =>
    obtain ⟨n', hn', hn⟩ := (h.error hm hr).resolve_left id
    rw [hn']
    exact ⟨n', rfl, hn⟩

/-- An operation does not see which patterns are kept. -/
abbrev IgnoresCache (x : Run α) : Prop := Agrees Machine.SameButCache (fun _ => False) x x

lemma agrees_of_get {f : Machine → Run β} (hf : ∀ m cache, f (m.withCache cache) = f m)
    (h : ∀ m, IgnoresCache (f m)) : IgnoresCache (get >>= f) := by
  refine .get_bind fun m m' hm => ?_
  rw [hm.same, hf]
  exact h m

variable {x : Run α}

lemma Plain.agrees (hx : Plain x) : IgnoresCache x := by
  refine .of_mapState ?_
  rintro m m' ⟨hm, hm', hsame⟩
  have hcache : (x m).state.cache = m.cache := congrArg Core.cache (hx.core_eq m)
  exact ⟨Machine.aside id fun _ => m'.cache, hsame ▸ hx.aside id (fun _ => m'.cache) m, hcache ▸ hm, hm', rfl⟩

lemma agrees_lookUp {text : String} {find : PatternCache → Except Regex.RegexError α × PatternCache}
    (h : Finds text find) : IgnoresCache (lookUp find) := by
  rintro m m' ⟨hm, hm', hsame⟩
  obtain ⟨hfound, hcoherent⟩ := h.coherent hm
  obtain ⟨hfound', hcoherent'⟩ := h.coherent hm'
  rw [lookUp_apply, lookUp_apply, hfound, hfound']
  cases (find {}).1 with
  | error e => exact .inr ⟨_, rfl, hcoherent, hcoherent', by rw [hsame]; rfl⟩
  | ok a => exact ⟨_, rfl, hcoherent, hcoherent', by rw [hsame]; rfl⟩

lemma agrees_modify {f : Machine → Machine} (hf : ∀ m cache, f (m.withCache cache) = (f m).withCache cache) :
    IgnoresCache (modify f : Run Unit) := by
  refine .modify fun m m' hm => ?_
  have hcache (n : Machine) : (f n).cache = n.cache := (congrArg Machine.cache (hf n n.cache)).trans rfl
  refine ⟨hcache m ▸ hm.coherent, hcache m' ▸ hm.coherent', ?_⟩
  rw [hcache m']
  exact hm.same ▸ hf m m'.cache

lemma Primitive.agrees (hx : Primitive x) : IgnoresCache x := by
  cases hx with
  | argument i =>
    refine agrees_of_get (fun _ _ => rfl) fun m => ?_
    split
    · exact .pure _
    · split
      · exact .pure _
      · exact .throw _
  | assignGlobal name value =>
    refine agrees_of_get (fun _ _ => rfl) fun m => ?_
    split
    · refine agrees_of_get (fun _ _ => rfl) fun m => ?_
      split
      · exact agrees_modify fun _ _ => rfl
      · exact .throw _
    · exact .pure _
  | lookUp h => exact agrees_lookUp h
  | setFieldSep fs => exact (agrees_lookUp (FieldSep.finds fs)).bind fun _ => agrees_modify fun _ _ => rfl
  | setRecordSep rs => exact (agrees_lookUp (RecordSep.finds rs)).bind fun _ => agrees_modify fun _ _ => rfl

lemma Composed.agrees (hx : Composed .whole x) : IgnoresCache x := by
  induction hx with
  | pure a => exact .pure a
  | throw _ => exact .throw _
  | @modifyGet _ f hf _ =>
    rintro m m' ⟨hm, hm', hsame⟩
    have hn : (f m).2.cache = m.cache := congrArg (fun r : _ × Machine => r.2.cache) (hf m m.cache)
    refine ⟨(f m).2.withCache m'.cache, ?_, hn ▸ hm, hm', rfl⟩
    rw [hsame]
    exact congrArg (fun r : _ × Machine => EStateM.Result.ok r.1 r.2) (hf m m'.cache)
  | get_bind hf _ ih => exact agrees_of_get hf ih
  | bind _ _ ihx ihf => exact .bind ihx ihf
  | attempt _ _ ih => exact .attempt ih
  | primitive _ hx => exact hx.agrees
  | service _ hx => exact hx.plain.agrees

lemma Composed.fixture_eq (hx : Composed .whole x) (m : Machine) :
    (x m).state.fixture = m.fixture := by
  have hrobust : Robust (·.fixture = m.fixture) :=
    { quiet := fun h hcore _ => (Machine.fixture_eq_of_core hcore).trans h
      cache := fun _ h => h
      fieldSep := fun _ h => h
      recordSep := fun _ h => h }
  exact (hx.keeps (fun hpart h => (congrArg Prod.fst hpart).trans h) (fun _ _ _ hx => hrobust.primitive hx)
    (fun _ _ _ hx n hn => ⟨rfl, (Machine.fixture_eq_of_core (hx.plain.core_eq n)).trans hn⟩) m rfl).2

lemma runProgram_agrees (steps : Nat) : IgnoresCache (runProgram (exec steps · 0) steps) := by
  refine .bind (Composed.runParts (fun code => .exec steps code 0) steps).agrees.attempt fun r => ?_
  refine .bind Plain.closeAll.agrees fun _ => .bind (Composed.resume r (s := True)).whole.agrees fun _ => ?_
  exact agrees_of_get (fun _ _ => rfl) fun _ => .pure _

/-! ## Before a run -/

lemma runProgram_state (run : Code → Run Completion) (bound : Nat) (m : Machine) :
    (runProgram run bound m).state = (closeAll (runParts run bound m).state).state := by
  rw [runProgram, bind_apply, attempt]
  cases runParts run bound m with
  | ok a n =>
    change ((closeAll >>= fun _ => _) n : EStateM.Result Fault Machine Int).state = (closeAll n).state
    rw [bind_apply]
    cases closeAll n <;> rfl
  | error f n =>
    change ((closeAll >>= fun _ => _) n : EStateM.Result Fault Machine Int).state = (closeAll n).state
    rw [bind_apply]
    cases closeAll n <;> rfl

def operandArray (args : List String) : ArrayValue := (numberedArray args).insert "0" (.str "rawk")

end Run

lemma Special.name_of_ofName? {name : String} {v : Special} (h : Special.ofName? name = some v) : v.name = name := by
  have hname := List.find?_some h
  exact eq_of_beq hname

/-! ## What the host has given -/

namespace Machine

/-- The arrays of a machine, with another one under a name if the program has that. -/
def arraysWith (m : Machine) (name : String) (value : ArrayValue) : Array ArrayValue :=
  match Run.namedArray m name with
  | none => m.arrays
  | some slot => m.arrays.setIfInBounds slot value

def withArray (m : Machine) (name : String) (value : ArrayValue) : Machine :=
  { m with arrays := m.arraysWith name value }

/-- A machine with what another one has from its host, and with the operands of that one. -/
def supplied (m host : Machine) (argc : Float) : Machine :=
  { m with
    specials := { m.specials with argc }
    arrays := m.arraysWith "ARGV" (Run.operandArray host.args)
    streams := { m.streams with stdin := host.streams.stdin }
    output := host.output
    natives := host.natives
    args := host.args
    world := host.world }

variable {m host : Machine} {argc : Float}

variable {name name' : String}

lemma namedArray_inj {slot : Nat} (h : Run.namedArray m name = some slot) (h' : Run.namedArray m name' = some slot) :
    name = name' := by
  obtain ⟨_, hname, -⟩ := Array.findIdx?_eq_some_iff_getElem.mp h
  obtain ⟨_, hname', -⟩ := Array.findIdx?_eq_some_iff_getElem.mp h'
  exact (eq_of_beq hname).symm.trans (eq_of_beq hname')

lemma arraysWith_withArray (m : Machine) (name : String) (value value' : ArrayValue) :
    (m.withArray name value).arraysWith name value' = m.arraysWith name value' := by
  change (match Run.namedArray m name with
    | none => m.arraysWith name value
    | some slot => (m.arraysWith name value).setIfInBounds slot value') = _
  rw [arraysWith, arraysWith]
  cases Run.namedArray m name with
  | none => rfl
  | some slot => exact Array.setIfInBounds_setIfInBounds _

lemma arraysWith_comm (m : Machine) (hne : name ≠ name') (value value' : ArrayValue) :
    (m.withArray name value).arraysWith name' value' = (m.withArray name' value').arraysWith name value := by
  change (match Run.namedArray m name' with
    | none => m.arraysWith name value
    | some slot => (m.arraysWith name value).setIfInBounds slot value') = match Run.namedArray m name with
    | none => m.arraysWith name' value'
    | some slot => (m.arraysWith name' value').setIfInBounds slot value
  rw [arraysWith, arraysWith]
  cases hslot : Run.namedArray m name with
  | none => cases Run.namedArray m name' <;> rfl
  | some slot =>
    cases hslot' : Run.namedArray m name' with
    | none => rfl
    | some slot' => exact Array.setIfInBounds_comm _ _ fun heq => hne (namedArray_inj hslot (heq ▸ hslot'))

lemma supplied_supplied (m host host' : Machine) (argc argc' : Float) :
    (m.supplied host argc).supplied host' argc' = m.supplied host' argc' :=
  congrArg (fun arrays => { m.supplied host' argc' with arrays }) (arraysWith_withArray m "ARGV" _ _)

lemma withArray_supplied (hname : name ≠ "ARGV") (value : ArrayValue) :
    (m.supplied host argc).withArray name value = (m.withArray name value).supplied host argc :=
  congrArg (fun arrays => { m.supplied host argc with arrays }) (arraysWith_comm m hname.symm _ value)

lemma fits_supplied (hm : m.outline.Fits) : (m.supplied host argc).outline.Fits := by
  refine ⟨hm.globals, ?_⟩
  change m.program.arrayNames.size ≤ (m.arraysWith _ _).size
  rw [arraysWith]
  cases Run.namedArray m "ARGV" with
  | none => exact hm.arrays
  | some slot =>
    rw [Array.size_setIfInBounds]
    exact hm.arrays

end Machine

variable {vars : List (String × String)}

namespace Run

variable {host : Machine} {argc : Float}

/-- Assignments to special variables do not look at what the host has given. -/
lemma setSpecial_supplied (v : Special) (value : Value) (m : Machine) :
    setSpecial v value (m.supplied host argc) = (setSpecial v value m).mapState
      (·.supplied host (if v = .argc then value.toNumber else argc)) := by
  cases v
  case nf =>
    change (fieldNumber value.toNumber >>= _) (m.supplied host argc) = ((fieldNumber value.toNumber >>= _) m).mapState _
    rw [fieldNumber_bind_apply, fieldNumber_bind_apply]
    split <;> rfl
  case fs =>
    change setFieldSep (value.text m.specials.convfmt) (m.supplied host argc) =
      (setFieldSep (value.text m.specials.convfmt) m).mapState _
    rw [setFieldSep_apply, setFieldSep_apply, show (m.supplied host argc).cache = m.cache from rfl]
    cases (FieldSep.ofText m.cache (value.text m.specials.convfmt)).1 <;> rfl
  case rs =>
    change setRecordSep (value.text m.specials.convfmt) (m.supplied host argc) =
      (setRecordSep (value.text m.specials.convfmt) m).mapState _
    rw [setRecordSep_apply, setRecordSep_apply, show (m.supplied host argc).cache = m.cache from rfl]
    cases (RecordSep.ofText m.cache (value.text m.specials.convfmt)).1 <;> rfl
  all_goals rfl

/-- The number of operands after a variable was assigned by its name. -/
def argcAfter (argc : Float) (e : String × String) : Float :=
  if e.1 = "ARGC" then (Value.input (CommandLine.unescape e.2)).toNumber else argc

lemma assignNamed_supplied (name value : String) (m : Machine) :
    assignNamed name value (m.supplied host argc) =
      (assignNamed name value m).mapState (·.supplied host (argcAfter argc (name, value))) := by
  rw [assignNamed]
  cases hv : Special.ofName? name with
  | some v =>
    have hargc : v = .argc ↔ name = "ARGC" := by
      rw [← Special.name_of_ofName? hv]
      cases v <;> decide
    have hafter : argcAfter argc (name, value) =
        if v = .argc then (Value.input (CommandLine.unescape value)).toNumber else argc := by
      rw [argcAfter]
      simp only [hargc]
    rw [hafter]
    exact setSpecial_supplied v _ m
  | none =>
    have hafter : argcAfter argc (name, value) = argc := by
      refine if_neg fun hname => ?_
      rw [show name = "ARGC" from hname] at hv
      cases hv
    rw [hafter]
    have hsame : (m.supplied host argc).program = m.program := rfl
    dsimp only
    rw [get_bind_apply, get_bind_apply, hsame]
    cases m.program.scalarNames.findIdx? (· == name) with
    | none => rfl
    | some i =>
      change (if i < m.globals.size then _ else _ : Run Unit) (m.supplied host argc) =
        ((if i < m.globals.size then _ else _ : Run Unit) m).mapState _
      split <;> rfl

variable {m n start : Machine}

lemma assignAll_supplied
    (h : (vars.forM fun (name, value) => assignNamed name value) m = .ok () n) :
    (vars.forM fun (name, value) => assignNamed name value) (m.supplied host argc) =
      .ok () (n.supplied host (vars.foldl argcAfter argc)) := by
  induction vars generalizing m argc with
  | nil =>
    cases h
    rfl
  | cons e vars ih =>
    change (assignNamed e.1 e.2 >>= fun _ => vars.forM _) m = _ at h
    change (assignNamed e.1 e.2 >>= fun _ => vars.forM _) (m.supplied host argc) = _
    rw [bind_apply] at h ⊢
    have hfirst := @assignNamed_supplied host argc e.1 e.2 m
    cases hr : assignNamed e.1 e.2 m with
    | error f q =>
      rw [hr] at h
      cases h
    | ok _ q =>
      rw [hr] at h hfirst
      rw [hfirst]
      exact ih h

lemma initNamed_eq (hm : m.outline.Fits) (name : String) (value : ArrayValue) : (match namedArray m name with
      | none => pure ()
      | some slot => initArray slot value : Run Unit) m = .ok () (m.withArray name value) := by
  rw [Machine.withArray, Machine.arraysWith]
  cases hslot : namedArray m name with
  | none => rfl
  | some slot =>
    have hlt : slot < m.arrays.size := Nat.lt_of_lt_of_le (findIdx?_lt hslot) hm.arrays
    change (if slot < m.arrays.size then setArray slot value else throw .outOfRange : Run Unit) m = _
    rw [if_pos hlt]
    rfl

lemma initArgs_eq (hm : m.outline.Fits) : initArgs m = .ok () (m.supplied m (Float.ofNat (m.args.length + 1))) :=
  initNamed_eq (m := { m with specials := { m.specials with argc := Float.ofNat (m.args.length + 1) } }) hm "ARGV"
    (operandArray m.args)

lemma initFieldSep_supplied {config : Config} (h : initFieldSep config m = .ok () n) :
    initFieldSep config (m.supplied host argc) = .ok () (n.supplied host argc) := by
  rw [initFieldSep] at h ⊢
  cases hfs : config.fieldSep with
  | none =>
    rw [hfs] at h
    cases h
    rfl
  | some fs =>
    rw [hfs] at h
    change setSpecial .fs _ m = _ at h
    change setSpecial .fs _ (m.supplied host argc) = _
    rw [setSpecial_supplied, h]
    rfl

lemma fits_cleared (m : Machine) : (cleared m).outline.Fits :=
  ⟨Array.size_replicate, Nat.le_of_eq Array.size_replicate.symm⟩

lemma cleared_supplied (hfixture : m.fixture = start.fixture) (hcache : m.cache = start.cache) (argc : Float) :
    (cleared m).supplied (cleared m) argc = (cleared start).supplied m argc := by
  have hprogram : m.program = start.program := congrArg Fixture.program hfixture
  have hconfig : m.config = start.config := congrArg Fixture.config hfixture
  have hregexes : m.regexes = start.regexes := congrArg Fixture.regexes hfixture
  have hkeyOrder : m.keyOrder = start.keyOrder := congrArg Fixture.keyOrder hfixture
  have hcleared : cleared m = { cleared start with
      streams := { stdin := m.streams.stdin }
      output := m.output
      natives := m.natives
      args := m.args
      world := m.world } := by
    rw [cleared, cleared, hprogram, hconfig, hregexes, hkeyOrder, hcache]
  rw [hcleared]
  rfl

lemma assigned_apply (hm : m.outline.Fits) : assigned m = (initFieldSep m.config >>= fun _ =>
    m.config.vars.toList.forM fun (name, value) => assignNamed name value)
      ((m.supplied m (Float.ofNat (m.args.length + 1))).withArray "ENVIRON"
        (m.config.environ.map fun _ v => .input v)) := by
  rw [assigned, bind_apply, initArgs_eq hm]
  dsimp only
  rw [bind_apply]
  have henviron : initEnviron (m.supplied m (Float.ofNat (m.args.length + 1))) =
      .ok () ((m.supplied m (Float.ofNat (m.args.length + 1))).withArray "ENVIRON" _) :=
    initNamed_eq (Machine.fits_supplied hm) "ENVIRON" (m.config.environ.map fun _ v => .input v)
  rw [henviron]
  rfl

/-- What is assigned before a run does not depend on what the host has given, but for the operands. -/
lemma assigned_supplied {fresh : Machine} (h : assigned (cleared start) = .ok () fresh)
    (hfixture : m.fixture = start.fixture) (hcache : m.cache = start.cache) :
    assigned (cleared m) = .ok () (fresh.supplied m
      (start.config.vars.toList.foldl argcAfter (Float.ofNat (m.args.length + 1)))) := by
  have hconfig : (cleared m).config = (cleared start).config := congrArg Fixture.config hfixture
  rw [assigned_apply (fits_cleared start), bind_apply] at h
  rw [assigned_apply (fits_cleared m), cleared_supplied hfixture hcache,
    ← Machine.supplied_supplied (cleared start) (cleared start) m
      (Float.ofNat ((cleared start).args.length + 1)) (Float.ofNat ((cleared m).args.length + 1)),
    Machine.withArray_supplied (by decide), bind_apply, hconfig]
  generalize ((cleared start).supplied (cleared start) (Float.ofNat ((cleared start).args.length + 1))).withArray
    "ENVIRON" ((cleared start).config.environ.map fun _ v => .input v) = q at h ⊢
  cases hr : initFieldSep (cleared start).config q with
  | error f q =>
    rw [hr] at h
    cases h
  | ok _ q =>
    rw [hr] at h
    rw [initFieldSep_supplied hr]
    exact assignAll_supplied h

end Run

namespace Machine

lemma fixture_serve (m : Machine) (call : HostCall) : (m.serve call).fixture = m.fixture := by
  refine serve_cases (P := (·.fixture = m.fixture)) (fun steps _ => ?_) (fun _ => ?_) (fun args _ => ?_)
    fun _ _ _ _ _ _ => rfl
  · rw [Run.runProgram_state]
    exact (fixture_eq_of_core (Run.Plain.closeAll.core_eq _)).trans
      ((Run.Composed.runParts (fun code => .exec steps code 0) steps).fixture_eq m)
  · exact (Run.Composed.assigned (s := True)).whole.fixture_eq _
  · exact (Run.Composed.initArgs (s := True)).whole.fixture_eq _

lemma fixture_after (m : Machine) (calls : List HostCall) : (m.after calls).fixture = m.fixture := by
  induction calls generalizing m with
  | nil => rfl
  | cons call calls ih => exact (ih _).trans (fixture_serve m call)

end Machine

/-! ## The number of operands -/

/-- The number of operands that the host has set, if it has set one. -/
def Config.argc? (config : Config) : Option Float :=
  config.vars["ARGC"]?.map fun text => (Value.input (CommandLine.unescape text)).toNumber

/-- Of variables with different names at most one is the number of operands. -/
lemma foldl_argcAfter (hvars : vars.Pairwise fun e e' => e.1 ≠ e'.1) (argc : Float) :
    (∀ text, ("ARGC", text) ∈ vars →
        vars.foldl Run.argcAfter argc = (Value.input (CommandLine.unescape text)).toNumber) ∧
      ((∀ text, ("ARGC", text) ∉ vars) → vars.foldl Run.argcAfter argc = argc) := by
  induction vars generalizing argc with
  | nil => exact ⟨nofun, fun _ => rfl⟩
  | cons e vars ih =>
    obtain ⟨hfirst, hvars⟩ := List.pairwise_cons.mp hvars
    obtain ⟨hsome, hnone⟩ := ih hvars (Run.argcAfter argc e)
    rw [List.foldl_cons]
    constructor
    · intro text htext
      rcases List.mem_cons.mp htext with rfl | hmem
      · rw [hnone fun text' h => hfirst _ h rfl]
        exact if_pos rfl
      · exact hsome text hmem
    · intro habsent
      rw [hnone fun text h => habsent text (List.mem_cons_of_mem e h)]
      refine if_neg fun heq => habsent e.2 ?_
      rw [← heq]
      exact List.mem_cons_self

lemma Config.foldl_argc (config : Config) (argc : Float) :
    config.vars.toList.foldl Run.argcAfter argc = config.argc?.getD argc := by
  have hpairwise : config.vars.toList.Pairwise fun e e' => e.1 ≠ e'.1 :=
    Std.TreeMap.distinct_keys_toList.imp fun h heq => h (Std.LawfulEqCmp.compare_eq_iff_eq.mpr heq)
  obtain ⟨hsome, hnone⟩ := foldl_argcAfter hpairwise argc
  rw [Config.argc?]
  cases hargc : config.vars["ARGC"]? with
  | some text => exact hsome text (Std.TreeMap.mem_toList_iff_getElem?_eq_some.mpr hargc)
  | none =>
    refine hnone fun text htext => ?_
    rw [Std.TreeMap.mem_toList_iff_getElem?_eq_some.mp htext] at hargc
    cases hargc

/-! ## Machines as good as new -/

namespace Machine

/-- A machine is another one but for the patterns that are kept, its output, its standard input and its native
functions. -/
def Renews (n new : Machine) : Prop :=
  n = { new with
    cache := n.cache
    output := n.output
    natives := n.natives
    streams := { new.streams with stdin := n.streams.stdin } }

/-- A new machine with the output, the standard input and the native functions of another one. -/
def inPlaceOf (new m : Machine) : Machine :=
  { new with
    output := m.output
    natives := m.natives
    streams := { new.streams with stdin := m.streams.stdin } }

/-- A machine with another number of operands. -/
def withArgc (m : Machine) (argc : Float) : Machine := { m with specials := { m.specials with argc } }

variable {p : Program} {config : Config} {world : World} {keyOrder : KeyOrder} {m n new fresh : Machine}

/-- What no operation can tell apart gives the same, and can still not be told apart. -/
lemma SameButCache.apply {α : Type} {x : Run α} (hx : Run.IgnoresCache x)
    (h : m.SameButCache n) : (m.apply x).1 = (n.apply x).1 ∧ (m.apply x).2.SameButCache (n.apply x).2 := by
  rw [Machine.apply, Machine.apply]
  cases hr : x m with
  | ok a q =>
    obtain ⟨q', hq', hq⟩ := hx.ok h hr
    rw [hq']
    exact ⟨rfl, hq⟩
  | error f q =>
    obtain ⟨q', hq', hq⟩ := (hx.error h hr).resolve_left id
    rw [hq']
    exact ⟨rfl, hq⟩

lemma setArgs_eq (hm : m.outline.Fits) (args : List String) :
    m.setArgs args = ({ m with args } : Machine).supplied { m with args } (Float.ofNat (args.length + 1)) := by
  rw [setArgs, apply_state, Run.initArgs_eq (m := { m with args }) hm]
  rfl

lemma create_elsewhere (h : create p config world keyOrder = .ok fresh) (world' : World) :
    ∃ start new : Machine, start.fixture = fresh.fixture ∧ start.config = config ∧ start.cache = {} ∧
      new.world = world' ∧ Run.assigned (Run.cleared start) = .ok () new ∧
      create p config world' keyOrder = .ok new := by
  obtain ⟨regexes, hregexes, hreset⟩ := create_reset h
  generalize hold : ({
    program := p
    config := config
    regexes := regexes
    natives := Array.replicate p.nativeNames.size none
    keyOrder := keyOrder
    world := world } : Machine) = old at hreset
  have hfixture : fresh.fixture = old.fixture := by
    have h := (Run.Composed.assigned (s := True)).whole.fixture_eq (Run.cleared old)
    rwa [← Run.reset_apply, hreset] at h
  have hnew := Run.assigned_supplied (m := { old with world := world' }) hreset rfl rfl
  refine ⟨{ old with world := world' }, _, hfixture.symm, ?_, ?_, rfl, hnew, ?_⟩
  · rw [← hold]
  · rw [← hold]
  · rw [create, hregexes]
    subst hold
    dsimp only
    rw [Machine.apply, Run.reset_apply, hnew]

/-- A machine that is reset is a new one with what the host has given, but for the number of operands. -/
lemma reset_eq (h : create p config world keyOrder = .ok fresh) (calls : List HostCall) :
    ∃ new n : Machine, create p config (fresh.after calls).world keyOrder = .ok new ∧
      (fresh.after calls).reset = (.ok (), n) ∧ n.cache.Coherent ∧
      n = (((new.setArgs (fresh.after calls).args).inPlaceOf (fresh.after calls)).withArgc
        (config.argc?.getD (Float.ofNat ((fresh.after calls).args.length + 1)))).withCache n.cache := by
  set m := fresh.after calls with hm
  obtain ⟨start, new, hstart, hconfig, hcache, hworld, hassigned, hcreate⟩ := create_elsewhere h m.world
  have hfixture : (m.withCache {}).fixture = start.fixture := (fixture_after fresh calls).trans hstart.symm
  have hbare := Run.assigned_supplied (m := m.withCache {}) hassigned hfixture hcache.symm
  -- the patterns that are kept make no difference
  have hsame : (Run.cleared (m.withCache {})).SameButCache (Run.cleared m) :=
    ⟨PatternCache.coherent_empty, ((synced_create h).after calls).cache, rfl⟩
  obtain ⟨n, hn, -, hcoherent, heq⟩ := (Run.Composed.assigned (s := True)).whole.agrees.ok hsame hbare
  have hfit := create_fit (p := p) config m.world keyOrder
  rw [hcreate] at hfit
  refine ⟨new, n, hcreate, ?_, hcoherent, heq.trans ?_⟩
  · rw [reset, Machine.apply, Run.reset_apply, hn]
  · rw [hconfig, Config.foldl_argc, setArgs_eq hfit.outline]
    exact congrArg (fun world => { (new.supplied (m.withCache {})
      (config.argc?.getD (Float.ofNat (m.args.length + 1)))).withCache n.cache with world }) hworld.symm

lemma renews_iff (given m : Machine) (argc : Float) (cache : PatternCache) :
    (((given.inPlaceOf m).withArgc argc).withCache cache).Renews given ↔ argc = given.specials.argc := by
  refine ⟨fun h => congrArg (·.specials.argc) h, ?_⟩
  rintro rfl
  rfl

/-- A machine that is reset is as good as new, whatever the program was and whatever the host did before, in any order,
runs that failed among it.  It never fails to be reset, and is then a new machine for the same program and the same
settings that was given the same operands, but for the patterns that are kept, the output, the standard input and the
native functions, which it keeps.  There is one exception: a number of operands among the variables that the host has
set wins when a machine is reset, and loses when operands are given to a new one.  So the two are the same if and only
if there is none, or it is right, and even then nothing but that number differs.  If they are the same, a run does what
it would do on the new machine: it gives the same, and only in the patterns that are kept do the machines differ in the
end. -/
theorem reset_renews (h : create p config world keyOrder = .ok fresh) (calls : List HostCall) :
    ∃ new n : Machine, create p config (fresh.after calls).world keyOrder = .ok new ∧
      (fresh.after calls).reset = (.ok (), n) ∧
      (n.output = (fresh.after calls).output ∧ n.natives = (fresh.after calls).natives ∧
        n.streams.stdin = (fresh.after calls).streams.stdin) ∧
      (n.Renews (new.setArgs (fresh.after calls).args) ↔
        ∀ argc, config.argc? = some argc → argc = Float.ofNat ((fresh.after calls).args.length + 1)) ∧
      n.Renews ((new.setArgs (fresh.after calls).args).withArgc n.specials.argc) ∧
      (n.Renews (new.setArgs (fresh.after calls).args) → ∀ steps,
        (n.apply (Run.runProgram (Run.exec steps · 0) steps)).1 =
          (((new.setArgs (fresh.after calls).args).inPlaceOf (fresh.after calls)).apply
            (Run.runProgram (Run.exec steps · 0) steps)).1 ∧
        (n.apply (Run.runProgram (Run.exec steps · 0) steps)).2.SameButCache
          (((new.setArgs (fresh.after calls).args).inPlaceOf (fresh.after calls)).apply
            (Run.runProgram (Run.exec steps · 0) steps)).2) := by
  obtain ⟨new, n, hcreate, hreset, hcoherent, hn⟩ := reset_eq h calls
  have hfit := create_fit (p := p) config (fresh.after calls).world keyOrder
  rw [hcreate] at hfit
  have hargc : (new.setArgs (fresh.after calls).args).specials.argc =
      Float.ofNat ((fresh.after calls).args.length + 1) := by
    rw [setArgs_eq hfit.outline]
    rfl
  have hcache : (new.setArgs (fresh.after calls).args).cache = new.cache := by
    rw [setArgs_eq hfit.outline]
    rfl
  have hnew : new.cache.Coherent := (synced_create hcreate).cache
  refine ⟨new, n, hcreate, hreset, ?_⟩
  generalize new.setArgs (fresh.after calls).args = given at hn hargc hcache ⊢
  generalize fresh.after calls = m at hn hargc ⊢
  generalize n.cache = cache at hn hcoherent
  clear hreset
  subst hn
  have hsame : (((given.inPlaceOf m).withArgc (config.argc?.getD (Float.ofNat (m.args.length + 1)))).withCache
      cache).Renews given ↔ ∀ argc, config.argc? = some argc → argc = Float.ofNat (m.args.length + 1) := by
    rw [renews_iff, hargc]
    cases config.argc? <;> simp
  refine ⟨⟨rfl, rfl, rfl⟩, hsame, rfl, fun hrenews steps => ?_⟩
  refine SameButCache.apply (Run.runProgram_agrees steps) ⟨hcoherent, hcache ▸ hnew, ?_⟩
  rw [renews_iff] at hrenews
  rw [hrenews]
  rfl

/-- A program that changes much before it fails. -/
def spentProgram : String :=
  "BEGIN \x7b RS = \"\"; x[1] = ARGC++; if (FS ~ \"[:;]\") y = y FS \x7d \x7b FS = $1; NF = 3; z = 1 / (NR - 1) \x7d"

/-- What a host may do with a program before it is reset. -/
def spentCalls : List HostCall :=
  [.setArgs ["k=1"], .setStdin [[120, 10]], .captureOutput, .run 1000, .setCancelled true, .run 20]

theorem spentProgram_renewed : ∃ p fresh new n, Program.ofSource spentProgram [] = .ok p ∧
    create p { fieldSep := some ":" } {} {} = .ok fresh ∧
    create p { fieldSep := some ":" } (fresh.after spentCalls).world {} = .ok new ∧
    (fresh.after spentCalls).reset = (.ok (), n) ∧ n.Renews (new.setArgs (fresh.after spentCalls).args) := by
  obtain ⟨p, fresh, hp, hfresh, -⟩ :=
    exists_of_tried spentProgram { fieldSep := some ":" } {} (fun _ _ => True) (by decide +kernel)
  obtain ⟨new, n, hnew, hreset, -, hrenews, -⟩ := reset_renews hfresh spentCalls
  refine ⟨p, fresh, new, n, hp, hfresh, hnew, hreset, hrenews.mpr ?_⟩
  intro argc hargc
  rw [Config.argc?, Std.TreeMap.getElem?_emptyc] at hargc
  cases hargc

/-- A program that tells the number of its operands. -/
def argcProgram : String := "BEGIN \x7b print ARGC \x7d"

/-- Settings with a number of operands among the variables. -/
def argcConfig : Config := { vars := .ofList [("ARGC", "7")] }

/-- With a number of operands among the variables a run after a reset is not the first one again. -/
theorem argcProgram_not_renewed : ∃ p fresh, Program.ofSource argcProgram [] = .ok p ∧
    create p argcConfig {} {} = .ok fresh ∧
    (fresh.after [.setArgs ["a"], .run 100]).takeDelivered.1 = "2\n" ∧
    (fresh.after [.setArgs ["a"], .reset, .run 100]).takeDelivered.1 = "7\n" :=
  exists_of_tried argcProgram argcConfig {} _ (by decide +kernel)

end Machine

end Awk
