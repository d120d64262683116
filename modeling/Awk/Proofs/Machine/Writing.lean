import Awk.Proofs.Machine.Reset
import Awk.Proofs.World.Files

/-!
# What programs write

What a program prints to a file is held back, passed on in pieces, and at the latest passed on when the run ends,
however it ends.  In the end a file holds what an account of the texts that were printed to it says, each of them in its
place: the first one after the start or after the stream was closed may begin the file anew, and every other one is
added at its end.
-/

namespace Awk

/-! ## Events -/

/-- What a program does with the streams that it writes. -/
inductive Event where
  /-- Prints a text to its own output, or to where it is sent. -/
  | print (dest : Option (RedirectKind × String)) (text : String)
  /-- Closes the stream of a name. -/
  | close (name : String)

/-- The name of the stream that an event concerns. -/
def Event.name? : Event → Option String
  | print dest _ => dest.map Prod.snd
  | close name => some name

/-- What an event adds to the program's own output. -/
def Event.ownBytes : Event → ByteArray
  | print none text => text.toUTF8
  | print (some (_, name)) text => if Run.isOwnOutput name then text.toUTF8 else ByteArray.empty
  | close _ => ByteArray.empty

/-- What events add to the program's own output. -/
def ownOutput : List Event → ByteArray
  | [] => ByteArray.empty
  | e :: events => e.ownBytes ++ ownOutput events

lemma ownOutput_append (events events' : List Event) :
    ownOutput (events ++ events') = ownOutput events ++ ownOutput events' := by
  induction events with
  | nil => exact ByteArray.empty_append.symm
  | cons e events ih => rw [List.cons_append, ownOutput, ownOutput, ih, ByteArray.append_assoc]

lemma ownOutput_singleton (e : Event) : ownOutput [e] = e.ownBytes := ByteArray.append_empty

lemma Output.write_empty (o : Output) : o.write ByteArray.empty = o := by
  obtain ⟨_ | captured, delivered⟩ := o
  · rw [Output.write]
    dsimp only
    rw [ByteArray.append_empty]
  · rw [Output.write]
    dsimp only
    rw [ByteArray.append_empty]

lemma Output.write_write (o : Output) (bytes more : ByteArray) :
    (o.write bytes).write more = o.write (bytes ++ more) := by
  obtain ⟨_ | captured, delivered⟩ := o
  · simp only [Output.write, ByteArray.append_assoc]
  · simp only [Output.write, ByteArray.append_assoc]

/-- What a file holds, and whether a stream of its name is open. -/
structure Account where
  bytes : Option ByteArray
  isOpen : Bool := false

namespace Account

def add (a : Account) (text : String) : Account := ⟨some (a.bytes.getD ByteArray.empty ++ text.toUTF8), true⟩

/-- The account of a name after an event.  If no stream is open, a text begins the file anew or is added to what it
holds, and a command of that name would be no file. -/
def record (name : String) (a : Account) : Event → Account
  | .print (some (kind, other)) text =>
    if other = name then
      if a.isOpen then a.add text
      else match kind with
        | .file => ⟨some text.toUTF8, true⟩
        | .append => a.add text
        | .pipe => a
    else a
  | .print none _ => a
  | .close other => if other = name then { a with isOpen := false } else a

/-- The account of a name after events that started in a world. -/
def ofEvents (w : World) (name : String) (events : List Event) : Account :=
  events.foldl (record name) { bytes := w.fileBytes? name }

variable {w : World} {name : String}

lemma ofEvents_concat (events : List Event) (e : Event) :
    ofEvents w name (events ++ [e]) = (ofEvents w name events).record name e := by
  rw [ofEvents, List.foldl_append]
  rfl

variable {events : List Event} {other : String}

lemma ofEvents_print_open (h : (ofEvents w name events).isOpen = true) (kind : RedirectKind) (text : String) :
    ofEvents w name (events ++ [.print (some (kind, name)) text]) = (ofEvents w name events).add text := by
  rw [ofEvents_concat]
  exact (if_pos rfl).trans (if_pos h)

lemma ofEvents_print_closed (h : (ofEvents w name events).isOpen = false) (kind : RedirectKind) (text : String) :
    ofEvents w name (events ++ [.print (some (kind, name)) text]) = match kind with
      | .file => ⟨some text.toUTF8, true⟩
      | .append => (ofEvents w name events).add text
      | .pipe => ofEvents w name events := by
  rw [ofEvents_concat]
  exact (if_pos rfl).trans (if_neg (by rw [h]; decide))

end Account

/-- Events that concern one name only, and not the program's own output. -/
def About (other : String) (events : List Event) : Prop :=
  ∀ e ∈ events, e.name? = some other ∧ e.ownBytes = ByteArray.empty

variable {name : String} {P : List String → Machine → Prop} {l : Ledger} {m : Machine}

namespace About

variable {other : String} {e : Event} {events past : List Event}

lemma nil : About other [] := nofun

lemma single (hname : e.name? = some other) (hown : e.ownBytes = ByteArray.empty) : About other [e] :=
  List.forall_mem_singleton.mpr ⟨hname, hown⟩

lemma ownOutput_append (h : About other events) : ownOutput (past ++ events) = ownOutput past := by
  rw [Awk.ownOutput_append]
  induction events with
  | nil => exact ByteArray.append_empty
  | cons e events ih =>
    obtain ⟨he, h⟩ := List.forall_mem_cons.mp h
    rw [ownOutput, he.2, ByteArray.empty_append, ih h]

/-- What is printed to other names, or closed under them, is of no account. -/
lemma ofEvents_append {w : World} (h : About other events) (hne : other ≠ name) :
    Account.ofEvents w name (past ++ events) = .ofEvents w name past := by
  induction events generalizing past with
  | nil => rw [List.append_nil]
  | cons e events ih =>
    obtain ⟨he, h⟩ := List.forall_mem_cons.mp h
    rw [← List.singleton_append, ← List.append_assoc, ih h, Account.ofEvents_concat]
    obtain ⟨_ | ⟨kind, _⟩, text⟩ | _ := e <;> cases he.1 <;> exact if_neg hne

end About

lemma about_print (hname : Run.isOwnOutput name = false) (kind : RedirectKind) (text : String) :
    About name [.print (some (kind, name)) text] :=
  .single rfl (if_neg (by rw [hname]; decide))

namespace Run

variable {α β : Type}

end Run

namespace Run

/-! ## Operations on streams -/

lemma flushOutput_file (name : String) (f : FileWriter) (m : Machine) :
    flushOutput name (.file f) m = .ok (if (f.flush m.world).1 then 0 else -1) { m with
      world := (f.flush m.world).2.2
      streams := { m.streams with outputs := m.streams.outputs.insert name (.file (f.flush m.world).2.1) } } := rfl

lemma endOutput_file (f : FileWriter) (m : Machine) :
    endOutput (.file f) m = .ok (if (f.flush m.world).1 then 0 else -1) { m with world := (f.flush m.world).2.2 } := rfl

lemma writeStream_file (name : String) (f : FileWriter) (bytes : ByteArray) (m : Machine) :
    (writeStream name (.file f) bytes m).state = { m with
      world := (f.write m.world bytes).2.2
      streams := { m.streams with outputs := m.streams.outputs.insert name (.file (f.write m.world bytes).2.1) } } := by
  change ((if !(f.write m.world bytes).1 then Run.fail _ else Pure.pure () : Run Unit) _).state = _
  split <;> rfl

lemma writeStream_pipe (name command : String) (written bytes : ByteArray) (m : Machine) :
    (writeStream name (.pipe command written) bytes m).state = { m with
      streams := { m.streams with outputs := m.streams.outputs.insert name (.pipe command (written ++ bytes)) } } := by
  change ((if _ && _ then Run.fail _ else Pure.pure () : Run Unit) _).state = _
  split <;> rfl

variable {m n : Machine} {name other : String} {kind : RedirectKind} {table : Std.TreeMap String OutputStream}

/-- Opening a stream is refused, or it is the standard error, a command or a file. -/
lemma openOutput_cases (kind : RedirectKind) (name : String) (m : Machine) :
    ((∃ f, openOutput kind name m = .error f m) ∧ (m.config.noExec = true ∨ kind = .pipe)) ∨
    (openOutput kind name m = .ok .stderr m ∧ name = "/dev/stderr") ∨
    openOutput kind name m = .ok (.pipe name ByteArray.empty) m ∨
    kind ≠ .pipe ∧ openOutput kind name m = match FileWriter.openFile m.world name (kind = .append) with
      | (.ok f, world) => .ok (.file f) { m with world }
      | (.error e, world) => .error (.error (.io (.redirecting name) e)) { m with world } := by
  rw [openOutput]
  split
  · exact .inr (.inl ⟨rfl, ‹_›⟩)
  change ((∃ f, (if m.config.noExec then _ else _ : Run OutputStream) m = _) ∧ _) ∨
    ((if m.config.noExec then _ else _ : Run OutputStream) m = _ ∧ _) ∨
    (if m.config.noExec then _ else _ : Run OutputStream) m = _ ∨
    _ ∧ (if m.config.noExec then _ else _ : Run OutputStream) m = _
  split
  · exact .inl ⟨⟨_, rfl⟩, .inl ‹_›⟩
  split
  · cases Shell.startError? name with
    | none => exact .inr (.inr (.inl rfl))
    | some e => exact .inl ⟨⟨_, rfl⟩, .inr ‹_›⟩
  · refine .inr (.inr (.inr ⟨‹_›, ?_⟩))
    rcases FileWriter.openFile m.world name (kind = .append) with ⟨_ | f, world⟩ <;> rfl

/-- Writes to a stream that is not open yet. -/
def writeNew (kind : RedirectKind) (name : String) (bytes : ByteArray) : Run Unit := do
  let stream ← openOutput kind name
  modifyStreams fun s => { s with outputs := s.outputs.insert name stream }
  writeStream name stream bytes

lemma writeNew_of_ok {stream : OutputStream} (h : openOutput kind name m = .ok stream n) (bytes : ByteArray) :
    writeNew kind name bytes m = writeStream name stream bytes { n with
      streams := { n.streams with outputs := n.streams.outputs.insert name stream } } := by
  rw [writeNew, bind_apply, h]
  rfl

lemma writeNew_of_error {f : Fault} (h : openOutput kind name m = .error f n) (bytes : ByteArray) :
    writeNew kind name bytes m = .error f n := by
  rw [writeNew, bind_apply, h]

lemma writeText_apply (hname : isOwnOutput name = false) (kind : RedirectKind) (text : String) (m : Machine) :
    writeText (some (kind, name)) text m = match m.streams.outputs[name]? with
      | some stream => writeStream name stream text.toUTF8 m
      | none => writeNew kind name text.toUTF8 m := by
  rw [writeText, if_neg (by rw [hname]; decide)]
  rw [get_bind_apply]
  cases m.streams.outputs[name]? <;> rfl

lemma closeStream_apply (name : String) (m : Machine) : closeStream name m = match m.streams.outputs[name]? with
    | some stream =>
      endOutput stream { m with streams := { m.streams with outputs := m.streams.outputs.erase name } }
    | none => match m.streams.inputs[name]? with
      | some stream =>
        .ok (stream.ending.getD 0) { m with streams := { m.streams with inputs := m.streams.inputs.erase name } }
      | none => .ok (-1) m := by
  rw [closeStream, get_bind_apply]
  cases m.streams.outputs[name]? with
  | some stream => rfl
  | none => cases m.streams.inputs[name]? <;> rfl

/-- What a loop over the streams that are open keeps, if each turn changes its own stream only.  The names of the turns
that are done are counted. -/
lemma forM_outputs {f : String × OutputStream → Run Unit}
    (hstep : ∀ {done : List String} {m : Machine} {name : String} {stream : OutputStream}, P done m →
      m.streams.outputs[name]? = some stream → ∃ n, f (name, stream) m = .ok () n ∧ P (done ++ [name]) n ∧
        ∀ other, other ≠ name → n.streams.outputs[other]? = m.streams.outputs[other]?) (hm : P [] m) :
    ∃ n, m.streams.outputs.toList.forM f m = .ok () n ∧
      P m.streams.outputs.keys n := by
  have hloop : ∀ (l : List (String × OutputStream)) (done : List String) (m : Machine),
      l.Pairwise (fun e e' => e.1 ≠ e'.1) → (∀ e ∈ l, m.streams.outputs[e.1]? = some e.2) → P done m →
        ∃ n, l.forM f m = .ok () n ∧ P (done ++ l.map Prod.fst) n := by
    intro l
    induction l with
    | nil =>
      intro done m _ _ hm
      exact ⟨m, rfl, by rwa [List.map_nil, List.append_nil]⟩
    | cons e l ih =>
      intro done m hdistinct hcurrent hm
      obtain ⟨hfirst, hdistinct⟩ := List.pairwise_cons.mp hdistinct
      obtain ⟨n, hn, hP, hothers⟩ := hstep hm (hcurrent e List.mem_cons_self)
      obtain ⟨q, hq, hPq⟩ := ih (done ++ [e.1]) n hdistinct
        (fun e' he' => (hothers e'.1 (hfirst e' he').symm).trans (hcurrent e' (List.mem_cons_of_mem e he'))) hP
      refine ⟨q, ?_, by simpa using hPq⟩
      change (f e >>= fun _ => l.forM f) m = _
      rw [bind_apply, hn]
      exact hq
  have h := hloop m.streams.outputs.toList [] m
    (Std.TreeMap.distinct_keys_toList.imp fun h heq => h (Std.LawfulEqCmp.compare_eq_iff_eq.mpr heq))
    (fun e he => Std.TreeMap.mem_toList_iff_getElem?_eq_some.mp he) hm
  rwa [Std.TreeMap.map_fst_toList_eq_keys, List.nil_append] at h

lemma getElem?_insert_ne (stream : OutputStream) (h : other ≠ name) :
    (table.insert name stream)[other]? = table[other]? := by
  rw [Std.TreeMap.getElem?_insert, if_neg fun heq => h (Std.LawfulEqCmp.compare_eq_iff_eq.mp heq).symm]

lemma getElem?_erase_ne (h : other ≠ name) : (table.erase name)[other]? = table[other]? := by
  rw [Std.TreeMap.getElem?_erase, if_neg fun heq => h (Std.LawfulEqCmp.compare_eq_iff_eq.mp heq).symm]

/-- Passing on what waits in a stream succeeds, and leaves the other streams alone. -/
lemma flushOutput_ok (name : String) (stream : OutputStream) (m : Machine) : ∃ x n,
    flushOutput name stream m = .ok x n ∧
      ∀ other, other ≠ name → n.streams.outputs[other]? = m.streams.outputs[other]? := by
  cases stream with
  | stderr | pipe _ _ => exact ⟨_, m, rfl, fun _ _ => rfl⟩
  | file f => exact ⟨_, _, flushOutput_file name f m, fun other h => getElem?_insert_ne _ h⟩

/-- What passing on what waits in one stream keeps, passing on what waits in all streams keeps. -/
lemma flushAll_keeps {P : Machine → Prop}
    (hP : ∀ {m : Machine} {name : String} {stream : OutputStream}, P m → m.streams.outputs[name]? = some stream →
      P (flushOutput name stream m).state) (hm : P m) : ∃ n, flushAll m = .ok () n ∧ P n := by
  refine forM_outputs (P := fun _ => P) (fun {done m name stream} hm h => ?_) hm
  obtain ⟨x, n, hn, hothers⟩ := flushOutput_ok name stream m
  have hnext := hP hm h
  rw [hn] at hnext
  refine ⟨n, ?_, hnext, hothers⟩
  change (flushOutput name stream >>= fun _ => Pure.pure ()) m = _
  rw [bind_apply, hn]
  rfl

lemma runCommand_apply (hexec : m.config.noExec = false) (hn : flushAll m = .ok () n) (command : String) :
    runCommand command m = if (Shell.startError? command).isNone then
        .ok (Shell.run n.world command none).2.1.code { n with
          world := (Shell.run n.world command none).2.2
          output := n.output.write (Shell.run n.world command none).1 }
      else .ok (-1) n := by
  change (if m.config.noExec then _ else _ : Run Float) m = _
  rw [if_neg (by rw [hexec]; decide), bind_apply, hn]
  dsimp only
  split <;> rfl

end Run

/-! ## The account of files -/

/-- What a run is held to: the world and the output at its start, the deeds that are done until its end, none of them
a command, and names whose files are watched, with the paths of these. -/
structure Ledger where
  world : World
  output : Output
  news : List Deed
  watches : String → String → Prop
  noCommand (line : String) : Deed.command line ∉ news
  isOwnOutput_eq {name path : String} : watches name path → Run.isOwnOutput name = false
  ne_stderr {name path : String} : watches name path → name ≠ "/dev/stderr"
  sink_eq {name path : String} : watches name path → world.sink? name = some (.file path)
  unshared {name path other : String} : watches name path → .write other ∈ news →
    world.sink? other = some (.file path) → other = name

namespace Ledger

variable {l : Ledger} {ds : List Deed} {d : Deed}

/-- The deeds at the end of the run. -/
def deeds (l : Ledger) : List Deed := l.news ++ l.world.deeds

lemma mem_news (hbase : l.world.deeds <:+ ds) (h : d :: ds <:+ l.deeds) : d ∈ l.news := by
  obtain ⟨between, rfl⟩ := hbase
  obtain ⟨more, hmore⟩ := h
  have hnews : more ++ d :: between = l.news := by
    refine (List.append_left_inj l.world.deeds).mp ?_
    rw [List.append_assoc, List.cons_append, hmore, deeds]
  rw [← hnews]
  simp

end Ledger

namespace Machine

variable (l : Ledger)

/-- A stream of a name leads to no file that is watched under another name. -/
def Apart (other : String) : Option OutputStream → Prop
  | some (.file f) => l.world.sink? other = some f.sink ∧
    ∀ name path, l.watches name path → f.sink = .file path → other = name
  | some .stderr => other = "/dev/stderr"
  | some (.pipe _ _) | none => True

/-- A file and what waits for it is what an account says, unless a command of that name is started. -/
def Accounted (path : String) (a : Account) (world : World) : Option OutputStream → Prop
  | some (.file f) => a.isOpen = true ∧ ∃ all, a.bytes = some all ∧ f.Writes world path all
  | some (.pipe _ _) => True
  | some .stderr | none => a.isOpen = false ∧ world.files[path]? = a.bytes

/-- A machine is in line with the events since the start. -/
structure Kept (past : List Event) (m : Machine) : Prop where
  noExec : m.config.noExec = false
  deeds : l.world.deeds <:+ m.world.deeds
  isDirectory : ∀ q, m.world.isDirectory q = l.world.isDirectory q
  output : m.output = l.output.write (ownOutput past)
  apart : ∀ other : String, Apart l other m.streams.outputs[other]?
  accounted : ∀ name path, l.watches name path →
    Accounted path (.ofEvents l.world name past) m.world m.streams.outputs[name]?

/-- No deed is forgotten, and if all deeds up to the second machine are deeds of the run, it is in line with the further
events too. -/
structure Upholds (past events : List Event) (m n : Machine) : Prop where
  deeds : m.world.deeds <:+ n.world.deeds
  kept : n.world.deeds <:+ l.deeds → m.Kept l past → n.Kept l (past ++ events)

variable {l} {past events events' : List Event} {m n q : Machine} {other : String} {stream : OutputStream}

lemma Apart.sink {f : FileWriter} (h : Apart l other (some (.file f))) (path : String) (hpath : f.sink = .file path) :
    l.world.sink? other = some f.sink ∧ ∀ name, l.watches name path → other = name :=
  ⟨h.1, fun name hwatched => h.2 name path hwatched hpath⟩

variable {world : World}

/-- A file is accounted for as before if neither it nor its stream has changed. -/
lemma Accounted.congr {path : String} {a : Account} {world' : World} {stream : Option OutputStream}
    (h : Accounted path a world stream) (hfile : world'.files[path]? = world.files[path]?) :
    Accounted path a world' stream := by
  rcases stream with _ | f | _ | _
  · exact ⟨h.1, hfile.trans h.2⟩
  · obtain ⟨hopen, all, hall, hf⟩ := h
    exact ⟨hopen, all, hall, hf.sink, hfile ▸ hf.passed⟩
  · exact ⟨h.1, hfile.trans h.2⟩
  · trivial

namespace Kept

variable (hm : m.Kept l past)

include hm

variable {o : Option OutputStream}

lemma stands (h : m.streams.outputs[other]? = o) : Apart l other o ∧
    ∀ path, l.watches other path → Accounted path (.ofEvents l.world other past) m.world o := by
  subst h
  exact ⟨hm.apart other, hm.accounted other⟩

/-- What happens to the stream of a name, and to the file that it leads to, concerns no other name. -/
lemma update {table : Std.TreeMap String OutputStream} {s : Sink}
    (habout : About other events) (hdeeds : m.world.deeds <:+ world.deeds) (hwritten : World.Written s m.world world)
    (hsink : ∀ path, s = .file path → l.world.sink? other = some s ∧ ∀ name, l.watches name path → other = name)
    (htable : ∀ k, k ≠ other → table[k]? = m.streams.outputs[k]?) (hself : table[other]? = o)
    (hapart : Apart l other o)
    (haccounted : ∀ path, l.watches other path → Accounted path (.ofEvents l.world other (past ++ events)) world o) :
    Kept l (past ++ events) { m with world, streams := { m.streams with outputs := table } } where
  noExec := hm.noExec
  deeds := hm.deeds.trans hdeeds
  isDirectory q := by
    refine (hwritten.isDirectory_eq (fun path hpath => ?_) q).trans (hm.isDirectory q)
    have hother : m.world.sink? other = some (.file path) := by
      rw [World.sink?_congr hm.isDirectory, (hsink path hpath).1, hpath]
    exact World.reaches_of_sink? hother
  output := by rw [habout.ownOutput_append, ← hm.output]
  apart k := by
    by_cases hother : k = other
    · exact hother ▸ hself.symm ▸ hapart
    · exact (htable k hother).symm ▸ hm.apart k
  accounted name path hwatched := by
    by_cases hother : other = name
    · subst hother
      exact hself.symm ▸ haccounted path hwatched
    · rw [habout.ofEvents_append hother, htable name (Ne.symm hother)]
      -- the file of the name is not the one that was written
      exact (hm.accounted name path hwatched).congr
        (hwritten.files path fun hs => hother ((hsink path hs).2 name hwatched))

lemma own {e : Event} (he : ∀ name path, l.watches name path →
      Account.ofEvents l.world name (past ++ [e]) = .ofEvents l.world name past) :
    Kept l (past ++ [e]) { m with output := m.output.write e.ownBytes } where
  noExec := hm.noExec
  deeds := hm.deeds
  isDirectory := hm.isDirectory
  output := by
    change m.output.write e.ownBytes = _
    rw [hm.output, Output.write_write, ownOutput_append, ownOutput_singleton]
  apart := hm.apart
  accounted name path hwatched := by
    rw [he name path hwatched]
    exact hm.accounted name path hwatched

end Kept

namespace Upholds

lemma refl (m : Machine) : m.Upholds l past [] m := ⟨List.suffix_rfl, fun _ hm => by rwa [List.append_nil]⟩

lemma trans (h : m.Upholds l past events n) (h' : n.Upholds l (past ++ events) events' q) :
    m.Upholds l past (events ++ events') q where
  deeds := h.deeds.trans h'.deeds
  kept hq hm := by
    rw [← List.append_assoc]
    exact h'.kept hq (h.kept (h'.deeds.trans hq) hm)

/-- What leaves the streams that are written, the files and the output alone concerns no account. -/
lemma still (hk : n.fixture = m.fixture) (hq : n.desk = m.desk) : m.Upholds l past [] n := by
  have houtputs : n.streams.outputs = m.streams.outputs := congrArg Desk.outputs hq
  have houtside : n.world.outside = m.world.outside := congrArg Desk.outside hq
  have hfiles : n.world.files = m.world.files := congrArg Outside.files houtside
  have hdeeds : n.world.deeds = m.world.deeds := congrArg Outside.deeds houtside
  have hwritten : World.Written .null m.world n.world := .of_eq (congrArg Outside.directories houtside) hfiles
  refine ⟨hdeeds ▸ List.suffix_rfl, fun _ hm => ?_⟩
  rw [List.append_nil]
  refine ⟨?_, hdeeds ▸ hm.deeds, fun q => ?_, ?_, fun k => ?_, fun k path hwatched => ?_⟩
  · exact (congrArg (Config.noExec ∘ Fixture.config) hk).trans hm.noExec
  · exact (hwritten.isDirectory_eq nofun q).trans (hm.isDirectory q)
  · exact (congrArg Desk.output hq).trans hm.output
  · exact houtputs ▸ hm.apart k
  · exact houtputs ▸ (hm.accounted k path hwatched).congr (by rw [hfiles])

/-- No command is among the deeds of the run. -/
lemma command (command : String) (piped : Option ByteArray) (h : n.world = (Shell.run m.world command piped).2.2) :
    m.Upholds l past events n := by
  have hdeeds := Shell.run_deeds m.world command piped
  rw [← h] at hdeeds
  exact ⟨(List.suffix_cons _ _).trans hdeeds,
    fun hn hm => (l.noCommand command (l.mem_news hm.deeds (hdeeds.trans hn))).elim⟩

/-! ## Streams that are open -/

section

variable (h : m.streams.outputs[other]? = some stream)

include h

lemma flushOutput : m.Upholds l past [] (Run.flushOutput other stream m).state := by
  cases stream with
  | stderr | pipe _ _ => exact .refl m
  | file f =>
    obtain ⟨hsink, hwritten, hdeeds⟩ := f.flush_written m.world
    rw [Run.flushOutput_file]
    refine ⟨hdeeds ▸ List.suffix_rfl, fun _ hm => ?_⟩
    obtain ⟨hapart, haccounted⟩ := hm.stands h
    refine hm.update .nil (hdeeds ▸ List.suffix_rfl) hwritten hapart.sink (fun k hk => Run.getElem?_insert_ne _ hk)
      Std.TreeMap.getElem?_insert_self ?_ fun path hwatched => ?_
    · rw [Apart, hsink]
      exact hapart
    · obtain ⟨hopen, all, hall, hf⟩ := haccounted path hwatched
      obtain ⟨g, w', hflush, hg, -⟩ := FileWriter.flush_writes hf
      rw [List.append_nil, hflush]
      exact ⟨hopen, all, hall, hg⟩

lemma closeOutput : m.Upholds l past [.close other] (Run.endOutput stream { m with
    streams := { m.streams with outputs := m.streams.outputs.erase other } }).state := by
  cases stream with
  | pipe name written => exact .command name (some written) rfl
  | stderr =>
    refine ⟨List.suffix_rfl, fun _ hm => ?_⟩
    obtain rfl : other = "/dev/stderr" := (hm.stands h).1
    exact hm.update (.single rfl rfl) List.suffix_rfl (.refl .null _) nofun (fun k hk => Run.getElem?_erase_ne hk)
      Std.TreeMap.getElem?_erase_self trivial fun _ hwatched => (l.ne_stderr hwatched rfl).elim
  | file f =>
    obtain ⟨-, hwritten, hdeeds⟩ := f.flush_written m.world
    rw [Run.endOutput_file]
    refine ⟨hdeeds ▸ List.suffix_rfl, fun _ hm => ?_⟩
    obtain ⟨hapart, haccounted⟩ := hm.stands h
    refine hm.update (.single rfl rfl) (hdeeds ▸ List.suffix_rfl) hwritten hapart.sink
      (fun k hk => Run.getElem?_erase_ne hk) Std.TreeMap.getElem?_erase_self trivial fun path hwatched => ?_
    obtain ⟨hopen, all, hall, hf⟩ := haccounted path hwatched
    obtain ⟨g, w', hflush, -, -, hfile⟩ := FileWriter.flush_writes hf
    rw [hflush, Account.ofEvents_concat, Account.record, if_pos rfl]
    exact ⟨rfl, hfile.trans hall.symm⟩

lemma writeStream (hown : Run.isOwnOutput other = false) (kind : RedirectKind) (text : String) :
    m.Upholds l past [.print (some (kind, other)) text] (Run.writeStream other stream text.toUTF8 m).state := by
  have habout := about_print hown kind text
  cases stream with
  | pipe name written =>
    rw [Run.writeStream_pipe]
    exact ⟨List.suffix_rfl, fun _ hm => hm.update habout List.suffix_rfl (.refl .null _) nofun
      (fun k hk => Run.getElem?_insert_ne _ hk) Std.TreeMap.getElem?_insert_self trivial fun _ _ => trivial⟩
  | stderr =>
    refine ⟨List.suffix_rfl, fun _ hm => ?_⟩
    obtain rfl : other = "/dev/stderr" := (hm.stands h).1
    exact hm.update habout List.suffix_rfl (.of_eq (s := .null) rfl rfl) nofun (fun _ _ => rfl) h rfl
      fun _ hwatched => (l.ne_stderr hwatched rfl).elim
  | file f =>
    obtain ⟨hsink, hwritten, hdeeds⟩ := f.write_written m.world text.toUTF8
    rw [Run.writeStream_file]
    refine ⟨hdeeds ▸ List.suffix_rfl, fun _ hm => ?_⟩
    obtain ⟨hapart, haccounted⟩ := hm.stands h
    refine hm.update habout (hdeeds ▸ List.suffix_rfl) hwritten hapart.sink (fun k hk => Run.getElem?_insert_ne _ hk)
      Std.TreeMap.getElem?_insert_self ?_ fun path hwatched => ?_
    · rw [Apart, hsink]
      exact hapart
    · obtain ⟨hopen, all, hall, hf⟩ := haccounted path hwatched
      obtain ⟨g, w', hwrite, hg⟩ := FileWriter.write_writes hf text.toUTF8
      rw [hwrite, Account.ofEvents_print_open hopen]
      refine ⟨rfl, _, ?_, hg⟩
      rw [Account.add, hall]
      rfl

end

/-! ## Streams that are not open -/

section

variable (h : m.streams.outputs[other]? = none) (hown : Run.isOwnOutput other = false) {kind : RedirectKind}

include h hown

/-- Printing to a file that is not open yet, which begins it anew or adds to it. -/
lemma writeNewFile (hkind : kind ≠ .pipe) (text : String)
    (hopen : Run.openOutput kind other m = match FileWriter.openFile m.world other (kind = .append) with
      | (.ok f, world) => .ok (.file f) { m with world }
      | (.error e, world) => .error (.error (.io (.redirecting other) e)) { m with world }) :
    m.Upholds l past [.print (some (kind, other)) text] (Run.writeNew kind other text.toUTF8 m).state := by
  have habout := about_print hown kind text
  have hdeeds := FileWriter.openFile_deeds m.world other (kind = .append)
  obtain ⟨hnone, e, w', hfile, hfiles, hdirectories⟩ | ⟨s, w', hsome, hfile, hwritten, hstart⟩ :=
    FileWriter.openFile_eq m.world other (kind = .append)
  · rw [hfile] at hopen hdeeds
    rw [Run.writeNew_of_error hopen]
    have hsuffix : m.world.deeds <:+ w'.deeds := hdeeds ▸ List.suffix_cons _ _
    refine ⟨hsuffix, fun _ hm => hm.update habout hsuffix (.of_eq (s := .null) hdirectories hfiles) nofun
      (fun _ _ => rfl) h trivial fun path hwatched => ?_⟩
    -- what cannot be opened is not watched
    rw [World.sink?_congr hm.isDirectory, l.sink_eq hwatched] at hnone
    cases hnone
  · rw [hfile] at hopen hdeeds
    obtain ⟨hkeeps, hmore, hsame⟩ := FileWriter.write_written { sink := s, append := kind = .append } w' text.toUTF8
    rw [Run.writeNew_of_ok hopen, Run.writeStream_file]
    have hnews := hsame.trans hdeeds
    have hsuffix := List.suffix_cons (.write other) m.world.deeds
    rw [← hnews] at hsuffix
    refine ⟨hsuffix, fun hn hm => ?_⟩
    rw [World.sink?_congr hm.isDirectory] at hsome
    have hapart : Apart l other (some (.file { sink := s, append := kind = .append })) :=
      ⟨hsome, fun name path hwatched hs =>
        l.unshared hwatched (l.mem_news hm.deeds (hnews ▸ hn)) (hsome.trans (congrArg some hs))⟩
    refine hm.update habout hsuffix (hwritten.trans hmore) hapart.sink (fun k hk => ?_)
      Std.TreeMap.getElem?_insert_self ?_ fun path hwatched => ?_
    · rw [Run.getElem?_insert_ne _ hk, Run.getElem?_insert_ne _ hk]
    · rw [Apart, hkeeps]
      exact hapart
    · obtain rfl : s = .file path := Option.some.inj (hsome.symm.trans (l.sink_eq hwatched))
      obtain ⟨g, w'', hwrite, hg⟩ := FileWriter.write_writes (FileWriter.writes_opened (hstart path rfl)) text.toUTF8
      have haccounted := (hm.stands h).2 path hwatched
      rw [hwrite, Account.ofEvents_print_closed haccounted.1]
      cases kind with
      | pipe => exact (hkind rfl).elim
      | file =>
        rw [if_neg (by decide), ByteArray.empty_append] at hg
        exact ⟨rfl, _, rfl, hg⟩
      | append =>
        rw [if_pos (by decide), World.contents, Std.TreeMap.getD_eq_getD_getElem?, haccounted.2] at hg
        exact ⟨rfl, _, rfl, hg⟩

lemma writeNew (kind : RedirectKind) (text : String) :
    m.Upholds l past [.print (some (kind, other)) text] (Run.writeNew kind other text.toUTF8 m).state := by
  have habout := about_print hown kind text
  obtain ⟨⟨f, hopen⟩, hrefused⟩ | ⟨hopen, rfl⟩ | hopen | ⟨hkind, hopen⟩ := Run.openOutput_cases kind other m
  · rw [Run.writeNew_of_error hopen]
    refine ⟨List.suffix_rfl, fun _ hm => hm.update habout List.suffix_rfl (.refl .null _) nofun (fun _ _ => rfl) h
      trivial fun path hwatched => ?_⟩
    have haccounted := (hm.stands h).2 path hwatched
    obtain hexec | rfl := hrefused
    · cases hm.noExec.symm.trans hexec
    · rw [Account.ofEvents_print_closed haccounted.1]
      exact haccounted
  · rw [Run.writeNew_of_ok hopen]
    exact ⟨List.suffix_rfl, fun _ hm => hm.update habout List.suffix_rfl (.of_eq (s := .null) rfl rfl) nofun
      (fun k hk => Run.getElem?_insert_ne _ hk) Std.TreeMap.getElem?_insert_self rfl
      fun _ hwatched => (l.ne_stderr hwatched rfl).elim⟩
  · rw [Run.writeNew_of_ok hopen, Run.writeStream_pipe]
    refine ⟨List.suffix_rfl, fun _ hm => hm.update habout List.suffix_rfl (.refl .null _) nofun (fun k hk => ?_)
      Std.TreeMap.getElem?_insert_self trivial fun _ _ => trivial⟩
    rw [Run.getElem?_insert_ne _ hk, Run.getElem?_insert_ne _ hk]
  · exact writeNewFile h hown hkind text hopen

end

/-! ## Operations on streams that may be open -/

lemma writeText (dest : Option (RedirectKind × String)) (text : String) (m : Machine) :
    m.Upholds l past [.print dest text] (Run.writeText dest text m).state := by
  obtain _ | ⟨kind, other⟩ := dest
  · exact ⟨List.suffix_rfl, fun _ hm => hm.own fun _ _ _ => Account.ofEvents_concat past _⟩
  cases hother : Run.isOwnOutput other with
  | true =>
    rw [Run.writeText, if_pos hother]
    refine ⟨List.suffix_rfl, fun _ hm => ?_⟩
    have h := hm.own (e := .print (some (kind, other)) text) fun name path hwatched => ?_
    · rwa [Event.ownBytes, if_pos hother] at h
    · refine (Account.ofEvents_concat past _).trans (if_neg ?_)
      rintro rfl
      rw [l.isOwnOutput_eq hwatched] at hother
      cases hother
  | false =>
    rw [Run.writeText_apply hother]
    cases h : m.streams.outputs[other]? with
    | some stream => exact writeStream h hother kind text
    | none => exact writeNew h hother kind text

lemma closeStream (other : String) (m : Machine) :
    m.Upholds l past [.close other] (Run.closeStream other m).state := by
  rw [Run.closeStream_apply]
  cases h : m.streams.outputs[other]? with
  | some stream => exact closeOutput h
  | none =>
    -- what is not open is not open afterwards
    have hkept : m.Upholds l past [.close other] m := by
      refine ⟨List.suffix_rfl, fun _ hm => hm.update (.single rfl rfl) List.suffix_rfl (.refl .null _) nofun
        (fun _ _ => rfl) h trivial fun path hwatched => ?_⟩
      rw [Account.ofEvents_concat, Account.record, if_pos rfl]
      exact ⟨rfl, ((hm.stands h).2 path hwatched).2⟩
    cases m.streams.inputs[other]? with
    | some stream => exact hkept.trans (.still rfl rfl)
    | none => exact hkept

lemma flushAll (m : Machine) : ∃ n, Run.flushAll m = .ok () n ∧ m.Upholds l past [] n :=
  Run.flushAll_keeps (fun hm h => hm.trans (flushOutput h)) (.refl m)

lemma flushStream (target : Option String) (m : Machine) : m.Upholds l past [] (Run.flushStream target m).state := by
  cases target with
  | none =>
    obtain ⟨n, hn, hkept⟩ := flushAll m
    change m.Upholds l past [] ((Run.flushAll >>= fun _ => Pure.pure (0 : Float)) m).state
    rw [Run.bind_apply, hn]
    exact hkept
  | some other =>
    rw [Run.flushStream]
    split
    · exact .refl m
    change m.Upholds l past [] ((match m.streams.outputs[other]? with
      | some stream => Run.flushOutput other stream
      | none => Pure.pure (-1) : Run Float) m).state
    cases h : m.streams.outputs[other]? with
    | some stream => exact flushOutput h
    | none => exact .refl m

lemma runCommand (command : String) (m : Machine) : m.Upholds l past [] (Run.runCommand command m).state := by
  cases hexec : m.config.noExec with
  | true =>
    change m.Upholds l past [] ((if m.config.noExec then _ else _ : Run Float) m).state
    rw [if_pos hexec]
    exact .refl m
  | false =>
    obtain ⟨n, hn, hkept⟩ := @flushAll l past m
    rw [Run.runCommand_apply hexec hn]
    split
    · exact hkept.trans (.command command none rfl)
    · exact hkept

end Upholds

end Machine

namespace Run

/-- Ending a stream always succeeds, and leaves the table of streams alone. -/
lemma endOutput_ok (stream : OutputStream) (m : Machine) :
    ∃ x n, endOutput stream m = .ok x n ∧ n.streams = m.streams := by
  cases stream with
  | stderr | file f | pipe command written => exact ⟨_, _, rfl, rfl⟩

/-- What closing one stream keeps, closing all streams keeps.  In the end there is none. -/
lemma closeAll_keeps
    (hP : ∀ {done : List String} {m : Machine} {name : String} {stream : OutputStream}, P done m →
      m.streams.outputs[name]? = some stream → P (done ++ [name]) (endOutput stream { m with
        streams := { m.streams with outputs := m.streams.outputs.erase name } }).state) (hm : P [] m) :
    ∃ n, closeAll m = .ok () { n with streams := { n.streams with inputs := {} } } ∧ P m.streams.outputs.keys n ∧
      ∀ name : String, n.streams.outputs[name]? = none := by
  have hloop := forM_outputs (P := fun done n => P done n ∧ ∀ name : String,
      n.streams.outputs[name]? = if name ∈ done then none else m.streams.outputs[name]?)
    (f := fun e => do
      modifyStreams fun s => { s with outputs := s.outputs.erase e.1 }
      let _ ← endOutput e.2) (fun {done q name stream} hq h => ?_) ⟨hm, fun name => rfl⟩
  · obtain ⟨n, hn, hPn, htable⟩ := hloop
    refine ⟨n, ?_, hPn, fun name => ?_⟩
    · change ((m.streams.outputs.toList.forM _) >>= fun _ => _ : Run Unit) m = _
      rw [bind_apply, hn]
      rfl
    · rw [htable]
      split
      · rfl
      · rename_i hname
        rw [Std.TreeMap.mem_keys] at hname
        exact Std.TreeMap.getElem?_eq_none hname
  · obtain ⟨x, n, hn, hstreams⟩ := endOutput_ok stream { q with
      streams := { q.streams with outputs := q.streams.outputs.erase name } }
    have hnext := hP hq.1 h
    rw [hn] at hnext
    have herase (other : String) : n.streams.outputs[other]? = (q.streams.outputs.erase name)[other]? := by
      rw [hstreams]
    refine ⟨n, ?_, ⟨hnext, fun other => ?_⟩, fun other hother => ?_⟩
    · change (endOutput stream >>= fun _ => Pure.pure ()) { q with
        streams := { q.streams with outputs := q.streams.outputs.erase name } } = _
      rw [bind_apply, hn]
      rfl
    · rw [herase]
      by_cases hother : other = name
      · rw [hother, Std.TreeMap.getElem?_erase_self, if_pos (by simp)]
      · rw [getElem?_erase_ne hother, hq.2]
        simp only [List.mem_append, List.mem_singleton, hother, or_false]
    · rw [herase, getElem?_erase_ne hother]

lemma closeAll_outputs (m : Machine) (name : String) : (closeAll m).state.streams.outputs[name]? = none := by
  obtain ⟨n, hn, -, hnone⟩ := closeAll_keeps (P := fun _ _ => True) (fun _ _ => trivial) trivial
  rw [hn]
  exact hnone name

end Run

namespace Machine

variable {p : Program} {config : Config} {world : World} {keyOrder : KeyOrder} {fresh : Machine}

def Closed (m : Machine) : Prop := ∀ name : String, m.streams.outputs[name]? = none

lemma closed_robust : Run.Robust Closed where
  quiet hm _ hreach name := by
    have houtputs := congrArg Reach.outputs hreach
    exact (congrArg (·[name]?) houtputs).trans (hm name)
  cache _ hm := hm
  fieldSep _ hm := hm
  recordSep _ hm := hm

lemma closed_reset (m : Machine) : (Run.reset m).state.Closed :=
  Run.reset_keeps closed_robust fun _ => Std.TreeMap.getElem?_emptyc

lemma Closed.serve (hm : m.Closed) (call : HostCall) : (m.serve call).Closed := by
  refine serve_cases (fun steps _ => ?_) (fun _ => closed_reset m)
    (fun args _ => (closed_robust.keeping .initArgs { m with args } hm).2) fun _ _ _ _ _ _ => hm
  rw [Run.runProgram_state]
  exact Run.closeAll_outputs _

/-- What is watched in a run: the files of names other than the standard streams, if what was opened for writing under
other names are other files. -/
def ledger (m : Machine) (news : List Deed) (hcommands : ∀ line, Deed.command line ∉ news) : Ledger where
  world := m.world
  output := m.output
  news
  watches name path := Run.isOwnOutput name = false ∧ name ≠ "/dev/stderr" ∧ m.world.sink? name = some (.file path) ∧
    ∀ other, .write other ∈ news → m.world.sink? other = some (.file path) → other = name
  noCommand := hcommands
  isOwnOutput_eq h := h.1
  ne_stderr h := h.2.1
  sink_eq h := h.2.2.1
  unshared h := h.2.2.2 _

variable {m : Machine}

lemma Closed.kept (hm : m.Closed) (hexec : m.config.noExec = false) {news : List Deed}
    (hcommands : ∀ line, Deed.command line ∉ news) : m.Kept (m.ledger news hcommands) [] where
  noExec := hexec
  deeds := List.suffix_rfl
  isDirectory _ := rfl
  output := (m.output.write_empty).symm
  apart other := by
    rw [hm other]
    trivial
  accounted name path hwatched := by
    rw [hm name]
    exact ⟨rfl, (World.fileBytes?_eq hwatched.2.2.1).symm⟩

/-- Closing all streams brings the files in line with the events of the program. -/
lemma Upholds.closeAll {past : List Event} (m : Machine) :
    ∃ names : List String, m.Upholds l past (names.map .close) (Run.closeAll m).state := by
  have hstep {done : List String} {q : Machine} {name : String} {stream : OutputStream}
      (hq : m.Upholds l past (done.map .close) q) (h : q.streams.outputs[name]? = some stream) :
      m.Upholds l past ((done ++ [name]).map .close) (Run.endOutput stream { q with
        streams := { q.streams with outputs := q.streams.outputs.erase name } }).state := by
    rw [List.map_append]
    exact hq.trans (closeOutput h)
  obtain ⟨n, hn, hkept, -⟩ := Run.closeAll_keeps (P := fun done n => m.Upholds l past (done.map .close) n) hstep
    (.refl m)
  refine ⟨m.streams.outputs.keys, ?_⟩
  rw [hn, ← List.append_nil (List.map _ _)]
  exact hkept.trans (.still rfl rfl)

end Machine

end Awk
