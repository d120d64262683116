import Mathlib
import Awk.World.Shell

/-!
# Files that are written

Which file a name stands for depends on the directories around it, and those stay when files are made: a file is only
ever made in a directory.  A writer holds some bytes back, and what it has passed on together with those is all that was
written, in the order in which it was written.
-/

namespace Awk

/-! ## Parts of names -/

lemma notMem_of_mem_splitOn (a : Char) (l : List Char) : ∀ part ∈ l.splitOn a, a ∉ part := by
  induction l with
  | nil => simp
  | cons c l ih =>
    intro part hpart
    rw [List.splitOn, List.splitOnP_cons_eq_if_modifyHead, ← List.splitOn] at hpart
    split at hpart
    · rcases List.mem_cons.mp hpart with rfl | hpart
      · exact List.not_mem_nil
      · exact ih part hpart
    · rename_i hc
      cases hl : l.splitOn a with
      | nil =>
        rw [hl] at hpart
        cases hpart
      | cons first rest =>
        rw [hl] at ih hpart
        rcases List.mem_cons.mp hpart with rfl | hpart
        · have hfirst := ih first List.mem_cons_self
          exact List.not_mem_cons_of_ne_of_not_mem (fun heq => hc (beq_iff_eq.mpr heq.symm)) hfirst
        · exact ih part (List.mem_cons_of_mem first hpart)

lemma World.slash_notMem_of_mem_parts {path part : String} (h : part ∈ parts path) : '/' ∉ part.toList := by
  obtain ⟨cs, hcs, rfl⟩ := List.mem_map.mp h
  rw [String.toList_ofList]
  exact notMem_of_mem_splitOn '/' path.toList cs hcs

/-- A separator at the end of the front of a text is not in a part without one. -/
lemma prefix_of_notMem {a : Char} {l front part : List Char} (hpart : a ∉ part) (h : l ++ [a] <+: front ++ part) :
    l ++ [a] <+: front := by
  rcases List.prefix_or_prefix_of_prefix h (List.prefix_append front part) with h' | ⟨rest, hrest⟩
  · exact h'
  rw [← hrest, List.prefix_append_right_inj] at h
  obtain rfl | hne := eq_or_ne rest []
  · rw [← hrest, List.append_nil]
  · have hlast : rest.getLast hne = a := by
      have := congrArg List.getLast? hrest
      rw [List.getLast?_append, List.getLast?_eq_some_getLast hne] at this
      simpa using this
    exact absurd (h.mem (hlast ▸ List.getLast_mem hne)) hpart

namespace World

variable {w w' w'' : World} {s : Sink} {dir part path name : String}

/-! ## Directories -/

lemma isDirectory_iff {q : String} : w.isDirectory q = true ↔ q ∈ fixedDirectories ∨ q ∈ w.directories ∨
    isUpwards q = true ∨ ∃ path ∈ w.files, q.toList ++ ['/'] <+: path.toList := by
  simp [isDirectory, or_assoc, String.startsWith_string_iff, Std.TreeMap.mem_keys]

/-- All that lies on the way to a path is a directory. -/
def Reaches (w : World) (path : String) : Prop :=
  ∀ q : String, q.toList ++ ['/'] <+: path.toList → w.isDirectory q = true

/-- A path and all that lies on the way to it is a directory. -/
def Rooted (w : World) (dir : String) : Prop :=
  ∀ q : String, q.toList ++ ['/'] <+: dir.toList ++ ['/'] → w.isDirectory q = true

lemma rooted_of_reaches (h : w.Reaches dir) (hdir : w.isDirectory dir = true) : w.Rooted dir := by
  intro q hq
  rcases List.prefix_concat_iff.mp hq with heq | hq
  · rw [String.toList_injective (List.append_cancel_right heq)]
    exact hdir
  · exact h q hq

lemma rooted_empty (w : World) : w.Rooted "" := by
  refine rooted_of_reaches (fun q hq => ?_) (isDirectory_iff.mpr (.inl (by decide)))
  have := hq.length_le
  simp at this

lemma rooted_root (w : World) : w.Rooted "/" := by
  refine rooted_of_reaches (fun q hq => ?_) (isDirectory_iff.mpr (.inl (by decide)))
  have hlength := hq.length_le
  have hq : q = "" := by
    refine String.toList_injective (List.length_eq_zero_iff.mp ?_)
    simp at hlength ⊢
    omega
  subst hq
  exact isDirectory_iff.mpr (.inl (by decide))

lemma Rooted.reaches (h : w.Rooted dir) (hpart : '/' ∉ part.toList) : w.Reaches (joinPath dir part) := by
  intro q hq
  rw [joinPath] at hq
  split at hq
  · rw [String.toList_append] at hq
    exact h q ((prefix_of_notMem hpart hq).trans (List.prefix_append _ _))
  · rw [String.toList_append, String.toList_append] at hq
    exact h q (prefix_of_notMem hpart hq)

/-- The directory above one that leads upwards leads upwards too. -/
lemma isUpwards_joinPath (h : isUpwards dir = true) : isUpwards (joinPath dir "..") = true := by
  by_cases hempty : dir = ""
  · rw [hempty]
    decide
  have hparts : (parts dir).all (· == "..") = true := by simpa [isUpwards, hempty] using h
  have hroot : dir ≠ "/" := by
    rintro rfl
    exact absurd hparts (by decide)
  have hsplit : parts (dir ++ "/" ++ "..") = parts dir ++ [".."] := by
    rw [parts, String.toList_append, String.toList_append, List.append_assoc]
    exact (congrArg _ (List.splitOn_append_cons_self dir.toList "..".toList)).trans (List.map_append ..)
  rw [joinPath, if_neg (by simp [hempty, hroot]), isUpwards, hsplit, List.all_append, hparts]
  simp

lemma Rooted.parent (h : w.Rooted dir) : w.Rooted (parentPath dir) := by
  rw [parentPath]
  split
  · rename_i hup
    exact rooted_of_reaches (h.reaches (by decide)) (isDirectory_iff.mpr (.inr (.inr (.inl (isUpwards_joinPath hup)))))
  · split
    · split
      · exact rooted_root w
      · exact rooted_empty w
    · rename_i hsome
      intro q hq
      refine h q (hq.trans ?_)
      rw [String.toList_ofList]
      -- what is left of the path is the part up to its last slash
      have hwhole := List.takeWhile_append_dropWhile (p := (· != '/')) (l := dir.toList.reverse)
      cases hdrop : dir.toList.reverse.dropWhile (· != '/') with
      | nil =>
        rw [hdrop] at hsome
        exact (hsome rfl).elim
      | cons c left =>
        have hc : c = '/' := by
          have hne : dir.toList.reverse.dropWhile (· != '/') ≠ [] := by simp [hdrop]
          have hhead := List.head_dropWhile_not (· != '/') hne
          simpa [hdrop] using hhead
        rw [hdrop, hc] at hwhole
        have hdir := congrArg List.reverse hwhole
        rw [List.reverse_append, List.reverse_reverse] at hdir
        rw [← hdir]
        simp

/-! ## Names -/

def deviceSink : Device → Sink
  | .full => .full
  | .null | .stdin => .null

/-- Where what is written at a place goes; none if nothing can be written there. -/
def sinkOf : Except OsError Location → Option Sink
  | .ok (.file path) | .ok (.absent path false) => some (.file path)
  | .ok (.device d) => some (deviceSink d)
  | _ => none

/-- Where what is written under a name goes; none if nothing can be written under it. -/
def sink? (w : World) (name : String) : Option Sink := sinkOf (w.locate name)

/-- The bytes of the file that can be written under a name, if it exists. -/
def fileBytes? (w : World) (name : String) : Option ByteArray :=
  match w.sink? name with
  | some (.file path) => w.files[path]?
  | _ => none

lemma fileBytes?_eq {w : World} {name path : String} (h : w.sink? name = some (.file path)) :
    w.fileBytes? name = w.files[path]? := by
  rw [fileBytes?, h]

lemma locate_congr (hfiles : w'.files = w.files) (hdirectories : w'.directories = w.directories) (name : String) :
    w'.locate name = w.locate name := by
  have hisDirectory : w'.isDirectory = w.isDirectory := by
    funext q
    rw [isDirectory, isDirectory, hfiles, hdirectories]
  have hfollow (dir : String) (parts : List String) : w'.follow dir parts = w.follow dir parts := by
    induction parts generalizing dir with
    | nil => rfl
    | cons part parts ih =>
      rw [follow, follow, hisDirectory, hfiles, ih, ih]
      dsimp only
      rw [ih]
  rw [locate, locate, hfollow, hfollow]

/-- Only the directories decide where a name leads to, not the files in them. -/
lemma sinkOf_follow_cons (w : World) (dir part : String) (parts : List String) :
    sinkOf (w.follow dir (part :: parts)) =
      if part = "" ∨ part = "." then sinkOf (w.follow dir parts)
      else if part = ".." then sinkOf (w.follow (parentPath dir) parts)
      else if maxNameLength < part.utf8ByteSize then none
      else if w.isDirectory (joinPath dir part) then sinkOf (w.follow (joinPath dir part) parts)
      else if parts.isEmpty then some ((device? (joinPath dir part)).elim (.file (joinPath dir part)) deviceSink)
      else none := by
  rw [follow]
  dsimp only
  split
  · rfl
  split
  · rfl
  split
  · rfl
  split
  · rfl
  cases parts with
  | nil =>
    cases device? (joinPath dir part) with
    | some d => rfl
    | none => cases w.files.contains (joinPath dir part) <;> rfl
  | cons next parts =>
    cases device? (joinPath dir part) with
    | some d => rfl
    | none =>
      cases w.files.contains (joinPath dir part) with
      | true => rfl
      | false =>
        change sinkOf (if (next :: parts).all String.isEmpty then _ else _) = none
        split_ifs <;> rfl

lemma sinkOf_follow_congr (h : ∀ q, w'.isDirectory q = w.isDirectory q) (dir : String) (parts : List String) :
    sinkOf (w'.follow dir parts) = sinkOf (w.follow dir parts) := by
  induction parts generalizing dir with
  | nil => rfl
  | cons part parts ih => simp only [sinkOf_follow_cons, h, ih]

lemma sink?_congr (h : ∀ q, w'.isDirectory q = w.isDirectory q) (name : String) : w'.sink? name = w.sink? name := by
  rw [sink?, sink?, locate, locate]
  split
  · rfl
  split
  · rfl
  split
  · exact sinkOf_follow_congr h _ _
  · exact sinkOf_follow_congr h _ _

lemma reaches_of_follow (hdir : w.Rooted dir) {parts : List String} (hparts : ∀ part ∈ parts, '/' ∉ part.toList)
    (h : sinkOf (w.follow dir parts) = some (.file path)) : w.Reaches path := by
  induction parts generalizing dir with
  | nil => cases h
  | cons part parts ih =>
    obtain ⟨hpart, hparts⟩ := List.forall_mem_cons.mp hparts
    have hjoin := hdir.reaches hpart
    rw [sinkOf_follow_cons] at h
    split_ifs at h with _ _ _ hisDirectory _
    · exact ih hdir hparts h
    · exact ih hdir.parent hparts h
    · exact ih (rooted_of_reaches hjoin hisDirectory) hparts h
    · cases hd : device? (joinPath dir part) with
      | some d =>
        rw [hd] at h
        cases d <;> cases h
      | none =>
        rw [hd] at h
        cases h
        exact hjoin

lemma reaches_of_sink? (h : w.sink? name = some (.file path)) : w.Reaches path := by
  rw [sink?, locate] at h
  split at h
  · cases h
  split at h
  · cases h
  split at h
  · exact reaches_of_follow (rooted_root w) (fun _ => slash_notMem_of_mem_parts) h
  · exact reaches_of_follow (rooted_empty w) (fun _ => slash_notMem_of_mem_parts) h

/-! ## Worlds in which a file was written -/

/-- Of the files only the one of a sink differs, and no file has vanished. -/
structure Written (s : Sink) (w w' : World) : Prop where
  directories : w'.directories = w.directories
  files : ∀ path, s ≠ .file path → w'.files[path]? = w.files[path]?
  stay : ∀ path ∈ w.files, path ∈ w'.files

namespace Written

lemma of_eq (hdirectories : w'.directories = w.directories) (hfiles : w'.files = w.files) : Written s w w' := by
  refine ⟨hdirectories, fun path _ => ?_, fun path h => ?_⟩
  · rw [hfiles]
  · rwa [hfiles]

lemma refl (s : Sink) (w : World) : Written s w w := of_eq rfl rfl

lemma trans (h : Written s w w') (h' : Written s w' w'') : Written s w w'' where
  directories := h'.directories.trans h.directories
  files path hne := (h'.files path hne).trans (h.files path hne)
  stay path hpath := h'.stay path (h.stay path hpath)

lemma insert (w : World) (path : String) (bytes : ByteArray) :
    Written (.file path) w { w with files := w.files.insert path bytes } where
  directories := rfl
  files path' hne := by
    rw [Std.TreeMap.getElem?_insert, if_neg fun heq => hne (by rw [Std.LawfulEqCmp.compare_eq_iff_eq.mp heq])]
  stay path' hpath := Std.TreeMap.mem_insert.mpr (.inr hpath)

lemma isDirectory_eq (h : Written s w w') (hs : ∀ path, s = .file path → w.Reaches path) (q : String) :
    w'.isDirectory q = w.isDirectory q := by
  rw [Bool.eq_iff_iff]
  constructor
  · intro hq
    rw [isDirectory_iff, h.directories] at hq
    rcases hq with hq | hq | hq | ⟨path, hpath, hq⟩
    · exact isDirectory_iff.mpr (.inl hq)
    · exact isDirectory_iff.mpr (.inr (.inl hq))
    · exact isDirectory_iff.mpr (.inr (.inr (.inl hq)))
    · by_cases hsink : s = .file path
      · exact hs path hsink q hq
      · rw [Std.TreeMap.mem_iff_isSome_getElem?, h.files path hsink, ← Std.TreeMap.mem_iff_isSome_getElem?] at hpath
        exact isDirectory_iff.mpr (.inr (.inr (.inr ⟨path, hpath, hq⟩)))
  · intro hq
    rw [isDirectory_iff] at hq
    rw [isDirectory_iff, h.directories]
    exact hq.imp_right (.imp_right (.imp_right fun ⟨path, hpath, hq⟩ => ⟨path, h.stay path hpath, hq⟩))

end Written

end World

/-! ## Writers -/

namespace FileWriter

variable {f : FileWriter} {w : World} {path : String} {all : ByteArray}

/-- Passing bytes on changes no file but the writer's own, and is no deed. -/
lemma pass_written (f : FileWriter) (w : World) (bytes : ByteArray) : (f.pass w bytes).2.1.sink = f.sink ∧
    World.Written f.sink w (f.pass w bytes).2.2 ∧ (f.pass w bytes).2.2.deeds = w.deeds := by
  obtain ⟨sink, append, offset, waiting⟩ := f
  rw [pass]
  split
  · exact ⟨rfl, .refl _ _, rfl⟩
  cases sink with
  | null | full => exact ⟨rfl, .refl _ _, rfl⟩
  | file path =>
    cases append with
    | true | false => exact ⟨rfl, .insert w path _, rfl⟩

lemma flush_written (f : FileWriter) (w : World) : (f.flush w).2.1.sink = f.sink ∧
    World.Written f.sink w (f.flush w).2.2 ∧ (f.flush w).2.2.deeds = w.deeds := by
  have h := f.pass_written w f.waiting
  rw [flush]
  rcases hpass : f.pass w f.waiting with ⟨written, g, w'⟩
  rw [hpass] at h
  cases written with
  | true | false => exact h

lemma write_written (f : FileWriter) (w : World) (bytes : ByteArray) : (f.write w bytes).2.1.sink = f.sink ∧
    World.Written f.sink w (f.write w bytes).2.2 ∧ (f.write w bytes).2.2.deeds = w.deeds := by
  have hfirst : ∀ r, (if capacity - f.waiting.size < bytes.size then f.flush w else (true, f, w)) = r →
      r.2.1.sink = f.sink ∧ World.Written f.sink w r.2.2 ∧ r.2.2.deeds = w.deeds := by
    rintro r rfl
    split
    · exact f.flush_written w
    · exact ⟨rfl, .refl _ _, rfl⟩
  rw [write]
  split
  · exact ⟨rfl, .refl _ _, rfl⟩
  generalize (if capacity - f.waiting.size < bytes.size then f.flush w else (true, f, w)) = r at hfirst
  obtain ⟨written, g, w'⟩ := r
  obtain ⟨hsink, hwritten, hdeeds⟩ := hfirst _ rfl
  cases written with
  | false => exact ⟨hsink, hwritten, hdeeds⟩
  | true =>
    dsimp only at hsink hwritten hdeeds ⊢
    split
    · obtain ⟨hsink', hwritten', hdeeds'⟩ := g.pass_written w' bytes
      rw [hsink] at hsink' hwritten'
      exact ⟨hsink', hwritten.trans hwritten', hdeeds'.trans hdeeds⟩
    · exact ⟨hsink, hwritten, hdeeds⟩

/-- A writer is at the end of its file, and what the file holds and what waits is all that was written. -/
structure Writes (f : FileWriter) (w : World) (path : String) (all : ByteArray) : Prop where
  sink : f.sink = .file path
  passed : ∃ bytes, w.files[path]? = some bytes ∧ bytes ++ f.waiting = all ∧ (f.append = false → f.offset = bytes.size)

lemma writes_opened {append : Bool} {start : ByteArray}
    (h : w.files[path]? = some (if append then start else ByteArray.empty)) :
    ({ sink := .file path, append } : FileWriter).Writes w path (if append then start else ByteArray.empty) := by
  refine ⟨rfl, _, h, ByteArray.append_empty, fun happend => ?_⟩
  obtain rfl : append = false := happend
  rfl

lemma pass_eq {bytes : ByteArray} (hsink : f.sink = .file path) (hbytes : w.files[path]? = some bytes)
    (hoffset : f.append = false → f.offset = bytes.size) (more : ByteArray) :
    ∃ offset w', f.pass w more = (true, { f with offset }, w') ∧ w'.files[path]? = some (bytes ++ more) ∧
      (f.append = false → offset = (bytes ++ more).size) := by
  have hcontents : w.contents path = bytes := by
    rw [World.contents, Std.TreeMap.getD_eq_getD_getElem?, hbytes]
    rfl
  obtain ⟨sink, append, offset, waiting⟩ := f
  subst hsink
  rw [pass]
  split
  · rename_i hempty
    obtain rfl : more = ByteArray.empty := ByteArray.size_eq_zero_iff.mp (eq_of_beq hempty)
    rw [ByteArray.append_empty]
    exact ⟨offset, w, rfl, hbytes, hoffset⟩
  cases append with
  | true =>
    refine ⟨offset, _, rfl, ?_, nofun⟩
    rw [World.appendTo, Std.TreeMap.getElem?_insert_self, hcontents]
  | false =>
    obtain rfl := hoffset rfl
    refine ⟨bytes.size + more.size, _, rfl, ?_, fun _ => ByteArray.size_append.symm⟩
    rw [World.writeAt, Std.TreeMap.getElem?_insert_self, hcontents]
    have hgap : bytes ++ ByteArray.mk (Array.replicate (bytes.size - bytes.size) 0) = bytes := by
      rw [Nat.sub_self]
      exact ByteArray.append_empty
    have hrest : bytes.extract (bytes.size + more.size) bytes.size = ByteArray.empty :=
      ByteArray.extract_eq_empty_iff.mpr (by omega)
    dsimp only
    rw [hgap, hrest, ByteArray.extract_zero_size, ByteArray.append_empty]

lemma flush_writes (h : f.Writes w path all) : ∃ g w', f.flush w = (true, g, w') ∧ g.Writes w' path all ∧
    g.waiting = ByteArray.empty ∧ w'.files[path]? = some all := by
  obtain ⟨hsink, bytes, hbytes, hall, hoffset⟩ := h
  obtain ⟨offset, w', hpass, hbytes', hoffset'⟩ := pass_eq hsink hbytes hoffset f.waiting
  rw [hall] at hbytes' hoffset'
  refine ⟨{ f with offset, waiting := ByteArray.empty }, w', ?_, ⟨hsink, all, hbytes', ?_, hoffset'⟩, rfl, hbytes'⟩
  · rw [flush, hpass]
  · exact ByteArray.append_empty

lemma write_writes (h : f.Writes w path all) (bytes : ByteArray) :
    ∃ g w', f.write w bytes = (true, g, w') ∧ g.Writes w' path (all ++ bytes) := by
  have hwait {g : FileWriter} {w' : World} (hg : g.Writes w' path all) :
      ({ g with waiting := g.waiting ++ bytes } : FileWriter).Writes w' path (all ++ bytes) := by
    obtain ⟨hsink, passed, hpassed, hall, hoffset⟩ := hg
    exact ⟨hsink, passed, hpassed, by rw [← hall, ByteArray.append_assoc], hoffset⟩
  have hfirst : ∃ g w', (if capacity - f.waiting.size < bytes.size then f.flush w else (true, f, w)) = (true, g, w') ∧
      g.Writes w' path all ∧ (capacity ≤ bytes.size → g.waiting = ByteArray.empty) := by
    split
    · obtain ⟨g, w', hflush, hg, hempty, -⟩ := flush_writes h
      exact ⟨g, w', hflush, hg, fun _ => hempty⟩
    · refine ⟨f, w, rfl, h, fun hlarge => ByteArray.size_eq_zero_iff.mp ?_⟩
      simp only [capacity] at *
      omega
  rw [write]
  split
  · exact ⟨_, w, rfl, hwait h⟩
  obtain ⟨g, w', hfirst, hg, hempty⟩ := hfirst
  rw [hfirst]
  dsimp only
  split
  · rename_i hlarge
    obtain ⟨hsink, passed, hpassed, hall, hoffset⟩ := hg
    rw [hempty hlarge, ByteArray.append_empty] at hall
    subst hall
    obtain ⟨offset, w'', hpass, hpassed', hoffset'⟩ := pass_eq hsink hpassed hoffset bytes
    refine ⟨{ g with offset }, w'', hpass, hsink, _, hpassed', ?_, hoffset'⟩
    change _ ++ g.waiting = _
    rw [hempty hlarge, ByteArray.append_empty]
  · exact ⟨_, w', rfl, hwait hg⟩

lemma openFile_eq (w : World) (name : String) (append : Bool) :
    (w.sink? name = none ∧ ∃ e w', openFile w name append = (.error e, w') ∧ w'.files = w.files ∧
        w'.directories = w.directories) ∨
      ∃ s w', w.sink? name = some s ∧ openFile w name append = (.ok { sink := s, append }, w') ∧
        World.Written s w w' ∧
        ∀ path, s = .file path → w'.files[path]? = some (if append then w.contents path else ByteArray.empty) := by
  have hdid : (w.did (.write name)).locate name = w.locate name :=
    World.locate_congr (show (w.did (.write name)).files = w.files from rfl) rfl name
  have hcreate (w' : World) (path : String) (hfiles : w'.files = w.files)
      (hdirectories : w'.directories = w.directories) :
      World.Written (.file path) w (w'.createFile path !append) ∧ ∀ path', Sink.file path = .file path' →
        (w'.createFile path !append).files[path']? = some (if append then w.contents path' else ByteArray.empty) := by
    refine ⟨(World.Written.of_eq hdirectories hfiles).trans (.insert w' path _), ?_⟩
    rintro path' ⟨⟩
    rw [World.createFile, Std.TreeMap.getElem?_insert_self, World.contents, hfiles]
    cases append <;> rfl
  rw [World.sink?, openFile]
  dsimp only
  rw [hdid]
  rcases w.locate name with e | _ | path | ⟨path, _ | _⟩ | d
  · exact .inl ⟨rfl, e, _, rfl, rfl, rfl⟩
  · exact .inl ⟨rfl, _, _, rfl, rfl, rfl⟩
  · exact .inr ⟨_, _, rfl, rfl, hcreate _ path rfl rfl⟩
  · refine .inr ⟨_, _, rfl, rfl, hcreate _ path ?_ ?_⟩
    · cases append <;> rfl
    · cases append <;> rfl
  · exact .inl ⟨rfl, _, _, rfl, rfl, rfl⟩
  · cases d with
    | null | full | stdin => exact .inr ⟨_, _, rfl, rfl, .of_eq rfl rfl, nofun⟩

/-! ## Deeds -/

lemma openFile_deeds (w : World) (name : String) (append : Bool) :
    (openFile w name append).2.deeds = .write name :: w.deeds := by
  rw [openFile]
  dsimp only
  split
  case h_5 => cases append <;> rfl
  all_goals rfl

end FileWriter

/-- A command line is among the deeds after it was run, and all deeds before it still are. -/
lemma Shell.run_deeds (w : World) (command : String) (piped : Option ByteArray) :
    .command command :: w.deeds <:+ (run w command piped).2.2.deeds := by
  rw [run]
  dsimp only
  split <;> exact List.suffix_append _ _

end Awk
