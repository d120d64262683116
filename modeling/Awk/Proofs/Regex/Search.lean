import Mathlib.Data.List.Basic
import Awk.Regex.Pattern

/-!
# Where matches are found

Threads start where a match may start, and a match is found where a thread accepts.
-/

namespace Awk.Regex

/-- A match within bounds. -/
structure Span.Within (s : Span) (low high : Nat) : Prop where
  low_le : low ≤ s.start
  start_le : s.start ≤ s.stop
  le_high : s.stop ≤ high

lemma Span.Within.mono {s : Span} {low low' high high' : Nat} (h : s.Within low high) (hlow : low' ≤ low)
    (hhigh : high ≤ high') : s.Within low' high' :=
  ⟨Nat.le_trans hlow h.low_le, h.start_le, Nat.le_trans h.le_high hhigh⟩

namespace Automaton

variable (a : Automaton)

/-! ## Entering nodes -/

/-- A property of nodes that the nodes they lead to without using up text have as well. -/
structure Closed (Q : Nat → Prop) : Prop where
  split : ∀ {n first second}, a.nodes[n]? = some (.split first second) → Q n → Q first ∧ Q second
  look : ∀ {n l next}, a.nodes[n]? = some (.look l next) → Q n → Q next

variable {a}

variable {work : List Nat} {before : Option Char} {threads : Threads} {low place : Nat} {found : Option Span}
  {text : List Char} {s : Span} {last : Option Nat}

/-- Entering nodes adds threads behind those that are alive. -/
lemma enter_alive {Q : Nat → Prop} (hQ : a.Closed Q) (before after : Option Char) (mark start fuel : Nat)
    (hwork : ∀ n ∈ work, Q n) (threads : Threads) :
    ∃ new, (a.enter before after mark start fuel work threads).alive.toList = threads.alive.toList ++ new ∧
      ∀ t ∈ new, t.start = start ∧ Q t.node := by
  induction fuel generalizing work threads with
  | zero => exact ⟨[], by simp [enter], by simp⟩
  | succ fuel ih =>
    cases work with
    | nil => exact ⟨[], by simp [enter], by simp⟩
    | cons node work =>
      obtain ⟨hnode, hrest⟩ := List.forall_mem_cons.1 hwork
      -- a node that is kept becomes one thread
      have hkept : ∃ new, (a.enter before after mark start fuel work
            ⟨threads.alive.push ⟨node, start⟩, threads.entered.setIfInBounds node mark⟩).alive.toList =
          threads.alive.toList ++ new ∧ ∀ t ∈ new, t.start = start ∧ Q t.node := by
        obtain ⟨new, hnew, hall⟩ := ih hrest
          ⟨threads.alive.push ⟨node, start⟩, threads.entered.setIfInBounds node mark⟩
        exact ⟨⟨node, start⟩ :: new, by simpa using hnew, List.forall_mem_cons.2 ⟨⟨rfl, hnode⟩, hall⟩⟩
      rw [enter]
      split_ifs with hentered
      · exact ih hrest threads
      · simp only
        cases heq : a.nodes[node]? with
        | none => exact ih hrest _
        | some kind =>
          cases kind with
          | split first second =>
            have ⟨hfirst, hsecond⟩ := hQ.split heq hnode
            exact ih (List.forall_mem_cons.2 ⟨hfirst, List.forall_mem_cons.2 ⟨hsecond, hrest⟩⟩) _
          | look l next =>
            refine ih ?_ _
            split_ifs
            · exact List.forall_mem_cons.2 ⟨hQ.look heq hnode, hrest⟩
            · exact hrest
          | set s next | accept => exact hkept

lemma start_enter {after : Option Char} {mark start fuel : Nat} {t : Thread}
    (h : t ∈ (a.enter before after mark start fuel work threads).alive.toList) :
    t ∈ threads.alive.toList ∨ t.start = start := by
  have hall : a.Closed fun _ => True := ⟨fun _ _ => ⟨trivial, trivial⟩, fun _ _ => trivial⟩
  have hwork : ∀ n ∈ work, True := fun _ _ => trivial
  obtain ⟨new, hnew, hstart⟩ := enter_alive hall before after mark start fuel hwork threads
  rw [hnew, List.mem_append] at h
  exact h.imp_right fun ht => (hstart t ht).1

/-! ## Matches lie within the text -/

def StartWithin (low high : Nat) (ts : List Thread) : Prop := ∀ t ∈ ts, low ≤ t.start ∧ t.start ≤ high

lemma advance_within (c : Char) (after : Option Char) {ts : List Thread} {next : Threads}
    (hts : StartWithin low place ts) (hnext : StartWithin low place next.alive.toList)
    (hfound : ∀ s ∈ found, s.Within low place) :
    StartWithin low place (a.advance c after place ts next found).1.alive.toList ∧
      ∀ s ∈ (a.advance c after place ts next found).2, s.Within low place := by
  induction ts generalizing next with
  | nil => exact ⟨hnext, hfound⟩
  | cons t ts ih =>
    obtain ⟨ht, hrest⟩ := List.forall_mem_cons.1 hts
    rw [advance]
    cases heq : a.nodes[t.node]? with
    | none => exact ih hrest hnext
    | some kind =>
      cases kind with
      | set s target =>
        simp only
        split_ifs with hc
        · refine ih hrest fun t' ht' => ?_
          obtain hold | hnew := start_enter ht'
          · exact hnext t' hold
          · exact hnew ▸ ht
        · exact ih hrest hnext
      | accept =>
        refine ⟨hnext, fun s hs => ?_⟩
        cases hs
        exact ⟨ht.1, ht.2, Nat.le_refl _⟩
      | split first second | look l next' => exact ih hrest hnext

lemma acceptAtEnd_cases (place : Nat) (ts : List Thread) (found : Option Span) :
    a.acceptAtEnd place ts found = found ∨
      ∃ t ∈ ts, a.nodes[t.node]? = some .accept ∧ a.acceptAtEnd place ts found = some ⟨t.start, place⟩ := by
  induction ts with
  | nil => exact .inl rfl
  | cons t ts ih =>
    have skip : a.acceptAtEnd place ts found = found ∨ ∃ t' ∈ t :: ts, a.nodes[t'.node]? = some .accept ∧
        a.acceptAtEnd place ts found = some ⟨t'.start, place⟩ := by
      obtain h | ⟨t', ht', h⟩ := ih
      · exact .inl h
      · exact .inr ⟨t', List.mem_cons_of_mem _ ht', h⟩
    rw [acceptAtEnd]
    cases heq : a.nodes[t.node]? with
    | none => exact skip
    | some kind =>
      cases kind with
      | accept => exact .inr ⟨t, List.mem_cons_self, heq, rfl⟩
      | set s target | split first second | look l next => exact skip

variable (a) in
/-- The threads at a place, with the new one that starts there as long as there is no match. -/
def started (before after : Option Char) (place : Nat) (threads : Threads) (found : Option Span) : Threads :=
  if found.isNone then a.enter before after (place + 1) place a.enterFuel [a.start] threads else threads

lemma run_nil (place : Nat) (before : Option Char) (threads : Threads) (found : Option Span) :
    a.run [] place before threads found =
      a.acceptAtEnd place (a.started before none place threads found).alive.toList found := rfl

lemma run_cons (c : Char) (text : List Char) (place : Nat) (before : Option Char) (threads : Threads)
    (found : Option Span) :
    a.run (c :: text) place before threads found =
      if found.isSome && threads.alive.isEmpty then found
      else
        let now := a.started before (some c) place threads found
        let step := a.advance c text.head? place now.alive.toList { now with alive := #[] } found
        a.run text (place + 1) (some c) step.1 step.2 := rfl

lemma started_within (before after : Option Char) (found : Option Span) (hlow : low ≤ place)
    (h : StartWithin low place threads.alive.toList) :
    StartWithin low place (a.started before after place threads found).alive.toList := by
  intro t ht
  rw [started] at ht
  split_ifs at ht
  · obtain hold | hnew := start_enter ht
    · exact h t hold
    · omega
  · exact h t ht

/-- A match that is found lies between where the search starts and the end of the text. -/
lemma run_within (hlow : low ≤ place) (hthreads : StartWithin low place threads.alive.toList)
    (hfound : ∀ s ∈ found, s.Within low place) :
    ∀ s ∈ a.run text place before threads found, s.Within low (place + text.length) := by
  induction text generalizing place before threads found with
  | nil =>
    intro s hs
    rw [run_nil] at hs
    obtain h | ⟨t, ht, -, h⟩ := a.acceptAtEnd_cases place (a.started before none place threads found).alive.toList found
    · exact hfound s (h ▸ hs)
    · rw [h] at hs
      cases hs
      have hstart := a.started_within before none found hlow hthreads t ht
      exact ⟨hstart.1, hstart.2, Nat.le_refl _⟩
  | cons c text ih =>
    intro s hs
    rw [run_cons] at hs
    split_ifs at hs with hdone
    · exact (hfound s hs).mono (Nat.le_refl _) (by simp)
    · have hnow := a.started_within before (some c) found hlow hthreads
      have hempty (entered : Array Nat) : StartWithin low place (Threads.mk #[] entered).alive.toList := by
        simp [StartWithin]
      obtain ⟨hnext, hfound'⟩ := advance_within c text.head? hnow (hempty _) hfound
      have hw := ih (Nat.le_succ_of_le hlow) (fun t ht => ⟨(hnext t ht).1, Nat.le_succ_of_le (hnext t ht).2⟩)
        (fun s' hs' => (hfound' s' hs').mono (Nat.le_refl _) (Nat.le_succ _)) s hs
      exact hw.mono (Nat.le_refl _) (by simp; omega)

lemma findFrom_within (h : a.findFrom place before text = some s) : s.Within place (place + text.length) :=
  run_within (Nat.le_refl _) (by simp [StartWithin]) (by simp) s h

/-- The next match is the first one from a place or the one after it. -/
lemma findFrom_of_findNext (h : a.findNext place before text last = some s) :
    a.findFrom place before text = some s ∨
      ∃ c rest, text = c :: rest ∧ a.findFrom (place + 1) (some c) rest = some s := by
  cases hfind : a.findFrom place before text with
  | none => simp [findNext, hfind] at h
  | some s' =>
    simp only [findNext, hfind] at h
    split_ifs at h with hempty
    · cases text with
      | nil => cases h
      | cons c rest => exact .inr ⟨c, rest, rfl, h⟩
    · exact .inl h

lemma findNext_within (h : a.findNext place before text last = some s) : s.Within place (place + text.length) := by
  obtain hfind | ⟨c, rest, rfl, hfind⟩ := findFrom_of_findNext h
  · exact findFrom_within hfind
  · exact (findFrom_within hfind).mono (Nat.le_succ _) (by simp; omega)

lemma length_skip (n : Nat) (before : Option Char) (text : List Char) :
    (skip n before text).2.length = text.length - n := by
  induction n generalizing before text with
  | zero => rfl
  | succ n ih =>
    cases text with
    | nil => simp [skip]
    | cons c text => simp [skip, ih]

/-- The first match that uses up text is not empty and lies within the text. -/
lemma findUsingFrom_within {bound : List Char} (h : a.findUsingFrom bound place before text last = some s) :
    s.Within place (place + text.length) ∧ s.start < s.stop := by
  induction bound generalizing place before text last with
  | nil => cases h
  | cons _ bound ih =>
    rw [findUsingFrom] at h
    cases hfind : a.findNext place before text last with
    | none => simp [hfind] at h
    | some s' =>
      have hw := findNext_within hfind
      simp only [hfind] at h
      split_ifs at h with hempty
      · obtain ⟨hs, hlt⟩ := ih h
        have hlength := length_skip (s'.stop - place) before text
        have h1 := hw.low_le
        have h2 := hw.start_le
        have h3 := hw.le_high
        exact ⟨hs.mono (by omega) (by omega), hlt⟩
      · cases h
        have hne : s.start ≠ s.stop := by simpa [Span.isEmpty] using hempty
        exact ⟨hw, Nat.lt_of_le_of_ne hw.start_le hne⟩

lemma findUsing_within (h : a.findUsing text = some s) : s.start < s.stop ∧ s.stop ≤ text.length := by
  obtain ⟨hw, hlt⟩ := findUsingFrom_within h
  exact ⟨hlt, by simpa using hw.le_high⟩

/-! ## Matches of one length -/

/-- All ways from a node to the end of a match use up `rank` characters, and none looks around. -/
structure Uniform (a : Automaton) (rank : Nat → Nat) : Prop where
  set : ∀ {n : Nat} {s : Text.CodeSet} {next : Nat}, a.nodes[n]? = some (.set s next) → rank n = rank next + 1
  split : ∀ {n first second : Nat}, a.nodes[n]? = some (.split first second) →
    rank first = rank n ∧ rank second = rank n
  look : ∀ {n : Nat} {l : Look} {next : Nat}, a.nodes[n]? = some (.look l next) → False
  accept : ∀ {n : Nat}, a.nodes[n]? = some .accept → rank n = 0

section

variable {rank : Nat → Nat}

lemma Uniform.closed (h : a.Uniform rank) (k : Nat) : a.Closed fun n => rank n = k where
  split hn hk := ⟨(h.split hn).1.trans hk, (h.split hn).2.trans hk⟩
  look hn := (h.look hn).elim

/-- Without conditions the characters around a place make no difference. -/
lemma Uniform.enter_congr (h : a.Uniform rank) (before after before' after' : Option Char) (mark start fuel : Nat)
    (work : List Nat) (threads : Threads) :
    a.enter before after mark start fuel work threads = a.enter before' after' mark start fuel work threads := by
  induction fuel generalizing work threads with
  | zero => rfl
  | succ fuel ih =>
    cases work with
    | nil => rfl
    | cons node work =>
      rw [enter, enter]
      split_ifs with hentered
      · exact ih work threads
      · simp only
        cases heq : a.nodes[node]? with
        | none => exact ih work _
        | some kind =>
          cases kind with
          | split first second => exact ih _ _
          | look l next => exact (h.look heq).elim
          | set s next | accept => exact ih work _

lemma Uniform.advance_congr (h : a.Uniform rank) (c : Char) (after after' : Option Char) (place : Nat)
    (ts : List Thread) (next : Threads) (found : Option Span) :
    a.advance c after place ts next found = a.advance c after' place ts next found := by
  induction ts generalizing next with
  | nil => rfl
  | cons t ts ih =>
    rw [advance, advance]
    cases heq : a.nodes[t.node]? with
    | none => exact ih next
    | some kind =>
      cases kind with
      | set s target =>
        simp only
        rw [h.enter_congr (some c) after (some c) after']
        split_ifs <;> exact ih _
      | accept => rfl
      | split first second | look l next' => exact ih next

/-- Threads in the order of their starts, each as far from its start as its node tells. -/
structure Lined (a : Automaton) (rank : Nat → Nat) (place : Nat) (ts : List Thread) : Prop where
  rank : ∀ t ∈ ts, rank t.node + place = t.start + rank a.start
  begun : ∀ t ∈ ts, t.start ≤ place
  sorted : ts.Pairwise fun t t' => t.start ≤ t'.start

variable {place : Nat} {ts : List Thread} {threads : Threads} {s : Span} {before : Option Char} {text : List Char}

lemma Lined.tail {t : Thread} (h : a.Lined rank place (t :: ts)) : a.Lined rank place ts :=
  ⟨(List.forall_mem_cons.1 h.rank).2, (List.forall_mem_cons.1 h.begun).2, (List.pairwise_cons.1 h.sorted).2⟩

/-- Threads of one start, no earlier than those before them. -/
lemma Lined.append {start r : Nat} {new : List Thread} (h : a.Lined rank place ts)
    (hnew : ∀ t ∈ new, t.start = start ∧ rank t.node = r) (hrank : r + place = start + rank a.start)
    (hbegun : start ≤ place) (horder : ∀ t ∈ ts, t.start ≤ start) : a.Lined rank place (ts ++ new) where
  rank := List.forall_mem_append.2 ⟨h.rank, fun t ht => by rw [(hnew t ht).1, (hnew t ht).2, hrank]⟩
  begun := List.forall_mem_append.2 ⟨h.begun, fun t ht => by rw [(hnew t ht).1]; exact hbegun⟩
  sorted := by
    refine List.pairwise_append.2 ⟨h.sorted, List.pairwise_of_forall_mem_list fun t ht t' ht' => ?_, fun t ht t' ht' => ?_⟩
    · exact Nat.le_of_eq ((hnew t ht).1.trans (hnew t' ht').1.symm)
    · rw [(hnew t' ht').1]
      exact horder t ht

/-- Threads that have not come to an end all go on, and none accepts. -/
lemma Uniform.advance_lined (h : a.Uniform rank) (c : Char) (after : Option Char) {next : Threads}
    (found : Option Span) (hts : a.Lined rank place ts) (hgo : ∀ t ∈ ts, rank t.node ≠ 0)
    (hnext : a.Lined rank (place + 1) next.alive.toList)
    (horder : ∀ t ∈ ts, ∀ t' ∈ next.alive.toList, t'.start ≤ t.start) :
    (a.advance c after place ts next found).2 = found ∧
      a.Lined rank (place + 1) (a.advance c after place ts next found).1.alive.toList := by
  induction ts generalizing next with
  | nil => exact ⟨rfl, hnext⟩
  | cons t ts ih =>
    obtain ⟨hgot, hgo⟩ := List.forall_mem_cons.1 hgo
    obtain ⟨hordert, horder⟩ := List.forall_mem_cons.1 horder
    have hbefore := (List.pairwise_cons.1 hts.sorted).1
    rw [advance]
    cases heq : a.nodes[t.node]? with
    | none => exact ih hts.tail hgo hnext horder
    | some kind =>
      cases kind with
      | set s target =>
        simp only
        split_ifs with hc
        · have htarget : ∀ n ∈ [target], rank n = rank t.node - 1 := by
            have hset := h.set heq
            simp only [List.mem_singleton, forall_eq]
            omega
          obtain ⟨new, hnew, hall⟩ := enter_alive (h.closed _) (some c) after (place + 2) t.start a.enterFuel htarget next
          have hrankt := hts.rank t List.mem_cons_self
          have hbegun := hts.begun t List.mem_cons_self
          refine ih hts.tail hgo ?_ ?_
          · rw [hnew]
            exact hnext.append hall (by omega) (by omega) hordert
          · intro t' ht' t'' ht''
            rw [hnew, List.mem_append] at ht''
            obtain hold | hin := ht''
            · exact horder t' ht' t'' hold
            · rw [(hall t'' hin).1]
              exact hbefore t' ht'
        · exact ih hts.tail hgo hnext horder
      | accept => exact absurd (h.accept heq) hgot
      | split first second | look l next' => exact ih hts.tail hgo hnext horder

/-- A step of all threads: they go on, or the first of them accepts and no other goes on. -/
lemma Uniform.advance_cases (h : a.Uniform rank) (c : Char) (after : Option Char) (entered : Array Nat)
    (found : Option Span) (hts : a.Lined rank place ts) :
    ((a.advance c after place ts ⟨#[], entered⟩ found).2 = found ∧
        a.Lined rank (place + 1) (a.advance c after place ts ⟨#[], entered⟩ found).1.alive.toList) ∨
      ∃ t ∈ ts, a.nodes[t.node]? = some .accept ∧
        (a.advance c after place ts ⟨#[], entered⟩ found).2 = some ⟨t.start, place⟩ ∧
        (a.advance c after place ts ⟨#[], entered⟩ found).1.alive = #[] := by
  have hnone : a.Lined rank (place + 1) (Threads.mk #[] entered).alive.toList := ⟨by simp, by simp, by simp⟩
  induction ts with
  | nil => exact .inl ⟨rfl, hnone⟩
  | cons t ts ih =>
    have hbefore := (List.pairwise_cons.1 hts.sorted).1
    by_cases hzero : rank t.node = 0
    · have skip := (ih hts.tail).imp_right (Exists.imp fun _ => And.imp_left (List.mem_cons_of_mem t))
      rw [advance]
      cases heq : a.nodes[t.node]? with
      | none => exact skip
      | some kind =>
        cases kind with
        | set s target => exact absurd (h.set heq) (by omega)
        | accept => exact .inr ⟨t, List.mem_cons_self, heq, rfl, rfl⟩
        | split first second | look l next => exact skip
    · -- later threads started later and are further from their ends
      refine .inl (h.advance_lined c after found hts ?_ hnone (by simp))
      have hrankt := hts.rank t List.mem_cons_self
      refine List.forall_mem_cons.2 ⟨hzero, fun t' ht' => ?_⟩
      have hrankt' := hts.tail.rank t' ht'
      have hle := hbefore t' ht'
      omega

/-- What a search has come to: a match and no thread, or threads that may still come to one. -/
inductive Searching (a : Automaton) (rank : Nat → Nat) (place : Nat) : Threads → Option Span → Prop where
  | done {s : Span} {threads : Threads} (hmatch : s.stop = s.start + rank a.start) (halive : threads.alive = #[]) :
      Searching a rank place threads (some s)
  | going {threads : Threads} (hlined : a.Lined rank place threads.alive.toList) : Searching a rank place threads none

lemma Uniform.started_lined (h : a.Uniform rank) (before after : Option Char)
    (hthreads : a.Lined rank place threads.alive.toList) :
    a.Lined rank place (a.started before after place threads none).alive.toList := by
  have hstart : ∀ n ∈ [a.start], rank n = rank a.start := by simp
  obtain ⟨new, hnew, hall⟩ := enter_alive (h.closed _) before after (place + 1) place a.enterFuel hstart threads
  simp only [started, Option.isNone_none, if_true]
  rw [hnew]
  exact hthreads.append hall (by omega) (Nat.le_refl _) hthreads.begun

lemma Uniform.searching_step (h : a.Uniform rank) (before : Option Char) (c : Char) (after : Option Char)
    (hthreads : a.Lined rank place threads.alive.toList) : let now := a.started before (some c) place threads none
    let step := a.advance c after place now.alive.toList { now with alive := #[] } none
    a.Searching rank (place + 1) step.1 step.2 := by
  intro now step
  have hnow := h.started_lined before (some c) hthreads
  obtain ⟨hnone, hlined⟩ | ⟨t, ht, haccept, hsome, halive⟩ := h.advance_cases c after now.entered none hnow
  · rw [show step.2 = none from hnone]
    exact .going hlined
  · rw [show step.2 = some ⟨t.start, place⟩ from hsome]
    have hrank := hnow.rank t ht
    rw [h.accept haccept, Nat.zero_add] at hrank
    exact .done hrank halive

/-- Text behind a match that does not end at the end of the text makes no difference to it. -/
lemma Uniform.run_append (h : a.Uniform rank) (text more : List Char) (before : Option Char) {found : Option Span}
    (hsearch : a.Searching rank place threads found) (hs : a.run text place before threads found = some s) :
    s.stop = s.start + rank a.start ∧
      (s.stop < place + text.length → a.run (text ++ more) place before threads found = some s) := by
  induction text generalizing place before threads found with
  | nil =>
    rw [run_nil] at hs
    cases hsearch with
    | done hmatch halive =>
      rw [started, if_neg (by simp), halive] at hs
      cases hs
      refine ⟨hmatch, fun _ => ?_⟩
      cases more with
      | nil => rw [List.append_nil, run_nil, started, if_neg (by simp), halive]; rfl
      | cons c more => rw [List.nil_append, run_cons, if_pos (by simp [halive])]
    | going hlined =>
      obtain hnone | ⟨t, ht, haccept, hsome⟩ :=
        a.acceptAtEnd_cases place (a.started before none place threads none).alive.toList none
      · rw [hnone] at hs
        cases hs
      · rw [hsome] at hs
        cases hs
        have hrank := (h.started_lined before none hlined).rank t ht
        rw [h.accept haccept, Nat.zero_add] at hrank
        exact ⟨hrank, fun hlt => absurd hlt (Nat.lt_irrefl _)⟩
  | cons c text ih =>
    rw [List.cons_append, run_cons]
    rw [run_cons] at hs
    cases hsearch with
    | done hmatch halive =>
      simp only [halive, Option.isSome_some, Array.isEmpty_empty, Bool.and_self, if_true] at hs ⊢
      cases hs
      exact ⟨hmatch, fun _ => rfl⟩
    | going hlined =>
      simp only [Option.isSome_none, Bool.false_and, Bool.false_eq_true, if_false] at hs ⊢
      rw [h.advance_congr c (text ++ more).head? text.head?]
      obtain ⟨hlength, happend⟩ := ih (some c) (h.searching_step before c text.head? hlined) hs
      exact ⟨hlength, fun hlt => happend (by simp at hlt; omega)⟩

lemma Uniform.length_match (h : a.Uniform rank) (hs : a.findFrom place before text = some s) :
    s.stop = s.start + rank a.start :=
  (h.run_append text [] before (.going ⟨by simp, by simp, by simp⟩) hs).1

lemma findNext_first (place : Nat) (before : Option Char) (text : List Char) :
    a.findNext place before text none = a.findFrom place before text := by
  cases hfind : a.findFrom place before text <;> simp [findNext, hfind]

/-- A match that uses up text is one that a search from some place finds. -/
lemma findFrom_of_findUsingFrom {bound : List Char} {last : Option Nat}
    (h : a.findUsingFrom bound place before text last = some s) :
    ∃ place' before' text', a.findFrom place' before' text' = some s := by
  induction bound generalizing place before text last with
  | nil => cases h
  | cons _ bound ih =>
    rw [findUsingFrom] at h
    cases hfind : a.findNext place before text last with
    | none => simp [hfind] at h
    | some s' =>
      simp only [hfind] at h
      split_ifs at h with hempty
      · exact ih h
      · cases h
        obtain hfirst | ⟨_, _, -, hsecond⟩ := findFrom_of_findNext hfind
        · exact ⟨_, _, _, hfirst⟩
        · exact ⟨_, _, _, hsecond⟩

/-- Text behind a match that does not end at the end of the text makes no difference to it. -/
lemma Uniform.findUsing_append (h : a.Uniform rank) (hs : a.findUsing text = some s) (hstop : s.stop < text.length)
    (more : List Char) : a.findUsing (text ++ more) = some s := by
  have hlt := (findUsing_within hs).1
  obtain ⟨_, _, _, hfound⟩ := findFrom_of_findUsingFrom hs
  have hlength := h.length_match hfound
  rw [findUsing, findUsingFrom, findNext_first] at hs
  cases hfind : a.findFrom 0 none text with
  | none => simp [hfind] at hs
  | some s' =>
    have hnonempty : ¬ s'.isEmpty = true := by
      have hlength' := h.length_match hfind
      simp only [Span.isEmpty, beq_iff_eq]
      omega
    simp only [hfind, if_neg hnonempty] at hs
    cases hs
    have happend := (h.run_append text more none (.going ⟨by simp, by simp, by simp⟩) hfind).2 (by omega)
    rw [findUsing, findUsingFrom, findNext_first, findFrom, happend]
    simp only [if_neg hnonempty]

end

end Automaton

end Awk.Regex
