import VlbiStreamer.Library.Monitor
import VlbiStreamer.Scheduler.Calls

/-!
# The lock on the schedule file

The daemon shares `STATEFILE` with the clients that put requests into it, under a lock on
`schedlockfd`.  This module has what `check_schedule`, `add_recording`, `free_and_close` and
`remove_from_cfgsched` do to the lock and to the file, written down as a list of acts.

* What the calls meet comes from outside: whether a lock is granted, which settings the file
  has when it is read, whether it can be written.  Unlocking does not fail.
* The rest of the main thread may change the lists in any way and close any event
  (`start_scheduled`, `check_finished`, `handle_localsocket`), in any order; the lists are
  those of `Sched`.
* `socketnumber` is set to zero and never changed, so its test in `free_and_close` always
  succeeds.

A `Guard` watches the acts.  `remove_from_cfgsched` takes the shared lock, also where the
exclusive one is held, writes under it, and does not give it back where it has nothing to
remove or cannot write; `guarded_of_reachable` says that all is well as long as it is not
reached.
-/

namespace VlbiStreamer.Scheduler

open Config Library

/-! ## Acts -/

/-- What is held on `schedlockfd`; a `flock` that succeeds converts it. -/
inductive LockMode where
  | unlocked
  | shared
  | exclusive
  deriving DecidableEq, Repr

/-- What the daemon does. -/
inductive LockAct where
  /-- `flock(schedlockfd, …)`, with success. -/
  | flock (mode : LockMode)
  /-- `check_schedule` reads its snapshot. -/
  | snapshot
  /-- `check_schedule` is done with its snapshot. -/
  | discard
  /-- `config_read_file`, of what is to be changed. -/
  | read
  /-- `config_write_file` is tried. -/
  | write
  /-- The main loop is at `poll`. -/
  | poll
  deriving DecidableEq, Repr

/-- What is held, and what depends on it. -/
structure Guard where
  mode : LockMode
  /-- `check_schedule` works on its snapshot. -/
  working : Bool
  /-- The file was read under the exclusive lock, which has been held since. -/
  covered : Bool
  deriving DecidableEq, Repr

/-- The lock is not touched while `check_schedule` works, which begins under the exclusive
lock; the file is written under the exclusive lock under which it was read; no lock is held
at `poll`. -/
def guarding : Monitor Guard LockAct where
  allows g
    | .flock _ => g.working = false
    | .snapshot => g.mode = .exclusive
    | .write => g.covered = true
    | .poll => g.mode = .unlocked
    | .read | .discard => True
  after g
    | .flock mode => { g with mode := mode, covered := false }
    | .snapshot => { g with working := true }
    | .discard => { g with working := false }
    | .read => { g with covered := decide (g.mode = .exclusive) }
    | .write | .poll => g

/-- Nothing is held. -/
def Guard.idle : Guard := ⟨.unlocked, false, false⟩

/-! ## The functions -/

/-- What the closing of an event meets. -/
structure Closing where
  /-- `ev->pt != 0` -/
  started : Bool
  /-- `pthread_join` succeeds. -/
  joins : Bool
  /-- `close_streamer` succeeds. -/
  closes : Bool
  /-- The lock is granted. -/
  locks : Bool
  /-- The names in the file as it is read. -/
  names : List String
  /-- The file is written. -/
  writes : Bool

/-- `remove_from_cfgsched(ev)` -/
def removeFromCfgsched (c : Closing) (idstring : String) : List LockAct :=
  if !c.locks then []
  else if idstring ∉ c.names then
    -- "Cant remove cfg as its already removed."
    [.flock .shared, .read]
  else if !c.writes then [.flock .shared, .read, .write]
  else [.flock .shared, .read, .write, .flock .unlocked]

/-- The daemon, with what it has done. -/
structure Desk where
  sched : Sched
  acts : List LockAct

/-- What a call comes to. -/
abbrev DeskResult := Except Desk Desk

/-- What one run of `check_schedule` meets. -/
structure Checking where
  /-- `open(STATEFILE, O_RDWR)` succeeds. -/
  opens : Bool
  /-- The lock is granted. -/
  locks : Bool
  /-- The snapshot. -/
  file : List Entry
  /-- What closing the event with an address meets. -/
  closing : ℕ → Closing
  /-- The names in the file where `shutdown` is to be removed. -/
  names : List String

namespace Desk

variable (w : Desk)

/-- Something is done. -/
def act (as : List LockAct) : Desk := { w with acts := w.acts ++ as }

/-- A call that concerns the lists only. -/
def lift (r : Result) : DeskResult :=
  match r with
  | .ok s => .ok { w with sched := s }
  | .error s => .error { w with sched := s }

/-- `free_and_close(ev)` -/
def freeAndClose (c : Closing) (ev : Event) : DeskResult :=
  if c.started && !(c.joins && c.closes) then .ok w
  else
    match ev.idstring with
    -- `idstring` was never set
    | none => .error w
    | some idstring => (w.act (removeFromCfgsched c idstring)).lift (w.sched.freeAndClose ev)

/-- `remove_from_branch(br, le, MUTEX_FREE)`, which goes on if `free_and_close` fails. -/
def removeFromBranch (c : Closing) (ev : Event) : DeskResult :=
  { w with sched := w.sched.unlink ev.id }.freeAndClose c ev

/-- The branch of `add_recording` for the entry `shutdown`. -/
def addShutdown (names : List String) : Desk :=
  if "shutdown" ∉ names then w.act [.read] else w.act [.read, .write]

/-- `add_recording(root, sched, 0)`; `idstring` has room for 24 characters. -/
def addRecording (d : Setup) (k : Checking) (entry : Entry) : DeskResult :=
  if entry.1 = "shutdown" then .ok (w.addShutdown k.names)
  else if 24 ≤ entry.1.length then .error w
  else
    let s' := { w.sched with next := w.sched.next + 1 }
    match Config.addRecording d.logToFile d.fresh d.default entry.2 with
    | .crashed _ => .error w
    -- `"Broken schedule config. Not scheduling"`; its thread was not started
    | .refused =>
        { w with sched := s' }.freeAndClose { k.closing w.sched.next with started := false }
          (w.sched.newEvent entry.1 d.default)
    | .scheduled opt =>
        .ok { w with sched := { s' with
          free := w.sched.free ++ [w.sched.newEvent entry.1 opt]
          nScheduled := w.sched.nScheduled + 1 } }

/-- The loop of `check_schedule` over the entries of the file. -/
def checkEntry (d : Setup) (k : Checking) (w : Desk) (entry : Entry) : DeskResult :=
  match lookup entry.1 w.sched.events with
  | none => .error w
  | some (some ev) =>
      .ok { w with sched := w.sched.modify ev.id fun ev => { ev with found := true } }
  | some none => w.addRecording d k entry

/-- The removal of an event that was not found. -/
def removeMissing (k : Checking) (ev : Event) : DeskResult :=
  let s :=
    if ev.status = Status.running then { w.sched with nRunning := w.sched.nRunning - 1 }
    else { w.sched with nScheduled := w.sched.nScheduled - 1 }
  { w with sched := s }.removeFromBranch (k.closing ev.id) ev

variable {w}

/-- The lists are the same. -/
structure SameLists (w t : Desk) : Prop where
  free : t.sched.free = w.sched.free
  busy : t.sched.busy = w.sched.busy

theorem SameLists.events {t : Desk} (h : SameLists w t) : t.sched.events = w.sched.events := by
  rw [Sched.events, h.free, h.busy]
  rfl

/-- Closing an event does not change the lists. -/
theorem freeAndClose_lists (c : Closing) (ev : Event) :
    Meets (SameLists w) (fun _ => True) (w.freeAndClose c ev) := by
  unfold freeAndClose
  split
  · exact ⟨rfl, rfl⟩
  · cases ev.idstring with
    | none => exact trivial
    | some idstring =>
        dsimp only
        cases hclose : w.sched.freeAndClose ev with
        | error s => exact trivial
        | ok s =>
            obtain ⟨-, p, -, -, rfl⟩ := Sched.freeAndClose_ok_iff.mp hclose
            exact ⟨rfl, rfl⟩

theorem events_removeMissing (k : Checking) {ev : Event} {t : Desk}
    (h : w.removeMissing k ev = .ok t) :
    t.sched.events = w.sched.events.filter fun other => other.id ≠ ev.id := by
  rw [((freeAndClose_lists _ _).of_ok h).events, Sched.events_unlink]
  split
  · rfl
  · rfl

/-- The second loop of `check_schedule`. -/
def sweep (k : Checking) (w : Desk) : DeskResult :=
  match _hfind : w.sched.events.find? fun ev => !ev.found with
  | none => .ok w
  | some ev =>
      match _hremove : w.removeMissing k ev with
      | .error w' => .error w'
      | .ok w' => sweep k w'
termination_by w.sched.events.length
decreasing_by
  rw [events_removeMissing k _hremove]
  apply List.length_filter_lt_length_iff_exists.mpr
  exact ⟨ev, List.mem_of_find?_eq_some _hfind, by simp⟩

/-- `check_schedule(sched)` -/
def checkSchedule (d : Setup) (k : Checking) (w : Desk) : DeskResult :=
  if !k.opens then .ok w
  else if !k.locks then .ok w
  else do
    let w ← k.file.foldlM (checkEntry d k) (w.act [.flock .exclusive, .snapshot])
    let w ← w.sweep k
    return { w with sched := w.sched.zerofound }.act [.discard, .flock .unlocked]

end Desk

/-! ## Runs -/

/-- What the main thread does. -/
inductive LockCall where
  | checkSchedule (k : Checking)
  /-- An event is closed from somewhere else. -/
  | freeAndClose (c : Closing) (ev : Event)
  /-- The lists are changed. -/
  | lists (s : Sched)
  | poll

/-- One call. -/
def Desk.call (d : Setup) (w : Desk) : LockCall → DeskResult
  | .checkSchedule k => w.checkSchedule d k
  | .freeAndClose c ev => w.freeAndClose c ev
  | .lists s => .ok { w with sched := s }
  | .poll => .ok (w.act [.poll])

/-- The runs of the main thread, until the daemon ends. -/
def locking (d : Setup) : System DeskResult LockCall :=
  .ofNext (fun r => r = .ok ⟨init, []⟩) fun r call =>
    match r with
    | .error _ => none
    | .ok w => some (w.call d call)

/-- The lock and the file are only used as they may be, in a state that the calls lead to. -/
def Guarded (r : DeskResult) : Prop :=
  Meets (fun w => guarding.Admits .idle w.acts) (fun w => guarding.Admits .idle w.acts) r

/-- Closing the event does not come to the lock. -/
def Closing.Spares (c : Closing) (ev : Event) : Prop :=
  c.started = true ∧ (c.joins && c.closes) = false ∨ ev.idstring = none ∨ c.locks = false

/-- **No event is closed** in a way that comes to the lock: no new entry is broken, and every
event on the lists has an entry by which it is found. -/
def SparesLock (d : Setup) (w : Desk) : LockCall → Prop
  | .checkSchedule k => k.opens = true → k.locks = true →
      (∀ e ∈ k.file, e.1 ≠ "shutdown" → (∀ ev ∈ w.sched.events, ev.idstring ≠ some e.1) →
        Config.addRecording d.logToFile d.fresh d.default e.2 = .refused →
          ∀ id, (k.closing id).locks = false) ∧
      ∀ ev ∈ w.sched.events, ev.found = true ∨
        (∃ e ∈ k.file, lookup e.1 w.sched.events = some (some ev)) ∨
          (k.closing ev.id).Spares ev
  | .freeAndClose c ev => c.Spares ev
  | .lists _ => True
  | .poll => True

/-! ## Closing events -/

variable {d : Setup} {w t : Desk} {c : Closing} {ev ev' : Event} {k : Checking} {g : Guard}

/-- **A removal that gets its lock is never all right**, whatever was held before. -/
theorem not_admits_removal (hlocks : c.locks = true) (idstring : String) (g : Guard) :
    ¬ guarding.Admits g (removeFromCfgsched c idstring ++ [.poll]) := by
  intro hadmits
  unfold removeFromCfgsched at hadmits
  rw [hlocks, Bool.not_true, if_neg Bool.false_ne_true] at hadmits
  split at hadmits
  · obtain ⟨-, -, hpoll, -⟩ := hadmits
    exact absurd hpoll (by simp [guarding])
  · split at hadmits
    · obtain ⟨-, -, hwrite, -⟩ := hadmits
      exact absurd hwrite (by simp [guarding])
    · obtain ⟨-, -, hwrite, -⟩ := hadmits
      exact absurd hwrite (by simp [guarding])

/-- An event that is closed otherwise leaves the lock and the file alone. -/
theorem Desk.freeAndClose_of_spares (h : c.Spares ev) :
    Meets (fun t => t.acts = w.acts ∧ Desk.SameLists w t) (fun t => t.acts = w.acts)
      (w.freeAndClose c ev) := by
  unfold Desk.freeAndClose
  split
  · exact ⟨rfl, rfl, rfl⟩
  next hcloses =>
    cases hid : ev.idstring with
    | none => exact rfl
    | some idstring =>
        have hlocks : c.locks = false := by
          rcases h with ⟨hstarted, hfails⟩ | hnone | hlocks
          · rw [hstarted, hfails] at hcloses
            exact absurd rfl hcloses
          · rw [hid] at hnone
            cases hnone
          · exact hlocks
        have hnothing : w.act (removeFromCfgsched c idstring) = w := by
          have hnil : removeFromCfgsched c idstring = [] := by
            rw [removeFromCfgsched, hlocks]
            rfl
          rw [hnil, Desk.act, List.append_nil]
        dsimp only
        rw [hnothing]
        cases hclose : w.sched.freeAndClose ev with
        | error s => exact rfl
        | ok s =>
            obtain ⟨-, p, -, -, rfl⟩ := Sched.freeAndClose_ok_iff.mp hclose
            exact ⟨rfl, rfl, rfl⟩

/-! ## The first loop -/

/-- The event is marked if it has this address. -/
def markOne (id : ℕ) (ev : Event) : Event :=
  if ev.id = id then { ev with found := true } else ev

theorem markOne_id (id : ℕ) (ev : Event) : (markOne id ev).id = ev.id := by
  unfold markOne
  split <;> rfl

theorem markOne_idstring (id : ℕ) (ev : Event) : (markOne id ev).idstring = ev.idstring := by
  unfold markOne
  split <;> rfl

theorem markOne_found (id : ℕ) {ev : Event} (h : ev.id = id ∨ ev.found = true) :
    (markOne id ev).found = true := by
  unfold markOne
  split
  · rfl
  next hne => exact h.resolve_left hne

/-- The lists behind the entries `done`, of those of `s`: the events `new` were added, and
every event was marked that an entry finds. -/
structure Looking (s : Sched) (done : List Entry) (mark : Event → Event) (new : List Event)
    (t : Sched) : Prop where
  id : ∀ ev, (mark ev).id = ev.id
  idstring : ∀ ev, (mark ev).idstring = ev.idstring
  keeps : ∀ ev, ev.found = true → (mark ev).found = true
  free : t.free = s.free.map mark ++ new
  busy : t.busy = s.busy.map mark
  new : ∀ ev ∈ new, ev.found = true ∧
    ∃ name, ev.idstring = some name ∧ ∀ old ∈ s.events, old.idstring ≠ some name
  found : ∀ ev ∈ s.events, (∃ e ∈ done, lookup e.1 s.events = some (some ev)) →
    (mark ev).found = true

namespace Looking

variable {s t : Sched} {done : List Entry} {mark : Event → Event} {new : List Event} {e : Entry}

theorem start (s : Sched) : Looking s [] (fun ev => ev) [] s where
  id _ := rfl
  idstring _ := rfl
  keeps _ h := h
  free := by rw [List.map_id', List.append_nil]
  busy := (List.map_id' _).symm
  new _ hev := absurd hev List.not_mem_nil
  found := by
    rintro ev - ⟨e, he, -⟩
    cases he

theorem events (h : Looking s done mark new t) :
    t.events = s.free.map mark ++ new ++ s.busy.map mark := by
  rw [Sched.events, h.free, h.busy]

theorem mem_events (h : Looking s done mark new t) (hev : ev ∈ s.events) :
    mark ev ∈ t.events := by
  rw [h.events, List.mem_append, List.mem_append]
  rcases List.mem_append.mp hev with hfree | hbusy
  · exact .inl (.inl (List.mem_map_of_mem hfree))
  · exact .inr (List.mem_map_of_mem hbusy)

/-- The event that an entry finds is still the one that it found before. -/
theorem lookup_eq (h : Looking s done mark new t)
    (hold : lookup e.1 s.events = some (some ev)) :
    lookup e.1 t.events = some (some (mark ev)) := by
  obtain ⟨hev, hname⟩ := lookup_some hold
  have hnew : lookup e.1 new = some none := by
    refine lookup_of_ne fun other hother => ?_
    obtain ⟨-, name, hid, hfresh⟩ := h.new other hother
    refine ⟨name, hid, ?_⟩
    rintro rfl
    exact hfresh ev hev hname
  rw [Sched.events, lookup_append] at hold
  rw [h.events, lookup_append, lookup_append, lookup_map _ h.idstring, lookup_map _ h.idstring,
    hnew]
  cases hfree : lookup e.1 s.free with
  | none =>
      rw [hfree] at hold
      cases hold
  | some found =>
      rw [hfree] at hold
      cases found with
      | some other =>
          obtain rfl : other = ev := by simpa using hold
          rfl
      | none =>
          have hbusy : lookup e.1 s.busy = some (some ev) := hold
          rw [hbusy]
          rfl

/-- An event that is not marked was there before. -/
theorem old_of_missing (h : Looking s done mark new t) (hev : ev ∈ t.events)
    (hmissing : ev.found = false) : ∃ old ∈ s.events, mark old = ev := by
  rw [h.events, List.mem_append, List.mem_append] at hev
  rcases hev with (hfree | hnew) | hbusy
  · obtain ⟨old, hold, heq⟩ := List.mem_map.mp hfree
    exact ⟨old, List.mem_append_left _ hold, heq⟩
  · exact absurd (hmissing.symm.trans (h.new ev hnew).1) (by decide)
  · obtain ⟨old, hold, heq⟩ := List.mem_map.mp hbusy
    exact ⟨old, List.mem_append_right _ hold, heq⟩

/-- An entry finds an event. -/
theorem mark_found (h : Looking s done mark new t)
    (hlookup : lookup e.1 t.events = some (some ev')) :
    ∃ mark' new', Looking s (done ++ [e]) mark' new'
      (t.modify ev'.id fun ev => { ev with found := true }) := by
  refine ⟨markOne ev'.id ∘ mark, new.map (markOne ev'.id), fun ev => ?_, fun ev => ?_,
    fun ev hfound => markOne_found _ (.inr (h.keeps ev hfound)), ?_, ?_, fun ev hev => ?_,
    fun ev hev => ?_⟩
  · exact (markOne_id _ _).trans (h.id ev)
  · exact (markOne_idstring _ _).trans (h.idstring ev)
  · show t.free.map (markOne ev'.id) = _
    rw [h.free, List.map_append, List.map_map]
  · show t.busy.map (markOne ev'.id) = _
    rw [h.busy, List.map_map]
  · obtain ⟨old, hold, rfl⟩ := List.mem_map.mp hev
    obtain ⟨hfound, hname⟩ := h.new old hold
    rw [markOne_idstring]
    exact ⟨markOne_found _ (.inr hfound), hname⟩
  · rintro ⟨e', he', hfinds⟩
    apply markOne_found
    rcases List.mem_append.mp he' with hdone | hlast
    · exact .inr (h.found ev hev ⟨e', hdone, hfinds⟩)
    · obtain rfl := List.mem_singleton.mp hlast
      have hsame := (h.lookup_eq hfinds).symm.trans hlookup
      obtain rfl : mark ev = ev' := by simpa using hsame
      exact .inl rfl

/-- No entry finds an event if there is none of its name. -/
theorem pass (h : Looking s done mark new t) (hlookup : lookup e.1 t.events = some none)
    {t' : Sched} (hfree : t'.free = t.free) (hbusy : t'.busy = t.busy) :
    Looking s (done ++ [e]) mark new t' where
  id := h.id
  idstring := h.idstring
  keeps := h.keeps
  free := hfree.trans h.free
  busy := hbusy.trans h.busy
  new := h.new
  found := by
    rintro ev hev ⟨e', he', hfinds⟩
    rcases List.mem_append.mp he' with hdone | hlast
    · exact h.found ev hev ⟨e', hdone, hfinds⟩
    · obtain rfl := List.mem_singleton.mp hlast
      have hsome := h.lookup_eq hfinds
      rw [hlookup] at hsome
      cases hsome

theorem unnamed (h : Looking s done mark new t) (hlookup : lookup e.1 t.events = some none) :
    ∀ ev ∈ s.events, ev.idstring ≠ some e.1 := by
  intro ev hev
  rw [← h.idstring]
  exact lookup_none hlookup _ (h.mem_events hev)

/-- An event is added. -/
theorem add (h : Looking s done mark new t) (hlookup : lookup e.1 t.events = some none)
    (hname : ev.idstring = some e.1) (hfound : ev.found = true) {t' : Sched}
    (hfree : t'.free = t.free ++ [ev]) (hbusy : t'.busy = t.busy) :
    Looking s (done ++ [e]) mark (new ++ [ev]) t' where
  id := h.id
  idstring := h.idstring
  keeps := h.keeps
  free := by rw [hfree, h.free, List.append_assoc]
  busy := hbusy.trans h.busy
  new := by
    intro other hother
    rcases List.mem_append.mp hother with hold | hlast
    · exact h.new other hold
    · obtain rfl := List.mem_singleton.mp hlast
      exact ⟨hfound, e.1, hname, h.unnamed hlookup⟩
  found := (h.pass hlookup rfl rfl).found

end Looking

/-- `check_schedule` works, under the exclusive lock. -/
def Working (w : Desk) : Prop :=
  ∃ covered, guarding.Settles .idle w.acts ⟨.exclusive, true, covered⟩

theorem Working.admits (h : Working w) : guarding.Admits .idle w.acts := h.choose_spec.1

theorem Working.congr (h : Working w) (hacts : t.acts = w.acts) : Working t := by
  unfold Working
  rw [hacts]
  exact h

/-- The entry `shutdown` is removed under the lock of `check_schedule`. -/
theorem Working.addShutdown (h : Working w) (names : List String) :
    Working (w.addShutdown names) := by
  obtain ⟨covered, hsettles⟩ := h
  unfold Desk.addShutdown
  split
  · exact ⟨true, hsettles.append ⟨⟨trivial, trivial⟩, rfl⟩⟩
  · exact ⟨true, hsettles.append ⟨⟨trivial, rfl, trivial⟩, rfl⟩⟩

variable {s : Sched} {done : List Entry} {e : Entry}

/-- The first loop, in the middle of it. -/
def Looks (s : Sched) (done : List Entry) (w : Desk) : Prop :=
  Working w ∧ ∃ mark new, Looking s done mark new w.sched

/-- **One entry.** -/
theorem Looks.checkEntry (h : Looks s done w)
    (hrefused : e.1 ≠ "shutdown" → (∀ ev ∈ s.events, ev.idstring ≠ some e.1) →
      Config.addRecording d.logToFile d.fresh d.default e.2 = .refused →
        ∀ id, (k.closing id).locks = false) :
    Meets (Looks s (done ++ [e])) (fun t => guarding.Admits .idle t.acts)
      (w.checkEntry d k e) := by
  obtain ⟨hworking, mark, new, hlooking⟩ := h
  unfold Desk.checkEntry
  split
  · exact hworking.admits
  next ev hlookup => exact ⟨hworking, hlooking.mark_found hlookup⟩
  next hlookup =>
    unfold Desk.addRecording
    split
    next hshutdown =>
      refine ⟨hworking.addShutdown k.names, mark, new, hlooking.pass hlookup ?_ ?_⟩
      · unfold Desk.addShutdown
        split <;> rfl
      · unfold Desk.addShutdown
        split <;> rfl
    next hname =>
      split
      · exact hworking.admits
      · dsimp only
        split
        · exact hworking.admits
        next hbroken =>
          have hspares : Closing.Spares { k.closing w.sched.next with started := false }
              (w.sched.newEvent e.1 d.default) :=
            .inr (.inr (hrefused hname (hlooking.unnamed hlookup) hbroken _))
          refine (Desk.freeAndClose_of_spares hspares).mono (fun t ht => ?_) fun t ht => ?_
          · exact ⟨hworking.congr ht.1, mark, new, hlooking.pass hlookup ht.2.free ht.2.busy⟩
          · rw [ht]
            exact hworking.admits
        next opt _ =>
          exact ⟨hworking, mark, _, hlooking.add hlookup rfl rfl rfl rfl⟩

/-! ## The second loop -/

theorem Desk.sweep_of_none (h : (w.sched.events.find? fun ev => !ev.found) = none) :
    w.sweep k = .ok w := by
  rw [Desk.sweep]
  split
  · rfl
  next ev hfind =>
    rw [h] at hfind
    cases hfind

theorem Desk.sweep_of_some (h : (w.sched.events.find? fun ev => !ev.found) = some ev) :
    w.sweep k = w.removeMissing k ev >>= Desk.sweep k := by
  rw [Desk.sweep]
  split
  next hfind =>
    rw [h] at hfind
    cases hfind
  next ev' hfind =>
    obtain rfl : ev = ev' := Option.some.inj (h.symm.trans hfind)
    split
    next hremove => rw [hremove]; rfl
    next hremove => rw [hremove]; rfl

theorem Desk.removeMissing_of_spares (h : (k.closing ev.id).Spares ev) :
    Meets (fun t => t.acts = w.acts) (fun t => t.acts = w.acts) (w.removeMissing k ev) := by
  unfold Desk.removeMissing Desk.removeFromBranch
  exact (Desk.freeAndClose_of_spares h).mono (fun _ ht => ht.1) fun _ ht => ht

/-- Whatever is still to be removed spares the lock. -/
def Sweeps (k : Checking) (w : Desk) : Prop :=
  Working w ∧ ∀ ev ∈ w.sched.events, ev.found = false → (k.closing ev.id).Spares ev

/-- **The second loop.** -/
theorem Sweeps.sweep (h : Sweeps k w) :
    Meets Working (fun t => guarding.Admits .idle t.acts) (w.sweep k) := by
  generalize hn : w.sched.events.length = n
  induction n using Nat.strongRecOn generalizing w with
  | ind n ih =>
      cases hfind : w.sched.events.find? fun ev => !ev.found with
      | none =>
          rw [Desk.sweep_of_none hfind]
          exact h.1
      | some ev =>
          obtain ⟨hworking, hspares⟩ := h
          have hmem : ev ∈ w.sched.events := List.mem_of_find?_eq_some hfind
          have hmissing : ev.found = false := by simpa using List.find?_some hfind
          rw [Desk.sweep_of_some hfind]
          cases hremove : w.removeMissing k ev with
          | error t =>
              have hacts : t.acts = w.acts :=
                (Desk.removeMissing_of_spares (hspares ev hmem hmissing)).of_error hremove
              show guarding.Admits .idle t.acts
              rw [hacts]
              exact hworking.admits
          | ok t =>
              have hacts : t.acts = w.acts :=
                (Desk.removeMissing_of_spares (hspares ev hmem hmissing)).of_ok hremove
              have hevents := Desk.events_removeMissing k hremove
              refine ih _ ?_ ⟨hworking.congr hacts, fun other hother => ?_⟩ rfl
              · rw [← hn, hevents]
                apply List.length_filter_lt_length_iff_exists.mpr
                exact ⟨ev, hmem, by simp⟩
              · rw [hevents] at hother
                exact hspares other (List.mem_of_mem_filter hother)

/-! ## The calls -/

/-- Between the calls nothing is held. -/
def Rests (w : Desk) : Prop := guarding.Settles .idle w.acts .idle

/-- **`check_schedule`.** -/
theorem Rests.checkSchedule (h : Rests w) (hspares : SparesLock d w (.checkSchedule k)) :
    Meets Rests (fun t => guarding.Admits .idle t.acts) (w.checkSchedule d k) := by
  unfold Desk.checkSchedule
  cases hopens : k.opens with
  | false => exact h
  | true =>
      cases hlocks : k.locks with
      | false => exact h
      | true =>
          obtain ⟨hrefused, hgone⟩ := hspares hopens hlocks
          have hstart : Looks w.sched [] (w.act [.flock .exclusive, .snapshot]) :=
            ⟨⟨false, h.append ⟨⟨rfl, rfl, trivial⟩, rfl⟩⟩, _, _, Looking.start _⟩
          have hloop := Meets.foldlM (I := fun done rest t => Looks w.sched done t ∧
              ∀ e ∈ rest, e ∈ k.file) (f := Desk.checkEntry d k)
            (fun done e rest t ht => (ht.1.checkEntry
              (hrefused e (ht.2 e List.mem_cons_self))).mono
                (fun t' ht' => ⟨ht', fun e' he' => ht.2 e' (List.mem_cons_of_mem _ he')⟩)
                fun _ ht' => ht')
            ⟨hstart, fun e he => he⟩
          refine hloop.bind fun t ht => ?_
          obtain ⟨⟨hworking, mark, new, hlooking⟩, -⟩ := ht
          rw [List.nil_append] at hlooking
          have hsweeps : Sweeps k t := by
            refine ⟨hworking, fun ev hev hmissing => ?_⟩
            obtain ⟨old, hold, rfl⟩ := hlooking.old_of_missing hev hmissing
            rcases hgone old hold with hfound | hfinds | hspares
            · exact absurd (hmissing.symm.trans (hlooking.keeps old hfound)) (by decide)
            · exact absurd (hmissing.symm.trans (hlooking.found old hold hfinds)) (by decide)
            · unfold Closing.Spares
              rw [hlooking.id, hlooking.idstring]
              exact hspares
          refine hsweeps.sweep.bind fun u hu => ?_
          obtain ⟨covered, hsettles⟩ := hu
          exact hsettles.append ⟨⟨trivial, rfl, trivial⟩, rfl⟩

/-- **Any call.** -/
theorem Rests.call (h : Rests w) {call : LockCall} (hspares : SparesLock d w call) :
    Meets Rests (fun t => guarding.Admits .idle t.acts) (w.call d call) := by
  cases call with
  | checkSchedule k => exact h.checkSchedule hspares
  | freeAndClose c ev =>
      refine (Desk.freeAndClose_of_spares hspares).mono (fun t ht => ?_) fun t ht => ?_
      · unfold Rests
        rw [ht.1]
        exact h
      · rw [ht]
        exact h.1
  | lists s => exact h
  | poll => exact h.act rfl

/-- The steps whose calls meet the condition. -/
def SparesFrom (d : Setup) (r : DeskResult) (call : LockCall) : Prop :=
  ∀ w, r = .ok w → SparesLock d w call

/-- **The schedule file is only changed under the exclusive lock**, and nothing is held at
`poll`, in every run in which no event is closed in a way that comes to the lock. -/
theorem guarded_of_reachable (d : Setup) {r : DeskResult}
    (h : (locking d).ReachableUnder (SparesFrom d) r) : Guarded r := by
  have hinv : Meets Rests (fun t => guarding.Admits .idle t.acts) r := by
    refine h.invariant (fun r hinit => ?_) fun r call r' hr hspares hstep => ?_
    · rw [show r = .ok ⟨init, []⟩ from hinit]
      exact ⟨trivial, rfl⟩
    · cases r with
      | error w => cases hstep
      | ok w =>
          obtain rfl := Option.some.inj hstep
          exact Rests.call hr (hspares w rfl)
  exact hinv.mono (fun t ht => ht.1) fun t ht => ht

/-- The file has the entry `shutdown` and no other. -/
def shutdownCheck : Checking where
  opens := true
  locks := true
  file := [("shutdown", [])]
  closing _ := ⟨false, true, true, true, ["shutdown"], true⟩
  names := ["shutdown"]

/-- It is taken out of the file under the lock of `check_schedule`. -/
theorem guarded_of_shutdown : ∃ w, (⟨init, []⟩ : Desk).checkSchedule fileSetup shutdownCheck =
      .ok w ∧
    w.acts = [.flock .exclusive, .snapshot, .read, .write, .discard, .flock .unlocked] ∧
    Guarded (.ok w) := by
  have hcheck : (⟨init, []⟩ : Desk).checkSchedule fileSetup shutdownCheck = .ok ⟨init,
      [.flock .exclusive, .snapshot, .read, .write, .discard, .flock .unlocked]⟩ := by
    unfold Desk.checkSchedule
    show (Desk.sweep _ _ >>= _) = _
    rw [Desk.sweep_of_none rfl]
    rfl
  refine ⟨_, hcheck, rfl, guarded_of_reachable fileSetup ?_⟩
  refine .step (a := .checkSchedule shutdownCheck) (.init rfl) ?_ (congrArg some hcheck)
  intro w hw _ _
  cases hw
  refine ⟨fun e he hname => ?_, fun ev hev => absurd hev List.not_mem_nil⟩
  rw [List.mem_singleton.mp he] at hname
  exact absurd rfl hname

/-- A recording that has finished is taken out of the file under the shared lock. -/
theorem finished_not_guarded : ¬ ∀ (d : Setup) (r : DeskResult), (locking d).Reachable r →
    Guarded r := by
  intro hall
  have hinit : (locking fileSetup).Reachable (.ok ⟨init, []⟩) := .init rfl
  have hlists : (locking fileSetup).Reachable (.ok ⟨recording .finished, []⟩) :=
    hinit.step (a := .lists (recording .finished)) rfl
  have hguarded := hall fileSetup _ (hlists.step (a := .freeAndClose
    ⟨true, true, true, true, ["r"], true⟩
    ⟨0, ({ plainOpt with startingTime := 1000 } : Opt).running, some "r", .finished, some 0,
      false⟩) rfl)
  obtain ⟨-, -, hwrite, -⟩ : guarding.Admits .idle
    [.flock .shared, .read, .write, .flock .unlocked] := hguarded
  cases hwrite

end VlbiStreamer.Scheduler
