import VlbiStreamer.Config.EventStart
import VlbiStreamer.Library.Transition

/-!
# The daemon's schedule

`server.c` keeps an event for every entry of the schedule file and one for every client of
the local socket: the events that wait on the free list of a branch, those that have been
started on its busy list.  The main thread calls `start_scheduled`, `check_schedule`,
`handle_localsocket` and `check_finished` in a loop; the threads of the events only change
their statuses.

* An event is a value with an address `id`; the branch is its two lists, moved and cut as
  `ResourceTree` says.
* `idstring` is `none` where `add_recording` leaves it as `malloc` gave it, for an event of
  the local socket.
* `associations p` is the field of the file index at `p`.
* A call ends the daemon (`error`) where an assertion fails, where a pointer that was never
  set is followed or where a name is too long for its memory.  What the calls did up to
  there is kept in the histories of `Ledger`.

What `set_from_root`, `init_cfg` and the last part of `start_event` do is in `Config`.
-/

namespace VlbiStreamer.Scheduler

open Config

/-- `opt->status` -/
inductive Status where
  | notStarted
  | running
  | stopped
  | finished
  | error
  | cancelled
  deriving DecidableEq, Repr

/-- `struct scheduled_event` with what the scheduler reads of its options. -/
structure Event where
  id : ℕ
  opt : Opt
  idstring : Option String
  status : Status
  /-- `opt->fi` -/
  fi : Option ℕ
  found : Bool

/-- A call of `afi_disassociate`. -/
structure Disassociation where
  event : ℕ
  fi : Option ℕ
  /-- The index is there and has an association. -/
  live : Bool
  deriving DecidableEq, Repr

/-- The file indices and what has been done with them. -/
structure Ledger where
  associations : ℕ → ℕ
  /-- Where `malloc` puts the next event. -/
  next : ℕ
  /-- The events whose `init_cfg` got an index. -/
  associated : List ℕ
  calls : List Disassociation
  /-- The events that `free_and_close` is done with. -/
  closed : List ℕ

/-- `struct schedule` -/
structure Sched extends Ledger where
  free : List Event
  busy : List Event
  nScheduled : ℤ
  nRunning : ℤ

/-- What a call comes to. -/
abbrev Result := Except Sched Sched

/-- What the daemon has from its start. -/
structure Setup where
  default : Opt
  logToFile : String → Bool
  /-- What is in the memory of the strings of a new event. -/
  fresh : String

/-- An entry of the schedule file. -/
abbrev Entry := String × List Setting

/-- `zero_sched` -/
def init : Sched := ⟨⟨fun _ => 0, 0, [], [], []⟩, [], [], 0, 0⟩

/-- `afi_disassociate` gave back the index at `p`, and the event is freed. -/
def Ledger.closing (b : Ledger) (ev : Event) (p : ℕ) : Ledger :=
  { b with
    associations := Function.update b.associations p (b.associations p - 1)
    calls := b.calls ++ [⟨ev.id, some p, true⟩]
    closed := b.closed ++ [ev.id] }

/-- `init_cfg` got the index at `p` for the event with address `id`. -/
def Ledger.associating (b : Ledger) (p id : ℕ) : Ledger :=
  { b with
    associations := Function.update b.associations p (b.associations p + 1)
    associated := b.associated ++ [id] }

namespace Sched

variable (s : Sched)

/-- All events that are on a list. -/
def events : List Event := s.free ++ s.busy

/-- Unlink an event. -/
def unlink (id : ℕ) : Sched :=
  { s with
    free := s.free.filter fun ev => ev.id ≠ id
    busy := s.busy.filter fun ev => ev.id ≠ id }

/-- `free_and_close(ev)`; `remove_from_cfgsched` reads `idstring`, and `afi_disassociate`
asserts that there is an index with an association. -/
def freeAndClose (ev : Event) : Result :=
  match ev.idstring with
  | none => .error s
  | some _ =>
      match ev.fi with
      | none => .error { s with calls := s.calls ++ [⟨ev.id, none, false⟩] }
      | some p =>
          if s.associations p = 0 then
            .error { s with calls := s.calls ++ [⟨ev.id, some p, false⟩] }
          else .ok { s with toLedger := s.toLedger.closing ev p }

/-- `remove_from_branch(br, le, MUTEX_FREE)` -/
def removeFromBranch (ev : Event) : Result := (s.unlink ev.id).freeAndClose ev

/-- The event with address `id` gets other fields. -/
def modify (id : ℕ) (f : Event → Event) : Sched :=
  { s with
    free := s.free.map fun ev => if ev.id = id then f ev else ev
    busy := s.busy.map fun ev => if ev.id = id then f ev else ev }

end Sched

/-! ## Starting an event -/

/-- `init_cfg` gets a file index. -/
def getsIndex (env : Env) (opt : Opt) : Bool :=
  if opt.has captureWLocalsocket then false
  else if opt.has readmode then
    match drivesLoop env 0 false opt with
    | .finished true _ => true
    | .finished false opt => (env.live opt.filename).isSome
    | .notIndexed _ => false
    | .crashed _ => false
  else env.indexed

/-- `start_event(ev)`; the index that `init_cfg` gets is at `p`. -/
def Sched.startEvent (s : Sched) (env : Env) (p : ℕ) (ev : Event) :
    Option (Bool × Event × Sched) :=
  match Config.startEvent env ev.opt with
  | .crashed _ => none
  | .returned ret opt =>
      let started := decide (ret = 0)
      let ev' := { ev with opt := opt, status := if started then .running else ev.status }
      if getsIndex env ev.opt then
        some (started, { ev' with fi := some p },
          { s with toLedger := s.toLedger.associating p ev.id })
      else some (started, ev', s)

/-- What follows a `start_event` of an event on the free list: it is removed if it could not
be started. -/
def Sched.launch (s : Sched) (env : Env) (p : ℕ) (ev : Event) : Result :=
  match s.startEvent env p ev with
  | none => .error s
  | some (true, ev, s) =>
      let s := s.unlink ev.id
      .ok { s with busy := s.busy ++ [ev], nRunning := s.nRunning + 1 }
  | some (false, ev, s) => s.removeFromBranch ev

namespace Event

variable (now : BitVec 64) (ev : Event)

/-- `get_sec_diff(&time_now, &ev->opt->starting_time)` -/
def tdif : ℤ := (ev.opt.startingTime - now).toInt

/-- The event is to be started, or removed. -/
def due : Bool := ev.opt.startingTime = 0 || ev.tdif now ≤ 1

/-- `"Removing clearly too old recording request"` -/
def tooOld : Bool :=
  ev.opt.startingTime ≠ 0 && (!ev.opt.has readmode && ev.tdif now < (-ev.opt.time).toInt)

/-- `"Setting start time as now for better timing"` -/
def timed : Event :=
  if ev.opt.startingTime = 0 then { ev with opt := { ev.opt with startingTime := now } } else ev

@[simp] theorem timed_id : (ev.timed now).id = ev.id := by
  unfold timed
  split <;> rfl

@[simp] theorem timed_idstring : (ev.timed now).idstring = ev.idstring := by
  unfold timed
  split <;> rfl

@[simp] theorem timed_fi : (ev.timed now).fi = ev.fi := by
  unfold timed
  split <;> rfl

@[simp] theorem timed_found : (ev.timed now).found = ev.found := by
  unfold timed
  split <;> rfl

end Event

/-! ## What an operation comes to -/

section Spec

variable {s t : Sched} {ev : Event} {env : Env} {p : ℕ}

/-- An event is closed if it is of the schedule file and holds an index. -/
theorem Sched.freeAndClose_ok_iff : s.freeAndClose ev = .ok t ↔
    ev.idstring ≠ none ∧ ∃ p, ev.fi = some p ∧ 0 < s.associations p ∧
      t = { s with toLedger := s.toLedger.closing ev p } := by
  unfold Sched.freeAndClose
  cases hid : ev.idstring with
  | none => simp
  | some name =>
      cases hfi : ev.fi with
      | none => simp
      | some p =>
          rcases Nat.eq_zero_or_pos (s.associations p) with hzero | hpos
          · simp [hzero]
          · have hne : s.associations p ≠ 0 := Nat.pos_iff_ne_zero.mp hpos
            simp [hne, hpos, eq_comm]

theorem Sched.removeFromBranch_ok_iff : s.removeFromBranch ev = .ok t ↔
    ev.idstring ≠ none ∧ ∃ p, ev.fi = some p ∧ 0 < s.associations p ∧
      t = { s.unlink ev.id with toLedger := s.toLedger.closing ev p } :=
  Sched.freeAndClose_ok_iff

/-- An event that `start_event` was called for. -/
structure Started (env : Env) (p : ℕ) (ev ev' : Event) (started : Bool) : Prop where
  id : ev'.id = ev.id
  idstring : ev'.idstring = ev.idstring
  found : ev'.found = ev.found
  status : started = true → ev'.status = .running
  fi : ev'.fi = if getsIndex env ev.opt then some p else ev.fi
  returned : ∃ ret, Config.startEvent env ev.opt = .returned ret ev'.opt ∧
    started = decide (ret = 0)

variable {ev' : Event} {started : Bool}

theorem Sched.startEvent_cases (h : s.startEvent env p ev = some (started, ev', t)) :
    Started env p ev ev' started ∧
      t = if getsIndex env ev.opt then { s with toLedger := s.toLedger.associating p ev.id }
        else s := by
  unfold Sched.startEvent at h
  split at h
  · cases h
  next ret opt hreturned =>
    dsimp only at h
    split at h
    next hindex =>
      cases h
      rw [if_pos hindex]
      exact ⟨⟨rfl, rfl, rfl, fun hstarted => if_pos hstarted, (if_pos hindex).symm, ret, hreturned,
        rfl⟩, rfl⟩
    next hindex =>
      cases h
      rw [if_neg hindex]
      exact ⟨⟨rfl, rfl, rfl, fun hstarted => if_pos hstarted, (if_neg hindex).symm, ret, hreturned,
        rfl⟩, rfl⟩

/-- An event that is launched is moved to the busy list or removed. -/
theorem Sched.launch_cases (h : s.launch env p ev = .ok t) :
    ∃ ev' started s', s.startEvent env p ev = some (started, ev', s') ∧
      ((started = true ∧ t = { s'.unlink ev.id with
          busy := (s'.unlink ev.id).busy ++ [ev'], nRunning := s'.nRunning + 1 }) ∨
        (started = false ∧ s'.removeFromBranch ev' = .ok t)) := by
  unfold Sched.launch at h
  split at h
  · cases h
  next ev' s' hstart =>
    obtain ⟨hstarted, -⟩ := Sched.startEvent_cases hstart
    cases h
    rw [← hstarted.id]
    exact ⟨ev', true, s', hstart, .inl ⟨rfl, rfl⟩⟩
  next ev' s' hstart => exact ⟨ev', false, s', hstart, .inr ⟨rfl, h⟩⟩

variable {waiting : Event} {i : ℕ}

/-- Where a call takes an event off the free list, the list gets shorter. -/
theorem Sched.length_unlink_lt (hget : s.free[i]? = some waiting) :
    (s.unlink waiting.id).free.length < s.free.length := by
  apply List.length_filter_lt_length_iff_exists.mpr
  exact ⟨waiting, List.mem_of_getElem? hget, by simp⟩

theorem Sched.removeFromBranch_length (hget : s.free[i]? = some waiting) (hid : ev.id = waiting.id)
    (h : s.removeFromBranch ev = .ok t) : t.free.length < s.free.length := by
  obtain ⟨-, p, -, -, rfl⟩ := Sched.removeFromBranch_ok_iff.mp h
  rw [hid]
  exact Sched.length_unlink_lt hget

theorem Sched.launch_length (hget : s.free[i]? = some waiting) (hid : ev.id = waiting.id)
    (h : s.launch env p ev = .ok t) : t.free.length < s.free.length := by
  obtain ⟨ev', started, s', hstart, hcases⟩ := Sched.launch_cases h
  obtain ⟨hstarted, hs'⟩ := Sched.startEvent_cases hstart
  have hfree : s'.free = s.free := by
    rw [hs']
    split <;> rfl
  have hget' : s'.free[i]? = some waiting := by rw [hfree, hget]
  rw [← hfree]
  rcases hcases with ⟨-, rfl⟩ | ⟨-, hremove⟩
  · show (s'.unlink ev.id).free.length < _
    rw [hid]
    exact Sched.length_unlink_lt hget'
  · exact Sched.removeFromBranch_length hget' (hstarted.id.trans hid) hremove

end Spec

/-! ## The calls of the main thread -/

/-- The loop of `start_scheduled`, from place `i` of the free list; `starts` is what
`start_event` meets for each event. -/
def Sched.startLoop (now : BitVec 64) (starts : ℕ → Env × ℕ) (i : ℕ) (s : Sched) : Result :=
  match hget : s.free[i]? with
  | none => .ok s
  | some ev =>
      if ev.due now then
        if ev.tooOld now then
          match _hremove : s.removeFromBranch ev with
          | .error s' => .error s'
          | .ok s' => startLoop now starts i s'
        else
          match _hlaunch : ({ s with nScheduled := s.nScheduled - 1 } : Sched).launch
              (starts ev.id).1 (starts ev.id).2 (ev.timed now) with
          | .error s' => .error s'
          -- the search is reset
          | .ok s' => startLoop now starts 0 s'
      else startLoop now starts (i + 1) s
termination_by (s.free.length, s.free.length - i)
decreasing_by
  · exact .left _ _ (Sched.removeFromBranch_length hget rfl _hremove)
  · exact .left _ _ (Sched.launch_length (s := { s with nScheduled := s.nScheduled - 1 }) hget
      (Event.timed_id now ev) _hlaunch)
  · have hlt : i < s.free.length := (List.getElem?_eq_some_iff.mp hget).1
    exact .right _ (by omega)

theorem Sched.startLoop_of_none {s : Sched} {now : BitVec 64} {starts : ℕ → Env × ℕ} {i : ℕ}
    (h : s.free[i]? = none) : s.startLoop now starts i = .ok s := by
  rw [Sched.startLoop]
  split
  · rfl
  next ev hget =>
    rw [h] at hget
    cases hget

theorem Sched.startLoop_of_launch {s t : Sched} {ev : Event} {now : BitVec 64}
    {starts : ℕ → Env × ℕ} {i : ℕ} (h : s.free[i]? = some ev) (hdue : ev.due now = true)
    (hold : ev.tooOld now = false)
    (hlaunch : ({ s with nScheduled := s.nScheduled - 1 } : Sched).launch (starts ev.id).1
      (starts ev.id).2 (ev.timed now) = .ok t) :
    s.startLoop now starts i = t.startLoop now starts 0 := by
  rw [Sched.startLoop]
  split
  next hget =>
    rw [h] at hget
    cases hget
  next ev' hget =>
    obtain rfl : ev = ev' := Option.some.inj (h.symm.trans hget)
    rw [if_pos hdue, if_neg (by rw [hold]; simp)]
    split
    next hlaunch' =>
      rw [hlaunch] at hlaunch'
      cases hlaunch'
    next hlaunch' =>
      rw [hlaunch] at hlaunch'
      cases hlaunch'
      rfl

/-- `start_scheduled(sched)` at the time `now`. -/
def Sched.startScheduled (now : BitVec 64) (starts : ℕ → Env × ℕ) (s : Sched) : Result :=
  s.startLoop now starts 0

/-- `loop_and_check` with `CHECK_BY_IDSTRING`. -/
def lookup (name : String) : List Event → Option (Option Event)
  | [] => some none
  | ev :: evs =>
      match ev.idstring with
      | none => none
      | some idstring => if idstring = name then some (some ev) else lookup name evs

/-- The new event of an entry of the schedule file. -/
def Sched.newEvent (s : Sched) (name : String) (opt : Opt) : Event :=
  ⟨s.next, opt, some name, .notStarted, none, true⟩

/-- `add_recording(root, sched, 0)`; `idstring` has room for 24 characters. -/
def Sched.addRecording (d : Setup) (s : Sched) (entry : Entry) : Result :=
  if entry.1 = "shutdown" then .ok s
  else if 24 ≤ entry.1.length then .error s
  else
    let s' := { s with next := s.next + 1 }
    match Config.addRecording d.logToFile d.fresh d.default entry.2 with
    | .crashed _ => .error s
    -- `"Broken schedule config. Not scheduling"`
    | .refused => s'.freeAndClose (s.newEvent entry.1 d.default)
    | .scheduled opt =>
        .ok { s' with
          free := s.free ++ [s.newEvent entry.1 opt]
          nScheduled := s.nScheduled + 1 }

/-- The loop of `check_schedule` over the entries of the file. -/
def Sched.checkEntry (d : Setup) (s : Sched) (entry : Entry) : Result :=
  match lookup entry.1 s.events with
  | none => .error s
  | some (some ev) => .ok (s.modify ev.id fun ev => { ev with found := true })
  | some none => s.addRecording d entry

/-- The removal of an event that was not found. -/
def Sched.removeMissing (s : Sched) (ev : Event) : Result :=
  let s :=
    if ev.status = .running then { s with nRunning := s.nRunning - 1 }
    else { s with nScheduled := s.nScheduled - 1 }
  s.removeFromBranch ev

theorem Sched.events_unlink (s : Sched) (id : ℕ) :
    (s.unlink id).events = s.events.filter fun ev => ev.id ≠ id :=
  (List.filter_append _ _).symm

theorem Sched.removeMissing_ok_iff {s t : Sched} {ev : Event} : s.removeMissing ev = .ok t ↔
    ev.idstring ≠ none ∧ ∃ p, ev.fi = some p ∧ 0 < s.associations p ∧
      t = { s.unlink ev.id with
        toLedger := s.toLedger.closing ev p
        nScheduled := if ev.status = .running then s.nScheduled else s.nScheduled - 1
        nRunning := if ev.status = .running then s.nRunning - 1 else s.nRunning } := by
  unfold Sched.removeMissing
  by_cases hrunning : ev.status = .running
  · simp only [if_pos hrunning]
    exact Sched.removeFromBranch_ok_iff
  · simp only [if_neg hrunning]
    exact Sched.removeFromBranch_ok_iff

theorem Sched.removeMissing_length {s t : Sched} {ev : Event}
    (hfind : (s.events.find? fun ev => !ev.found) = some ev) (h : s.removeMissing ev = .ok t) :
    t.events.length < s.events.length := by
  obtain ⟨-, p, -, -, rfl⟩ := Sched.removeMissing_ok_iff.mp h
  show (s.unlink ev.id).events.length < _
  rw [Sched.events_unlink]
  apply List.length_filter_lt_length_iff_exists.mpr
  exact ⟨ev, List.mem_of_find?_eq_some hfind, by simp⟩

/-- The second loop of `check_schedule`. -/
def Sched.sweep (s : Sched) : Result :=
  match _hfind : s.events.find? fun ev => !ev.found with
  | none => .ok s
  | some ev =>
      match _hremove : s.removeMissing ev with
      | .error s' => .error s'
      | .ok s' => sweep s'
termination_by s.events.length
decreasing_by exact Sched.removeMissing_length _hfind _hremove

theorem Sched.sweep_of_none {s : Sched} (h : (s.events.find? fun ev => !ev.found) = none) :
    s.sweep = .ok s := by
  rw [Sched.sweep]
  split
  · rfl
  next ev hfind =>
    rw [h] at hfind
    cases hfind

theorem Sched.sweep_of_some {s : Sched} {ev : Event}
    (h : (s.events.find? fun ev => !ev.found) = some ev) :
    s.sweep = s.removeMissing ev >>= Sched.sweep := by
  rw [Sched.sweep]
  split
  next hfind =>
    rw [h] at hfind
    cases hfind
  next ev' hfind =>
    obtain rfl : ev = ev' := Option.some.inj (h.symm.trans hfind)
    split
    next hremove => rw [hremove]; rfl
    next hremove => rw [hremove]; rfl

/-- `zerofound(sched)` -/
def Sched.zerofound (s : Sched) : Sched :=
  { s with
    free := s.free.map fun ev => { ev with found := false }
    busy := s.busy.map fun ev => { ev with found := false } }

/-- `check_schedule(sched)` with the entries of the schedule file. -/
def Sched.checkSchedule (d : Setup) (file : List Entry) (s : Sched) : Result := do
  let s ← file.foldlM (Sched.checkEntry d) s
  let s ← s.sweep
  return s.zerofound

/-- The event is removed by `check_finished`. -/
def Status.isOver : Status → Bool
  | .finished | .error | .cancelled | .stopped => true
  | .notStarted | .running => false

/-- `check_finished(sched)` -/
def Sched.checkFinished (s : Sched) : Result :=
  s.busy.foldlM (fun s ev =>
    if ev.status.isOver then do
      let s ← s.removeFromBranch ev
      return { s with nRunning := s.nRunning - 1 }
    else return s) s

/-- The options of an event of the local socket. -/
def socketOpt (d : Setup) : Opt :=
  let opt := (((freshOpt d.fresh d.default).clearBits lockerCapture).setBits
    captureWLocalsocket).setBits readmode
  if opt.has captureWDisk2file then opt else { opt with disk2fileoutput := none }

/-- The event of a client. -/
def Sched.socketEvent (d : Setup) (s : Sched) : Event :=
  ⟨s.next, socketOpt d, none, .notStarted, none, true⟩

/-- It is put on the free list. -/
def Sched.connected (d : Setup) (s : Sched) : Sched :=
  { s with next := s.next + 1, free := s.free ++ [s.socketEvent d] }

/-- `handle_localsocket(local_sock, sched)`; `client` is what `accept4` returns. -/
def Sched.handleLocalsocket (d : Setup) (client : ℤ) (env : Env) (s : Sched) : Result :=
  if 0 < client then (s.connected d).launch env 0 (s.socketEvent d) else .ok s

/-- The loop of `main` after its main loop. -/
def Sched.shutdown (s : Sched) : Result := s.busy.foldlM Sched.removeFromBranch s

/-- What happens to the schedule. -/
inductive Call where
  | checkSchedule (file : List Entry)
  | startScheduled (now : BitVec 64) (starts : ℕ → Env × ℕ)
  | checkFinished
  | handleLocalsocket (client : ℤ) (env : Env)
  /-- The threads of a running event set its status. -/
  | setStatus (id : ℕ) (status : Status)
  | shutdown

/-- One call from a state in which the daemon is there. -/
def Sched.call (d : Setup) (s : Sched) : Call → Result
  | .checkSchedule file => s.checkSchedule d file
  | .startScheduled now starts => s.startScheduled now starts
  | .checkFinished => s.checkFinished
  | .handleLocalsocket client env => s.handleLocalsocket d client env
  | .setStatus id status =>
      .ok { s with
        busy := s.busy.map fun ev => if ev.id = id then { ev with status := status } else ev }
  | .shutdown => s.shutdown

/-- The runs of the daemon, until it ends. -/
def daemon (d : Setup) : Library.System Result Call :=
  .ofNext (fun r => r = .ok init) fun r c =>
    match r with
    | .error _ => none
    | .ok s => some (s.call d c)

end VlbiStreamer.Scheduler
