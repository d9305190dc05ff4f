import VlbiStreamer.Scheduler.Calls

/-!
# The counters of the scheduler

`n_scheduled` and `n_running` are adjusted by hand wherever an event comes to a list or
leaves it.  `check_schedule` guesses the list of an event that it removes from the status,
which the threads of the event change; `counted_of_reachable` says that this is the only
place where the counters can go wrong.
-/

namespace VlbiStreamer.Scheduler

open Config Library

variable {d : Setup} {s t : Sched} {ev : Event} {file : List Entry} {new : List Event}

/-- The counters are the lengths of the lists. -/
structure Counted (s : Sched) : Prop where
  scheduled : s.nScheduled = s.free.length
  running : s.nRunning = s.busy.length

/-- Every event that `check_schedule` takes off the busy list has the status that it looks
for.  The daemon does not count its events when it shuts down. -/
def RemovesRunning (s : Sched) : Call → Prop
  | .checkSchedule file => ∀ ev ∈ s.busy, stays file ev = false → ev.status = .running
  | .shutdown => False
  | _ => True

/-! ## Events that leave a list -/

theorem Books.unlink_free (h : Books s.toLedger s.events) (hev : ev ∈ s.free) :
    (s.unlink ev.id).free.length + 1 = s.free.length ∧ (s.unlink ev.id).busy = s.busy := by
  have hids := h.ids
  rw [Sched.events, List.map_append, List.nodup_append] at hids
  constructor
  · exact ((perm_cons_filter hids.1 hev).length_eq).symm
  · refine List.filter_eq_self.mpr fun other hother => ?_
    rw [decide_eq_true_iff]
    exact fun heq => hids.2.2 ev.id (List.mem_map_of_mem hev) other.id
      (List.mem_map_of_mem hother) heq.symm

theorem Books.unlink_busy (h : Books s.toLedger s.events) (hev : ev ∈ s.busy) :
    (s.unlink ev.id).free = s.free ∧ (s.unlink ev.id).busy.length + 1 = s.busy.length := by
  have hids := h.ids
  rw [Sched.events, List.map_append, List.nodup_append] at hids
  constructor
  · refine List.filter_eq_self.mpr fun other hother => ?_
    rw [decide_eq_true_iff]
    exact fun heq => hids.2.2 other.id (List.mem_map_of_mem hother) ev.id
      (List.mem_map_of_mem hev) heq
  · exact ((perm_cons_filter hids.2.1 hev).length_eq).symm

/-- The lengths after a launch. -/
theorem Launched.counted (h : Launched s ev t) (hfree : s.nScheduled = (s.unlink ev.id).free.length)
    (hbusy : s.nRunning = (s.unlink ev.id).busy.length) : Counted t where
  scheduled := by
    rw [h.nScheduled, h.free]
    exact hfree
  running := by
    rcases h.busy with ⟨last, -, -, hlast, hrunning⟩ | ⟨hsame, hrunning⟩
    · rw [hlast, hrunning, List.length_append, List.length_singleton, hbusy]
      push_cast
      rfl
    · rw [hsame, hrunning]
      exact hbusy

/-! ## The calls -/

/-- How many of the removed events are counted as running. -/
theorem Orderly.countP_gone (h : Orderly s)
    (hok : ∀ ev ∈ s.busy, stays file ev = false → ev.status = .running) :
    ((s.gone file).countP fun ev => ev.status ≠ .running) =
        (s.free.filter fun ev => !stays file ev).length ∧
      ((s.gone file).countP fun ev => ev.status = .running) =
        (s.busy.filter fun ev => !stays file ev).length := by
  have hwaiting : ∀ ev ∈ s.free.filter fun ev => !stays file ev, ev.status ≠ .running :=
    fun ev hev => (h.waits ev (List.mem_of_mem_filter hev)).status
  have hrunning : ∀ ev ∈ s.busy.filter fun ev => !stays file ev, ev.status = .running := by
    intro ev hev
    obtain ⟨hev, hgone⟩ := List.mem_filter.mp hev
    exact hok ev hev (Bool.not_eq_true' _ ▸ hgone)
  rw [Sched.gone, Sched.events, List.filter_append, List.countP_append, List.countP_append]
  constructor
  · rw [List.countP_eq_length.mpr fun ev hev => by simpa using hwaiting ev hev,
      List.countP_eq_zero.mpr fun ev hev => by simpa using hrunning ev hev, Nat.add_zero]
  · rw [List.countP_eq_zero.mpr fun ev hev => by simpa using hwaiting ev hev,
      List.countP_eq_length.mpr fun ev hev => by simpa using hrunning ev hev, Nat.zero_add]

theorem Counted.checked (h : Counted s) (horderly : Orderly s)
    (hok : ∀ ev ∈ s.busy, stays file ev = false → ev.status = .running)
    (hchecked : Checked d s file new t) : Counted t := by
  obtain ⟨hwaiting, hrunning⟩ := horderly.countP_gone hok
  have hfree := List.length_eq_length_filter_add (l := s.free) (stays file)
  have hbusy := List.length_eq_length_filter_add (l := s.busy) (stays file)
  constructor
  · rw [hchecked.nScheduled, hchecked.free, hwaiting, h.scheduled, List.length_append,
      List.length_map, List.length_map]
    omega
  · rw [hchecked.nRunning, hchecked.busy, hrunning, h.running, List.length_map]
    omega

/-- Both invariants, after a call. -/
def Result.Counts (r : Result) : Prop := Meets (fun t => Orderly t ∧ Counted t) (fun _ => True) r

theorem Counted.startScheduled (h : Counted s) (horderly : Orderly s) (now : BitVec 64)
    (starts : ℕ → Env × ℕ) : Result.Counts (s.startScheduled now starts) := by
  refine Sched.startLoop_meets (fun t ev ⟨ht, _⟩ hev _ _ => ?_)
    (fun t ev ⟨ht, hcounted⟩ hev _ _ => ?_) ⟨horderly, h⟩
  · -- an event that waits has no index, so that the daemon ends here
    cases hremove : t.removeFromBranch ev with
    | error u => trivial
    | ok u =>
        obtain ⟨-, p, hp, -⟩ := Sched.removeFromBranch_ok_iff.mp hremove
        rw [(ht.waits ev hev).fi] at hp
        cases hp
  · have hmem : ev ∈ t.events := List.mem_append_left _ hev
    have hwaits := ht.waits ev hev
    obtain ⟨hfree, hbusy⟩ := ht.books.unlink_free hev
    have ht' : Orderly ({ t with nScheduled := t.nScheduled - 1 } : Sched) :=
      ⟨ht.books, ht.waits, ht.unmarked⟩
    refine (@Books.launch_meets _ (ev.timed now) _ _ _ ht'.books hmem
      ⟨ev.timed_id now, ev.timed_idstring now, (ev.timed_fi now).trans hwaits.fi⟩ hwaits.fi
      fun hnone => absurd (ev.timed_idstring now ▸ hnone) hwaits.idstring).mono
      (fun u hu => ⟨ht'.launched hu fun _ => ?_, hu.counted ?_ ?_⟩) fun _ _ => trivial
    · rw [Event.timed_found]
      exact ht.unmarked ev hmem hwaits.idstring
    · rw [Event.timed_id]
      show t.nScheduled - 1 = ((t.unlink ev.id).free.length : ℤ)
      rw [hcounted.scheduled, ← hfree]
      push_cast
      omega
    · rw [Event.timed_id]
      show t.nRunning = ((t.unlink ev.id).busy.length : ℤ)
      rw [hbusy, hcounted.running]

theorem Counted.checkFinished (h : Counted s) (horderly : Orderly s) :
    Result.Counts s.checkFinished := by
  refine Orderly.drain (fun t ev ⟨ht, hcounted⟩ _ hmem => ?_) horderly ⟨horderly, h⟩
  split
  · refine (@Meets.mono _ _ _ _ _ (fun _ => True) _
      (ht.books.removeFromBranch_meets (List.mem_append_right _ hmem)) (fun _ hu => hu)
      fun _ _ => trivial).bind fun u hu => ?_
    obtain ⟨hfree, hbusy⟩ := ht.books.unlink_busy hmem
    have hu' := ht.removed hu
    refine ⟨⟨⟨hu'.books, hu'.waits, hu'.unmarked⟩, ?_, ?_⟩, Orderly.stays_of_removed hu.busy⟩
    · show u.nScheduled = u.free.length
      rw [hu.nScheduled, hu.free, hfree, hcounted.scheduled]
    · show u.nRunning - 1 = u.busy.length
      rw [hu.nRunning, hu.busy, hcounted.running, ← hbusy]
      push_cast
      omega
  · exact ⟨⟨ht, hcounted⟩, fun other hother _ => hother⟩

theorem Counted.handleLocalsocket (h : Counted s) (horderly : Orderly s) (client : ℤ) (env : Env) :
    Result.Counts (s.handleLocalsocket d client env) := by
  unfold Sched.handleLocalsocket
  split
  · refine horderly.connected_meets.mono (fun u hu => ⟨horderly.of_connected hu, ?_⟩)
      fun _ _ => trivial
    obtain ⟨hfree, hbusy⟩ := (horderly.connected d).unlink_free (Orderly.mem_connected d s)
    refine hu.counted ?_ ?_
    · have hlength : (s.connected d).free.length = s.free.length + 1 := List.length_append
      show s.nScheduled = _
      rw [h.scheduled]
      omega
    · rw [hbusy]
      exact h.running
  · exact ⟨horderly, h⟩

theorem Counted.call (h : Counted s) (horderly : Orderly s) {c : Call} (hok : RemovesRunning s c) :
    Result.Counts (s.call d c) := by
  cases c with
  | checkSchedule file =>
      show Result.Counts (s.checkSchedule d file)
      cases hcheck : s.checkSchedule d file with
      | error u => trivial
      | ok t =>
          obtain ⟨new, hchecked⟩ := horderly.books.checkSchedule hcheck
          exact ⟨horderly.checked hchecked, h.checked horderly hok hchecked⟩
  | startScheduled now starts => exact h.startScheduled horderly now starts
  | checkFinished => exact h.checkFinished horderly
  | handleLocalsocket client env => exact h.handleLocalsocket horderly client env
  | setStatus id status =>
      refine ⟨horderly.setStatus id status, h.scheduled, ?_⟩
      show s.nRunning = ((s.busy.map _).length : ℤ)
      rw [List.length_map]
      exact h.running
  | shutdown => exact hok.elim

/-- **The counters are right** in every run in which `check_schedule` takes no event off the
busy list that is no longer running. -/
theorem counted_of_reachable {r : Result}
    (h : (daemon d).ReachableUnder (Result.Ok RemovesRunning) r) :
    ∀ s, r = .ok s → s.nScheduled = s.free.length ∧ s.nRunning = s.busy.length := by
  have hmeets : Result.Counts r := by
    apply h.invariant
    · rintro r rfl
      exact ⟨orderly_init, rfl, rfl⟩
    · intro r c r' hr hok hstep
      cases r with
      | error u => cases hstep
      | ok s =>
          cases hstep
          exact Counted.call hr.2 hr.1 hok
  rintro s rfl
  exact ⟨hmeets.2.scheduled, hmeets.2.running⟩

/-- A recording that is made from its entry to its end. -/
theorem counted_of_reachable_recording :
    finished.nScheduled = finished.free.length ∧ finished.nRunning = finished.busy.length :=
  counted_of_reachable
    (reachable_finished (fun _ hev => absurd hev List.not_mem_nil) trivial trivial trivial) _ rfl

/-- The entry of a recording that has stopped is taken out of the file. -/
def miscounted : Sched :=
  { finished with nScheduled := -1, nRunning := 1 }

theorem check_stopped : (recording .stopped).checkSchedule fileSetup [] = .ok miscounted := by
  unfold Sched.checkSchedule
  show (Sched.sweep _ >>= _) = _
  rw [@Sched.sweep_of_some _ ⟨0, ({ plainOpt with startingTime := 1000 } : Opt).running,
    some "r", .stopped, some 0, false⟩ rfl]
  show ((Sched.sweep _) >>= _) = _
  rw [Sched.sweep_of_none rfl]
  rfl

/-- The removal counts it as one that waits. -/
theorem stopped_miscounted : (daemon fileSetup).Reachable (.ok miscounted) ∧
    ¬ (miscounted.nScheduled = miscounted.free.length ∧
      miscounted.nRunning = miscounted.busy.length) := by
  have hrecording : (daemon fileSetup).Reachable (.ok (recording .running)) :=
    reachable_recording trivial trivial
  have hstopped : (daemon fileSetup).Reachable (.ok (recording .stopped)) :=
    hrecording.step (a := .setStatus 0 .stopped) rfl
  exact ⟨hstopped.step (a := .checkSchedule []) (congrArg some check_stopped), by decide⟩

end VlbiStreamer.Scheduler
