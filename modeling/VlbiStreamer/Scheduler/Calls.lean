import VlbiStreamer.Scheduler.Checking

/-!
# The calls of the daemon

What every call keeps, however the events come and go: `Orderly`.  The same lemmas say
what the calls have done when the daemon ends in one of them.
-/

namespace VlbiStreamer.Scheduler

open Config Library

variable {d : Setup} {s t u : Sched} {ev ev' : Event} {env : Env} {p : ℕ} {now : BitVec 64}
  {starts : ℕ → Env × ℕ}

/-! ## Rules -/

/-- The rule for the loop of `start_scheduled`. -/
theorem Sched.startLoop_meets {I failed : Sched → Prop}
    (hremove : ∀ s ev, I s → ev ∈ s.free → ev.due now → ev.tooOld now →
      Meets I failed (s.removeFromBranch ev))
    (hlaunch : ∀ s ev, I s → ev ∈ s.free → ev.due now → ¬ ev.tooOld now →
      Meets I failed (({ s with nScheduled := s.nScheduled - 1 } : Sched).launch
        (starts ev.id).1 (starts ev.id).2 (ev.timed now)))
    {i : ℕ} (h : I s) : Meets I failed (s.startLoop now starts i) := by
  fun_induction Sched.startLoop now starts i s with
  | case1 => exact h
  | case2 i s ev hget hdue hold s' hs' =>
      exact (hremove s ev h (List.mem_of_getElem? hget) hdue hold).of_error hs'
  | case3 i s ev hget hdue hold s' hs' ih =>
      exact ih ((hremove s ev h (List.mem_of_getElem? hget) hdue hold).of_ok hs')
  | case4 i s ev hget hdue hold s' hs' =>
      exact (hlaunch s ev h (List.mem_of_getElem? hget) hdue hold).of_error hs'
  | case5 i s ev hget hdue hold s' hs' ih =>
      exact ih ((hlaunch s ev h (List.mem_of_getElem? hget) hdue hold).of_ok hs')
  | case6 i s ev hget hdue ih => exact ih h

/-! ## What is kept -/

/-- An event that was not started. -/
structure Waits (ev : Event) : Prop where
  fi : ev.fi = none
  status : ev.status ≠ .running
  idstring : ev.idstring ≠ none

/-- What holds between the calls. -/
structure Orderly (s : Sched) : Prop where
  books : Books s.toLedger s.events
  waits : ∀ ev ∈ s.free, Waits ev
  unmarked : ∀ ev ∈ s.events, ev.idstring ≠ none → ev.found = false

/-- Every call of `afi_disassociate` was given an index with an association, and there was
one for each event that had an index and is on the lists no more, and none else. -/
structure Disciplined (s : Sched) : Prop where
  live : ∀ c ∈ s.calls, c.fi ≠ none ∧ c.live = true
  once : ∀ id, (s.calls.countP fun c => c.event = id) =
    if id ∈ s.associated ∧ ∀ ev ∈ s.events, ev.id ≠ id then 1 else 0

theorem Books.disciplined (h : Books s.toLedger s.events) : Disciplined s where
  live := h.live
  once := fun id => by
    have hcount : (s.calls.countP fun c => c.event = id) = s.closed.count id := by
      rw [← h.calls, List.count, List.countP_map]
      congr 1
    rw [hcount]
    by_cases hclosed : id ∈ s.closed
    · rw [if_pos (h.closed id hclosed), List.count_eq_one_of_mem h.closed_nodup hclosed]
    · rw [if_neg, List.count_eq_zero_of_not_mem hclosed]
      rintro ⟨hassoc, hoff⟩
      rcases h.kept id hassoc with hmem | ⟨ev, hev, heq⟩
      · exact hclosed hmem
      · exact hoff ev hev heq

theorem orderly_init : Orderly init where
  books := .init
  waits := fun _ hev => absurd hev List.not_mem_nil
  unmarked := fun _ hev => absurd hev List.not_mem_nil

/-- The daemon does not end where an event is closed that holds an index. -/
theorem Books.fi_of_error {l : List Event} (h : Books s.toLedger (ev :: l))
    (hu : s.freeAndClose ev = .error u) : ev.fi = none := by
  cases hfi : ev.fi with
  | none => rfl
  | some p =>
      have hname : ev.idstring ≠ none := fun hnone => by
        rw [h.sockets ev List.mem_cons_self hnone] at hfi
        cases hfi
      rw [Sched.freeAndClose_ok_iff.mpr ⟨hname, p, hfi, h.associations_pos hfi, rfl⟩] at hu
      cases hu

/-- What a removal has done to the lists. -/
structure Removed (s : Sched) (ev : Event) (t : Sched) : Prop where
  books : Books t.toLedger t.events
  free : t.free = (s.unlink ev.id).free
  busy : t.busy = (s.unlink ev.id).busy
  nScheduled : t.nScheduled = s.nScheduled
  nRunning : t.nRunning = s.nRunning

theorem Books.removeFromBranch_meets (h : Books s.toLedger s.events) (hev : ev ∈ s.events) :
    Meets (Removed s ev) (fun _ => ev.fi = none) (s.removeFromBranch ev) := by
  cases hremove : s.removeFromBranch ev with
  | ok t =>
      have hbooks := h.removeFromBranch hev hremove
      obtain ⟨-, p, -, -, rfl⟩ := Sched.removeFromBranch_ok_iff.mp hremove
      exact ⟨hbooks, rfl, rfl, rfl, rfl⟩
  | error u =>
      have hunlink : Books (s.unlink ev.id).toLedger (ev :: (s.unlink ev.id).events) := h.unlink hev
      exact hunlink.fi_of_error hremove

/-- What a launch has done to the lists. -/
structure Launched (s : Sched) (ev : Event) (t : Sched) : Prop where
  books : Books t.toLedger t.events
  free : t.free = (s.unlink ev.id).free
  nScheduled : t.nScheduled = s.nScheduled
  busy : (∃ last, last.idstring = ev.idstring ∧ last.found = ev.found ∧
      t.busy = (s.unlink ev.id).busy ++ [last] ∧ t.nRunning = s.nRunning + 1) ∨
    (t.busy = (s.unlink ev.id).busy ∧ t.nRunning = s.nRunning)

/-- A start that fails leaves an event with an index. -/
def FailsIndexed (env : Env) (opt : Opt) : Prop :=
  ∀ ret opt', Config.startEvent env opt = .returned ret opt' → ret ≠ 0 → getsIndex env opt = true

theorem Books.launch_meets (h : Books s.toLedger s.events) (hev : ev' ∈ s.events)
    (hsame : ev.id = ev'.id ∧ ev.idstring = ev'.idstring ∧ ev.fi = none) (hnone : ev'.fi = none)
    (hsocket : ev.idstring = none → getsIndex env ev.opt = false) :
    Meets (Launched s ev) (fun u => FailsIndexed env ev.opt → Disciplined u)
      (s.launch env p ev) := by
  cases hlaunch : s.launch env p ev with
  | ok t =>
      have hbooks := h.launch hev hsame hnone hsocket hlaunch
      obtain ⟨last, started, s', hstart, hcases⟩ := Sched.launch_cases hlaunch
      obtain ⟨hstarted, hs'⟩ := Sched.startEvent_cases hstart
      have hkeeps : s'.unlink ev.id = { s.unlink ev.id with toLedger := s'.toLedger } ∧
          s'.nRunning = s.nRunning := by
        rw [hs']
        split_ifs
        · exact ⟨rfl, rfl⟩
        · exact ⟨rfl, rfl⟩
      rcases hcases with ⟨-, rfl⟩ | ⟨-, hremove⟩
      · refine ⟨hbooks, ?_, ?_, .inl ⟨last, hstarted.idstring, hstarted.found, ?_, ?_⟩⟩
        · rw [hkeeps.1]
        · rw [hkeeps.1]
          rfl
        · rw [hkeeps.1]
        · show s'.nRunning + 1 = _
          rw [hkeeps.2]
      · obtain ⟨-, q, -, -, rfl⟩ := Sched.removeFromBranch_ok_iff.mp hremove
        rw [hstarted.id] at hbooks ⊢
        refine ⟨hbooks, ?_, ?_, .inr ⟨?_, ?_⟩⟩
        · rw [hkeeps.1]
        · rw [hkeeps.1]
          rfl
        · rw [hkeeps.1]
        · show s'.nRunning = _
          exact hkeeps.2
  | error u =>
      intro hindexed
      unfold Sched.launch at hlaunch
      split at hlaunch
      · cases hlaunch
        exact h.disciplined
      · cases hlaunch
      next last s' hstart =>
        obtain ⟨hstarted, hs'⟩ := Sched.startEvent_cases hstart
        obtain ⟨ret, hreturned, hret⟩ := hstarted.returned
        have hne : ret ≠ 0 := (decide_eq_false_iff_not.mp hret.symm)
        have hfi : last.fi ≠ none := by
          rw [hstarted.fi, if_pos (hindexed ret last.opt hreturned hne)]
          simp
        have hbooks := h.startEvent hev hsame hnone hsocket hstart
        have hunlink : Books (s'.unlink last.id).toLedger (last :: (s.unlink ev.id).events) :=
          hbooks
        exact absurd (hunlink.fi_of_error hlaunch) hfi

/-! ## The calls -/

/-- Every event that the call closes holds an index. -/
def ClosesIndexed (d : Setup) (s : Sched) : Call → Prop
  | .checkSchedule file =>
      (∀ e ∈ file, e.1 ≠ "shutdown" → (∀ ev ∈ s.events, ev.idstring ≠ some e.1) →
        Config.addRecording d.logToFile d.fresh d.default e.2 ≠ .refused) ∧
      ∀ ev ∈ s.gone file, ev.fi ≠ none
  | .startScheduled now starts => ∀ ev ∈ s.free, ev.due now →
      ¬ ev.tooOld now ∧ FailsIndexed (starts ev.id).1 (ev.timed now).opt
  | .checkFinished => ∀ ev ∈ s.busy, ev.status.isOver → ev.fi ≠ none
  | .handleLocalsocket client env => 0 < client → FailsIndexed env (socketOpt d)
  | .setStatus _ _ => True
  | .shutdown => ∀ ev ∈ s.busy, ev.fi ≠ none

namespace Orderly

variable {file : List Entry} {new : List Event}

theorem checked (h : Orderly s) (hchecked : Checked d s file new t) : Orderly t where
  books := hchecked.books
  waits := by
    intro ev hev
    rw [hchecked.free] at hev
    rcases List.mem_append.mp hev with hev | hev
    · obtain ⟨old, hold, rfl⟩ := List.mem_map.mp hev
      have hwaits := h.waits old (List.mem_of_mem_filter hold)
      exact ⟨hwaits.fi, hwaits.status, hwaits.idstring⟩
    · obtain ⟨made, hmade, rfl⟩ := List.mem_map.mp hev
      have hadded := hchecked.added made hmade
      obtain ⟨e, -, hname, -⟩ := hadded.entry
      refine ⟨hadded.fi, ?_, ?_⟩
      · show made.status ≠ _
        rw [hadded.status]
        simp
      · show made.idstring ≠ none
        rw [hname]
        simp
  unmarked := by
    intro ev hev _
    rw [Sched.events, hchecked.free, hchecked.busy, ← List.map_append, ← List.map_append] at hev
    obtain ⟨old, -, rfl⟩ := List.mem_map.mp hev
    rfl

/-- The first loop with the end of the daemon in it. -/
theorem checkEntries (h : Orderly s) :
    Meets (fun t => ∃ new, Marking d s file new t)
      (fun u => ClosesIndexed d s (.checkSchedule file) → Disciplined u)
      (file.foldlM (Sched.checkEntry d) s) := by
  have hloop : Meets (fun t => file ++ [] = file ∧ ∃ new, Marking d s file new t)
      (fun u => ClosesIndexed d s (.checkSchedule file) → Disciplined u)
      (file.foldlM (Sched.checkEntry d) s) := by
    refine Meets.foldlM
      (I := fun done rest t => done ++ rest = file ∧ ∃ new, Marking d s done new t)
      (b := []) (fun done e rest t ⟨hfile, new, hmarking⟩ => ?_) ⟨rfl, [], Marking.start h.books⟩
    refine (hmarking.checkEntry (e := e) (fun _ => hmarking.books.disciplined) ?_).mono
      (fun u hu => ⟨by rw [List.append_assoc]; exact hfile, hu⟩) fun _ hu => hu
    intro hne hnone hrefused _ _ hcloses
    have he : e ∈ file := hfile ▸ List.mem_append_right _ List.mem_cons_self
    exact absurd hrefused (hcloses.1 e he hne hnone)
  exact hloop.mono (fun _ ht => ht.2) fun _ hu => hu

/-- The second loop with the end of the daemon in it. -/
theorem sweep_meets {c : Prop} (h : Books t.toLedger t.events)
    (hfi : ∀ ev ∈ t.missing, c → ev.fi ≠ none) :
    Meets (fun _ => True) (fun u => c → Disciplined u) t.sweep := by
  refine (Sched.sweep_meets (I := fun t => Books t.toLedger t.events ∧
    ∀ ev ∈ t.missing, c → ev.fi ≠ none) ?_ ⟨h, hfi⟩).mono (fun _ _ => trivial) fun _ hu => hu
  intro t ev ⟨hbooks, hmissing⟩ hfind
  obtain ⟨hev, -, hcons⟩ := hbooks.missing_unlink hfind
  rw [hcons, List.forall_mem_cons] at hmissing
  cases hremove : t.removeMissing ev with
  | ok t' =>
      obtain ⟨-, p, hp, -, rfl⟩ := Sched.removeMissing_ok_iff.mp hremove
      exact ⟨(hbooks.unlink hev).close hp, hmissing.2⟩
  | error u =>
      intro hc
      unfold Sched.removeMissing at hremove
      have hunlink := hbooks.unlink hev
      refine absurd ?_ (hmissing.1 hc)
      split at hremove
      · exact Books.fi_of_error (s := { t.unlink ev.id with nRunning := t.nRunning - 1 })
          hunlink hremove
      · exact Books.fi_of_error (s := { t.unlink ev.id with nScheduled := t.nScheduled - 1 })
          hunlink hremove

theorem checkSchedule (h : Orderly s) :
    Meets Orderly (fun u => ClosesIndexed d s (.checkSchedule file) → Disciplined u)
      (s.checkSchedule d file) := by
  cases hcheck : s.checkSchedule d file with
  | ok t =>
      obtain ⟨new, hchecked⟩ := h.books.checkSchedule hcheck
      exact h.checked hchecked
  | error u =>
      unfold Sched.checkSchedule at hcheck
      cases hloop : file.foldlM (Sched.checkEntry d) s with
      | error t =>
          rw [hloop] at hcheck
          cases hcheck
          exact h.checkEntries.of_error hloop
      | ok t =>
          rw [hloop] at hcheck
          obtain ⟨new, hmarking⟩ := h.checkEntries.of_ok hloop
          have hsweep := sweep_meets (c := ClosesIndexed d s (.checkSchedule file))
            hmarking.books fun ev hev hcloses => by
              rw [hmarking.missing] at hev
              obtain ⟨old, hold, rfl⟩ := List.mem_map.mp hev
              exact hcloses.2 old hold
          change (t.sweep >>= _) = _ at hcheck
          cases hend : t.sweep with
          | error u' =>
              rw [hend] at hcheck
              cases hcheck
              exact hsweep.of_error hend
          | ok u' =>
              rw [hend] at hcheck
              cases hcheck

/-- Events are taken off the lists. -/
theorem of_unlink (h : Orderly s) {id : ℕ} (hbooks : Books t.toLedger t.events)
    (hfree : t.free = (s.unlink id).free) (hbusy : t.busy = (s.unlink id).busy) : Orderly t where
  books := hbooks
  waits := fun ev hev => by
    rw [hfree] at hev
    exact h.waits ev (List.mem_of_mem_filter hev)
  unmarked := fun ev hev => by
    rw [Sched.events, hfree, hbusy] at hev
    rcases List.mem_append.mp hev with hev | hev
    · exact h.unmarked ev (List.mem_append_left _ (List.mem_of_mem_filter hev))
    · exact h.unmarked ev (List.mem_append_right _ (List.mem_of_mem_filter hev))

theorem removed (h : Orderly s) (hremoved : Removed s ev t) : Orderly t :=
  h.of_unlink hremoved.books hremoved.free hremoved.busy

theorem launched (h : Orderly s) (hlaunched : Launched s ev t)
    (hfound : ev.idstring ≠ none → ev.found = false) : Orderly t := by
  rcases hlaunched.busy with ⟨last, hname, hlast, hbusy, -⟩ | ⟨hbusy, -⟩
  · refine ⟨hlaunched.books, fun other hother => ?_, fun other hother => ?_⟩
    · rw [hlaunched.free] at hother
      exact h.waits other (List.mem_of_mem_filter hother)
    · rw [Sched.events, hlaunched.free, hbusy] at hother
      rcases List.mem_append.mp hother with hother | hother
      · exact h.unmarked other (List.mem_append_left _ (List.mem_of_mem_filter hother))
      · rcases List.mem_append.mp hother with hother | hother
        · exact h.unmarked other (List.mem_append_right _ (List.mem_of_mem_filter hother))
        · rw [List.mem_singleton.mp hother, hname, hlast]
          exact hfound
  · exact h.of_unlink hlaunched.books hlaunched.free hbusy

theorem startScheduled (h : Orderly s) :
    Meets Orderly (fun u => ClosesIndexed d s (.startScheduled now starts) → Disciplined u)
      (s.startScheduled now starts) := by
  refine (Sched.startLoop_meets (I := fun t => Orderly t ∧ ∀ ev ∈ t.free, ev ∈ s.free) ?_ ?_
    ⟨h, fun _ hev => hev⟩).mono (fun _ ht => ht.1) fun _ hu => hu
  · intro t ev ⟨ht, hsub⟩ hev hdue hold
    refine (ht.books.removeFromBranch_meets (List.mem_append_left _ hev)).mono (fun u hu => ?_)
      fun _ _ hcloses => absurd hold (hcloses ev (hsub ev hev) hdue).1
    refine ⟨ht.removed hu, fun other hother => hsub other ?_⟩
    rw [hu.free] at hother
    exact List.mem_of_mem_filter hother
  · intro t ev ⟨ht, hsub⟩ hev hdue _
    have hmem : ev ∈ t.events := List.mem_append_left _ hev
    have hwaits := ht.waits ev hev
    have hbooks : Books ({ t with nScheduled := t.nScheduled - 1 } : Sched).toLedger
        ({ t with nScheduled := t.nScheduled - 1 } : Sched).events := ht.books
    refine (@Books.launch_meets _ (ev.timed now) _ _ _ hbooks hmem
      ⟨Event.timed_id now ev, ev.timed_idstring now, (ev.timed_fi now).trans hwaits.fi⟩
      hwaits.fi fun hnone => absurd (ev.timed_idstring now ▸ hnone) hwaits.idstring).mono
      (fun u hu => ?_) fun u hu hcloses => hu (hcloses ev (hsub ev hev) hdue).2
    have ht' : Orderly ({ t with nScheduled := t.nScheduled - 1 } : Sched) :=
      ⟨ht.books, ht.waits, ht.unmarked⟩
    refine ⟨ht'.launched hu fun _ => ?_, fun other hother => hsub other ?_⟩
    · rw [Event.timed_found]
      exact ht.unmarked ev hmem hwaits.idstring
    · rw [hu.free] at hother
      exact List.mem_of_mem_filter hother

/-- A loop over the busy list that removes events. -/
theorem drain {Inv failed : Sched → Prop} {f : Sched → Event → Result}
    (hf : ∀ t ev, Inv t → ev ∈ s.busy → ev ∈ t.busy →
      Meets (fun u => Inv u ∧ ∀ other ∈ t.busy, other.id ≠ ev.id → other ∈ u.busy) failed (f t ev))
    (horderly : Orderly s) (h : Inv s) : Meets Inv failed (s.busy.foldlM f s) := by
  have hids : (s.busy.map Event.id).Nodup :=
    horderly.books.ids.sublist (List.Sublist.map _ (List.sublist_append_right _ _))
  refine (Meets.foldlM (b := []) (I := fun _ rest t => Inv t ∧
    (rest.map Event.id).Nodup ∧ (∀ ev ∈ rest, ev ∈ s.busy) ∧ ∀ ev ∈ rest, ev ∈ t.busy) ?_
    ⟨h, hids, fun _ hev => hev, fun _ hev => hev⟩).mono (fun _ ht => ht.1) fun _ hu => hu
  rintro - ev rest t ⟨ht, hnodup, hsub, hbusy⟩
  rw [List.map_cons, List.nodup_cons] at hnodup
  refine (hf t ev ht (hsub ev List.mem_cons_self) (hbusy ev List.mem_cons_self)).mono
    (fun u hu => ⟨hu.1, hnodup.2, fun other hother => hsub other (List.mem_cons_of_mem _ hother),
      fun other hother => ?_⟩) fun _ hu => hu
  refine hu.2 other (hbusy other (List.mem_cons_of_mem _ hother)) fun hid => ?_
  exact hnodup.1 (hid ▸ List.mem_map_of_mem hother)

theorem stays_of_removed (hbusy : t.busy = (s.unlink ev.id).busy) :
    ∀ other ∈ s.busy, other.id ≠ ev.id → other ∈ t.busy := by
  intro other hother hid
  rw [hbusy]
  exact List.mem_filter.mpr ⟨hother, by simpa using hid⟩

theorem checkFinished (h : Orderly s) :
    Meets Orderly (fun u => ClosesIndexed d s .checkFinished → Disciplined u)
      s.checkFinished := by
  refine drain (fun t ev ht hev hmem => ?_) h h
  split
  next hover =>
    refine ((ht.books.removeFromBranch_meets (List.mem_append_right _ hmem)).mono (fun _ hu => hu)
      fun _ hu hcloses => absurd hu (hcloses ev hev hover)).bind fun u hu => ?_
    have hu' := ht.removed hu
    exact ⟨⟨hu'.books, hu'.waits, hu'.unmarked⟩, stays_of_removed hu.busy⟩
  · exact ⟨ht, fun other hother _ => hother⟩

theorem shutdown (h : Orderly s) :
    Meets Orderly (fun u => ClosesIndexed d s .shutdown → Disciplined u) s.shutdown := by
  refine drain (fun t ev ht hev hmem => ?_) h h
  exact (ht.books.removeFromBranch_meets (List.mem_append_right _ hmem)).mono
    (fun u hu => ⟨ht.removed hu, stays_of_removed hu.busy⟩) fun _ hu hcloses =>
      absurd hu (hcloses ev hev)

/-- A bit that was set stays set when another one is. -/
theorem or_or_and (x b c : BitVec 64) : (x ||| b ||| c) &&& b = b := by
  apply BitVec.eq_of_getLsbD_eq
  intro i _
  simp only [BitVec.getLsbD_and, BitVec.getLsbD_or]
  cases b.getLsbD i with
  | false => exact Bool.and_false _
  | true => rw [Bool.or_true, Bool.true_or, Bool.and_self]

/-- An event of the local socket gets no index. -/
theorem getsIndex_socketOpt (env : Env) (d : Setup) : getsIndex env (socketOpt d) = false := by
  have hhas : (socketOpt d).has captureWLocalsocket = true := by
    have hbits : (socketOpt d).optbits =
        (d.default.optbits &&& ~~~lockerCapture) ||| captureWLocalsocket ||| readmode := by
      unfold socketOpt
      dsimp only
      split <;> rfl
    rw [Opt.has, hbits, or_or_and]
    decide
  rw [getsIndex, if_pos hhas]

/-- The events with that of a client. -/
theorem connected (h : Orderly s) (d : Setup) :
    Books (s.connected d).toLedger (s.connected d).events := by
  refine (@Books.add _ _ (s.socketEvent d) h.books rfl rfl fun name hsome => ?_).perm ?_
  · cases hsome
  · show (s.socketEvent d :: (s.free ++ s.busy)).Perm (s.free ++ [s.socketEvent d] ++ s.busy)
    rw [List.append_assoc, List.singleton_append]
    exact List.perm_middle.symm

theorem mem_connected (d : Setup) (s : Sched) : s.socketEvent d ∈ (s.connected d).free :=
  List.mem_append_right _ List.mem_cons_self

theorem connected_meets (h : Orderly s) :
    Meets (Launched (s.connected d) (s.socketEvent d))
      (fun u => FailsIndexed env (socketOpt d) → Disciplined u)
      ((s.connected d).launch env p (s.socketEvent d)) :=
  @Books.launch_meets _ _ (s.socketEvent d) _ _ (h.connected d)
    (List.mem_append_left _ (mem_connected d s)) ⟨rfl, rfl, rfl⟩ rfl fun _ =>
    getsIndex_socketOpt env d

/-- The event of the client is on the busy list or gone. -/
theorem of_connected (h : Orderly s) (hlaunched : Launched (s.connected d) (s.socketEvent d) t) :
    Orderly t := by
  have hfree : ∀ other ∈ t.free, other ∈ s.free := by
    intro other hother
    rw [hlaunched.free] at hother
    obtain ⟨hother, hne⟩ := List.mem_filter.mp hother
    rcases List.mem_append.mp hother with hother | hother
    · exact hother
    · rw [List.mem_singleton.mp hother] at hne
      simp at hne
  have hbusy : ∀ other ∈ t.busy, other.idstring ≠ none → other ∈ s.busy := by
    intro other hother hname
    rcases hlaunched.busy with ⟨last, hlast, -, hbusy, -⟩ | ⟨hbusy, -⟩
    · rw [hbusy] at hother
      rcases List.mem_append.mp hother with hother | hother
      · exact List.mem_of_mem_filter hother
      · rw [List.mem_singleton.mp hother, hlast] at hname
        exact absurd rfl hname
    · rw [hbusy] at hother
      exact List.mem_of_mem_filter hother
  refine ⟨hlaunched.books, fun other hother => h.waits other (hfree other hother), ?_⟩
  intro other hother hname
  rcases List.mem_append.mp hother with hother | hother
  · exact h.unmarked other (List.mem_append_left _ (hfree other hother)) hname
  · exact h.unmarked other (List.mem_append_right _ (hbusy other hother hname)) hname

theorem handleLocalsocket (h : Orderly s) {client : ℤ} :
    Meets Orderly (fun u => ClosesIndexed d s (.handleLocalsocket client env) → Disciplined u)
      (s.handleLocalsocket d client env) := by
  unfold Sched.handleLocalsocket
  split
  next hclient =>
    exact h.connected_meets.mono (fun t ht => h.of_connected ht) fun u hu hcloses =>
      hu (hcloses hclient)
  · exact h

/-- The threads of a running event set its status. -/
theorem setStatus (h : Orderly s) (id : ℕ) (status : Status) : Orderly { s with
    busy := s.busy.map fun ev => if ev.id = id then { ev with status := status } else ev } := by
  generalize hg : (fun ev : Event => if ev.id = id then { ev with status := status } else ev) = g
  have hsame : ∀ ev, (g ev).id = ev.id ∧ (g ev).idstring = ev.idstring ∧ (g ev).fi = ev.fi ∧
      (g ev).found = ev.found := by
    intro ev
    rw [← hg]
    dsimp only
    split
    · exact ⟨rfl, rfl, rfl, rfl⟩
    · exact ⟨rfl, rfl, rfl, rfl⟩
  have hother : ∀ l : List Event, (∀ ev ∈ l, ev.id ≠ id) → l.map g = l := by
    intro l hl
    conv_rhs => rw [← List.map_id l]
    refine List.map_congr_left fun ev hev => ?_
    rw [← hg]
    exact if_neg (hl ev hev)
  refine ⟨?_, h.waits, fun ev hev => ?_⟩
  · show Books s.toLedger (s.free ++ s.busy.map g)
    by_cases hwaiting : ∃ ev ∈ s.free, ev.id = id
    · obtain ⟨ev, hev, hid⟩ := hwaiting
      rw [hother s.busy]
      · exact h.books
      · intro other hmem heq
        have hids := h.books.ids
        rw [Sched.events, List.map_append, List.nodup_append] at hids
        exact hids.2.2 ev.id (List.mem_map_of_mem hev) other.id (List.mem_map_of_mem hmem)
          (hid.trans heq.symm)
    · rw [← hother s.free fun ev hev hid => hwaiting ⟨ev, hev, hid⟩, ← List.map_append]
      exact h.books.map (fun ev => (hsame ev).1) (fun ev => (hsame ev).2.1)
        fun ev => (hsame ev).2.2.1
  · rcases List.mem_append.mp hev with hev | hev
    · exact h.unmarked ev (List.mem_append_left _ hev)
    · obtain ⟨old, hold, rfl⟩ := List.mem_map.mp hev
      rw [(hsame old).2.1, (hsame old).2.2.2]
      exact h.unmarked old (List.mem_append_right _ hold)

/-- **Every call** keeps the order, and ends the daemon in a state that is disciplined if
the events it closes hold an index. -/
theorem call (h : Orderly s) (c : Call) :
    Meets Orderly (fun u => ClosesIndexed d s c → Disciplined u) (s.call d c) := by
  cases c with
  | checkSchedule file => exact h.checkSchedule
  | startScheduled now starts => exact h.startScheduled (d := d)
  | checkFinished => exact h.checkFinished (d := d)
  | handleLocalsocket client env => exact h.handleLocalsocket
  | setStatus id status => exact h.setStatus id status
  | shutdown => exact h.shutdown (d := d)

end Orderly

/-! ## Runs -/

/-- The daemon is there, and all is in order. -/
theorem orderly_of_reachable {r : Result} (h : (daemon d).Reachable r) :
    Meets Orderly (fun _ => True) r := by
  apply h.invariant
  · rintro r rfl
    exact orderly_init
  · intro r c r' hr hstep
    cases r with
    | error u => cases hstep
    | ok s =>
        cases hstep
        exact (Orderly.call hr c).mono (fun _ hs => hs) fun _ _ => trivial

/-- What a call is made of. -/
def Result.Ok (p : Sched → Call → Prop) : Result → Call → Prop
  | .ok s, c => p s c
  | .error _, _ => True

/-- The state of the daemon, also when it has ended. -/
def Result.sched : Result → Sched
  | .ok s => s
  | .error s => s

/-! ## One recording -/

/-- A daemon with files of 128 MB. -/
def fileSetup : Setup := ⟨offsetOpt, fun _ => true, ""⟩

/-- The options of a recording whose entry sets none. -/
def plainOpt : Opt := { freshOpt "" offsetOpt with disk2fileoutput := none }

/-- The recording `r` waits for its start. -/
def waiting : Sched :=
  ⟨⟨fun _ => 0, 1, [], [], []⟩, [⟨0, plainOpt, some "r", .notStarted, none, false⟩], [], 1, 0⟩

/-- It is started at the time 1000, with its index at 0. -/
def recording (status : Status) : Sched :=
  ⟨⟨Function.update (fun _ => 0) 0 1, 1, [0], [], []⟩, [],
    [⟨0, ({ plainOpt with startingTime := 1000 } : Opt).running, some "r", status, some 0, false⟩],
    0, 1⟩

theorem check_waiting : init.checkSchedule fileSetup [("r", [])] = .ok waiting := by
  have hloop : [(("r", []) : Entry)].foldlM (Sched.checkEntry fileSetup) init = .ok
      { waiting with free := [⟨0, plainOpt, some "r", .notStarted, none, true⟩] } := rfl
  unfold Sched.checkSchedule
  rw [hloop]
  show (Sched.sweep _ >>= _) = _
  rw [Sched.sweep_of_none rfl]
  rfl

theorem start_recording :
    waiting.startScheduled 1000 (fun _ => (Env.ready [], 0)) = .ok (recording .running) := by
  have hlaunch : ({ waiting with nScheduled := waiting.nScheduled - 1 } : Sched).launch
      (Env.ready []) 0 (Event.timed 1000 ⟨0, plainOpt, some "r", .notStarted, none, false⟩) =
      .ok (recording .running) := rfl
  unfold Sched.startScheduled
  rw [Sched.startLoop_of_launch (s := waiting) rfl rfl rfl hlaunch, Sched.startLoop_of_none rfl]

/-- It has finished and is removed. -/
def finished : Sched :=
  ⟨⟨Function.update (Function.update (fun _ => 0) 0 1) 0 0, 1, [0], [⟨0, some 0, true⟩], [0]⟩,
    [], [], 0, 0⟩

theorem finish_recording : (recording .finished).checkFinished = .ok finished := rfl

/-- The recording is started from its entry. -/
theorem reachable_recording {ok : Result → Call → Prop}
    (hentry : ok (.ok init) (.checkSchedule [("r", [])]))
    (hstart : ok (.ok waiting) (.startScheduled 1000 fun _ => (Env.ready [], 0))) :
    (daemon fileSetup).ReachableUnder ok (.ok (recording .running)) := by
  have hinit : (daemon fileSetup).ReachableUnder ok (.ok init) := .init rfl
  have hwaiting := hinit.step hentry (congrArg some check_waiting)
  exact hwaiting.step hstart (congrArg some start_recording)

/-- It is made to its end. -/
theorem reachable_finished {ok : Result → Call → Prop}
    (hentry : ok (.ok init) (.checkSchedule [("r", [])]))
    (hstart : ok (.ok waiting) (.startScheduled 1000 fun _ => (Env.ready [], 0)))
    (hstatus : ok (.ok (recording .running)) (.setStatus 0 .finished))
    (hend : ok (.ok (recording .finished)) .checkFinished) :
    (daemon fileSetup).ReachableUnder ok (.ok finished) := by
  have hover : (daemon fileSetup).ReachableUnder ok (.ok (recording .finished)) :=
    (reachable_recording hentry hstart).step hstatus rfl
  exact hover.step hend (congrArg some finish_recording)

/-! ## The file indices -/

/-- **`afi_disassociate` is called as it should be** in every run in which each call closes
only events that hold an index. -/
theorem disciplined_of_reachable {r : Result}
    (h : (daemon d).ReachableUnder (Result.Ok (ClosesIndexed d)) r) : Disciplined r.sched := by
  have hmeets : Meets Orderly Disciplined r := by
    apply h.invariant
    · rintro r rfl
      exact orderly_init
    · intro r c r' hr hok hstep
      cases r with
      | error u => cases hstep
      | ok s =>
          cases hstep
          exact (Orderly.call hr c).mono (fun _ hs => hs) fun _ hu => hu hok
  cases r with
  | ok s => exact (Orderly.books hmeets).disciplined
  | error u => exact hmeets

/-- A recording that is made from its entry to its end. -/
theorem disciplined_of_reachable_recording : Disciplined (Result.sched (.ok finished)) := by
  refine disciplined_of_reachable (reachable_finished ⟨?_, ?_⟩ ?_ trivial ?_)
  · intro e he _ _ hrefused
    rw [List.mem_singleton.mp he] at hrefused
    cases hrefused
  · exact fun ev hev => absurd hev List.not_mem_nil
  · intro ev hev _
    rw [List.mem_singleton.mp hev]
    exact ⟨by decide, fun _ _ _ _ => rfl⟩
  · intro ev hev _
    rw [List.mem_singleton.mp hev]
    exact Option.some_ne_none 0

/-- An entry with an unknown way to capture: the event never had an index, and
`afi_disassociate` is called with `NULL`. -/
theorem refused_not_disciplined :
    init.checkSchedule fileSetup [("r", [⟨"capture", .string (some "x")⟩])] =
        .error { init with next := 1, calls := [⟨0, none, false⟩] } ∧
      ¬ Disciplined { init with next := 1, calls := [⟨0, none, false⟩] } := by
  refine ⟨rfl, fun h => ?_⟩
  exact (h.live ⟨0, none, false⟩ List.mem_cons_self).1 rfl

end VlbiStreamer.Scheduler
