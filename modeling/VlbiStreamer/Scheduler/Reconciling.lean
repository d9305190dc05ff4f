import VlbiStreamer.Scheduler.Calls

/-!
# The schedule file and the lists

`check_schedule` is to make the lists agree with the file: `Reconciled` is what that means
for one call.  It marks the events that have an entry, and this is the whole of what it
knows about them, so that it comes out right under the condition `Reconcilable` and under
no other.
-/

namespace VlbiStreamer.Scheduler

open Config Library

variable {d : Setup} {s t u : Sched} {ev : Event} {file done : List Entry} {e : Entry}
  {new : List Event}

/-! ## When the call returns -/

/-- The first loop comes to its end if it can go on from every entry. -/
theorem Marking.loop_ok_iff (h : Marking d s done new t)
    (hnames : ((done ++ file).map Prod.fst).Nodup) :
    (∃ u, file.foldlM (Sched.checkEntry d) t = .ok u) ↔ ∀ e ∈ file, Accepts d s e := by
  induction file generalizing done new t with
  | nil => exact iff_of_true ⟨t, rfl⟩ fun e he => absurd he List.not_mem_nil
  | cons e file ih =>
      have hnew : ∀ e' ∈ done, e'.1 ≠ e.1 := by
        rw [List.map_append, List.nodup_append] at hnames
        exact fun e' he' => hnames.2.2 e'.1 (List.mem_map_of_mem he') e.1 List.mem_cons_self
      have haccepts := h.checkEntry_ok_iff hnew
      rw [List.foldlM_cons, List.forall_mem_cons, ← haccepts]
      cases hone : t.checkEntry d e with
      | error u => exact iff_of_false (fun ⟨_, hu⟩ => by cases hu) fun ⟨⟨_, hu⟩, _⟩ => by cases hu
      | ok u =>
          obtain ⟨new', hmarking⟩ := (@Marking.checkEntry _ _ _ _ e _ (fun _ => True) h trivial
            fun _ _ _ _ _ => trivial).of_ok hone
          refine (ih hmarking ?_).trans (and_iff_right ⟨u, rfl⟩).symm
          rwa [← List.append_cons]

theorem Books.checkSchedule_ok_iff (h : Books s.toLedger s.events)
    (hnames : (file.map Prod.fst).Nodup) :
    (∃ t, s.checkSchedule d file = .ok t) ↔ (∀ e ∈ file, Accepts d s e) ∧
      ∀ ev ∈ s.gone file, ev.idstring ≠ none ∧ ev.fi ≠ none := by
  have hloop := @Marking.loop_ok_iff _ _ _ file _ _ (Marking.start (d := d) h) hnames
  rw [← hloop]
  unfold Sched.checkSchedule
  cases ht : file.foldlM (Sched.checkEntry d) s with
  | error t => exact iff_of_false (fun ⟨_, hu⟩ => by cases hu) fun ⟨⟨_, hu⟩, _⟩ => by cases hu
  | ok t =>
      obtain ⟨new, hmarking⟩ := h.checkEntries ht
      have hsweep := hmarking.books.sweep_ok_iff
      rw [hmarking.missing, List.forall_mem_map] at hsweep
      refine Iff.trans ?_ (and_iff_right ⟨t, rfl⟩).symm
      refine Iff.trans ?_ hsweep
      show (∃ u, (t.sweep >>= fun v => .ok v.zerofound) = .ok u) ↔ _
      cases t.sweep with
      | error u => exact iff_of_false (fun ⟨_, hu⟩ => by cases hu) fun ⟨_, hu⟩ => by cases hu
      | ok u => exact iff_of_true ⟨_, rfl⟩ ⟨u, rfl⟩

/-! ## What it is to do -/

/-- The entry describes a recording. -/
def wellFormed (d : Setup) (e : Entry) : Bool :=
  e.1 ≠ "shutdown" && match Config.addRecording d.logToFile d.fresh d.default e.2 with
    | .scheduled _ => true
    | .refused => false
    | .crashed _ => false

/-- The event came from the local socket or has a well-formed entry. -/
def belongs (d : Setup) (file : List Entry) (ev : Event) : Bool :=
  ev.idstring = none || file.any fun e => wellFormed d e && ev.idstring = some e.1

/-- A new event with the options of its entry. -/
structure Scheduled (d : Setup) (s : Sched) (e : Entry) (ev : Event) : Prop where
  idstring : ev.idstring = some e.1
  opt : Config.addRecording d.logToFile d.fresh d.default e.2 = .scheduled ev.opt
  status : ev.status = .notStarted
  fi : ev.fi = none
  id : s.next ≤ ev.id
  new : ∀ old ∈ s.events, old.idstring ≠ some e.1

/-- The lists agree with the file. -/
structure Reconciled (d : Setup) (s : Sched) (file : List Entry) (t : Sched) : Prop where
  /-- Events that were there keep their place and everything but their mark. -/
  lists : ∃ new, t.free = (s.free.filter (belongs d file)).map unmark ++ new ∧
    t.busy = (s.busy.filter (belongs d file)).map unmark ∧
    ∀ ev ∈ new, ∃ e ∈ file, wellFormed d e ∧ Scheduled d s e ev
  /-- There is one event for each well-formed entry. -/
  names : (t.events.filterMap Event.idstring).Perm ((file.filter (wellFormed d)).map Prod.fst)
  closed : t.closed = s.closed ++ (s.events.filter fun ev => !belongs d file ev).map Event.id
  closed_nodup : t.closed.Nodup

/-- The condition under which `check_schedule` does this. -/
structure Reconcilable (d : Setup) (s : Sched) (file : List Entry) : Prop where
  /-- No event of the local socket is in the way of a search for a name. -/
  readable : ∀ e ∈ file, lookup e.1 s.events ≠ none
  valid : ∀ e ∈ file, e.1 ≠ "shutdown" → wellFormed d e = true
  /-- `idstring` has room for the name of a new event. -/
  short : ∀ e ∈ file, e.1 ≠ "shutdown" → (∀ ev ∈ s.events, ev.idstring ≠ some e.1) →
    e.1.length < 24
  /-- An event of the local socket still has its first mark. -/
  sockets : ∀ ev ∈ s.events, ev.idstring = none → ev.found = true
  /-- No event is taken out of the file before it holds an index. -/
  started : ∀ ev ∈ s.events, ev.idstring ≠ none → named file ev = false → ev.fi ≠ none

theorem wellFormed_iff : wellFormed d e = true ↔ e.1 ≠ "shutdown" ∧
    ∃ opt, Config.addRecording d.logToFile d.fresh d.default e.2 = .scheduled opt := by
  rw [wellFormed, Bool.and_eq_true, decide_eq_true_iff]
  refine and_congr_right fun _ => ?_
  cases Config.addRecording d.logToFile d.fresh d.default e.2 with
  | scheduled opt => exact iff_of_true rfl ⟨opt, rfl⟩
  | refused => exact iff_of_false Bool.false_ne_true fun ⟨_, hopt⟩ => by cases hopt
  | crashed reason => exact iff_of_false Bool.false_ne_true fun ⟨_, hopt⟩ => by cases hopt

theorem belongs_iff : belongs d file ev = true ↔
    ev.idstring = none ∨ ∃ e ∈ file, wellFormed d e = true ∧ ev.idstring = some e.1 := by
  simp only [belongs, Bool.or_eq_true, decide_eq_true_iff, List.any_eq_true, Bool.and_eq_true]

/-! ## When it does it -/

/-- In order, and with a file that can be reconciled, the marks are those of the events that
belong there. -/
theorem Reconcilable.stays_eq (h : Reconcilable d s file) (horderly : Orderly s)
    (hev : ev ∈ s.events) : stays file ev = belongs d file ev := by
  rw [Bool.eq_iff_iff, belongs_iff, stays, Bool.or_eq_true]
  cases hname : ev.idstring with
  | none => exact iff_of_true (.inl (h.sockets ev hev hname)) (.inl rfl)
  | some name =>
      have hne : ev.idstring ≠ none := by
        rw [hname]
        exact Option.some_ne_none name
      have hnamed : named file ev = true ↔ ∃ e ∈ file, ev.idstring = some e.1 := by
        rw [named, List.any_eq_true]
        exact exists_congr fun e => and_congr_right fun _ => decide_eq_true_iff
      rw [horderly.unmarked ev hev hne, hnamed, hname]
      constructor
      · rintro (hfalse | ⟨e, he, heq⟩)
        · exact absurd hfalse Bool.false_ne_true
        · refine .inr ⟨e, he, h.valid e he fun hshutdown => ?_, heq⟩
          exact horderly.books.allowed ev hev (hname.trans (heq.trans (congrArg some hshutdown)))
      · rintro (hfalse | ⟨e, he, -, heq⟩)
        · exact absurd hfalse (Option.some_ne_none name)
        · exact .inr ⟨e, he, heq⟩

/-- Every entry is accepted and every event that is removed can be closed. -/
theorem Reconcilable.returns (h : Reconcilable d s file) (horderly : Orderly s)
    (hnames : (file.map Prod.fst).Nodup) : ∃ t, s.checkSchedule d file = .ok t := by
  refine (horderly.books.checkSchedule_ok_iff hnames).mpr ⟨fun e he => ?_, fun ev hev => ?_⟩
  · refine ⟨h.readable e he, fun hne hlookup => ⟨?_, ?_⟩⟩
    · exact h.short e he hne (lookup_none hlookup)
    · exact (wellFormed_iff.mp (h.valid e he hne)).2
  · obtain ⟨hev, hgone⟩ := List.mem_filter.mp hev
    rw [stays, Bool.not_eq_true', Bool.or_eq_false_iff] at hgone
    have hname : ev.idstring ≠ none := fun hnone => by
      rw [h.sockets ev hev hnone] at hgone
      cases hgone.1
    exact ⟨hname, h.started ev hev hname hgone.2⟩

/-- What is left of the events that were there. -/
theorem Reconcilable.kept (h : Reconcilable d s file) (horderly : Orderly s) :
    s.free.filter (stays file) = s.free.filter (belongs d file) ∧
      s.busy.filter (stays file) = s.busy.filter (belongs d file) := by
  constructor
  · exact List.filter_congr fun ev hev => h.stays_eq horderly (List.mem_append_left _ hev)
  · exact List.filter_congr fun ev hev => h.stays_eq horderly (List.mem_append_right _ hev)

/-- Every event that is left has an entry. -/
theorem Reconcilable.has_entry (h : Reconcilable d s file) (horderly : Orderly s)
    (hchecked : Checked d s file new t) (hev : ev ∈ t.events) (hname : ev.idstring ≠ none) :
    ∃ e ∈ file, ev.idstring = some e.1 := by
  have hkept : ∀ l : List Event, ev ∈ (l.filter (belongs d file)).map unmark →
      ∃ e ∈ file, ev.idstring = some e.1 := by
    intro l hmem
    obtain ⟨old, hold, rfl⟩ := List.mem_map.mp hmem
    rcases belongs_iff.mp (List.mem_filter.mp hold).2 with hnone | ⟨e, he, -, heq⟩
    · exact absurd hnone hname
    · exact ⟨e, he, heq⟩
  obtain ⟨hfree, hbusy⟩ := h.kept horderly
  rw [Sched.events, hchecked.free, hchecked.busy, hfree, hbusy] at hev
  rcases List.mem_append.mp hev with hev | hev
  · rcases List.mem_append.mp hev with hev | hev
    · exact hkept s.free hev
    · obtain ⟨made, hmade, rfl⟩ := List.mem_map.mp hev
      obtain ⟨e, he, heq, -⟩ := (hchecked.added made hmade).entry
      exact ⟨e, he, heq⟩
  · exact hkept s.busy hev

/-- The names are those of the file. -/
theorem Reconcilable.names (h : Reconcilable d s file) (horderly : Orderly s)
    (hnames : (file.map Prod.fst).Nodup) (hchecked : Checked d s file new t) :
    (t.events.filterMap Event.idstring).Perm ((file.filter (wellFormed d)).map Prod.fst) := by
  have hnodup : ((file.filter (wellFormed d)).map Prod.fst).Nodup :=
    hnames.sublist (List.filter_sublist.map _)
  rw [List.perm_ext_iff_of_nodup hchecked.books.names hnodup]
  intro name
  rw [List.mem_filterMap, List.mem_map]
  constructor
  · rintro ⟨ev, hev, hname⟩
    obtain ⟨e, he, heq⟩ := h.has_entry horderly hchecked hev (by rw [hname]; simp)
    obtain rfl : name = e.1 := Option.some.inj (hname.symm.trans heq)
    refine ⟨e, List.mem_filter.mpr ⟨he, h.valid e he fun hshutdown => ?_⟩, rfl⟩
    exact hchecked.books.allowed ev hev (hname.trans (congrArg some hshutdown))
  · rintro ⟨e, he, rfl⟩
    obtain ⟨he, hwell⟩ := List.mem_filter.mp he
    exact hchecked.named e he (wellFormed_iff.mp hwell).1

theorem Reconcilable.reconciled (h : Reconcilable d s file) (horderly : Orderly s)
    (hnames : (file.map Prod.fst).Nodup) (hchecked : Checked d s file new t) :
    Reconciled d s file t := by
  obtain ⟨hfree, hbusy⟩ := h.kept horderly
  refine ⟨⟨new.map unmark, ?_, ?_, ?_⟩, h.names horderly hnames hchecked, ?_,
    hchecked.books.closed_nodup⟩
  · rw [← hfree]
    exact hchecked.free
  · rw [← hbusy]
    exact hchecked.busy
  · intro ev hev
    obtain ⟨made, hmade, rfl⟩ := List.mem_map.mp hev
    have hadded := hchecked.added made hmade
    obtain ⟨e, he, hname, hne, -, hopt, hnew⟩ := hadded.entry
    exact ⟨e, he, h.valid e he hne, hname, hopt, hadded.status, hadded.fi, hadded.id, hnew⟩
  · have hgone : s.gone file = s.events.filter fun ev => !belongs d file ev :=
      List.filter_congr fun ev hev => congrArg Bool.not (h.stays_eq horderly hev)
    rw [← hgone]
    exact hchecked.closed

/-- The condition cannot be weakened. -/
theorem Reconciled.reconcilable (h : Reconciled d s file t) (horderly : Orderly s)
    (hnames : (file.map Prod.fst).Nodup) (ht : s.checkSchedule d file = .ok t) :
    Reconcilable d s file := by
  obtain ⟨haccepts, hgone⟩ := (horderly.books.checkSchedule_ok_iff hnames).mp ⟨t, ht⟩
  obtain ⟨new, hchecked⟩ := horderly.books.checkSchedule ht
  refine ⟨fun e he => (haccepts e he).readable, ?_, ?_, ?_, ?_⟩
  · intro e he hne
    -- the event of the entry has a name for which there is a well-formed entry
    obtain ⟨ev, hev, hname⟩ := hchecked.named e he hne
    have hmem : e.1 ∈ t.events.filterMap Event.idstring := List.mem_filterMap.mpr ⟨ev, hev, hname⟩
    rw [h.names.mem_iff, List.mem_map] at hmem
    obtain ⟨e', he', heq⟩ := hmem
    obtain ⟨he', hwell⟩ := List.mem_filter.mp he'
    rwa [List.inj_on_of_nodup_map hnames he' he heq] at hwell
  · intro e he hne hnone
    refine ((haccepts e he).new hne ?_).1
    cases hlookup : lookup e.1 s.events with
    | none => exact absurd hlookup (haccepts e he).readable
    | some found =>
        cases found with
        | none => rfl
        | some ev =>
            obtain ⟨hev, hname⟩ := lookup_some hlookup
            exact absurd hname (hnone ev hev)
  · intro ev hev hnone
    by_contra hfound
    have hnamed : named file ev = false := by
      rw [named, hnone]
      exact List.any_eq_false.mpr fun e _ => by simp
    refine (hgone ev (List.mem_filter.mpr ⟨hev, ?_⟩)).1 hnone
    rw [stays, hnamed, Bool.or_false, Bool.not_eq_true', Bool.eq_false_iff]
    exact hfound
  · intro ev hev hne hnamed
    refine (hgone ev (List.mem_filter.mpr ⟨hev, ?_⟩)).2
    rw [stays, hnamed, horderly.unmarked ev hev hne]
    rfl

/-- **The lists agree with the file** after `check_schedule` exactly under the condition
`Reconcilable`. -/
theorem checkSchedule_reconciles_iff (h : (daemon d).Reachable (.ok s))
    (hnames : (file.map Prod.fst).Nodup) :
    (∃ t, s.checkSchedule d file = .ok t ∧ Reconciled d s file t) ↔ Reconcilable d s file := by
  have horderly : Orderly s := orderly_of_reachable h
  constructor
  · rintro ⟨t, ht, hreconciled⟩
    exact hreconciled.reconcilable horderly hnames ht
  · intro hreconcilable
    obtain ⟨t, ht⟩ := hreconcilable.returns horderly hnames
    obtain ⟨new, hchecked⟩ := horderly.books.checkSchedule ht
    exact ⟨t, ht, hreconcilable.reconciled horderly hnames hchecked⟩

/-- A recording that is under way is cancelled and another one added. -/
theorem checkSchedule_reconciles_recording : ∃ t,
    (recording .running).checkSchedule fileSetup [("q", [])] = .ok t ∧
      Reconciled fileSetup (recording .running) [("q", [])] t := by
  have hnames : (([("q", [])] : List Entry).map Prod.fst).Nodup := List.nodup_singleton "q"
  refine (checkSchedule_reconciles_iff (reachable_recording trivial trivial) hnames).mpr
    ⟨?_, ?_, ?_, ?_, ?_⟩
  · intro e he
    rw [List.mem_singleton.mp he]
    exact Option.some_ne_none none
  · intro e he _
    rw [List.mem_singleton.mp he]
    rfl
  · intro e he _ _
    rw [List.mem_singleton.mp he]
    decide
  · intro ev hev hnone
    rw [List.mem_singleton.mp hev] at hnone
    cases hnone
  · intro ev hev _ _
    rw [List.mem_singleton.mp hev]
    exact Option.some_ne_none 0

/-- A recording that waits for its start is taken out of the file. -/
theorem waiting_not_reconciled : (daemon fileSetup).Reachable (.ok waiting) ∧
    ¬ ∃ t, waiting.checkSchedule fileSetup [] = .ok t ∧
      Reconciled fileSetup waiting [] t := by
  have hinit : (daemon fileSetup).Reachable (.ok init) := .init rfl
  refine ⟨hinit.step (a := .checkSchedule [("r", [])]) (congrArg some check_waiting), ?_⟩
  rintro ⟨t, ht, -⟩
  have herror : waiting.checkSchedule fileSetup [] = .error
      { waiting with free := [], nScheduled := 0, calls := [⟨0, none, false⟩] } := by
    unfold Sched.checkSchedule
    show (Sched.sweep _ >>= _) = _
    rw [@Sched.sweep_of_some _ ⟨0, plainOpt, some "r", .notStarted, none, false⟩ rfl]
    rfl
  rw [herror] at ht
  cases ht

end VlbiStreamer.Scheduler
