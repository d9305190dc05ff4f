import VlbiStreamer.Library.Outcome
import VlbiStreamer.Scheduler.Books

/-!
# What `check_schedule` does to the lists

The first loop marks the events that have an entry in the file and adds events for the
others; the second removes what is not marked.  `Marking` is the state between the two and
`Checked` what comes of both, each as an equation for the lists.
-/

namespace VlbiStreamer.Scheduler

open Config Library

variable {d : Setup} {s t u : Sched} {l : List Event} {ev ev' : Event} {file done : List Entry}
  {e : Entry} {new : List Event} {name : String}

/-! ## The names -/

theorem lookup_append (name : String) (l l' : List Event) :
    lookup name (l ++ l') = (lookup name l).bind fun
      | some ev => some (some ev)
      | none => lookup name l' := by
  induction l with
  | nil => rfl
  | cons ev l ih =>
      rw [List.cons_append, lookup, lookup]
      cases ev.idstring with
      | none => rfl
      | some idstring =>
          dsimp only
          split
          · rfl
          · exact ih

theorem lookup_map (name : String) {g : Event → Event} (hg : ∀ ev, (g ev).idstring = ev.idstring)
    (l : List Event) : lookup name (l.map g) = (lookup name l).map (Option.map g) := by
  induction l with
  | nil => rfl
  | cons ev l ih =>
      rw [List.map_cons, lookup, lookup, hg]
      cases ev.idstring with
      | none => rfl
      | some idstring =>
          dsimp only
          split
          · rfl
          · exact ih

theorem lookup_some (h : lookup name l = some (some ev)) : ev ∈ l ∧ ev.idstring = some name := by
  induction l with
  | nil => cases h
  | cons other l ih =>
      rw [lookup] at h
      cases hid : other.idstring with
      | none =>
          rw [hid] at h
          cases h
      | some idstring =>
          simp only [hid] at h
          split at h
          next heq =>
            cases h
            exact ⟨List.mem_cons_self, hid.trans (congrArg some heq)⟩
          · exact ⟨List.mem_cons_of_mem _ (ih h).1, (ih h).2⟩

theorem lookup_none (h : lookup name l = some none) : ∀ ev ∈ l, ev.idstring ≠ some name := by
  induction l with
  | nil => exact fun _ hev => absurd hev List.not_mem_nil
  | cons other l ih =>
      rw [lookup] at h
      cases hid : other.idstring with
      | none =>
          rw [hid] at h
          cases h
      | some idstring =>
          simp only [hid] at h
          split at h
          · cases h
          next hne =>
            intro ev hev
            rcases List.mem_cons.mp hev with rfl | hev
            · rw [hid]
              exact fun heq => hne (Option.some.inj heq)
            · exact ih h ev hev

/-- Events with other names are passed. -/
theorem lookup_of_ne (h : ∀ ev ∈ l, ∃ other, ev.idstring = some other ∧ other ≠ name) :
    lookup name l = some none := by
  induction l with
  | nil => rfl
  | cons ev l ih =>
      obtain ⟨other, hid, hne⟩ := h ev List.mem_cons_self
      rw [lookup, hid]
      dsimp only
      rw [if_neg hne]
      exact ih fun ev hev => h ev (List.mem_cons_of_mem _ hev)

/-! ## The first loop -/

/-- The event has an entry in the file. -/
def named (file : List Entry) (ev : Event) : Bool :=
  file.any fun e => ev.idstring = some e.1

/-- What the first loop makes of an event. -/
def mark (file : List Entry) (ev : Event) : Event :=
  { ev with found := ev.found || named file ev }

@[simp] theorem named_nil : named [] ev = false := rfl

theorem named_append :
    named (file ++ [e]) ev = (named file ev || decide (ev.idstring = some e.1)) := by
  rw [named, List.any_append, List.any_cons, List.any_nil, Bool.or_false]
  rfl

@[simp] theorem mark_nil (ev : Event) : mark [] ev = ev := by
  rw [mark, named_nil, Bool.or_false]

theorem mark_append_of_ne (h : ev.idstring ≠ some e.1) : mark (file ++ [e]) ev = mark file ev := by
  rw [mark, mark, named_append, decide_eq_false h, Bool.or_false]

theorem mark_append_of_eq (h : ev.idstring = some e.1) :
    mark (file ++ [e]) ev = { mark file ev with found := true } := by
  rw [mark, mark, named_append, decide_eq_true h, Bool.or_true, Bool.or_true]

/-- An event that was made for an entry of the file. -/
structure Added (d : Setup) (s : Sched) (file : List Entry) (ev : Event) : Prop where
  found : ev.found = true
  fi : ev.fi = none
  status : ev.status = .notStarted
  id : s.next ≤ ev.id
  entry : ∃ e ∈ file, ev.idstring = some e.1 ∧ e.1 ≠ "shutdown" ∧ e.1.length < 24 ∧
    Config.addRecording d.logToFile d.fresh d.default e.2 = .scheduled ev.opt ∧
    ∀ old ∈ s.events, old.idstring ≠ some e.1

theorem Added.mono (h : Added d s file ev) : Added d s (file ++ [e]) ev :=
  { h with
    entry := by
      obtain ⟨e', he', hrest⟩ := h.entry
      exact ⟨e', List.mem_append_left _ he', hrest⟩ }

/-- The state after the entries `done` of the file, with the events `new`. -/
structure Marking (d : Setup) (s : Sched) (done : List Entry) (new : List Event) (t : Sched) :
    Prop where
  free : t.free = s.free.map (mark done) ++ new
  busy : t.busy = s.busy.map (mark done)
  nScheduled : t.nScheduled = s.nScheduled + new.length
  nRunning : t.nRunning = s.nRunning
  ledger : t.toLedger = { s.toLedger with next := s.next + new.length }
  books : Books t.toLedger t.events
  added : ∀ ev ∈ new, Added d s done ev
  named : ∀ e ∈ done, e.1 ≠ "shutdown" → ∃ ev ∈ t.events, ev.idstring = some e.1

namespace Marking

theorem start (h : Books s.toLedger s.events) : Marking d s [] [] s where
  free := by rw [List.append_nil, show mark [] = id from funext mark_nil, List.map_id]
  busy := by rw [show mark [] = id from funext mark_nil, List.map_id]
  nScheduled := (Int.add_zero _).symm
  nRunning := rfl
  ledger := rfl
  books := h
  added := fun _ hev => absurd hev List.not_mem_nil
  named := fun _ he => absurd he List.not_mem_nil

theorem events_perm (h : Marking d s done new t) :
    t.events = s.free.map (mark done) ++ new ++ s.busy.map (mark done) := by
  rw [Sched.events, h.free, h.busy]

/-- Every old event is still there. -/
theorem mem_of_old (h : Marking d s done new t) (hev : ev ∈ s.events) :
    mark done ev ∈ t.events := by
  rw [h.events_perm]
  rcases List.mem_append.mp hev with hev | hev
  · exact List.mem_append_left _ (List.mem_append_left _ (List.mem_map_of_mem hev))
  · exact List.mem_append_right _ (List.mem_map_of_mem hev)

/-- Where no event has the name of the entry, the marks stay as they are. -/
theorem unnamed (h : Marking d s done new t) (hnone : ∀ ev ∈ t.events, ev.idstring ≠ some e.1) :
    s.free.map (mark (done ++ [e])) = s.free.map (mark done) ∧
      s.busy.map (mark (done ++ [e])) = s.busy.map (mark done) := by
  constructor
  · refine List.map_congr_left fun ev hev => mark_append_of_ne ?_
    exact hnone (mark done ev) (h.mem_of_old (List.mem_append_left _ hev))
  · refine List.map_congr_left fun ev hev => mark_append_of_ne ?_
    exact hnone (mark done ev) (h.mem_of_old (List.mem_append_right _ hev))

/-- The entry is `shutdown`. -/
theorem shutdown (h : Marking d s done new t) (he : e.1 = "shutdown") :
    Marking d s (done ++ [e]) new t := by
  obtain ⟨hfree, hbusy⟩ := h.unnamed (e := e) fun ev hev => he ▸ h.books.allowed ev hev
  refine { h with free := hfree ▸ h.free, busy := hbusy ▸ h.busy, added := ?_, named := ?_ }
  · exact fun ev hev => (h.added ev hev).mono
  · intro e' he' hne
    rcases List.mem_append.mp he' with he' | he'
    · exact h.named e' he' hne
    · rw [List.mem_singleton.mp he'] at hne
      exact absurd he hne

/-- The event with the name of the entry is the one with its address. -/
theorem id_iff (h : Marking d s done new t) (hev : ev ∈ t.events) (hname : ev.idstring = some e.1)
    (hev' : ev' ∈ t.events) : ev'.id = ev.id ↔ ev'.idstring = some e.1 := by
  constructor
  · intro hid
    rw [h.books.eq_of_id hev' hev hid]
    exact hname
  · intro hname'
    rw [h.books.eq_of_name hev' hev hname' hname]

/-- An event gets the mark of its entry. -/
theorem found (h : Marking d s done new t) (hlookup : lookup e.1 t.events = some (some ev)) :
    Marking d s (done ++ [e]) new (t.modify ev.id fun ev => { ev with found := true }) := by
  obtain ⟨hev, hname⟩ := lookup_some hlookup
  have hold : ∀ old ∈ s.events, (if (mark done old).id = ev.id then
      { mark done old with found := true } else mark done old) = mark (done ++ [e]) old := by
    intro old hold
    have hiff := h.id_iff hev hname (h.mem_of_old hold)
    by_cases hnamed : old.idstring = some e.1
    · rw [if_pos (hiff.mpr hnamed), mark_append_of_eq hnamed]
    · rw [if_neg fun hid => hnamed (hiff.mp hid), mark_append_of_ne hnamed]
  have hnew :
      (new.map fun ev' => if ev'.id = ev.id then { ev' with found := true } else ev') = new := by
    conv_rhs => rw [← List.map_id new]
    refine List.map_congr_left fun ev' hev' => ?_
    have hfound := (h.added ev' hev').found
    split
    · rw [← hfound]
      rfl
    · rfl
  refine ⟨?_, ?_, h.nScheduled, h.nRunning, h.ledger, ?_, ?_, ?_⟩
  · show t.free.map _ = _
    rw [h.free, List.map_append, hnew, List.map_map]
    congr 1
    exact List.map_congr_left fun old hmem => hold old (List.mem_append_left _ hmem)
  · show t.busy.map _ = _
    rw [h.busy, List.map_map]
    exact List.map_congr_left fun old hmem => hold old (List.mem_append_right _ hmem)
  · show Books t.toLedger (t.free.map _ ++ t.busy.map _)
    rw [← List.map_append]
    apply h.books.map
    · intro ev'
      split <;> rfl
    · intro ev'
      split <;> rfl
    · intro ev'
      split <;> rfl
  · exact fun ev' hev' => (h.added ev' hev').mono
  · intro e' he' hne
    show ∃ ev' ∈ t.free.map _ ++ t.busy.map _, _
    rw [← List.map_append]
    have hthere : ∃ ev' ∈ t.events, ev'.idstring = some e'.1 := by
      rcases List.mem_append.mp he' with he' | he'
      · exact h.named e' he' hne
      · rw [List.mem_singleton.mp he']
        exact ⟨ev, hev, hname⟩
    obtain ⟨ev', hev', hname'⟩ := hthere
    refine ⟨_, List.mem_map_of_mem hev', ?_⟩
    split
    · exact hname'
    · exact hname'

/-- A new event. -/
theorem add (h : Marking d s done new t) {opt : Opt} (hlookup : lookup e.1 t.events = some none)
    (hne : e.1 ≠ "shutdown") (hlength : e.1.length < 24)
    (hopt : Config.addRecording d.logToFile d.fresh d.default e.2 = .scheduled opt) :
    Marking d s (done ++ [e]) (new ++ [t.newEvent e.1 opt])
      { t with
        next := t.next + 1
        free := t.free ++ [t.newEvent e.1 opt]
        nScheduled := t.nScheduled + 1 } := by
  have hnone := lookup_none hlookup
  obtain ⟨hfree, hbusy⟩ := h.unnamed hnone
  have hnext : t.next = s.next + new.length := congrArg Ledger.next h.ledger
  have hperm : (t.newEvent e.1 opt :: t.events).Perm
      ((t.free ++ [t.newEvent e.1 opt]) ++ t.busy) := by
    rw [List.append_assoc, List.singleton_append]
    exact List.perm_middle.symm
  refine ⟨?_, ?_, ?_, h.nRunning, ?_, ?_, ?_, ?_⟩
  · show t.free ++ _ = _
    rw [hfree, h.free, List.append_assoc]
  · show t.busy = _
    rw [hbusy, h.busy]
  · show t.nScheduled + 1 = _
    rw [h.nScheduled, List.length_append, List.length_singleton]
    push_cast
    omega
  · show ({ t.toLedger with next := t.next + 1 } : Ledger) = _
    rw [h.ledger, List.length_append, List.length_singleton, Nat.add_assoc]
  · refine (h.books.add rfl rfl fun name hname => ?_).perm hperm
    obtain rfl : e.1 = name := Option.some.inj hname
    exact ⟨hne, hnone⟩
  · intro ev hev
    rcases List.mem_append.mp hev with hev | hev
    · exact (h.added ev hev).mono
    · rw [List.mem_singleton.mp hev]
      refine ⟨rfl, rfl, rfl, ?_, e, List.mem_append_right _ List.mem_cons_self, rfl, hne, hlength,
        hopt, fun old hold => hnone (mark done old) (h.mem_of_old hold)⟩
      show s.next ≤ t.next
      omega
  · intro e' he' hne'
    rcases List.mem_append.mp he' with he' | he'
    · obtain ⟨ev, hev, hname⟩ := h.named e' he' hne'
      exact ⟨ev, hperm.mem_iff.mp (List.mem_cons_of_mem _ hev), hname⟩
    · rw [List.mem_singleton.mp he']
      exact ⟨_, hperm.mem_iff.mp List.mem_cons_self, rfl⟩

/-- One entry; the daemon ends as it is, or with a call for an event that was refused. -/
theorem checkEntry {failed : Sched → Prop} (h : Marking d s done new t) (hend : failed t)
    (hrefused : e.1 ≠ "shutdown" → (∀ old ∈ s.events, old.idstring ≠ some e.1) →
      Config.addRecording d.logToFile d.fresh d.default e.2 = .refused →
      ∀ u : Sched, u.calls = t.calls ++ [⟨t.next, none, false⟩] → failed u) :
    Meets (fun u => ∃ new', Marking d s (done ++ [e]) new' u) failed (t.checkEntry d e) := by
  unfold Sched.checkEntry
  split
  · exact hend
  next ev hlookup => exact ⟨new, h.found hlookup⟩
  next hlookup =>
    unfold Sched.addRecording
    split
    next hshutdown => exact ⟨new, h.shutdown hshutdown⟩
    next hne =>
      split
      · exact hend
      next hlength =>
        split
        · exact hend
        next hrefuse =>
          have hold : ∀ old ∈ s.events, old.idstring ≠ some e.1 := fun old hold =>
            lookup_none hlookup (mark done old) (h.mem_of_old hold)
          exact hrefused hne hold hrefuse _ rfl
        next opt hopt => exact ⟨_, h.add hlookup hne (Nat.not_le.mp hlength) hopt⟩

/-- An entry is looked up as it would have been before the loop. -/
theorem lookup_eq (h : Marking d s done new t) (hnew : ∀ e' ∈ done, e'.1 ≠ name) :
    lookup name t.events = (lookup name s.events).map (Option.map (mark done)) := by
  have hadded : lookup name new = some none := by
    refine lookup_of_ne fun ev hev => ?_
    obtain ⟨e', he', hname, -⟩ := (h.added ev hev).entry
    exact ⟨e'.1, hname, hnew e' he'⟩
  have hmark := lookup_map name (g := mark done) (fun _ => rfl)
  rw [h.events_perm, lookup_append, lookup_append, hmark, hmark, hadded, Sched.events,
    lookup_append]
  cases lookup name s.free with
  | none => rfl
  | some found =>
      cases found with
      | some ev => rfl
      | none =>
          cases lookup name s.busy with
          | none => rfl
          | some found => cases found <;> rfl

end Marking

/-- The loop can go on from this entry. -/
structure Accepts (d : Setup) (s : Sched) (e : Entry) : Prop where
  readable : lookup e.1 s.events ≠ none
  new : e.1 ≠ "shutdown" → lookup e.1 s.events = some none → e.1.length < 24 ∧
    ∃ opt, Config.addRecording d.logToFile d.fresh d.default e.2 = .scheduled opt

theorem Marking.checkEntry_ok_iff (h : Marking d s done new t) (hnew : ∀ e' ∈ done, e'.1 ≠ e.1) :
    (∃ u, t.checkEntry d e = .ok u) ↔ Accepts d s e := by
  have hlookup := h.lookup_eq hnew
  unfold Sched.checkEntry
  cases hs : lookup e.1 s.events with
  | none =>
      rw [hlookup, hs]
      exact iff_of_false (fun ⟨_, hu⟩ => by cases hu) fun haccepts => haccepts.readable hs
  | some found =>
      rw [hlookup, hs]
      cases found with
      | some ev =>
          refine iff_of_true ⟨_, rfl⟩ ⟨by rw [hs]; simp, fun _ hnone => ?_⟩
          rw [hs] at hnone
          cases hnone
      | none =>
          show (∃ u, t.addRecording d e = .ok u) ↔ _
          unfold Sched.addRecording
          by_cases hshutdown : e.1 = "shutdown"
          · rw [if_pos hshutdown]
            exact iff_of_true ⟨_, rfl⟩ ⟨by rw [hs]; simp, fun hne => absurd hshutdown hne⟩
          · rw [if_neg hshutdown]
            by_cases hlength : 24 ≤ e.1.length
            · rw [if_pos hlength]
              refine iff_of_false (fun ⟨_, hu⟩ => by cases hu) fun haccepts => ?_
              exact absurd (haccepts.new hshutdown hs).1 (Nat.not_lt.mpr hlength)
            · rw [if_neg hlength]
              dsimp only
              cases hadd : Config.addRecording d.logToFile d.fresh d.default e.2 with
              | scheduled opt =>
                  exact iff_of_true ⟨_, rfl⟩
                    ⟨by rw [hs]; simp, fun _ _ => ⟨Nat.not_le.mp hlength, opt, hadd⟩⟩
              | refused =>
                  refine iff_of_false (fun ⟨_, hu⟩ => by cases hu) fun haccepts => ?_
                  obtain ⟨-, opt, hopt⟩ := haccepts.new hshutdown hs
                  rw [hadd] at hopt
                  cases hopt
              | crashed reason =>
                  refine iff_of_false (fun ⟨_, hu⟩ => by cases hu) fun haccepts => ?_
                  obtain ⟨-, opt, hopt⟩ := haccepts.new hshutdown hs
                  rw [hadd] at hopt
                  cases hopt

/-! ## The second loop -/

/-- The events that are removed, in this order. -/
def Sched.missing (s : Sched) : List Event := s.events.filter fun ev => !ev.found

/-- What is left and what is removed. -/
structure Swept (t u : Sched) : Prop where
  free : u.free = t.free.filter Event.found
  busy : u.busy = t.busy.filter Event.found
  closed : u.closed = t.closed ++ t.missing.map Event.id
  books : Books u.toLedger u.events
  nScheduled : u.nScheduled = t.nScheduled - t.missing.countP fun ev => ev.status ≠ .running
  nRunning : u.nRunning = t.nRunning - t.missing.countP fun ev => ev.status = .running

/-- Removing the first of the missing events leaves the others. -/
theorem Books.missing_unlink (h : Books t.toLedger t.events)
    (hfind : (t.events.find? fun ev => !ev.found) = some ev) :
    ev ∈ t.events ∧ ev.found = false ∧ t.missing = ev :: (t.unlink ev.id).missing := by
  have hev := List.mem_of_find?_eq_some hfind
  have hfound := List.find?_some hfind
  rw [Bool.not_eq_true'] at hfound
  refine ⟨hev, hfound, ?_⟩
  obtain ⟨rest, hrest⟩ : ∃ rest, t.missing = ev :: rest := by
    rw [← List.head?_filter] at hfind
    exact List.head?_eq_some_iff.mp hfind
  have hnodup : (t.missing.map Event.id).Nodup := h.ids.sublist (List.filter_sublist.map _)
  rw [hrest, List.map_cons, List.nodup_cons] at hnodup
  have hunlink : (t.unlink ev.id).missing = t.missing.filter fun other => other.id ≠ ev.id := by
    rw [Sched.missing, Sched.events_unlink, List.filter_filter, Sched.missing, List.filter_filter]
    exact List.filter_congr fun other _ => Bool.and_comm _ _
  rw [hunlink, hrest, List.filter_cons_of_neg (by simp)]
  congr 1
  refine (List.filter_eq_self.mpr fun other hother => ?_).symm
  rw [decide_eq_true_iff]
  exact fun heq => hnodup.1 (heq ▸ List.mem_map_of_mem hother)

/-- The marked events are still there. -/
theorem Books.found_unlink (h : Books t.toLedger t.events) (hev : ev ∈ t.events)
    (hfound : ev.found = false) (hl : ∀ other ∈ l, other ∈ t.events) :
    (l.filter fun other => other.id ≠ ev.id).filter Event.found = l.filter Event.found := by
  rw [List.filter_filter]
  refine List.filter_congr fun other hother => ?_
  cases hother' : other.found with
  | false => rfl
  | true =>
      rw [Bool.true_and, decide_eq_true_iff]
      rintro hid
      rw [h.eq_of_id (hl other hother) hev hid, hfound] at hother'
      cases hother'

namespace Swept

/-- Nothing is missing. -/
theorem refl (h : Books t.toLedger t.events)
    (hfind : (t.events.find? fun ev => !ev.found) = none) : Swept t t := by
  have hall : ∀ ev ∈ t.events, ev.found = true := by
    intro ev hev
    have hfound := List.find?_eq_none.mp hfind ev hev
    rwa [Bool.not_eq_true, Bool.not_eq_false'] at hfound
  have hmissing : t.missing = [] :=
    List.filter_eq_nil_iff.mpr fun ev hev => by rw [hall ev hev]; simp
  refine ⟨?_, ?_, ?_, h, ?_, ?_⟩
  · exact (List.filter_eq_self.mpr fun ev hev => hall ev (List.mem_append_left _ hev)).symm
  · exact (List.filter_eq_self.mpr fun ev hev => hall ev (List.mem_append_right _ hev)).symm
  · rw [hmissing, List.map_nil, List.append_nil]
  · rw [hmissing, List.countP_nil, Int.natCast_zero, Int.sub_zero]
  · rw [hmissing, List.countP_nil, Int.natCast_zero, Int.sub_zero]

/-- The first missing event is removed. -/
theorem step {t' : Sched} (h : Books t.toLedger t.events)
    (hfind : (t.events.find? fun ev => !ev.found) = some ev) (hremove : t.removeMissing ev = .ok t')
    (hswept : Swept t' u) : Swept t u := by
  obtain ⟨hev, hfound, hmissing⟩ := h.missing_unlink hfind
  obtain ⟨-, p, hfi, -, rfl⟩ := Sched.removeMissing_ok_iff.mp hremove
  obtain ⟨hfree, hbusy, hclosed, hbooks, hscheduled, hrunning⟩ := hswept
  refine ⟨?_, ?_, ?_, hbooks, ?_, ?_⟩
  · exact hfree.trans (h.found_unlink hev hfound fun other => List.mem_append_left _)
  · exact hbusy.trans (h.found_unlink hev hfound fun other => List.mem_append_right _)
  · rw [hclosed, hmissing]
    show t.closed ++ [ev.id] ++ (t.unlink ev.id).missing.map Event.id = _
    rw [List.append_assoc]
    rfl
  · rw [hscheduled, hmissing, List.countP_cons]
    show (if ev.status = .running then t.nScheduled else t.nScheduled - 1) -
      ((t.unlink ev.id).missing.countP fun ev => ev.status ≠ .running : ℕ) = _
    by_cases hstatus : ev.status = .running
    · simp [hstatus]
    · simp [hstatus]
      omega
  · rw [hrunning, hmissing, List.countP_cons]
    show (if ev.status = .running then t.nRunning - 1 else t.nRunning) -
      ((t.unlink ev.id).missing.countP fun ev => ev.status = .running : ℕ) = _
    by_cases hstatus : ev.status = .running
    · simp [hstatus]
      omega
    · simp [hstatus]

end Swept

/-- A missing event can be removed. -/
theorem Books.removeMissing_ok_iff (h : Books t.toLedger t.events) (hev : ev ∈ t.events) :
    (∃ t', t.removeMissing ev = .ok t') ↔ ev.idstring ≠ none ∧ ev.fi ≠ none := by
  constructor
  · rintro ⟨t', ht'⟩
    obtain ⟨hname, p, hfi, -⟩ := Sched.removeMissing_ok_iff.mp ht'
    exact ⟨hname, by rw [hfi]; simp⟩
  · rintro ⟨hname, hfi⟩
    obtain ⟨p, hp⟩ := Option.ne_none_iff_exists'.mp hfi
    exact ⟨_, Sched.removeMissing_ok_iff.mpr
      ⟨hname, p, hp, (h.unlink hev).associations_pos hp, rfl⟩⟩

/-- **The second loop** removes what is not marked. -/
theorem Books.sweep (h : Books t.toLedger t.events) (hu : t.sweep = .ok u) : Swept t u := by
  generalize hn : t.events.length = n
  induction n using Nat.strongRecOn generalizing t with
  | ind n ih =>
      cases hfind : t.events.find? fun ev => !ev.found with
      | none =>
          rw [Sched.sweep_of_none hfind] at hu
          cases hu
          exact .refl h hfind
      | some ev =>
          rw [Sched.sweep_of_some hfind] at hu
          cases hremove : t.removeMissing ev with
          | error t' =>
              rw [hremove] at hu
              cases hu
          | ok t' =>
              rw [hremove] at hu
              have hlt := Sched.removeMissing_length hfind hremove
              have hbooks : Books t'.toLedger t'.events := by
                obtain ⟨-, p, hfi, -, rfl⟩ := Sched.removeMissing_ok_iff.mp hremove
                exact (h.unlink (h.missing_unlink hfind).1).close hfi
              exact .step h hfind hremove (ih _ (hn ▸ hlt) hbooks hu rfl)

/-- The second loop comes to its end if every missing event can be removed. -/
theorem Books.sweep_ok_iff (h : Books t.toLedger t.events) :
    (∃ u, t.sweep = .ok u) ↔ ∀ ev ∈ t.missing, ev.idstring ≠ none ∧ ev.fi ≠ none := by
  generalize hn : t.events.length = n
  induction n using Nat.strongRecOn generalizing t with
  | ind n ih =>
      cases hfind : t.events.find? fun ev => !ev.found with
      | none =>
          rw [Sched.sweep_of_none hfind]
          refine iff_of_true ⟨t, rfl⟩ fun ev hev => ?_
          obtain ⟨hev, hfound⟩ := List.mem_filter.mp hev
          exact absurd hfound (List.find?_eq_none.mp hfind ev hev)
      | some ev =>
          obtain ⟨hev, -, hmissing⟩ := h.missing_unlink hfind
          rw [Sched.sweep_of_some hfind, hmissing, List.forall_mem_cons,
            ← h.removeMissing_ok_iff hev]
          cases hremove : t.removeMissing ev with
          | error t' =>
              exact iff_of_false (fun ⟨_, hu⟩ => by cases hu) fun ⟨⟨_, hu⟩, _⟩ => by cases hu
          | ok t' =>
              have hlt := Sched.removeMissing_length hfind hremove
              obtain ⟨-, p, hfi, -, rfl⟩ := Sched.removeMissing_ok_iff.mp hremove
              have hrest := ih _ (hn ▸ hlt) ((h.unlink hev).close hfi) rfl
              refine Iff.trans ?_ (and_iff_right ⟨_, rfl⟩).symm
              exact hrest

/-- The rule for the second loop. -/
theorem Sched.sweep_meets {I failed : Sched → Prop} (hstep : ∀ s ev, I s →
      (s.events.find? fun ev => !ev.found) = some ev → Meets I failed (s.removeMissing ev))
    (h : I t) : Meets I failed t.sweep := by
  generalize hn : t.events.length = n
  induction n using Nat.strongRecOn generalizing t with
  | ind n ih =>
      cases hfind : t.events.find? fun ev => !ev.found with
      | none =>
          rw [Sched.sweep_of_none hfind]
          exact h
      | some ev =>
          rw [Sched.sweep_of_some hfind]
          have hone := hstep t ev h hfind
          cases hremove : t.removeMissing ev with
          | error t' => exact hone.of_error hremove
          | ok t' =>
              have hlt := Sched.removeMissing_length hfind hremove
              exact ih _ (hn ▸ hlt) (hone.of_ok hremove) rfl

/-! ## Both loops -/

/-- The event is not removed. -/
def stays (file : List Entry) (ev : Event) : Bool := ev.found || named file ev

/-- `ev->found = 0` -/
def unmark (ev : Event) : Event := { ev with found := false }

/-- The events that are removed. -/
def Sched.gone (s : Sched) (file : List Entry) : List Event :=
  s.events.filter fun ev => !stays file ev

/-- What `check_schedule` comes to, with the events `new`. -/
structure Checked (d : Setup) (s : Sched) (file : List Entry) (new : List Event) (t : Sched) :
    Prop where
  free : t.free = (s.free.filter (stays file)).map unmark ++ new.map unmark
  busy : t.busy = (s.busy.filter (stays file)).map unmark
  closed : t.closed = s.closed ++ (s.gone file).map Event.id
  books : Books t.toLedger t.events
  nScheduled : t.nScheduled = s.nScheduled + new.length -
    (s.gone file).countP fun ev => ev.status ≠ .running
  nRunning : t.nRunning = s.nRunning - (s.gone file).countP fun ev => ev.status = .running
  added : ∀ ev ∈ new, Added d s file ev
  named : ∀ e ∈ file, e.1 ≠ "shutdown" → ∃ ev ∈ t.events, ev.idstring = some e.1

theorem filter_found_map (l : List Event) :
    (l.map (mark file)).filter Event.found = (l.filter (stays file)).map (mark file) := by
  rw [List.filter_map]
  rfl

theorem unmark_mark (l : List Event) : (l.map (mark file)).map unmark = l.map unmark := by
  rw [List.map_map]
  rfl

/-- What is missing after the first loop. -/
theorem Marking.missing (h : Marking d s file new t) :
    t.missing = (s.gone file).map (mark file) := by
  have hnew : new.filter (fun ev => !ev.found) = [] :=
    List.filter_eq_nil_iff.mpr fun ev hev => by rw [(h.added ev hev).found]; simp
  rw [Sched.missing, h.events_perm, List.filter_append, List.filter_append, hnew, List.append_nil,
    List.filter_map, List.filter_map, ← List.map_append, ← List.filter_append]
  rfl

/-- The event of an entry is marked. -/
theorem Marking.found_of_named (h : Marking d s file new t) (he : e ∈ file) (hev : ev ∈ t.events)
    (hname : ev.idstring = some e.1) : ev.found = true := by
  have hmark : ∀ old : Event, (mark file old).idstring = some e.1 →
      (mark file old).found = true := by
    intro old hold
    have hnamed : VlbiStreamer.Scheduler.named file old = true :=
      List.any_eq_true.mpr ⟨e, he, decide_eq_true hold⟩
    rw [mark, hnamed, Bool.or_true]
  rw [h.events_perm] at hev
  rcases List.mem_append.mp hev with hev | hev
  · rcases List.mem_append.mp hev with hev | hev
    · obtain ⟨old, -, rfl⟩ := List.mem_map.mp hev
      exact hmark old hname
    · exact (h.added ev hev).found
  · obtain ⟨old, -, rfl⟩ := List.mem_map.mp hev
    exact hmark old hname

theorem Marking.checked (h : Marking d s file new t) (hswept : Swept t u) :
    Checked d s file new u.zerofound := by
  have hnew : new.filter Event.found = new :=
    List.filter_eq_self.mpr fun ev hev => (h.added ev hev).found
  have hmissing := h.missing
  refine ⟨?_, ?_, ?_, ?_, ?_, ?_, h.added, ?_⟩
  · show u.free.map unmark = _
    rw [hswept.free, h.free, List.filter_append, hnew, filter_found_map, List.map_append,
      unmark_mark]
  · show u.busy.map unmark = _
    rw [hswept.busy, h.busy, filter_found_map, unmark_mark]
  · show u.closed = _
    have hclosed : t.closed = s.closed := by rw [h.ledger]
    rw [hswept.closed, hmissing, List.map_map, hclosed]
    rfl
  · show Books u.toLedger (u.free.map unmark ++ u.busy.map unmark)
    rw [← List.map_append]
    exact hswept.books.map (fun _ => rfl) (fun _ => rfl) fun _ => rfl
  · show u.nScheduled = _
    rw [hswept.nScheduled, hmissing, List.countP_map, h.nScheduled]
    rfl
  · show u.nRunning = _
    rw [hswept.nRunning, hmissing, List.countP_map, h.nRunning]
    rfl
  · intro e he hne
    obtain ⟨ev, hev, hname⟩ := h.named e he hne
    have hfound := h.found_of_named he hev hname
    refine ⟨unmark ev, ?_, hname⟩
    show unmark ev ∈ u.free.map unmark ++ u.busy.map unmark
    rw [hswept.free, hswept.busy, ← List.map_append, ← List.filter_append]
    exact List.mem_map_of_mem (List.mem_filter.mpr ⟨hev, hfound⟩)

/-- The first loop, however it ends. -/
theorem Books.checkEntries (h : Books s.toLedger s.events)
    (ht : file.foldlM (Sched.checkEntry d) s = .ok t) : ∃ new, Marking d s file new t := by
  have hloop : Meets (fun t => ∃ new, Marking d s file new t) (fun _ => True)
      (file.foldlM (Sched.checkEntry d) s) :=
    Meets.foldlM (I := fun done _ t => ∃ new, Marking d s done new t)
      (fun done e _ t ⟨new, hmarking⟩ =>
        hmarking.checkEntry (e := e) trivial fun _ _ _ _ _ => trivial)
      (b := []) ⟨[], Marking.start h⟩
  exact hloop.of_ok ht

/-- **`check_schedule`**, where it comes to its end. -/
theorem Books.checkSchedule (h : Books s.toLedger s.events) (ht : s.checkSchedule d file = .ok t) :
    ∃ new, Checked d s file new t := by
  unfold Sched.checkSchedule at ht
  cases hloop : file.foldlM (Sched.checkEntry d) s with
  | error t' =>
      rw [hloop] at ht
      cases ht
  | ok t' =>
      obtain ⟨new, hmarking⟩ := h.checkEntries hloop
      rw [hloop] at ht
      cases hsweep : t'.sweep with
      | error u =>
          change (t'.sweep >>= _) = _ at ht
          rw [hsweep] at ht
          cases ht
      | ok u =>
          change (t'.sweep >>= _) = _ at ht
          rw [hsweep] at ht
          cases ht
          exact ⟨new, hmarking.checked (hmarking.books.sweep hsweep)⟩

end VlbiStreamer.Scheduler
