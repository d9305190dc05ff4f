import VlbiStreamer.Scheduler.Server
import Mathlib.Data.List.Nodup

/-!
# The books of the scheduler

What the histories and the association counts of the file indices have to do with the
events that are on the lists: `Books s l`, where `l` are these events in any order.  Each
operation on an event has a lemma here, and `books_of_reachable` is about the states
between the calls.
-/

namespace VlbiStreamer.Scheduler

open Config

variable {b : Ledger} {s t : Sched} {l l' : List Event} {ev ev' : Event} {env : Env} {p : ℕ}
  {started : Bool}

/-- The histories and counts agree with the events. -/
structure Books (s : Ledger) (l : List Event) : Prop where
  ids : (l.map Event.id).Nodup
  below : ∀ ev ∈ l, ev.id < s.next
  names : (l.filterMap Event.idstring).Nodup
  allowed : ∀ ev ∈ l, ev.idstring ≠ some "shutdown"
  holds : ∀ ev ∈ l, ev.fi ≠ none ↔ ev.id ∈ s.associated
  counts : ∀ p, s.associations p = l.countP fun ev => ev.fi = some p
  closed_nodup : s.closed.Nodup
  closed : ∀ id ∈ s.closed, id ∈ s.associated ∧ ∀ ev ∈ l, ev.id ≠ id
  associated : ∀ id ∈ s.associated, id < s.next
  /-- No event that got an index is lost. -/
  kept : ∀ id ∈ s.associated, id ∈ s.closed ∨ ∃ ev ∈ l, ev.id = id
  /-- An event of the local socket has no index. -/
  sockets : ∀ ev ∈ l, ev.idstring = none → ev.fi = none
  calls : s.calls.map Disassociation.event = s.closed
  live : ∀ c ∈ s.calls, c.fi ≠ none ∧ c.live = true

namespace Books

theorem init : Books init.toLedger [] where
  ids := List.nodup_nil
  below := fun _ hev => absurd hev List.not_mem_nil
  names := List.nodup_nil
  allowed := fun _ hev => absurd hev List.not_mem_nil
  holds := fun _ hev => absurd hev List.not_mem_nil
  counts := fun _ => rfl
  closed_nodup := List.nodup_nil
  closed := fun _ hid => absurd hid List.not_mem_nil
  associated := fun _ hid => absurd hid List.not_mem_nil
  kept := fun _ hid => absurd hid List.not_mem_nil
  sockets := fun _ hev => absurd hev List.not_mem_nil
  calls := rfl
  live := fun _ hc => absurd hc List.not_mem_nil

/-- The order of the events does not matter. -/
theorem perm (h : Books b l) (hp : l.Perm l') : Books b l' where
  ids := (hp.map _).nodup_iff.mp h.ids
  below := fun ev hev => h.below ev (hp.mem_iff.mpr hev)
  names := (hp.filterMap _).nodup_iff.mp h.names
  allowed := fun ev hev => h.allowed ev (hp.mem_iff.mpr hev)
  holds := fun ev hev => h.holds ev (hp.mem_iff.mpr hev)
  counts := fun p => (h.counts p).trans (hp.countP_eq _)
  closed_nodup := h.closed_nodup
  closed := fun id hid => ⟨(h.closed id hid).1, fun ev hev =>
    (h.closed id hid).2 ev (hp.mem_iff.mpr hev)⟩
  associated := h.associated
  kept := fun id hid => (h.kept id hid).imp_right fun ⟨ev, hev, heq⟩ =>
    ⟨ev, hp.mem_iff.mp hev, heq⟩
  sockets := fun ev hev => h.sockets ev (hp.mem_iff.mpr hev)
  calls := h.calls
  live := h.live

/-- The other fields of the events do not matter. -/
theorem map (h : Books b l) {g : Event → Event} (hid : ∀ ev, (g ev).id = ev.id)
    (hname : ∀ ev, (g ev).idstring = ev.idstring) (hfi : ∀ ev, (g ev).fi = ev.fi) :
    Books b (l.map g) where
  ids := by
    rw [List.map_map, show Event.id ∘ g = Event.id from funext hid]
    exact h.ids
  below := by
    intro other hother
    obtain ⟨ev, hev, rfl⟩ := List.mem_map.mp hother
    rw [hid]
    exact h.below ev hev
  names := by
    rw [List.filterMap_map, show Event.idstring ∘ g = Event.idstring from funext hname]
    exact h.names
  allowed := by
    intro other hother
    obtain ⟨ev, hev, rfl⟩ := List.mem_map.mp hother
    rw [hname]
    exact h.allowed ev hev
  holds := by
    intro other hother
    obtain ⟨ev, hev, rfl⟩ := List.mem_map.mp hother
    rw [hfi, hid]
    exact h.holds ev hev
  counts := fun p => by
    rw [List.countP_map, h.counts]
    congr 1
    funext ev
    show decide (ev.fi = some p) = decide ((g ev).fi = some p)
    rw [hfi]
  closed_nodup := h.closed_nodup
  closed := fun id hid' => by
    refine ⟨(h.closed id hid').1, ?_⟩
    intro other hother
    obtain ⟨ev, hev, rfl⟩ := List.mem_map.mp hother
    rw [hid]
    exact (h.closed id hid').2 ev hev
  associated := h.associated
  kept := fun id hassoc => (h.kept id hassoc).imp_right fun ⟨ev, hev, heq⟩ =>
    ⟨g ev, List.mem_map_of_mem hev, (hid ev).trans heq⟩
  sockets := by
    intro other hother
    obtain ⟨ev, hev, rfl⟩ := List.mem_map.mp hother
    rw [hname, hfi]
    exact h.sockets ev hev
  calls := h.calls
  live := h.live

/-- A new event. -/
theorem add (h : Books b l) (hid : ev.id = b.next) (hfi : ev.fi = none)
    (hname : ∀ name, ev.idstring = some name →
      name ≠ "shutdown" ∧ ∀ other ∈ l, other.idstring ≠ some name) :
    Books { b with next := b.next + 1 } (ev :: l) where
  ids := by
    rw [List.map_cons, List.nodup_cons]
    refine ⟨fun hmem => ?_, h.ids⟩
    obtain ⟨other, hother, heq⟩ := List.mem_map.mp hmem
    have hlt := h.below other hother
    rw [heq, hid] at hlt
    exact Nat.lt_irrefl _ hlt
  below := by
    intro other hother
    rcases List.mem_cons.mp hother with rfl | hother
    · exact hid ▸ Nat.lt_succ_self _
    · exact Nat.lt_succ_of_lt (h.below other hother)
  names := by
    cases hidstring : ev.idstring with
    | none =>
        rw [List.filterMap_cons_none hidstring]
        exact h.names
    | some name =>
        rw [List.filterMap_cons_some hidstring, List.nodup_cons]
        refine ⟨fun hmem => ?_, h.names⟩
        obtain ⟨other, hother, heq⟩ := List.mem_filterMap.mp hmem
        exact (hname name hidstring).2 other hother heq
  allowed := by
    intro other hother
    rcases List.mem_cons.mp hother with rfl | hother
    · exact fun heq => (hname _ heq).1 rfl
    · exact h.allowed other hother
  holds := by
    intro other hother
    rcases List.mem_cons.mp hother with rfl | hother
    · refine iff_of_false (fun hne => hne hfi) fun hmem => ?_
      have hlt := h.associated _ hmem
      rw [hid] at hlt
      exact Nat.lt_irrefl _ hlt
    · exact h.holds other hother
  counts := fun p => by
    rw [List.countP_cons_of_neg (by rw [hfi]; simp)]
    exact h.counts p
  closed_nodup := h.closed_nodup
  closed := fun id hclosed => by
    refine ⟨(h.closed id hclosed).1, fun other hother => ?_⟩
    rcases List.mem_cons.mp hother with rfl | hother
    · rintro rfl
      have hlt := h.associated _ (h.closed _ hclosed).1
      rw [hid] at hlt
      exact Nat.lt_irrefl _ hlt
    · exact (h.closed id hclosed).2 other hother
  associated := fun id hassoc => Nat.lt_succ_of_lt (h.associated id hassoc)
  kept := fun id hassoc => (h.kept id hassoc).imp_right fun ⟨other, hother, heq⟩ =>
    ⟨other, List.mem_cons_of_mem _ hother, heq⟩
  sockets := by
    intro other hother hnone
    rcases List.mem_cons.mp hother with rfl | hother
    · exact hfi
    · exact h.sockets other hother hnone
  calls := h.calls
  live := h.live

/-- The association of an event is counted. -/
theorem associations_pos (h : Books b (ev :: l)) (hfi : ev.fi = some p) : 0 < b.associations p := by
  rw [h.counts, List.countP_cons_of_pos (by rw [hfi]; simp)]
  exact Nat.succ_pos _

/-- An event with an index is closed. -/
theorem close (h : Books b (ev :: l)) (hfi : ev.fi = some p) : Books (b.closing ev p) l where
  ids := (List.nodup_cons.mp h.ids).2
  below := fun other hother => h.below other (List.mem_cons_of_mem _ hother)
  names := h.names.sublist (List.Sublist.filterMap _ (List.sublist_cons_self ev l))
  allowed := fun other hother => h.allowed other (List.mem_cons_of_mem _ hother)
  holds := fun other hother => h.holds other (List.mem_cons_of_mem _ hother)
  counts := fun q => by
    have hcount := h.counts q
    show Function.update b.associations p (b.associations p - 1) q = _
    by_cases heq : q = p
    · subst heq
      rw [Function.update_self, hcount, List.countP_cons_of_pos (by rw [hfi]; simp),
        Nat.add_sub_cancel]
    · rw [Function.update_of_ne heq, hcount, List.countP_cons_of_neg]
      rw [hfi, decide_eq_true_iff]
      exact fun hsome => heq (Option.some.inj hsome).symm
  closed_nodup := by
    show (b.closed ++ [ev.id]).Nodup
    rw [List.nodup_append]
    refine ⟨h.closed_nodup, List.nodup_singleton _, fun id hid other hother heq => ?_⟩
    rw [List.mem_singleton.mp hother] at heq
    exact (h.closed id hid).2 ev List.mem_cons_self heq.symm
  closed := fun id hid => by
    rcases List.mem_append.mp hid with hid | hid
    · exact ⟨(h.closed id hid).1, fun other hother =>
        (h.closed id hid).2 other (List.mem_cons_of_mem _ hother)⟩
    · rw [List.mem_singleton.mp hid]
      refine ⟨(h.holds ev List.mem_cons_self).mp (by rw [hfi]; simp), fun other hother heq => ?_⟩
      exact (List.nodup_cons.mp h.ids).1 (heq ▸ List.mem_map_of_mem hother)
  associated := h.associated
  kept := fun id hassoc => by
    show id ∈ b.closed ++ [ev.id] ∨ _
    rcases h.kept id hassoc with hclosed | ⟨other, hother, heq⟩
    · exact .inl (List.mem_append_left _ hclosed)
    · rcases List.mem_cons.mp hother with rfl | hother
      · exact .inl (List.mem_append_right _ (List.mem_singleton.mpr heq.symm))
      · exact .inr ⟨other, hother, heq⟩
  sockets := fun other hother => h.sockets other (List.mem_cons_of_mem _ hother)
  calls := by
    show (b.calls ++ [_]).map Disassociation.event = b.closed ++ [ev.id]
    rw [List.map_append, h.calls]
    rfl
  live := fun c hc => by
    rcases List.mem_append.mp hc with hc | hc
    · exact h.live c hc
    · rw [List.mem_singleton.mp hc]
      exact ⟨by simp, rfl⟩

/-- Another field of an event is set. -/
theorem replace (h : Books b (ev :: l)) (hid : ev'.id = ev.id) (hname : ev'.idstring = ev.idstring)
    (hfi : ev'.fi = ev.fi) : Books b (ev' :: l) where
  ids := by
    rw [List.map_cons, hid]
    exact h.ids
  below := by
    intro other hother
    rcases List.mem_cons.mp hother with rfl | hother
    · exact hid ▸ h.below ev List.mem_cons_self
    · exact h.below other (List.mem_cons_of_mem _ hother)
  names := by
    have hnames := h.names
    rw [List.filterMap_cons] at hnames ⊢
    rw [hname]
    exact hnames
  allowed := by
    intro other hother
    rcases List.mem_cons.mp hother with rfl | hother
    · exact hname ▸ h.allowed ev List.mem_cons_self
    · exact h.allowed other (List.mem_cons_of_mem _ hother)
  holds := by
    intro other hother
    rcases List.mem_cons.mp hother with rfl | hother
    · rw [hfi, hid]
      exact h.holds ev List.mem_cons_self
    · exact h.holds other (List.mem_cons_of_mem _ hother)
  counts := fun p => by
    rw [h.counts, List.countP_cons, List.countP_cons, hfi]
  closed_nodup := h.closed_nodup
  closed := fun id hclosed => by
    refine ⟨(h.closed id hclosed).1, fun other hother => ?_⟩
    rcases List.mem_cons.mp hother with rfl | hother
    · exact hid ▸ (h.closed id hclosed).2 ev List.mem_cons_self
    · exact (h.closed id hclosed).2 other (List.mem_cons_of_mem _ hother)
  associated := h.associated
  kept := fun id hassoc => (h.kept id hassoc).imp_right fun ⟨other, hother, heq⟩ => by
    rcases List.mem_cons.mp hother with rfl | hother
    · exact ⟨ev', List.mem_cons_self, hid.trans heq⟩
    · exact ⟨other, List.mem_cons_of_mem _ hother, heq⟩
  sockets := by
    intro other hother
    rcases List.mem_cons.mp hother with rfl | hother
    · rw [hname, hfi]
      exact h.sockets ev List.mem_cons_self
    · exact h.sockets other (List.mem_cons_of_mem _ hother)
  calls := h.calls
  live := h.live

/-- An event gets an index. -/
theorem associate (h : Books b (ev :: l)) (hnone : ev.fi = none) (hid : ev'.id = ev.id)
    (hname : ev'.idstring = ev.idstring) (hfi : ev'.fi = some p) (hsocket : ev.idstring ≠ none) :
    Books (b.associating p ev.id) (ev' :: l) where
  ids := by
    rw [List.map_cons, hid]
    exact h.ids
  below := by
    intro other hother
    rcases List.mem_cons.mp hother with rfl | hother
    · exact hid ▸ h.below ev List.mem_cons_self
    · exact h.below other (List.mem_cons_of_mem _ hother)
  names := by
    have hnames := h.names
    rw [List.filterMap_cons] at hnames ⊢
    rw [hname]
    exact hnames
  allowed := by
    intro other hother
    rcases List.mem_cons.mp hother with rfl | hother
    · exact hname ▸ h.allowed ev List.mem_cons_self
    · exact h.allowed other (List.mem_cons_of_mem _ hother)
  holds := by
    intro other hother
    show _ ↔ other.id ∈ b.associated ++ [ev.id]
    rw [List.mem_append, List.mem_singleton]
    rcases List.mem_cons.mp hother with rfl | hother
    · exact iff_of_true (by rw [hfi]; simp) (.inr hid)
    · rw [h.holds other (List.mem_cons_of_mem _ hother)]
      refine (or_iff_left fun heq => ?_).symm
      exact (List.nodup_cons.mp h.ids).1 (heq ▸ List.mem_map_of_mem hother)
  counts := fun q => by
    have hcount := h.counts q
    rw [List.countP_cons_of_neg (by rw [hnone]; simp)] at hcount
    show Function.update b.associations p (b.associations p + 1) q = _
    by_cases heq : q = p
    · subst heq
      rw [Function.update_self, hcount, List.countP_cons_of_pos (by rw [hfi]; simp)]
    · rw [Function.update_of_ne heq, hcount, List.countP_cons_of_neg]
      rw [hfi, decide_eq_true_iff]
      exact fun hsome => heq (Option.some.inj hsome).symm
  closed_nodup := h.closed_nodup
  closed := fun id hclosed => by
    refine ⟨List.mem_append_left _ (h.closed id hclosed).1, fun other hother => ?_⟩
    rcases List.mem_cons.mp hother with rfl | hother
    · exact hid ▸ (h.closed id hclosed).2 ev List.mem_cons_self
    · exact (h.closed id hclosed).2 other (List.mem_cons_of_mem _ hother)
  associated := fun id hassoc => by
    rcases List.mem_append.mp hassoc with hassoc | hassoc
    · exact h.associated id hassoc
    · rw [List.mem_singleton.mp hassoc]
      exact h.below ev List.mem_cons_self
  kept := fun id hassoc => by
    rcases List.mem_append.mp hassoc with hassoc | hassoc
    · refine (h.kept id hassoc).imp_right fun ⟨other, hother, heq⟩ => ?_
      rcases List.mem_cons.mp hother with rfl | hother
      · exact ⟨ev', List.mem_cons_self, hid.trans heq⟩
      · exact ⟨other, List.mem_cons_of_mem _ hother, heq⟩
    · exact .inr ⟨ev', List.mem_cons_self, hid.trans (List.mem_singleton.mp hassoc).symm⟩
  sockets := by
    intro other hother hnone'
    rcases List.mem_cons.mp hother with rfl | hother
    · exact absurd (hname ▸ hnone') hsocket
    · exact h.sockets other (List.mem_cons_of_mem _ hother) hnone'
  calls := h.calls
  live := h.live

/-- An event is known by its address. -/
theorem eq_of_id (h : Books b l) (hev : ev ∈ l) (hev' : ev' ∈ l) (hid : ev.id = ev'.id) :
    ev = ev' :=
  List.inj_on_of_nodup_map h.ids hev hev' hid

/-- An event is known by its name. -/
theorem eq_of_name (h : Books b l) {name : String} (hev : ev ∈ l) (hev' : ev' ∈ l)
    (hname : ev.idstring = some name) (hname' : ev'.idstring = some name) : ev = ev' := by
  have hnames := h.names
  clear h
  induction l with
  | nil => cases hev
  | cons other l ih =>
      have hfirst : ∀ x ∈ l, other.idstring = some name → x.idstring ≠ some name := by
        intro x hx hother heq
        rw [List.filterMap_cons_some hother, List.nodup_cons] at hnames
        exact hnames.1 (List.mem_filterMap.mpr ⟨x, hx, heq⟩)
      rcases List.mem_cons.mp hev with rfl | hmem
      · rcases List.mem_cons.mp hev' with rfl | hmem'
        · rfl
        · exact absurd hname' (hfirst _ hmem' hname)
      · rcases List.mem_cons.mp hev' with rfl | hmem'
        · exact absurd hname (hfirst _ hmem hname')
        · exact ih hmem hmem'
            (hnames.sublist (List.Sublist.filterMap _ (List.sublist_cons_self _ l)))

end Books

/-! ## The lists -/

/-- An event is the only one with its address. -/
theorem perm_cons_filter (hids : (l.map Event.id).Nodup) (hev : ev ∈ l) :
    l.Perm (ev :: l.filter fun other => other.id ≠ ev.id) := by
  induction l with
  | nil => cases hev
  | cons other l ih =>
      rw [List.map_cons, List.nodup_cons] at hids
      rcases List.mem_cons.mp hev with rfl | hev
      · have hrest : (l.filter fun other => other.id ≠ ev.id) = l := by
          rw [List.filter_eq_self]
          intro other hother
          rw [decide_eq_true_iff]
          exact fun heq => hids.1 (heq ▸ List.mem_map_of_mem hother)
        rw [List.filter_cons_of_neg (by simp), hrest]
      · have hne : other.id ≠ ev.id := fun heq => hids.1 (heq ▸ List.mem_map_of_mem hev)
        rw [List.filter_cons_of_pos (by simpa using hne)]
        exact ((ih hids.2 hev).cons other).trans (.swap ev other _)

theorem Books.unlink (h : Books s.toLedger s.events) (hev : ev ∈ s.events) :
    Books s.toLedger (ev :: (s.unlink ev.id).events) := by
  rw [Sched.events_unlink]
  exact h.perm (perm_cons_filter h.ids hev)

/-- An event is removed. -/
theorem Books.removeFromBranch (h : Books s.toLedger s.events) (hev : ev ∈ s.events)
    (hremove : s.removeFromBranch ev = .ok t) : Books t.toLedger t.events := by
  obtain ⟨-, p, hfi, -, rfl⟩ := Sched.removeFromBranch_ok_iff.mp hremove
  exact (h.unlink hev).close hfi

/-- An event on the free list, or what `start_scheduled` makes of it, is started. -/
theorem Books.startEvent {last : Event} (h : Books s.toLedger s.events) (hev : ev' ∈ s.events)
    (hsame : ev.id = ev'.id ∧ ev.idstring = ev'.idstring ∧ ev.fi = none) (hnone : ev'.fi = none)
    (hsocket : ev.idstring = none → getsIndex env ev.opt = false)
    (hstart : s.startEvent env p ev = some (started, last, t)) :
    Books t.toLedger (last :: (s.unlink ev.id).events) := by
  obtain ⟨hstarted, ht⟩ := Sched.startEvent_cases hstart
  have hunlink := h.unlink hev
  have hid := hstarted.id.trans hsame.1
  have hname := hstarted.idstring.trans hsame.2.1
  have hfi := hstarted.fi
  rw [hsame.1]
  split_ifs at ht hfi with hindex
  · rw [ht, hsame.1]
    refine hunlink.associate hnone hid hname hfi fun hnone => ?_
    rw [hsocket (hsame.2.1.trans hnone)] at hindex
    cases hindex
  · rw [ht]
    exact hunlink.replace hid hname (by rw [hfi, hsame.2.2, hnone])

/-- It is launched. -/
theorem Books.launch (h : Books s.toLedger s.events) (hev : ev' ∈ s.events)
    (hsame : ev.id = ev'.id ∧ ev.idstring = ev'.idstring ∧ ev.fi = none) (hnone : ev'.fi = none)
    (hsocket : ev.idstring = none → getsIndex env ev.opt = false)
    (hlaunch : s.launch env p ev = .ok t) : Books t.toLedger t.events := by
  obtain ⟨last, started, s', hstart, hcases⟩ := Sched.launch_cases hlaunch
  have hbooks := h.startEvent hev hsame hnone hsocket hstart
  obtain ⟨hstarted, hs'⟩ := Sched.startEvent_cases hstart
  have hlists : (s'.unlink ev.id).events = (s.unlink ev.id).events := by
    rw [hs']
    split_ifs <;> rfl
  rcases hcases with ⟨-, rfl⟩ | ⟨-, hremove⟩
  · apply hbooks.perm
    show (last :: (s.unlink ev.id).events).Perm
      ((s'.unlink ev.id).free ++ ((s'.unlink ev.id).busy ++ [last]))
    rw [← hlists, ← List.append_assoc]
    exact @List.perm_append_comm _ [last] _
  · obtain ⟨-, q, hq, -, rfl⟩ := Sched.removeFromBranch_ok_iff.mp hremove
    rw [hstarted.id]
    show Books _ (s'.unlink ev.id).events
    rw [hlists]
    exact hbooks.close hq

end VlbiStreamer.Scheduler
