import VlbiStreamer.Recorder.SpliceHandshake

/-!
# The end of the splice writer

`tosplice` keeps the size of the last job.  Told to end, the partner leaves its wait, takes
that job once more and waits for bytes that nobody will send: `splice_close` only returns
if the last buffer was empty or none was written (`closes_iff`).

A partner that fails tells nobody.  A writer that waits for it is not woken
(`failure_unnoticed`), and a call behind the failure returns with the mutex locked, so no
later call gets past it (`locked_after_failure`).
-/

namespace VlbiStreamer.Recorder

open Library

namespace SplicePipe

variable {p : SplicePipe} {s t : SpliceState} {a : SpliceAction}

/-! ## Closing -/

/-- `splice_close` can return, without a call that fails. -/
def CanClose (p : SplicePipe) (s : SpliceState) : Prop :=
  ∃ as t, (∀ a ∈ as, SpliceAction.Succeeds a) ∧ System.runFrom p.next s as = some t ∧
    t.writer = .closed

/-- However the threads go on, `splice_close` returns, in a bounded number of steps. -/
def Closes (p : SplicePipe) (s : SpliceState) : Prop :=
  System.Completes p.next SpliceAction.Works (fun t => t.writer = .closed) s

theorem Closes.canClose (h : p.Closes s) : p.CanClose s := by
  obtain ⟨as, t, has, hrun, hclosed⟩ := System.Completes.exists_done h
  exact ⟨as, t, fun a ha => SpliceState.succeeds_of_works (has a ha), hrun, hclosed⟩

/-- The partner leaves, or has left, without a job. -/
structure Ending (s : SpliceState) : Prop where
  pstatus : s.pstatus = .ended
  locked : s.locked = false
  writer : s.writer = .joining ∨ (s.writer = .closed ∧ s.partner = .returned)
  partner : s.partner = .start ∨ (s.partner = .woken ∧ s.tosplice = 0) ∨
    s.partner = .finishing ∨ s.partner = .returned

/-- The steps that are left until `splice_close` returns. -/
def closingLeft (s : SpliceState) : ℕ :=
  match s.writer, s.partner with
  | .joining, .woken => 3
  | .joining, .start | .joining, .finishing => 2
  | .joining, .returned => 1
  | _, _ => 0

theorem Ending.joining (h : Ending s) (hq : s.partner ≠ .returned) : s.writer = .joining :=
  h.writer.resolve_right fun hclosed => hq hclosed.2

theorem Ending.returns (h : Ending s) (hq : s.partner = .start ∨ s.partner = .finishing) :
    Ending { s with partner := .returned } ∧
      closingLeft { s with partner := .returned } < closingLeft s := by
  have hjoining : s.writer = .joining := h.joining (by obtain hq | hq := hq <;> simp [hq])
  constructor
  · exact ⟨h.pstatus, h.locked, .inl hjoining, .inr (.inr (.inr rfl))⟩
  · obtain hq | hq := hq <;> simp [closingLeft, hjoining, hq]

theorem Ending.step (h : Ending s) (ha : a.Works) (hstep : p.next s a = some t) :
    Ending t ∧ closingLeft t < closingLeft s := by
  have hpartner := h.partner
  cases a with
  | call | close | writerWakes | partnerWakes | refill | vmspliceFails | spliceFails =>
      exact ha.elim
  | join =>
      obtain ⟨⟨hw, hq⟩, rfl⟩ := Option.ite_some_none_eq_some.mp hstep
      constructor
      · exact ⟨h.pstatus, h.locked, .inr ⟨rfl, hq⟩, h.partner⟩
      · simp [closingLeft, hw, hq]
  | partnerStart =>
      obtain ⟨⟨hq, -⟩, rfl⟩ := Option.ite_some_none_eq_some.mp hstep
      rw [SpliceState.partnerTop_ended h.pstatus]
      exact h.returns (.inl hq)
  | partnerRecheck =>
      obtain ⟨⟨hq, -⟩, rfl⟩ := Option.ite_some_none_eq_some.mp hstep
      have hjoining := h.joining (by simp [hq])
      have hnone : s.tosplice = 0 := by simpa [hq] using hpartner
      rw [SpliceState.takeJob_of_ne (by simp [h.pstatus]), hnone]
      constructor
      · exact ⟨h.pstatus, h.locked, .inl hjoining, .inr (.inr (.inl rfl))⟩
      · simp [closingLeft, hjoining, hq]
  | partnerFinish =>
      obtain ⟨⟨hq, -⟩, rfl⟩ := Option.ite_some_none_eq_some.mp hstep
      rw [SpliceState.finish_ended h.pstatus]
      exact h.returns (.inr hq)
  | splice n =>
      obtain ⟨⟨hq, -⟩, rfl⟩ := Option.ite_some_none_eq_some.mp hstep
      simp [hq] at hpartner
  | partnerFail =>
      obtain ⟨⟨hq, -⟩, rfl⟩ := Option.ite_some_none_eq_some.mp hstep
      simp [hq] at hpartner
  | recheckFree | test | vmsplice _ | count | recheckDone =>
      obtain hw | ⟨hw, -⟩ := h.writer <;> simp [next, hw] at hstep

theorem Ending.goes (h : Ending s) :
    s.writer = .closed ∨ ∃ a t, SpliceAction.Works a ∧ p.next s a = some t := by
  obtain hw | ⟨hw, -⟩ := h.writer
  · obtain hq | ⟨hq, -⟩ | hq | hq := h.partner
    · exact .inr ⟨.partnerStart, _, trivial, if_pos ⟨hq, h.locked⟩⟩
    · exact .inr ⟨.partnerRecheck, _, trivial, if_pos ⟨hq, h.locked⟩⟩
    · exact .inr ⟨.partnerFinish, _, trivial, if_pos ⟨hq, h.locked⟩⟩
    · exact .inr ⟨.join, _, trivial, if_pos ⟨hw, hq⟩⟩
  · exact .inl hw

theorem Ending.closes (h : Ending s) : p.Closes s := by
  have hdescends : System.Descends p.next Ending SpliceAction.Works closingLeft := by
    intro s a t hs ha hstep
    exact hs.step ha hstep
  exact System.Completes.of_descends hdescends (fun _ hs => hs.goes) h

/-- The partner takes an empty job. -/
theorem ending_of_closing (h : s.Closing) (hnone : s.tosplice = 0) : Ending s := by
  have hleaves := h.partner
  refine ⟨h.pstatus, h.locked, h.writer, ?_⟩
  cases hq : s.partner with
  | start => exact .inl rfl
  | woken => exact .inr (.inl ⟨rfl, hnone⟩)
  | finishing => exact .inr (.inr (.inl rfl))
  | returned => exact .inr (.inr (.inr rfl))
  | splicing =>
      simp only [SpliceState.Leaves, hq] at hleaves
      omega
  | waiting => simp [SpliceState.Leaves, hq] at hleaves
  | failing => simp [SpliceState.Leaves, hq] at hleaves

/-- From `splice_close` on the partner takes no job, if it can return. -/
theorem empty_of_canClose (h : s.Closing) (hcan : p.CanClose s) :
    s.buffers.getLastD [] = [] := by
  obtain ⟨as, t, has, hrun, hclosed⟩ := hcan
  obtain ⟨hend, hbuffers⟩ : t.Closing ∧ t.buffers = s.buffers := by
    apply System.runFrom_invariant (p := SpliceAction.Succeeds) ?_ ?_ has hrun
    · rintro u a v ⟨hu, hsame⟩ ha hstep
      exact ⟨(hu.step ha hstep).1, (hu.step ha hstep).2.trans hsame⟩
    · exact ⟨h, rfl⟩
  have hreturned : t.partner = .returned := by simpa [hclosed] using hend.writer
  have hleaves := hend.partner
  simp only [SpliceState.Leaves, hreturned] at hleaves
  rw [hend.tosplice, hbuffers] at hleaves
  exact List.length_eq_zero_iff.mp hleaves

/-- **`splice_close` returns exactly behind an empty buffer.**  Where the last buffer that was
written, if any, is empty, it returns in a bounded number of steps, in whatever order the
threads go on; behind any other it does not return in any run without a call that fails. -/
theorem closes_iff (h : p.Reached s) (hw : s.writer = .idle) :
    ∃ t, p.next s .close = some t ∧ (p.Closes t ↔ s.buffers.getLastD [] = []) ∧
      (p.CanClose t ↔ s.buffers.getLastD [] = []) := by
  have hrest : s.Resting := by
    obtain (h | h) | h := h.inv
    · exact h
    · have hwriter := h.writer
      cases hp : s.pstatus <;> simp [hw, hp, WriterFits] at hwriter
    · obtain hw' | ⟨hw', -⟩ := h.writer <;> simp [hw] at hw'
  have hempty := empty_of_canClose (p := p) hrest.close
  have hcloses : s.buffers.getLastD [] = [] → p.Closes
      { s with pstatus := .ended, partner := s.partner.signalled, writer := .joining } := by
    intro hempty
    have hnone : s.tosplice = 0 := by rw [hrest.tosplice, hempty, List.length_nil]
    exact (ending_of_closing hrest.close hnone).closes
  refine ⟨_, if_pos ⟨hw, hrest.locked⟩, ?_, ?_⟩
  · exact ⟨fun hreturns => hempty hreturns.canClose, hcloses⟩
  · exact ⟨hempty, fun hnil => (hcloses hnil).canClose⟩

/-- A call with no byte after that of `written`. -/
def writtenEmpty : List SpliceAction :=
  written ++ [.call 8 0, .partnerRecheck, .partnerFinish, .test, .count]

/-- Behind three bytes it does not return, and behind an empty buffer it does. -/
theorem closes_iff_written :
    (∃ s t, twoPagePipe.Reached s ∧ s.results = [3] ∧ twoPagePipe.next s .close = some t ∧
      ¬ twoPagePipe.CanClose t) ∧
    ∃ s t, twoPagePipe.Reached s ∧ s.results = [3, 0] ∧ twoPagePipe.next s .close = some t ∧
      twoPagePipe.Closes t := by
  constructor
  · obtain ⟨s, hs, hw, -, hresults, hbuffers⟩ := reached_written
    obtain ⟨t, hclose, -, hcan⟩ := closes_iff hs hw
    refine ⟨s, t, hs, hresults, hclose, ?_⟩
    rw [hcan, hbuffers]
    decide
  · have hview : (System.runFrom twoPagePipe.next started writtenEmpty).map
        (fun s => (s.writer, s.results, s.buffers)) =
          some (.idle, [3, 0], [[5, 6, 7], []]) := by decide +kernel
    obtain ⟨s, hrun, hs⟩ := Option.map_eq_some_iff.mp hview
    simp only [Prod.mk.injEq] at hs
    obtain ⟨hw, hresults, hbuffers⟩ := hs
    have hreached : twoPagePipe.Reached s := by
      apply System.ReachableUnder.runFrom (.init isStart_started) (.of_forall ?_) hrun
      simp [writtenEmpty, written, SpliceAction.Succeeds]
    obtain ⟨t, hclose, hreturns, -⟩ := closes_iff hreached hw
    refine ⟨s, t, hreached, hresults, hclose, hreturns.mpr ?_⟩
    rw [hbuffers]
    rfl

/-! ## Failures -/

/-- The partner is gone and the writer waits for it. -/
def Abandoned (s : SpliceState) : Prop :=
  s.partner = .returned ∧ (s.writer = .waitingFree ∨ s.writer = .waitingDone)

theorem Abandoned.step (h : Abandoned s) (ha : a ≠ .writerWakes)
    (hstep : p.next s a = some t) : Abandoned t ∧ t.results = s.results := by
  obtain ⟨hq, hw⟩ := h
  cases a with
  | refill memory =>
      obtain ⟨-, rfl⟩ := Option.ite_some_none_eq_some.mp hstep
      exact ⟨⟨hq, hw⟩, rfl⟩
  | writerWakes => exact absurd rfl ha
  | partnerStart | partnerRecheck | splice | spliceFails | partnerFinish | partnerFail
  | partnerWakes => simp [next, hq] at hstep
  | call | recheckFree | test | vmsplice | vmspliceFails | count | recheckDone | close | join =>
      obtain hw | hw := hw <;> simp [next, hw] at hstep

/-- **A failure of the partner is not noticed by a writer that waits for it**: unless it wakes
without a signal, its call never returns. -/
theorem failure_unnoticed (hw : s.writer = .waitingFree ∨ s.writer = .waitingDone)
    {as : List SpliceAction} (has : ∀ a ∈ as, a ≠ .writerWakes)
    (hrun : System.runFrom p.next s (.partnerFail :: as) = some t) :
    Abandoned t ∧ t.results = s.results := by
  obtain ⟨u, hfail, hrest⟩ := Option.bind_eq_some_iff.mp hrun
  obtain ⟨-, rfl⟩ := Option.ite_some_none_eq_some.mp hfail
  apply System.runFrom_invariant (p := (· ≠ .writerWakes)) ?_ ?_ has hrest
  · rintro u a v ⟨hu, hsame⟩ ha hstep
    exact ⟨(hu.step ha hstep).1, (hu.step ha hstep).2.trans hsame⟩
  · exact ⟨⟨rfl, hw⟩, rfl⟩

/-- The partner fails while the writer waits. -/
def failed : List SpliceAction :=
  [.call 5 1, .test, .vmsplice 1, .partnerStart, .test, .count, .spliceFails]

theorem failure_unnoticed_failed : ∃ s, twoPagePipe.system.Reachable s ∧
    s.partner = .failing ∧ s.writer = .waitingDone ∧ s.buffers = [[5]] ∧
    ∀ as t, (∀ a ∈ as, a ≠ SpliceAction.writerWakes) →
      System.runFrom twoPagePipe.next s (.partnerFail :: as) = some t →
        Abandoned t ∧ t.results = [] := by
  have hview : (System.runFrom twoPagePipe.next started failed).map
      (fun s => (s.partner, s.writer, s.buffers, s.results)) =
        some (.failing, .waitingDone, [[5]], []) := by decide +kernel
  obtain ⟨s, hrun, hs⟩ := Option.map_eq_some_iff.mp hview
  simp only [Prod.mk.injEq] at hs
  obtain ⟨hq, hw, hbuffers, hresults⟩ := hs
  refine ⟨s, (System.Reachable.init isStart_started).runFrom hrun, hq, hw, hbuffers,
    fun as t has ht => ?_⟩
  have hleft := failure_unnoticed (.inr hw) has ht
  rwa [hresults] at hleft

/-- A partner that has failed is gone, and who left the mutex locked is in no call. -/
structure Failed (s : SpliceState) : Prop where
  partner : s.pstatus = .error → s.partner = .returned
  writer : s.locked = true → s.writer = .idle

theorem Failed.giveJob (h : Failed s) (hfree : s.locked = false) : Failed s.giveJob := by
  cases hp : s.pstatus with
  | error =>
      rw [SpliceState.giveJob_error hp]
      exact ⟨fun _ => h.partner hp, fun _ => rfl⟩
  | run =>
      rw [SpliceState.giveJob_run hp]
      exact ⟨by simp, fun hl => by simp [hfree] at hl⟩
  | ended =>
      simp only [SpliceState.giveJob, hp]
      exact ⟨by simp, fun _ => rfl⟩
  | jobtodo =>
      simp only [SpliceState.giveJob, hp]
      exact ⟨by simp, fun hl => by simp [hfree] at hl⟩

theorem Failed.awaitJob (h : Failed s) (hfree : s.locked = false) : Failed s.awaitJob := by
  cases hp : s.pstatus with
  | error =>
      simp only [SpliceState.awaitJob, hp]
      exact ⟨fun _ => h.partner hp, fun _ => rfl⟩
  | run =>
      rw [SpliceState.awaitJob_run hp]
      exact ⟨fun he => by simp [hp] at he, fun _ => rfl⟩
  | ended =>
      simp only [SpliceState.awaitJob, hp]
      exact ⟨by simp, fun _ => rfl⟩
  | jobtodo =>
      rw [SpliceState.awaitJob_jobtodo hp]
      exact ⟨fun he => by simp [hp] at he, fun hl => by simp [hfree] at hl⟩

/-- The partner is not gone yet, so nothing has failed. -/
theorem Failed.takeJob (h : Failed s) (hq : s.partner ≠ .returned) : Failed s.takeJob := by
  have hp : s.pstatus ≠ .error := fun he => hq (h.partner he)
  unfold SpliceState.takeJob
  split
  · exact ⟨fun he => absurd he hp, h.writer⟩
  · exact ⟨fun he => absurd he hp, h.writer⟩

theorem Failed.partnerTop (h : Failed s) (hq : s.partner ≠ .returned) :
    Failed s.partnerTop := by
  unfold SpliceState.partnerTop
  split
  · exact h.takeJob hq
  · exact ⟨by simp, h.writer⟩

theorem Failed.finish (h : Failed s) (hq : s.partner ≠ .returned) (hfree : s.locked = false) :
    Failed s.finish := by
  by_cases halive : s.pstatus.alive = true
  · rw [SpliceState.finish_of_alive halive]
    exact ⟨by simp, fun hl => by simp [hfree] at hl⟩
  · rw [SpliceState.finish, if_neg halive]
    exact h.partnerTop hq

theorem Failed.step (h : Failed s) (hstep : p.next s a = some t) : Failed t := by
  have hbusy : s.writer ≠ .idle → s.locked = false := fun hw =>
    Bool.eq_false_iff.mpr fun hl => hw (h.writer hl)
  cases a with
  | call start count =>
      obtain ⟨⟨-, hfree, -⟩, rfl⟩ := Option.ite_some_none_eq_some.mp hstep
      exact Failed.giveJob ⟨h.partner, h.writer⟩ hfree
  | recheckFree =>
      obtain ⟨hw, rfl⟩ := Option.ite_some_none_eq_some.mp hstep
      exact h.giveJob (hbusy (by simp [hw]))
  | test =>
      obtain ⟨hw, rfl⟩ := Option.ite_some_none_eq_some.mp hstep
      exact ⟨h.partner, fun hl => by simp [hbusy (by simp [hw])] at hl⟩
  | vmsplice n =>
      obtain ⟨⟨hw, -⟩, rfl⟩ := Option.ite_some_none_eq_some.mp hstep
      refine ⟨h.partner, fun hl => ?_⟩
      exact absurd (h.writer hl) (by simp [hw])
  | vmspliceFails =>
      obtain ⟨-, rfl⟩ := Option.ite_some_none_eq_some.mp hstep
      exact ⟨h.partner, fun _ => rfl⟩
  | count =>
      obtain ⟨⟨-, hfree⟩, rfl⟩ := Option.ite_some_none_eq_some.mp hstep
      exact h.awaitJob hfree
  | recheckDone =>
      obtain ⟨hw, rfl⟩ := Option.ite_some_none_eq_some.mp hstep
      exact h.awaitJob (hbusy (by simp [hw]))
  | close =>
      obtain ⟨⟨-, hfree⟩, rfl⟩ := Option.ite_some_none_eq_some.mp hstep
      exact ⟨by simp, fun hl => by simp [hfree] at hl⟩
  | join =>
      obtain ⟨⟨hw, -⟩, rfl⟩ := Option.ite_some_none_eq_some.mp hstep
      exact ⟨h.partner, fun hl => by simp [hbusy (by simp [hw])] at hl⟩
  | partnerStart =>
      obtain ⟨⟨hq, -⟩, rfl⟩ := Option.ite_some_none_eq_some.mp hstep
      exact h.partnerTop (by simp [hq])
  | partnerRecheck =>
      obtain ⟨⟨hq, -⟩, rfl⟩ := Option.ite_some_none_eq_some.mp hstep
      exact h.takeJob (by simp [hq])
  | splice n =>
      obtain ⟨⟨hq, -⟩, rfl⟩ := Option.ite_some_none_eq_some.mp hstep
      exact ⟨fun he => absurd (h.partner he) (by simp [hq]), h.writer⟩
  | spliceFails =>
      obtain ⟨hq, rfl⟩ := Option.ite_some_none_eq_some.mp hstep
      exact ⟨fun he => absurd (h.partner he) (by simp [hq]), h.writer⟩
  | partnerFinish =>
      obtain ⟨⟨hq, hfree⟩, rfl⟩ := Option.ite_some_none_eq_some.mp hstep
      exact h.finish (by simp [hq]) hfree
  | partnerFail =>
      obtain ⟨-, rfl⟩ := Option.ite_some_none_eq_some.mp hstep
      exact ⟨fun _ => rfl, h.writer⟩
  | writerWakes =>
      obtain ⟨hw, rfl⟩ := Option.ite_some_none_eq_some.mp hstep
      refine ⟨h.partner, fun hl => absurd (h.writer hl) ?_⟩
      obtain hw | hw := hw <;> simp [hw]
  | partnerWakes =>
      obtain ⟨hq, rfl⟩ := Option.ite_some_none_eq_some.mp hstep
      exact ⟨fun he => absurd (h.partner he) (by simp [hq]), h.writer⟩
  | refill memory =>
      obtain ⟨-, rfl⟩ := Option.ite_some_none_eq_some.mp hstep
      exact ⟨h.partner, h.writer⟩

theorem failed_of_reachable (h : p.system.Reachable s) : Failed s := by
  apply h.invariant
  · intro s hstart
    exact ⟨fun he => by simp [hstart.pstatus] at he, fun _ => hstart.writer⟩
  · intro s a t hinv hstep
    exact hinv.step hstep

/-- With the mutex locked no call gets anywhere. -/
theorem locked_step (hl : s.locked = true) (hw : s.writer = .idle)
    (hstep : p.next s a = some t) :
    (t.locked = true ∧ t.writer = .idle) ∧ t.results = s.results := by
  cases a with
  | splice n =>
      obtain ⟨-, rfl⟩ := Option.ite_some_none_eq_some.mp hstep
      exact ⟨⟨hl, hw⟩, rfl⟩
  | spliceFails | partnerWakes | refill memory =>
      obtain ⟨-, rfl⟩ := Option.ite_some_none_eq_some.mp hstep
      exact ⟨⟨hl, hw⟩, rfl⟩
  | call | recheckFree | test | vmsplice | vmspliceFails | count | recheckDone | close | join
  | partnerStart | partnerRecheck | partnerFinish | partnerFail | writerWakes =>
      simp [next, hl, hw] at hstep

/-- **A call behind a failure locks everybody out.**  Once the partner has failed,
`splice_write` returns -1 with the mutex locked, and no later call of `splice_write` or
`splice_close` returns; without such a call `splice_close` returns. -/
theorem locked_after_failure (h : p.system.Reachable s) (herror : s.pstatus = .error)
    (hw : s.writer = .idle) (hfree : s.locked = false) :
    (∀ start count, count < 2 ^ 63 → ∃ t, p.next s (.call start count) = some t ∧
      t.results = s.results ++ [-1] ∧
      ∀ as u, System.runFrom p.next t as = some u → u.writer = .idle ∧ u.results = t.results) ∧
    ∃ t, p.next s .close = some t ∧ p.Closes t := by
  constructor
  · intro start count hlt
    have hcall : p.call s start count =
        { s with
          tosplice := count
          start := start
          count := count
          loop := Splicing.start p.sp start count
          buffers := s.buffers ++ [s.bytesAt (List.range' start count)]
          writer := .idle
          locked := true
          results := s.results ++ [-1] } := SpliceState.giveJob_error (by exact herror)
    refine ⟨p.call s start count, if_pos ⟨hw, hfree, hlt⟩, by rw [hcall], fun as u hrun => ?_⟩
    have hend : (u.locked = true ∧ u.writer = .idle) ∧
        u.results = (p.call s start count).results := by
      apply System.runFrom_invariant (p := fun _ => True) ?_ ?_ (fun _ _ => trivial) hrun
      · rintro v a w ⟨⟨hl, hidle⟩, hsame⟩ - hstep
        obtain ⟨hkept, hresults⟩ := locked_step hl hidle hstep
        exact ⟨hkept, hresults.trans hsame⟩
      · rw [hcall]
        exact ⟨⟨rfl, rfl⟩, rfl⟩
    exact ⟨hend.1.2, hend.2⟩
  · have hq := (failed_of_reachable h).partner herror
    refine ⟨_, if_pos ⟨hw, hfree⟩, Ending.closes ⟨rfl, hfree, .inl rfl, ?_⟩⟩
    simp [hq, PartnerAt.signalled]

/-- The partner fails while the writer is still in `vmsplice`. -/
def failedEarly : List SpliceAction :=
  [.call 5 1, .test, .partnerStart, .spliceFails, .partnerFail, .vmsplice 1, .test, .count]

theorem locked_after_failure_early : ∃ s t, twoPagePipe.system.Reachable s ∧ s.results = [-1] ∧
    twoPagePipe.next s (.call 6 1) = some t ∧
    ∀ as u, System.runFrom twoPagePipe.next t as = some u → u.results = [-1, -1] := by
  have hview : (System.runFrom twoPagePipe.next started failedEarly).map
      (fun s => (s.pstatus, s.writer, s.locked, s.results)) =
        some (.error, .idle, false, [-1]) := by decide +kernel
  obtain ⟨s, hrun, hs⟩ := Option.map_eq_some_iff.mp hview
  simp only [Prod.mk.injEq] at hs
  obtain ⟨herror, hw, hfree, hresults⟩ := hs
  have hreached := (System.Reachable.init isStart_started).runFrom hrun
  obtain ⟨t, hcall, hnow, hlater⟩ :=
    (locked_after_failure hreached herror hw hfree).1 6 1 (by decide)
  refine ⟨s, t, hreached, hresults, hcall, fun as u hu => ?_⟩
  rw [(hlater as u hu).2, hnow, hresults]
  rfl

end SplicePipe

end VlbiStreamer.Recorder
