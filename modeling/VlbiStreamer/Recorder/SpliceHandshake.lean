import VlbiStreamer.Library.Variant
import VlbiStreamer.Recorder.SplicePartner

/-!
# The handshake of the splice writer

Along every run of `SplicePipe.system` in which no call fails, the state is `Resting`
between the calls of `splice_write`, `Busy` in them and `Closing` from `splice_close` on.
While it is busy, what is `owed` by the partner is what the pipe holds and what the writer
has not handed over.  So the file holds the buffers of the calls that have returned, in order
and as they were (`written_in_order`), and a call always returns
(`splice_write_returns`).
-/

namespace VlbiStreamer.Recorder

open Library

/-! ## The invariant -/

/-- Where the partner is while a call runs. -/
def PartnerFits : PStatus → PartnerAt → ℕ → Prop
  | .run, .waiting, _ | .run, .woken, _ => True
  | .jobtodo, .start, _ | .jobtodo, .woken, _ | .jobtodo, .finishing, _ => True
  | .jobtodo, .splicing, left => 0 < left
  | _, _, _ => False

/-- Where the writer is while a call runs. -/
def WriterFits : PStatus → WriterAt → ℤ → Prop
  | _, .testing, _ => True
  | _, .offering, left => 0 < left
  | _, .counting, left | _, .wokenDone, left => left = 0
  | .jobtodo, .waitingDone, left => left = 0
  | _, _, _ => False

namespace SpliceState

variable (p : SplicePipe) (s : SpliceState)

/-- The bytes of the job that the partner has not moved. -/
def owed : ℕ :=
  match s.pstatus, s.partner with
  | .jobtodo, .start | .jobtodo, .woken => s.tosplice
  | .jobtodo, .splicing => s.leftToSplice
  | _, _ => 0

/-- The addresses that have not reached the file. -/
def unwritten : List ℕ := s.pipe ++ List.range' s.loop.pointToStart s.loop.trycount.toNat

/-- In a call. -/
structure Busy : Prop where
  locked : s.locked = false
  sound : s.loop.Sound s.start s.count
  offers : 0 < s.loop.trycount → s.loop.Offers
  /-- The pipe holds what was handed over last. -/
  pipe : s.pipe <:+ s.loop.handed
  tosplice : s.tosplice = s.count
  owed : (s.owed : ℤ) = s.pipe.length + s.loop.trycount
  file : s.file ++ s.bytesAt s.unwritten = s.buffers.flatten
  calls : ∃ done b, s.buffers = done ++ [b] ∧ b.length = s.count ∧
    s.results = done.map fun b => (b.length : ℤ)
  partner : PartnerFits s.pstatus s.partner s.leftToSplice
  writer : WriterFits s.pstatus s.writer s.loop.trycount

/-- All that was written is in the file. -/
structure Settled : Prop where
  locked : s.locked = false
  pipe : s.pipe = []
  tosplice : s.tosplice = (s.buffers.getLastD []).length
  file : s.file = s.buffers.flatten
  results : s.results = s.buffers.map fun b => (b.length : ℤ)

/-- Between two calls. -/
structure Resting : Prop extends s.Settled where
  writer : s.writer = .idle
  pstatus : s.pstatus = .run
  partner : (s.partner = .start ∧ s.buffers = []) ∨ s.partner = .waiting ∨ s.partner = .woken

/-- Where the partner is once `splice_close` has told it to end: it takes the last job once
more. -/
def Leaves : Prop :=
  match s.partner with
  | .start | .finishing | .returned => s.tosplice = 0
  | .woken => True
  | .splicing => 0 < s.tosplice ∧ s.leftToSplice = s.tosplice
  | _ => False

/-- From `splice_close` on. -/
structure Closing : Prop extends s.Settled where
  writer : s.writer = .joining ∨ (s.writer = .closed ∧ s.partner = .returned)
  pstatus : s.pstatus = .ended
  partner : s.Leaves

/-- `splice_close` has not been called. -/
def Open : Prop := s.Resting ∨ s.Busy

/-- **The invariant of the runs in which no call fails.** -/
def Inv : Prop := s.Open ∨ s.Closing

variable {p s}

@[simp] theorem bytesAt_append (as bs : List ℕ) :
    s.bytesAt (as ++ bs) = s.bytesAt as ++ s.bytesAt bs := List.map_append

@[simp] theorem length_bytesAt (as : List ℕ) : (s.bytesAt as).length = as.length :=
  List.length_map _

namespace Busy

theorem run_or_jobtodo (h : s.Busy) : s.pstatus = .run ∨ s.pstatus = .jobtodo := by
  have hfits := h.partner
  cases hp : s.pstatus
  · simp [hp, PartnerFits] at hfits
  · simp [hp, PartnerFits] at hfits
  · exact .inl rfl
  · exact .inr rfl

theorem alive (h : s.Busy) : s.pstatus.alive = true := by
  obtain hp | hp := h.run_or_jobtodo <;> rw [hp] <;> rfl

/-- What has not reached the file lies in the buffer of the call. -/
theorem unwritten_subset (h : s.Busy) {x : ℕ} (hx : x ∈ s.unwritten) :
    x ∈ List.range' s.start s.count := by
  have hleft := h.sound.left
  have hnonneg := h.sound.nonneg
  rw [List.mem_range'_1]
  obtain hx | hx := List.mem_append.mp hx
  · have hmem := h.pipe.subset hx
    rw [h.sound.handed, List.mem_range'_1] at hmem
    omega
  · rw [List.mem_range'_1, h.sound.point] at hx
    omega

/-! ## Steps of the writer -/

theorem test (h : s.Busy) :
    Busy { s with writer :=
      if 0 < s.loop.trycount ∧ s.pstatus.alive then .offering else .counting } := by
  refine ⟨h.locked, h.sound, h.offers, h.pipe, h.tosplice, h.owed, h.file, h.calls, h.partner,
    ?_⟩
  dsimp only
  split
  · rename_i hgo
    simpa [WriterFits] using hgo.1
  · rename_i hstop
    have hzero : s.loop.trycount = 0 := by
      have hnot : ¬ 0 < s.loop.trycount := fun hgo => hstop ⟨hgo, h.alive⟩
      have hnonneg := h.sound.nonneg
      omega
    simpa [WriterFits] using hzero

/-- The next bytes of the buffer enter the pipe. -/
theorem vmsplice {n : ℕ} (h : s.Busy) (hpos : s.writer = .offering) (hn : 0 < n)
    (hle : n ≤ Iovec.total s.loop.offered) : (s.vmsplice n).Busy := by
  have hleft : 0 < s.loop.trycount := by simpa [WriterFits, hpos] using h.writer
  have hoffers := h.offers hleft
  obtain ⟨hsound, hmore⟩ :=
    h.sound.transferred hoffers (Int.natCast_pos.mpr hn) (Int.ofNat_le.mpr hle)
  have htook : (Iovec.gather s.loop.offered).take n = List.range' s.loop.pointToStart n :=
    hoffers.chained.take_gather hle
  have hfits : (n : ℤ) ≤ s.loop.trycount :=
    le_trans (Int.ofNat_le.mpr hle) hoffers.le
  have hhanded : (s.loop.transferred n).handed =
      s.loop.handed ++ List.range' s.loop.pointToStart n := by
    rw [← htook]
    unfold Splicing.transferred
    simp only [Int.toNat_natCast]
    split <;> rfl
  have hpoint : (s.loop.transferred n).pointToStart = s.loop.pointToStart + n := by
    rw [hsound.point, hhanded, List.length_append, List.length_range', h.sound.point,
      Nat.add_assoc]
  refine ⟨h.locked, hsound, hmore, ?_, h.tosplice, ?_, ?_, h.calls, h.partner, ?_⟩
  · show s.pipe ++ (Iovec.gather s.loop.offered).take n <:+ (s.loop.transferred n).handed
    rw [htook, hhanded]
    obtain ⟨moved, hmoved⟩ := h.pipe
    exact ⟨moved, by rw [← hmoved, List.append_assoc]⟩
  · have howed := h.owed
    show (s.owed : ℤ) = (s.pipe ++ (Iovec.gather s.loop.offered).take n).length +
      (s.loop.transferred n).trycount
    rw [htook, List.length_append, List.length_range', Splicing.trycount_transferred]
    omega
  · have hrest : s.pipe ++ (Iovec.gather s.loop.offered).take n ++
        List.range' (s.loop.transferred n).pointToStart
          (s.loop.transferred n).trycount.toNat = s.unwritten := by
      have hcount : s.loop.trycount.toNat = n + (s.loop.trycount - n).toNat := by omega
      rw [htook, hpoint, Splicing.trycount_transferred, List.append_assoc, List.range'_append_1,
        ← hcount]
      rfl
    refine Eq.trans ?_ h.file
    exact congrArg (fun addresses => s.file ++ s.bytesAt addresses) hrest
  · simp [SpliceState.vmsplice, WriterFits]

/-- The call waits for the partner or returns. -/
theorem awaitJob (h : s.Busy) (hzero : s.loop.trycount = 0) :
    s.awaitJob.Busy ∨ s.awaitJob.Resting := by
  have hpartner := h.partner
  obtain hp | hp := h.run_or_jobtodo
  · -- the partner has done the job
    right
    have howed := h.owed
    have hnone : s.owed = 0 := by simp [SpliceState.owed, hp]
    have hpipe : s.pipe = [] := List.length_eq_zero_iff.mp (by omega)
    have hall := h.sound.left
    obtain ⟨done, b, hbuffers, hb, hresults⟩ := h.calls
    rw [awaitJob_run hp]
    refine ⟨⟨h.locked, hpipe, ?_, ?_, ?_⟩, rfl, hp, ?_⟩
    · show s.tosplice = (s.buffers.getLastD []).length
      rw [h.tosplice, hbuffers, List.getLastD_concat, hb]
    · have hfile := h.file
      simpa [unwritten, bytesAt, hpipe, hzero] using hfile
    · show s.results ++ [s.loop.totalW] = s.buffers.map fun b => (b.length : ℤ)
      have htotal : s.loop.totalW = b.length := by
        rw [h.sound.totalW, hb]
        omega
      rw [hresults, hbuffers, List.map_append, htotal]
      rfl
    · show _ ∨ s.partner = .waiting ∨ s.partner = .woken
      cases hq : s.partner <;> simp [hp, hq, PartnerFits] at hpartner ⊢
  · left
    rw [awaitJob_jobtodo hp]
    refine ⟨h.locked, h.sound, h.offers, h.pipe, h.tosplice, h.owed, h.file, h.calls, h.partner,
      ?_⟩
    simpa [WriterFits, hp] using hzero

/-! ## Steps of the partner -/

/-- The partner takes the job, or waits on. -/
theorem takeJob (h : s.Busy) (hpos : s.partner = .start ∨ s.partner = .woken) :
    s.takeJob.Busy := by
  have howed := h.owed
  obtain hp | hp := h.run_or_jobtodo
  · rw [takeJob_run hp]
    refine ⟨h.locked, h.sound, h.offers, h.pipe, h.tosplice, ?_, h.file, h.calls, ?_, h.writer⟩
    · simpa [SpliceState.owed, hp] using howed
    · simp [hp, PartnerFits]
  · have hall : s.owed = s.tosplice := by
      obtain hq | hq := hpos <;> simp [SpliceState.owed, hp, hq]
    rw [takeJob_of_ne (by simp [hp])]
    rw [hall] at howed
    by_cases hjob : 0 < s.tosplice
    · simp only [if_pos hjob]
      exact ⟨h.locked, h.sound, h.offers, h.pipe, h.tosplice, by simpa [SpliceState.owed, hp],
        h.file, h.calls, by simpa [PartnerFits, hp], h.writer⟩
    · simp only [if_neg hjob]
      refine ⟨h.locked, h.sound, h.offers, h.pipe, h.tosplice, ?_, h.file, h.calls, ?_,
        h.writer⟩
      · simpa [SpliceState.owed, hp, Nat.eq_zero_of_not_pos hjob] using howed
      · simp [PartnerFits, hp]

theorem jobtodo_of_splicing (h : s.Busy) (hpos : s.partner = .splicing) :
    s.pstatus = .jobtodo ∧ 0 < s.leftToSplice := by
  have hpartner := h.partner
  obtain hp | hp := h.run_or_jobtodo
  · simp [hp, hpos, PartnerFits] at hpartner
  · exact ⟨hp, by simpa [hp, hpos, PartnerFits] using hpartner⟩

/-- Bytes leave the pipe for the file. -/
theorem splice {n : ℕ} (h : s.Busy) (hpos : s.partner = .splicing) (hn : n ≤ s.leftToSplice)
    (hle : n ≤ s.pipe.length) : (s.splice n).Busy := by
  obtain ⟨hjob, -⟩ := h.jobtodo_of_splicing hpos
  have howed := h.owed
  simp only [SpliceState.owed, hjob, hpos] at howed
  have hdrop : ((s.pipe.drop n).length : ℤ) = s.pipe.length - n := by
    rw [List.length_drop]
    omega
  have hfits : ∀ q left, PartnerFits .jobtodo q left → PartnerFits s.pstatus q left := by
    intro q left hq
    rwa [hjob]
  have hfile : s.file ++ s.bytesAt (s.pipe.take n) ++ s.bytesAt (s.pipe.drop n ++
      List.range' s.loop.pointToStart s.loop.trycount.toNat) = s.buffers.flatten := by
    rw [List.append_assoc, ← bytesAt_append, ← List.append_assoc, List.take_append_drop]
    exact h.file
  unfold SpliceState.splice
  by_cases hmore : 0 < s.leftToSplice - n
  · simp only [if_pos hmore]
    refine ⟨h.locked, h.sound, h.offers, (List.drop_suffix _ _).trans h.pipe, h.tosplice, ?_,
      hfile, h.calls, hfits .splicing _ hmore, h.writer⟩
    simp only [SpliceState.owed, hjob, hdrop]
    omega
  · simp only [if_neg hmore]
    refine ⟨h.locked, h.sound, h.offers, (List.drop_suffix _ _).trans h.pipe, h.tosplice, ?_,
      hfile, h.calls, hfits .finishing _ trivial, h.writer⟩
    simp only [SpliceState.owed, hjob, hdrop]
    omega

/-- The job is done. -/
theorem finish (h : s.Busy) (hpos : s.partner = .finishing) : s.finish.Busy := by
  have hpartner := h.partner
  have hwriter := h.writer
  have howed := h.owed
  have hnone : s.owed = 0 := by
    obtain hp | hp := h.run_or_jobtodo <;> simp [SpliceState.owed, hp, hpos]
  have hzero : s.loop.trycount = 0 := by
    have hnonneg := h.sound.nonneg
    omega
  rw [finish_of_alive h.alive]
  refine ⟨h.locked, h.sound, h.offers, h.pipe, h.tosplice, ?_, h.file, h.calls, trivial, ?_⟩
  · rw [hnone] at howed
    exact howed
  · cases hw : s.writer <;> cases hp : s.pstatus <;>
      simp_all [WriterFits, WriterAt.signalled]

end Busy

/-! ## The calls -/

theorem Settled.congr {t : SpliceState} (h : s.Settled) (hlocked : t.locked = s.locked)
    (hpipe : t.pipe = s.pipe) (htosplice : t.tosplice = s.tosplice) (hfile : t.file = s.file)
    (hbuffers : t.buffers = s.buffers) (hresults : t.results = s.results) : t.Settled :=
  ⟨hlocked.trans h.locked, hpipe.trans h.pipe, by rw [htosplice, hbuffers, h.tosplice],
    by rw [hfile, hbuffers, h.file], by rw [hresults, hbuffers, h.results]⟩

/-- The writer gives the job to its partner. -/
theorem Resting.call {start count : ℕ} (h : s.Resting) (hlt : count < 2 ^ 63) :
    (p.call s start count).Busy := by
  have hsound := Splicing.sound_start start p.unwrapped hlt
  have hlong : (Splicing.start p.sp start count).trycount = count := by
    rw [Splicing.trycount_start, toLong_eq hlt]
  have hjob : PartnerFits .jobtodo s.partner.signalled s.leftToSplice ∧
      ∀ left, PartnerFits .jobtodo s.partner.signalled left ∧
        (s.partner.signalled = .start ∨ s.partner.signalled = .woken) := by
    obtain ⟨hq, -⟩ | hq | hq := h.partner <;>
      simp [hq, PartnerAt.signalled, PartnerFits]
  unfold SplicePipe.call
  rw [giveJob_run (by exact h.pstatus)]
  refine ⟨h.locked, hsound, fun hpos => ?_, ?_, rfl, ?_, ?_, ?_, hjob.1, trivial⟩
  · rw [hlong] at hpos
    exact Splicing.offers_start p.unwrapped (Int.natCast_pos.mp hpos) hlt
  · show s.pipe <:+ _
    rw [h.pipe]
    exact List.nil_suffix
  · show _ = (s.pipe.length : ℤ) + (Splicing.start p.sp start count).trycount
    rw [h.pipe, hlong]
    obtain hq | hq := (hjob.2 0).2 <;> simp [owed, hq]
  · show s.file ++ s.bytesAt (s.pipe ++ List.range' start
      (Splicing.start p.sp start count).trycount.toNat) = _
    rw [h.pipe, h.file, hlong]
    simp
  · exact ⟨s.buffers, _, rfl, by simp, h.results⟩

/-- `splice_close` tells the partner to end. -/
theorem Resting.close (h : s.Resting) : Closing
    { s with pstatus := .ended, partner := s.partner.signalled, writer := .joining } := by
  refine ⟨⟨h.locked, h.pipe, h.tosplice, h.file, h.results⟩, .inl rfl, rfl, ?_⟩
  obtain ⟨hq, hnone⟩ | hq | hq := h.partner
  · have htosplice := h.tosplice
    rw [hnone] at htosplice
    simpa [Leaves, PartnerAt.signalled, hq] using htosplice
  · simp [Leaves, PartnerAt.signalled, hq]
  · simp [Leaves, PartnerAt.signalled, hq]

/-! ## One step -/

variable {t : SpliceState} {a : SpliceAction}

/-- Between two calls the partner goes to sleep. -/
theorem Resting.works (h : s.Resting) (ha : a.Works) (hstep : p.next s a = some t) :
    (s.partner = .start ∨ s.partner = .woken) ∧ t = { s with partner := .waiting } := by
  have hwriter := h.writer
  have hpartner := h.partner
  cases a with
  | call | close | writerWakes | partnerWakes | refill | vmspliceFails | spliceFails =>
      exact ha.elim
  | partnerStart =>
      obtain ⟨⟨hq, -⟩, rfl⟩ := Option.ite_some_none_eq_some.mp hstep
      rw [partnerTop_of_alive (by simp [h.pstatus, PStatus.alive]), takeJob_run h.pstatus]
      exact ⟨.inl hq, rfl⟩
  | partnerRecheck =>
      obtain ⟨⟨hq, -⟩, rfl⟩ := Option.ite_some_none_eq_some.mp hstep
      rw [takeJob_run h.pstatus]
      exact ⟨.inr hq, rfl⟩
  | splice n =>
      obtain ⟨⟨hq, -⟩, rfl⟩ := Option.ite_some_none_eq_some.mp hstep
      simp [hq] at hpartner
  | partnerFinish =>
      obtain ⟨⟨hq, -⟩, rfl⟩ := Option.ite_some_none_eq_some.mp hstep
      simp [hq] at hpartner
  | partnerFail =>
      obtain ⟨⟨hq, -⟩, rfl⟩ := Option.ite_some_none_eq_some.mp hstep
      simp [hq] at hpartner
  | recheckFree | test | vmsplice _ | count | recheckDone | join =>
      simp [SplicePipe.next, hwriter] at hstep

theorem Resting.sleeps (h : s.Resting) : Resting { s with partner := .waiting } :=
  ⟨h.toSettled.congr rfl rfl rfl rfl rfl rfl, h.writer, h.pstatus, .inr (.inl rfl)⟩

theorem Resting.step (h : s.Resting) (ha : a.Succeeds) (hstep : p.next s a = some t) :
    t.Inv := by
  cases a with
  | call start count =>
      obtain ⟨⟨-, -, hlt⟩, rfl⟩ := Option.ite_some_none_eq_some.mp hstep
      exact .inl (.inr (h.call hlt))
  | close =>
      obtain ⟨-, rfl⟩ := Option.ite_some_none_eq_some.mp hstep
      exact .inr h.close
  | partnerWakes =>
      obtain ⟨hq, rfl⟩ := Option.ite_some_none_eq_some.mp hstep
      exact .inl (.inl ⟨h.toSettled.congr rfl rfl rfl rfl rfl rfl, h.writer, h.pstatus,
        .inr (.inr (by simp [hq, PartnerAt.signalled]))⟩)
  | refill memory =>
      obtain ⟨-, rfl⟩ := Option.ite_some_none_eq_some.mp hstep
      exact .inl (.inl ⟨h.toSettled.congr rfl rfl rfl rfl rfl rfl, h.writer, h.pstatus,
        h.partner⟩)
  | writerWakes => simp [SplicePipe.next, h.writer] at hstep
  | vmspliceFails | spliceFails => exact ha.elim
  | recheckFree | test | vmsplice _ | count | recheckDone | join | partnerStart
  | partnerRecheck | splice _ | partnerFinish | partnerFail =>
      obtain ⟨-, rfl⟩ := h.works (by trivial) hstep
      exact .inl (.inl h.sleeps)

theorem Busy.step (h : s.Busy) (ha : a.Succeeds) (hstep : p.next s a = some t) : t.Open := by
  have hwriter := h.writer
  have hpartner := h.partner
  have hidle : s.writer ≠ .idle := by
    intro hw
    cases hp : s.pstatus <;> simp [hw, hp, WriterFits] at hwriter
  cases a with
  | test =>
      obtain ⟨-, rfl⟩ := Option.ite_some_none_eq_some.mp hstep
      exact .inr h.test
  | vmsplice n =>
      obtain ⟨⟨hw, hn, hle, -⟩, rfl⟩ := Option.ite_some_none_eq_some.mp hstep
      exact .inr (h.vmsplice hw hn hle)
  | count =>
      obtain ⟨⟨hw, -⟩, rfl⟩ := Option.ite_some_none_eq_some.mp hstep
      have hzero : s.loop.trycount = 0 := by simpa [hw, WriterFits] using hwriter
      exact (h.awaitJob hzero).symm
  | recheckDone =>
      obtain ⟨hw, rfl⟩ := Option.ite_some_none_eq_some.mp hstep
      have hzero : s.loop.trycount = 0 := by simpa [hw, WriterFits] using hwriter
      exact (h.awaitJob hzero).symm
  | partnerStart =>
      obtain ⟨⟨hq, -⟩, rfl⟩ := Option.ite_some_none_eq_some.mp hstep
      rw [partnerTop_of_alive h.alive]
      exact .inr (h.takeJob (.inl hq))
  | partnerRecheck =>
      obtain ⟨⟨hq, -⟩, rfl⟩ := Option.ite_some_none_eq_some.mp hstep
      exact .inr (h.takeJob (.inr hq))
  | splice n =>
      obtain ⟨⟨hq, -, hn, hle⟩, rfl⟩ := Option.ite_some_none_eq_some.mp hstep
      exact .inr (h.splice hq (hn.trans (Nat.min_le_left _ _)) hle)
  | partnerFinish =>
      obtain ⟨⟨hq, -⟩, rfl⟩ := Option.ite_some_none_eq_some.mp hstep
      exact .inr (h.finish hq)
  | writerWakes =>
      obtain ⟨hw, rfl⟩ := Option.ite_some_none_eq_some.mp hstep
      refine .inr { h with writer := ?_ }
      obtain hw | hw := hw <;> cases hp : s.pstatus <;>
        simp_all [WriterFits, WriterAt.signalled]
  | partnerWakes =>
      obtain ⟨hq, rfl⟩ := Option.ite_some_none_eq_some.mp hstep
      have howed := h.owed
      refine .inr ⟨h.locked, h.sound, h.offers, h.pipe, h.tosplice, ?_, h.file, h.calls, ?_,
        h.writer⟩
      · obtain hp | hp := h.run_or_jobtodo
        · rw [SpliceState.owed, hp] at howed
          simpa [SpliceState.owed, hp] using howed
        · simp [hp, hq, PartnerFits] at hpartner
      · obtain hp | hp := h.run_or_jobtodo
        · simp [hp, hq, PartnerFits, PartnerAt.signalled]
        · simp [hp, hq, PartnerFits] at hpartner
  | refill memory =>
      obtain ⟨hsame, rfl⟩ := Option.ite_some_none_eq_some.mp hstep
      have hbuffer : ∀ x ∈ List.range' s.start s.count, memory x = s.memory x := by
        obtain hw | hw | hw | hsame := hsame
        · exact absurd hw hidle
        · cases hp : s.pstatus <;> simp [hw, hp, WriterFits] at hwriter
        · cases hp : s.pstatus <;> simp [hw, hp, WriterFits] at hwriter
        · exact hsame
      have hbytes : s.unwritten.map memory = s.bytesAt s.unwritten :=
        List.map_congr_left fun x hx => hbuffer x (h.unwritten_subset hx)
      refine .inr ⟨h.locked, h.sound, h.offers, h.pipe, h.tosplice, h.owed, ?_, h.calls,
        h.partner, h.writer⟩
      rw [← h.file, ← hbytes]
      rfl
  | vmspliceFails => exact ha.elim
  | spliceFails => exact ha.elim
  | partnerFail =>
      obtain ⟨⟨hq, -⟩, rfl⟩ := Option.ite_some_none_eq_some.mp hstep
      obtain hp | hp := h.run_or_jobtodo <;> simp [hp, hq, PartnerFits] at hpartner
  | call start count => exact absurd (Option.ite_some_none_eq_some.mp hstep).1.1 hidle
  | close => exact absurd (Option.ite_some_none_eq_some.mp hstep).1.1 hidle
  | recheckFree =>
      obtain ⟨hw, rfl⟩ := Option.ite_some_none_eq_some.mp hstep
      cases hp : s.pstatus <;> simp [hw, hp, WriterFits] at hwriter
  | join =>
      obtain ⟨⟨hw, -⟩, rfl⟩ := Option.ite_some_none_eq_some.mp hstep
      cases hp : s.pstatus <;> simp [hw, hp, WriterFits] at hwriter

theorem Closing.step (h : s.Closing) (ha : a.Succeeds) (hstep : p.next s a = some t) :
    t.Closing ∧ t.buffers = s.buffers := by
  have hleaves := h.partner
  cases a with
  | join =>
      obtain ⟨⟨-, hq⟩, rfl⟩ := Option.ite_some_none_eq_some.mp hstep
      exact ⟨⟨h.toSettled.congr rfl rfl rfl rfl rfl rfl, .inr ⟨rfl, hq⟩, h.pstatus, h.partner⟩,
        rfl⟩
  | partnerStart =>
      obtain ⟨⟨hq, -⟩, rfl⟩ := Option.ite_some_none_eq_some.mp hstep
      rw [partnerTop_ended h.pstatus]
      refine ⟨⟨h.toSettled.congr rfl rfl rfl rfl rfl rfl,
        h.writer.imp id fun hw => ⟨hw.1, rfl⟩, h.pstatus, ?_⟩, rfl⟩
      simpa [Leaves, hq] using hleaves
  | partnerRecheck =>
      obtain ⟨⟨hq, -⟩, rfl⟩ := Option.ite_some_none_eq_some.mp hstep
      have hjoining : s.writer = .joining := by simpa [hq] using h.writer
      rw [takeJob_of_ne (by simp [h.pstatus])]
      refine ⟨⟨h.toSettled.congr rfl rfl rfl rfl rfl rfl, .inl hjoining, h.pstatus, ?_⟩, rfl⟩
      unfold Leaves
      by_cases hpos : 0 < s.tosplice
      · simp [hpos]
      · simp [Nat.eq_zero_of_not_pos hpos]
  | splice n =>
      obtain ⟨⟨-, hn, -, hle⟩, rfl⟩ := Option.ite_some_none_eq_some.mp hstep
      rw [h.pipe] at hle
      exact absurd hle (Nat.not_le.mpr hn)
  | partnerFinish =>
      obtain ⟨⟨hq, -⟩, rfl⟩ := Option.ite_some_none_eq_some.mp hstep
      rw [finish_ended h.pstatus]
      refine ⟨⟨h.toSettled.congr rfl rfl rfl rfl rfl rfl,
        h.writer.imp id fun hw => ⟨hw.1, rfl⟩, h.pstatus, ?_⟩, rfl⟩
      simpa [Leaves, hq] using hleaves
  | refill memory =>
      obtain ⟨-, rfl⟩ := Option.ite_some_none_eq_some.mp hstep
      exact ⟨⟨h.toSettled.congr rfl rfl rfl rfl rfl rfl, h.writer, h.pstatus, h.partner⟩, rfl⟩
  | vmspliceFails => exact ha.elim
  | spliceFails => exact ha.elim
  | partnerFail =>
      obtain ⟨⟨hq, -⟩, rfl⟩ := Option.ite_some_none_eq_some.mp hstep
      simp [Leaves, hq] at hleaves
  | partnerWakes =>
      obtain ⟨hq, rfl⟩ := Option.ite_some_none_eq_some.mp hstep
      simp [Leaves, hq] at hleaves
  | call | recheckFree | test | vmsplice | count | recheckDone | close | writerWakes =>
      obtain hw | ⟨hw, -⟩ := h.writer <;> simp [SplicePipe.next, hw] at hstep

theorem Inv.step (h : s.Inv) (ha : a.Succeeds) (hstep : p.next s a = some t) : t.Inv := by
  obtain (h | h) | h := h
  · exact h.step ha hstep
  · exact .inl (h.step ha hstep)
  · exact .inr (h.step ha hstep).1

end SpliceState

namespace SplicePipe

variable {p : SplicePipe} {s t : SpliceState}

theorem IsStart.resting (h : IsStart s) : s.Resting :=
  ⟨⟨h.locked, h.pipe, by simp [h.tosplice, h.buffers], by simp [h.file, h.buffers],
    by simp [h.results, h.buffers]⟩, h.writer, h.pstatus, .inl ⟨h.partner, h.buffers⟩⟩

/-- The states of the runs in which no call fails. -/
def Reached (p : SplicePipe) (s : SpliceState) : Prop :=
  p.system.ReachableUnder (fun _ a => a.Succeeds) s

theorem Reached.inv (h : p.Reached s) : s.Inv :=
  System.ReachableUnder.invariant (fun _ hstart => .inl (.inl (IsStart.resting hstart)))
    (fun _ _ _ hinv ha hstep => hinv.step ha hstep) h

end SplicePipe

/-! ## Every call returns -/

namespace SpliceState

variable {p : SplicePipe} {s t : SpliceState} {a : SpliceAction}

/-- What the writer has to do at most, beside what it waits for. -/
def writerLeft (s : SpliceState) : ℕ :=
  match s.writer with
  | .testing => 2 * s.loop.trycount.toNat + 5
  | .offering => 2 * s.loop.trycount.toNat + 4
  | .counting => 4
  | .wokenDone => 3
  | .waitingDone => 2
  | _ => 0

/-- What the partner has to do at most. -/
def partnerLeft (s : SpliceState) : ℕ :=
  match s.pstatus, s.partner with
  | .jobtodo, .start | .jobtodo, .woken => s.tosplice + 6
  | .jobtodo, .splicing => s.leftToSplice + 4
  | .jobtodo, .finishing => 4
  | .run, .start | .run, .woken => 1
  | _, _ => 0

/-- The steps that are left at most until the call returns and the partner sleeps. -/
def variant (s : SpliceState) : ℕ := s.writerLeft + s.partnerLeft

theorem Resting.variant_lt (h : s.Resting) (ha : a.Works) (hstep : p.next s a = some t) :
    t.variant < s.variant := by
  obtain ⟨hq | hq, rfl⟩ := h.works ha hstep <;>
    simp [variant, writerLeft, partnerLeft, h.writer, h.pstatus, hq]

theorem Busy.awaitJob_variant_lt (h : s.Busy)
    (hpos : s.writer = .counting ∨ s.writer = .wokenDone) : s.awaitJob.variant < s.variant := by
  obtain hp | hp := h.run_or_jobtodo
  · rw [awaitJob_run hp]
    obtain hw | hw := hpos <;> simp [variant, writerLeft, partnerLeft, hp, hw]
  · rw [awaitJob_jobtodo hp]
    obtain hw | hw := hpos <;> simp [variant, writerLeft, partnerLeft, hp, hw]

theorem Busy.takeJob_variant_lt (h : s.Busy)
    (hpos : s.partner = .start ∨ s.partner = .woken) : s.takeJob.variant < s.variant := by
  obtain hp | hp := h.run_or_jobtodo
  · rw [takeJob_run hp]
    obtain hq | hq := hpos <;> simp [variant, writerLeft, partnerLeft, hp, hq]
  · rw [takeJob_of_ne (by simp [hp])]
    by_cases hjob : 0 < s.tosplice
    · obtain hq | hq := hpos <;> simp [variant, writerLeft, partnerLeft, hp, hq, hjob]
    · obtain hq | hq := hpos <;> simp [variant, writerLeft, partnerLeft, hp, hq, hjob]

theorem Busy.variant_lt (h : s.Busy) (ha : a.Works) (hstep : p.next s a = some t) :
    t.variant < s.variant := by
  have hwriter := h.writer
  have hnonneg := h.sound.nonneg
  cases a with
  | call | close | writerWakes | partnerWakes | refill | vmspliceFails | spliceFails =>
      exact ha.elim
  | test =>
      obtain ⟨hw, rfl⟩ := Option.ite_some_none_eq_some.mp hstep
      refine Nat.add_lt_add_right ?_ _
      by_cases hgo : 0 < s.loop.trycount ∧ s.pstatus.alive
      · simp only [writerLeft, hw, if_pos hgo]
        omega
      · simp only [writerLeft, hw, if_neg hgo]
        omega
  | vmsplice n =>
      obtain ⟨⟨hw, hn, hle, -⟩, rfl⟩ := Option.ite_some_none_eq_some.mp hstep
      refine Nat.add_lt_add_right ?_ _
      have hleft : (s.vmsplice n).loop.trycount = s.loop.trycount - n :=
        Splicing.trycount_transferred _ _
      have hpos : 0 < s.loop.trycount := by simpa [WriterFits, hw] using hwriter
      have hafter : (s.vmsplice n).writer = .testing := rfl
      simp only [writerLeft, hw, hafter, hleft]
      omega
  | count =>
      obtain ⟨⟨hw, -⟩, rfl⟩ := Option.ite_some_none_eq_some.mp hstep
      exact h.awaitJob_variant_lt (.inl hw)
  | recheckDone =>
      obtain ⟨hw, rfl⟩ := Option.ite_some_none_eq_some.mp hstep
      exact h.awaitJob_variant_lt (.inr hw)
  | partnerStart =>
      obtain ⟨⟨hq, -⟩, rfl⟩ := Option.ite_some_none_eq_some.mp hstep
      rw [partnerTop_of_alive h.alive]
      exact h.takeJob_variant_lt (.inl hq)
  | partnerRecheck =>
      obtain ⟨⟨hq, -⟩, rfl⟩ := Option.ite_some_none_eq_some.mp hstep
      exact h.takeJob_variant_lt (.inr hq)
  | splice n =>
      obtain ⟨⟨hq, hn, -, -⟩, rfl⟩ := Option.ite_some_none_eq_some.mp hstep
      obtain ⟨hp, hleft⟩ := h.jobtodo_of_splicing hq
      refine Nat.add_lt_add_left ?_ _
      simp only [partnerLeft, SpliceState.splice, hp, hq]
      by_cases hmore : 0 < s.leftToSplice - n
      · simp only [if_pos hmore]
        omega
      · simp only [if_neg hmore]
        omega
  | partnerFinish =>
      obtain ⟨⟨hq, -⟩, rfl⟩ := Option.ite_some_none_eq_some.mp hstep
      have hpartner := h.partner
      have hp : s.pstatus = .jobtodo := by
        obtain hp | hp := h.run_or_jobtodo
        · simp [hp, hq, PartnerFits] at hpartner
        · exact hp
      rw [finish_of_alive h.alive]
      cases hw : s.writer <;>
        simp [variant, writerLeft, partnerLeft, hp, hq, hw, WriterAt.signalled]
  | partnerFail =>
      obtain ⟨⟨hq, -⟩, rfl⟩ := Option.ite_some_none_eq_some.mp hstep
      have hpartner := h.partner
      obtain hp | hp := h.run_or_jobtodo <;> simp [hp, hq, PartnerFits] at hpartner
  | recheckFree =>
      obtain ⟨hw, rfl⟩ := Option.ite_some_none_eq_some.mp hstep
      cases hp : s.pstatus <;> simp [hw, hp, WriterFits] at hwriter
  | join =>
      obtain ⟨⟨hw, -⟩, rfl⟩ := Option.ite_some_none_eq_some.mp hstep
      cases hp : s.pstatus <;> simp [hw, hp, WriterFits] at hwriter

theorem succeeds_of_works (ha : a.Works) : a.Succeeds := by
  cases a <;> first | exact ha.elim | trivial

/-- **What is left becomes less with every step**, and `splice_close` is not called. -/
theorem Open.descends : System.Descends p.next Open SpliceAction.Works variant := by
  rintro s a t (h | h) ha hstep
  · obtain ⟨-, rfl⟩ := h.works ha hstep
    exact ⟨.inl h.sleeps, h.variant_lt ha hstep⟩
  · exact ⟨h.step (succeeds_of_works ha) hstep, h.variant_lt ha hstep⟩

/-- The partner can go on while it owes something that is in the pipe. -/
theorem Busy.partner_goes (h : s.Busy) (hp : s.pstatus = .jobtodo)
    (hpipe : s.partner = .splicing → s.pipe ≠ []) :
    ∃ a t, SpliceAction.Works a ∧ p.next s a = some t := by
  have hpartner := h.partner
  cases hq : s.partner with
  | start => exact ⟨.partnerStart, _, trivial, if_pos ⟨hq, h.locked⟩⟩
  | woken => exact ⟨.partnerRecheck, _, trivial, if_pos ⟨hq, h.locked⟩⟩
  | finishing => exact ⟨.partnerFinish, _, trivial, if_pos ⟨hq, h.locked⟩⟩
  | splicing =>
      obtain ⟨-, hleft⟩ := h.jobtodo_of_splicing hq
      exact ⟨.splice 1, _, trivial, if_pos ⟨hq, Nat.one_pos,
        SplicePipe.tempTosplice_pos hleft, List.length_pos_iff.mpr (hpipe hq)⟩⟩
  | waiting => simp [hp, hq, PartnerFits] at hpartner
  | failing => simp [hp, hq, PartnerFits] at hpartner
  | returned => simp [hp, hq, PartnerFits] at hpartner

/-- **Someone can always go on** while a call runs: a full pipe is the partner's, and an
empty one the writer's. -/
theorem Busy.goes (h : s.Busy) : ∃ a t, SpliceAction.Works a ∧ p.next s a = some t := by
  have hwriter := h.writer
  have howed := h.owed
  cases hw : s.writer with
  | testing => exact ⟨.test, _, trivial, if_pos hw⟩
  | counting => exact ⟨.count, _, trivial, if_pos ⟨hw, h.locked⟩⟩
  | wokenDone => exact ⟨.recheckDone, _, trivial, if_pos hw⟩
  | offering =>
      have hleft : 0 < s.loop.trycount := by simpa [WriterFits, hw] using hwriter
      by_cases hroom : s.pipe.length + 1 ≤ p.maxbytesInpipe
      · exact ⟨.vmsplice 1, _, trivial, if_pos ⟨hw, Nat.one_pos, (h.offers hleft).pos, hroom⟩⟩
      · have hcapacity := p.maxbytesInpipe_pos
        have hp : s.pstatus = .jobtodo := by
          refine h.run_or_jobtodo.resolve_left fun hp => ?_
          simp only [SpliceState.owed, hp] at howed
          omega
        exact h.partner_goes hp fun _ hnil => by simp [hnil] at hroom; omega
  | waitingDone =>
      have hp : s.pstatus = .jobtodo := by
        refine h.run_or_jobtodo.resolve_left fun hp => ?_
        simp [WriterFits, hw, hp] at hwriter
      have hzero : s.loop.trycount = 0 := by simpa [WriterFits, hw, hp] using hwriter
      refine h.partner_goes hp fun hq hnil => ?_
      obtain ⟨-, hleft⟩ := h.jobtodo_of_splicing hq
      simp only [SpliceState.owed, hp, hq, hnil, hzero, List.length_nil] at howed
      omega
  | idle | waitingFree | wokenFree | joining | closed =>
      cases hp : s.pstatus <;> simp [hw, hp, WriterFits] at hwriter

theorem Open.of_inv (h : s.Inv) (hopen : s.pstatus ≠ .ended) : s.Open :=
  h.resolve_right fun hclosing => hopen hclosing.pstatus

end SpliceState

namespace SplicePipe

variable {p : SplicePipe} {s : SpliceState}

/-- **The file holds the buffers, in order and as they were.**  In every interleaving, what
has been written begins the buffers of the calls; and when no call runs, it is all of
them, and every call has returned the size of its buffer. -/
theorem written_in_order (h : p.Reached s) :
    s.file <+: s.buffers.flatten ∧
      (s.writer = .idle ∨ s.writer = .joining ∨ s.writer = .closed →
        s.file = s.buffers.flatten ∧ s.pipe = [] ∧
          s.results = s.buffers.map fun b => (b.length : ℤ)) := by
  obtain (h | h) | h := h.inv
  · exact ⟨h.file ▸ List.prefix_rfl, fun _ => ⟨h.file, h.pipe, h.results⟩⟩
  · refine ⟨⟨_, h.file⟩, fun hw => ?_⟩
    have hwriter := h.writer
    obtain hw | hw | hw := hw <;> cases hp : s.pstatus <;> simp [hw, hp, WriterFits] at hwriter
  · exact ⟨h.file ▸ List.prefix_rfl, fun _ => ⟨h.file, h.pipe, h.results⟩⟩

/-- A call with three bytes, of which the partner gets the last one late. -/
def written : List SpliceAction :=
  [.call 5 3, .test, .vmsplice 2, .partnerStart, .test, .splice 1, .vmsplice 1, .test, .count,
    .splice 2, .partnerFinish, .recheckDone]

theorem reached_written : ∃ s, twoPagePipe.Reached s ∧ s.writer = .idle ∧ s.pstatus = .run ∧
    s.results = [3] ∧ s.buffers = [[5, 6, 7]] := by
  have hview : (System.runFrom twoPagePipe.next started written).map
      (fun s => (s.writer, s.pstatus, s.results, s.buffers)) =
        some (.idle, .run, [3], [[5, 6, 7]]) := by decide +kernel
  obtain ⟨s, hrun, hs⟩ := Option.map_eq_some_iff.mp hview
  simp only [Prod.mk.injEq] at hs
  refine ⟨s, ?_, hs⟩
  apply System.ReachableUnder.runFrom (.init isStart_started) (.of_forall ?_) hrun
  simp [written, SpliceAction.Succeeds]

theorem written_in_order_written : ∃ s, twoPagePipe.Reached s ∧ s.writer = .idle ∧
    s.file = [5, 6, 7] := by
  obtain ⟨s, hs, hw, -, -, hbuffers⟩ := reached_written
  refine ⟨s, hs, hw, ?_⟩
  rw [((written_in_order hs).2 (.inl hw)).1, hbuffers]
  rfl

/-- **A call always returns.**  Until `splice_close` is called, the threads take no more
steps than `variant`, and they only stop when the writer is in no call. -/
theorem splice_write_returns (h : p.Reached s) (hopen : s.pstatus ≠ .ended)
    {as : List SpliceAction} {t : SpliceState} (has : ∀ a ∈ as, a.Works)
    (hrun : System.runFrom p.next s as = some t) :
    as.length ≤ s.variant ∧
      (t.writer = .idle ∨ ∃ a u, SpliceAction.Works a ∧ p.next t a = some u) := by
  have hstart := SpliceState.Open.of_inv h.inv hopen
  have hlength := System.runFrom_length_le SpliceState.Open.descends hstart has hrun
  refine ⟨by omega, ?_⟩
  have hend : t.Open := System.runFrom_invariant
    (fun _ _ _ hs ha hstep => (SpliceState.Open.descends _ _ _ hs ha hstep).1) hstart has hrun
  obtain hrest | hbusy := hend
  · exact .inl hrest.writer
  · exact .inr hbusy.goes

/-- The call of `written` returns, in whatever order the threads go on. -/
theorem splice_write_returns_called : ∃ s, twoPagePipe.Reached s ∧ s.writer = .testing ∧
    ∀ as t, (∀ a ∈ as, SpliceAction.Works a) → System.runFrom twoPagePipe.next s as = some t →
      as.length ≤ 20 ∧ (t.writer = .idle ∨
        ∃ a u, SpliceAction.Works a ∧ twoPagePipe.next t a = some u) := by
  have hview : (System.runFrom twoPagePipe.next started [.call 5 3]).map
      (fun s => (s.writer, s.pstatus, s.variant)) = some (.testing, .jobtodo, 20) := by
    decide +kernel
  obtain ⟨s, hrun, hs⟩ := Option.map_eq_some_iff.mp hview
  simp only [Prod.mk.injEq] at hs
  obtain ⟨hw, hp, hvariant⟩ := hs
  have hreached : twoPagePipe.Reached s := by
    apply System.ReachableUnder.runFrom (.init isStart_started) (.of_forall ?_) hrun
    simp [SpliceAction.Succeeds]
  refine ⟨s, hreached, hw, fun as t has ht => ?_⟩
  rw [← hvariant]
  exact splice_write_returns hreached (by simp [hp]) has ht

end SplicePipe

end VlbiStreamer.Recorder
