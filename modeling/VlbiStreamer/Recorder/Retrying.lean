import VlbiStreamer.Recorder.SyncWriting
import VlbiStreamer.Recorder.WriteLoop

/-!
# Retrying a failed attempt

`sbuf_simple_write_loop` puts `diff` and `bufoffset` back after a failed attempt and calls
`write_buffer` again.  The saved copy of `diff` is an `int`.

`retried_of_told` says when a recording is retried from the start: always before the first
failure, and afterwards exactly for buffers of less than 2 GiB.  An attempt that starts anew
and succeeds takes the whole buffer into one file as long as none of its failures passes for
something else.
-/

namespace VlbiStreamer.Recorder

open Library

/-- `filesizemb` of the configuration, an `int`, and the elements of a buffer that
`calculate_buffer_sizes_singlefilesize` gets from it. -/
structure Configured (filesizemb : ℕ) (o : Opt) : Prop where
  int : filesizemb < 2 ^ 31
  elems : o.bufNumElems = filesizemb * 2 ^ 20 / o.packetSize % 2 ^ 32

/-- `ls'` comes `n` attempts after `ls`, which all returned an error. -/
inductive FailedAttempts (o : Opt) (ls : Loop) : ℕ → Loop → Prop
  | none : FailedAttempts o ls 0 ls
  | more {n : ℕ} {ls' ls'' : Loop} {acq : Acquire} {calls : List Call} {ret : ℤ} {s : Sbuf} :
      FailedAttempts o ls n ls' → writeBuffer o ls'.sbuf acq calls = some (.returned ret s) →
      ret ≠ 0 → ls'.step o (.attempt acq calls) = some ls'' → FailedAttempts o ls (n + 1) ls''

/-- The next attempt starts with the whole buffer and without a recorder. -/
structure StartsAnew (diff : BitVec 64) (ls : Loop) : Prop where
  bufoffset : ls.sbuf.bufoffset = 0
  diff : ls.sbuf.diff = diff
  recer : ls.sbuf.recer = false

/-- The bytes of the buffer that the calls of an attempt take. -/
def takenBytes (o : Opt) : List Call → Sbuf → List ℤ
  | [], _ => []
  | .check ret :: rest, s => takenBytes o rest (sbufCheck s ret).2
  | .write ret :: rest, s =>
      match simpleWriteBytes o s with
      | none => []
      | some req =>
          stretch s.bufoffset ret.toNat ++ takenBytes o rest (writeAnswered req s ret).2

/-- The attempt takes the first `size` bytes of the buffer into the file of one recorder: the
synchronous loop each of them, the asynchronous one as many. -/
structure TakesWhole (o : Opt) (size : ℕ) (s : Sbuf) (acq : Acquire) (calls : List Call) :
    Prop where
  recorder : acq = .got
  amount : size ≤ bytesTaken o calls
  bytes : o.asyncWrite = false →
    ∀ i < size, (i : ℤ) ∈ takenBytes o calls { s with recer := true }

section Results

variable {o : Opt} {ls ls' ls₀ : Loop} {s s' : Sbuf} {acq : Acquire} {calls : List Call}
  {ret : ℤ} {d : BitVec 64} {n filesizemb : ℕ} {req : Request}

/-! ## No recorder is held over -/

theorem writeBuffer_recer (h : writeBuffer o s acq calls = some (.returned ret s'))
    (hrecer : s.recer = false) : s'.recer = false := by
  unfold writeBuffer at h
  rw [hrecer] at h
  cases acq with
  | noRecer =>
      obtain ⟨-, hout⟩ := ended_eq h
      obtain ⟨-, rfl⟩ := Outcome.returned.inj hout
      rfl
  | failed =>
      obtain ⟨-, hout⟩ := ended_eq h
      obtain ⟨-, rfl⟩ := Outcome.returned.inj hout
      exact hrecer
  | got =>
      obtain ⟨out, -, hout⟩ := Option.map_eq_some_iff.mp h
      cases out with
      | returned ret' s'' =>
          obtain ⟨-, rfl⟩ := Outcome.returned.inj hout
          rfl
      | waiting s'' => cases hout
      | aborted => cases hout

theorem Loop.fill_spec (h : ls.fill o d = some ls₀) :
    ls.phase = .sleeping ∧ ls₀.sbuf = { ls.sbuf with diff := d, bufoffset := 0 } ∧
      ls₀.savedif = d.setWidth 32 := by
  unfold Loop.fill at h
  split at h
  next hready =>
    obtain rfl := Option.some.inj h
    exact ⟨hready.1, rfl, rfl⟩
  · cases h

theorem Loop.step_attempt (h : ls.step o (.attempt acq calls) = some ls') :
    ls.phase = .trying ∧ ∃ r rest out, writeBuffer o ls.sbuf acq calls = some out ∧
      ls' = ls.attempted r rest ⟨calls, out⟩ := by
  simp only [Loop.step] at h
  split at h
  next htrying =>
    split at h
    · cases h
    next r rest _ =>
      obtain ⟨out, hout, rfl⟩ := Option.map_eq_some_iff.mp h
      exact ⟨htrying.1, r, rest, out, hout, rfl⟩
  · cases h

/-- Outside of an attempt the thread holds no recorder. -/
def Loop.Released (ls : Loop) : Prop := ls.phase ≠ .inside → ls.sbuf.recer = false

theorem Loop.Released.step {act : LoopAction} (h : ls.Released)
    (hstep : ls.step o act = some ls') : ls'.Released := by
  cases act with
  | fill diff =>
      obtain ⟨hphase, hsbuf, -⟩ := Loop.fill_spec hstep
      intro _
      rw [hsbuf]
      exact h (by rw [hphase]; decide)
  | attempt acq calls =>
      obtain ⟨hphase, r, rest, out, hout, rfl⟩ := Loop.step_attempt hstep
      have hrecer : ls.sbuf.recer = false := h (by rw [hphase]; decide)
      cases out with
      | returned ret s =>
          have hreleased := writeBuffer_recer hout hrecer
          intro _
          unfold Loop.attempted
          split
          next hret =>
            obtain ⟨rfl, rfl⟩ := Outcome.returned.inj hret
            split
            · exact hreleased
            · exact hreleased
          next hwaiting => cases hwaiting
          next haborted => cases haborted
      | waiting s => exact fun hphase' => absurd rfl hphase'
      | aborted => exact fun hphase' => absurd rfl hphase'

theorem released_of_reachable (h : (simpleWriteLoop o).Reachable ls) : ls.Released := by
  refine h.invariant (fun ls hinit => ?_) fun ls act ls' hreleased hstep => ?_
  · exact fun _ => hinit.2.2.1
  · exact hreleased.step hstep

/-! ## The byte count -/

theorem restored_setWidth_iff (h : d.toNat < 2 ^ 63) :
    restored (d.setWidth 32) = d ↔ d.toNat < 2 ^ 31 := by
  unfold restored
  rw [← BitVec.toInt_inj, BitVec.toInt_signExtend_of_le (by decide),
    BitVec.toInt_eq_toNat_of_lt (show 2 * d.toNat < 2 ^ 64 by omega),
    BitVec.toInt_eq_toNat_cond, BitVec.toNat_setWidth]
  split <;> omega

/-! ## The attempts -/

theorem FailedAttempts.last (h : FailedAttempts o ls₀ n ls') (hrecer : ls₀.sbuf.recer = false) :
    ls'.savedif = ls₀.savedif ∧
      (n = 0 ∧ ls' = ls₀ ∨ 0 < n ∧ StartsAnew (restored ls₀.savedif) ls') := by
  induction h with
  | none => exact ⟨rfl, Or.inl ⟨rfl, rfl⟩⟩
  | @more n ls' ls'' acq calls ret s _ hout hret hstep ih =>
      obtain ⟨hsaved, hlast⟩ := ih
      have hheld : ls'.sbuf.recer = false := by
        rcases hlast with ⟨-, rfl⟩ | ⟨-, hanew⟩
        · exact hrecer
        · exact hanew.recer
      obtain ⟨-, r, rest, out, hout', rfl⟩ := Loop.step_attempt hstep
      obtain rfl := Option.some.inj (hout.symm.trans hout')
      have hnext : ls'.attempted r rest ⟨calls, .returned ret s⟩ =
          { ls' with
            sbuf := { s with diff := restored ls'.savedif, bufoffset := 0 }
            recordings := { r with attempts := ⟨calls, .returned ret s⟩ :: r.attempts } :: rest } :=
        if_pos hret
      rw [hnext]
      have hreleased : s.recer = false := writeBuffer_recer hout hheld
      exact ⟨hsaved, Or.inr ⟨Nat.succ_pos n, rfl, congrArg restored hsaved, hreleased⟩⟩

theorem Configured.fits (h : Configured filesizemb o) :
    o.packetSize * o.bufNumElems ≤ filesizemb * 2 ^ 20 := by
  rw [h.elems]
  calc o.packetSize * (filesizemb * 2 ^ 20 / o.packetSize % 2 ^ 32)
      ≤ o.packetSize * (filesizemb * 2 ^ 20 / o.packetSize) :=
        Nat.mul_le_mul_left _ (Nat.mod_le _ _)
    _ ≤ filesizemb * 2 ^ 20 := Nat.mul_div_le _ _

/-- **When a recording starts anew.** -/
theorem startsAnew_iff (hreach : (simpleWriteLoop o).Reachable ls)
    (hconf : Configured filesizemb o) (hsize : d.toNat ≤ o.packetSize * o.bufNumElems)
    (hfill : ls.fill o d = some ls₀) (hfails : FailedAttempts o ls₀ n ls') :
    StartsAnew d ls' ↔ n = 0 ∨ d.toNat < 2 ^ 31 := by
  obtain ⟨hphase, hsbuf, hsaved⟩ := Loop.fill_spec hfill
  have hrecer : ls₀.sbuf.recer = false := by
    rw [hsbuf]
    exact released_of_reachable hreach (by rw [hphase]; decide)
  have hword : d.toNat < 2 ^ 63 := by
    have hint := hconf.int
    have hfits := hconf.fits
    omega
  rcases (hfails.last hrecer).2 with ⟨hzero, rfl⟩ | ⟨hpos, hanew⟩
  · refine iff_of_true ⟨?_, ?_, hrecer⟩ (Or.inl hzero)
    · rw [hsbuf]
    · rw [hsbuf]
  · rw [hsaved] at hanew
    rw [or_iff_right (Nat.ne_of_gt hpos), ← restored_setWidth_iff hword]
    exact ⟨fun h => hanew.diff.symm.trans h.diff, fun h => h ▸ hanew⟩

/-- A byte behind what a write took is still to be written. -/
theorem writeAnswered_moved {i : ℕ} (h : simpleWriteBytes o s = some req) (heof : ret ≠ eof)
    (hnonneg : 0 ≤ ret) (hbehind : ret.toNat ≤ i) (hi : i < s.diff.toNat) :
    ∃ moved ≤ i, (writeAnswered req s ret).2.bufoffset = s.bufoffset + (moved : ℤ) ∧
      i - moved < (writeAnswered req s ret).2.diff.toNat := by
  have hword := s.diff.isLt
  have hofInt : (BitVec.ofInt 64 ret).toNat = ret.toNat := by
    rw [BitVec.toNat_ofInt]
    omega
  unfold writeAnswered
  rw [if_neg heof, if_neg (not_lt.mpr hnonneg)]
  by_cases hzero : ret = 0
  · rw [if_pos hzero]
    exact ⟨0, Nat.zero_le i, (add_zero _).symm, hi⟩
  rw [if_neg hzero]
  by_cases hcount : BitVec.ofInt 64 ret = req.count
  · rw [if_neg (not_not.mpr hcount)]
    have hwhole : req.count.toNat = ret.toNat := by
      rw [← hcount, hofInt]
    have horig : req.origcount.toNat ≤ req.count.toNat :=
      (simpleWriteBytes_le h).resolve_right (by omega)
    refine ⟨req.origcount.toNat, by omega, rfl, ?_⟩
    show _ < (s.diff - req.origcount).toNat
    rw [BitVec.toNat_sub_of_le (BitVec.le_def.mpr (by omega))]
    omega
  · rw [if_pos hcount]
    refine ⟨ret.toNat, hbehind, ?_, ?_⟩
    · show s.bufoffset + ret = _
      omega
    · show _ < (s.diff - BitVec.ofInt 64 ret).toNat
      rw [BitVec.toNat_sub_of_le (BitVec.le_def.mpr (by omega)), hofInt]
      omega

/-- A successful attempt of the synchronous loop takes every byte. -/
theorem mem_takenBytes (h : syncLoop o calls s = some (.returned 0 s'))
    (htold : ∀ c ∈ calls, c.Told) {i : ℕ} (hi : i < s.diff.toNat) :
    s.bufoffset + (i : ℤ) ∈ takenBytes o calls s := by
  induction calls generalizing s i with
  | nil =>
      have hleft : s.diff ≠ 0 := by
        intro hzero
        rw [hzero] at hi
        exact Nat.not_lt_zero _ hi
      have hout : some (if s.diff = 0 then Outcome.returned 0 s else atChunk o s) =
          some (.returned 0 s') := h
      rw [if_neg hleft] at hout
      exact absurd (Option.some.inj hout) (atChunk_ne 0 s')
  | cons c rest ih =>
      cases c with
      | check ret => cases h
      | write ret =>
          have hret : ret ≠ eof := htold (.write ret) List.mem_cons_self
          simp only [syncLoop] at h
          split at h
          · cases h
          split at h
          · cases h
          next req hreq =>
            split at h
            next hok =>
              simp only [takenBytes, hreq]
              refine List.mem_append.mpr ?_
              by_cases hnow : i < ret.toNat
              · exact Or.inl (List.mem_map.mpr ⟨i, List.mem_range.mpr hnow, rfl⟩)
              · have hnonneg : 0 ≤ ret := (writeAnswered_spec hreq hret).1.mp hok
                obtain ⟨moved, hmoved, hoffset, hleft⟩ :=
                  writeAnswered_moved hreq hret hnonneg (Nat.le_of_not_lt hnow) hi
                have hmem := ih h (fun c hc => htold c (List.mem_cons_of_mem _ hc)) hleft
                rw [hoffset] at hmem
                have hplace : s.bufoffset + (i : ℤ) = s.bufoffset + moved + (i - moved : ℕ) := by
                  omega
                rw [hplace]
                exact Or.inr hmem
            next => exact absurd (ended_eq h).2 (by simp)

/-- An attempt that starts anew and succeeds. -/
theorem takesWhole_of_told (hanew : StartsAnew d ls)
    (h : writeBuffer o ls.sbuf acq calls = some (.returned 0 s'))
    (htold : ∀ c ∈ calls, c.Told) : TakesWhole o d.toNat ls.sbuf acq calls := by
  have hspec := writeBuffer_spec h htold
  rw [hanew.diff] at hspec
  unfold writeBuffer at h
  rw [hanew.recer] at h
  cases acq with
  | noRecer => cases (Outcome.returned.inj (ended_eq h).2).1
  | failed => cases (Outcome.returned.inj (ended_eq h).2).1
  | got =>
      refine ⟨rfl, hspec.took s' rfl, fun hsync i hi => ?_⟩
      obtain ⟨out, hloop, hout⟩ := Option.map_eq_some_iff.mp h
      unfold writeLoop at hloop
      rw [if_neg (by rw [hsync]; decide)] at hloop
      have hdone : ∃ s'', out = .returned 0 s'' := by
        cases out with
        | returned ret s'' =>
            have hret := (Outcome.returned.inj hout).1
            split at hret
            · cases hret
            next hzero => exact ⟨s'', by rw [not_not.mp hzero]⟩
        | waiting s'' => cases hout
        | aborted => cases hout
      obtain ⟨s'', rfl⟩ := hdone
      have hmem := mem_takenBytes hloop htold (i := i) (by rw [← hanew.diff] at hi; exact hi)
      have hstart : (i : ℤ) = ls.sbuf.bufoffset + i := by rw [hanew.bufoffset, zero_add]
      rw [hstart]
      exact hmem

/-- **A failed attempt is retried from the start**, for every number of failed attempts, when the
buffer's byte count is an `int`; before the first failure it need not be.  The next success
takes the whole buffer if no failure passes for something else. -/
theorem retried_of_told (hreach : (simpleWriteLoop o).Reachable ls)
    (hconf : Configured filesizemb o) (hsize : d.toNat ≤ o.packetSize * o.bufNumElems)
    (hfill : ls.fill o d = some ls₀) (hfails : FailedAttempts o ls₀ n ls') :
    (StartsAnew d ls' ↔ n = 0 ∨ d.toNat < 2 ^ 31) ∧
      ∀ acq calls s', (n = 0 ∨ d.toNat < 2 ^ 31) → (∀ c ∈ calls, c.Told) →
        writeBuffer o ls'.sbuf acq calls = some (.returned 0 s') →
        TakesWhole o d.toNat ls'.sbuf acq calls := by
  have hiff := startsAnew_iff hreach hconf hsize hfill hfails
  exact ⟨hiff, fun acq calls s' hint htold h => takesWhole_of_told (hiff.mpr hint) h htold⟩

/-! ## Two recordings -/

/-- Packets of 8 KiB in buffers of `filesizemb` MiB. -/
def sizedOpt (filesizemb : ℕ) : Opt :=
  { exampleOpt with packetSize := 8192, bufNumElems := filesizemb * 128 }

/-- The thread tries a buffer of `diff` bytes. -/
def handedOver (diff : BitVec 64) (attempts : List Attempt) (left : BitVec 64) : Loop where
  sbuf := ⟨left, 0, 0, false, true⟩
  savedif := diff.setWidth 32
  phase := .trying
  recordings := [⟨diff, attempts, false, false⟩]

/-- A buffer is handed over, and the first recorder cannot be acquired. -/
theorem failedAttempts_one {filesizemb : ℕ} :
    FailedAttempts (sizedOpt filesizemb) (handedOver d [] d) 1
      (handedOver d [⟨[], .returned (-1) ⟨d, 0, 0, false, true⟩⟩] (restored (d.setWidth 32))) :=
  .more .none (rfl : writeBuffer _ _ .failed [] = some (.returned (-1) _)) (by decide) rfl

/-- 8192 bytes, which the second attempt writes. -/
theorem retried_of_told_once :
    StartsAnew 8192 (handedOver 8192 [⟨[], .returned (-1) ⟨8192, 0, 0, false, true⟩⟩] 8192) ∧
      TakesWhole (sizedOpt 1) 8192 ⟨8192, 0, 0, false, true⟩ .got [.write 8192] := by
  have hfill : exampleStart.fill (sizedOpt 1) 8192 = some (handedOver 8192 [] 8192) := rfl
  obtain ⟨hanew, hwhole⟩ := retried_of_told (.init ⟨rfl, rfl, rfl, rfl⟩)
    (show Configured 1 (sizedOpt 1) from ⟨by decide, rfl⟩) (by decide) hfill
    failedAttempts_one
  exact ⟨hanew.mpr (Or.inr (by decide)),
    hwhole .got [.write 8192] _ (Or.inr (by decide)) (by decide) rfl⟩

/-- **2 GiB come back negative.**  `filesizemb` is 2048, and the first recorder cannot be
acquired. -/
theorem twoGiB_not_retried : ¬ ∀ (o : Opt) (ls ls₀ ls' : Loop) (d : BitVec 64)
    (filesizemb n : ℕ), (simpleWriteLoop o).Reachable ls → Configured filesizemb o →
    d ≠ 0 → d.toNat ≤ o.packetSize * o.bufNumElems → ls.fill o d = some ls₀ →
    FailedAttempts o ls₀ n ls' →
    StartsAnew d ls' ∧ ∀ acq calls s',
      writeBuffer o ls'.sbuf acq calls = some (.returned 0 s') →
      TakesWhole o d.toNat ls'.sbuf acq calls := by
  intro h
  have hfill : exampleStart.fill (sizedOpt 2048) (2 ^ 31) =
      some (handedOver (2 ^ 31) [] (2 ^ 31)) := rfl
  have hanew := (h _ _ _ _ _ 2048 1 (.init ⟨rfl, rfl, rfl, rfl⟩) ⟨by decide, rfl⟩ (by decide)
    (by decide) hfill failedAttempts_one).1
  have hdiff : restored ((2 ^ 31 : BitVec 64).setWidth 32) = 2 ^ 31 := hanew.diff
  revert hdiff
  decide

end Results

end VlbiStreamer.Recorder
