import VlbiStreamer.Library.Transition
import VlbiStreamer.Recorder.WriteBuffer

/-!
# The write loop of a recording

The thread of a buffer runs `sbuf_simple_write_loop`: it sleeps until the
receiver hands over a filled buffer, tries `write_buffer` until it returns zero,
marks the file `FH_ONDISK` and frees the buffer.  After a failed attempt the
byte count comes back from `savedif`, which is an `int`.

`Recording.Safe` says that no failure was taken for success while one buffer was
written.  It fails at the first write that fails (`failedWrite_marked`), because
`-1` is `EOF`; `safe_of_reachable` is what holds when the answers are told apart.
-/

namespace VlbiStreamer.Recorder

open Library

/-! ## The loop -/

/-- One finished or open call of `write_buffer`. -/
structure Attempt where
  calls : List Call
  out : Outcome
  deriving DecidableEq

/-- A buffer from the moment it is handed to the loop: its bytes, the attempts
(the latest first), and whether `FH_ONDISK` was added and the buffer freed. -/
structure Recording where
  size : BitVec 64
  attempts : List Attempt
  onDisk : Bool
  freed : Bool
  deriving DecidableEq

/-- Where the thread is: it waits for a buffer, it is about to call
`write_buffer`, or it is inside for good. -/
inductive Phase where
  | sleeping
  | trying
  | inside
  deriving DecidableEq

/-- The thread of a buffer; `recordings` has the latest first. -/
structure Loop where
  sbuf : Sbuf
  savedif : BitVec 32
  phase : Phase
  recordings : List Recording
  deriving DecidableEq

/-- A buffer of `diff` bytes is handed over, or `write_buffer` is called. -/
inductive LoopAction where
  | fill (diff : BitVec 64)
  | attempt (acq : Acquire) (calls : List Call)

/-- `savedif` and back: `int` and `unsigned long`. -/
def restored (savedif : BitVec 32) : BitVec 64 := savedif.signExtend 64

/-- `sbuf_simple_write_loop` takes a filled buffer. -/
def Loop.fill (o : Opt) (ls : Loop) (diff : BitVec 64) : Option Loop :=
  if ls.phase = .sleeping ∧ ls.sbuf.running ∧ diff ≠ 0 ∧
      (o.haveAssert → diff.toNat % 2 ^ 32 ≤ o.packetSize * o.bufNumElems) then
    some { ls with
      sbuf := { ls.sbuf with diff := diff, bufoffset := 0 }
      savedif := diff.setWidth 32
      phase := .trying
      recordings := ⟨diff, [], false, false⟩ :: ls.recordings }
  else none

/-- `sbuf_simple_write_loop` after `write_buffer`: a failed attempt puts the byte
count and the offset back, a successful one updates the file and frees the buffer. -/
def Loop.attempted (ls : Loop) (r : Recording) (rest : List Recording) (a : Attempt) : Loop :=
  match a.out with
  | .returned ret s =>
      if ret ≠ 0 then
        { ls with
          sbuf := { s with diff := restored ls.savedif, bufoffset := 0 }
          recordings := { r with attempts := a :: r.attempts } :: rest }
      else
        { ls with
          sbuf := s
          phase := .sleeping
          recordings := ⟨r.size, a :: r.attempts, true, true⟩ :: rest }
  | .waiting s =>
      { ls with
        sbuf := s
        phase := .inside
        recordings := { r with attempts := a :: r.attempts } :: rest }
  | .aborted =>
      { ls with
        phase := .inside
        recordings := { r with attempts := a :: r.attempts } :: rest }

/-- One step of the thread. -/
def Loop.step (o : Opt) (ls : Loop) : LoopAction → Option Loop
  | .fill diff => ls.fill o diff
  | .attempt acq calls =>
      if ls.phase = .trying ∧ ls.sbuf.running then
        match ls.recordings with
        | [] => none
        | r :: rest =>
            (writeBuffer o ls.sbuf acq calls).map fun out =>
              ls.attempted r rest ⟨calls, out⟩
      else none

/-- The thread starts without a buffer and without a recorder. -/
def simpleWriteLoop (o : Opt) : System Loop LoopAction where
  init ls := ls.phase = .sleeping ∧ ls.sbuf.running = true ∧ ls.sbuf.recer = false ∧
    ls.recordings = []
  step ls a ls' := ls.step o a = some ls'

/-! ## No failure is taken for success -/

/-- An attempt that saw a negative answer returned and did not return zero. -/
def Attempt.Reports (a : Attempt) : Prop :=
  (∃ c ∈ a.calls, c.Failed) → ∃ ret s, a.out = .returned ret s ∧ ret ≠ 0

/-- Write failures are never taken for success: every attempt reports, and the
file was marked and the buffer freed only after an attempt in which the recorder
took every byte. -/
structure Recording.Safe (o : Opt) (r : Recording) : Prop where
  reported : ∀ a ∈ r.attempts, a.Reports
  written : r.onDisk = true ∨ r.freed = true → ∃ a before s, r.attempts = a :: before ∧
    a.out = .returned 0 s ∧ r.size.toNat ≤ bytesTaken o a.calls

/-- The condition: every answer of the attempt is told apart, and if it can fail
then the byte count survives `savedif`. -/
def TellsApart (ls : Loop) : LoopAction → Prop
  | .fill _ => True
  | .attempt acq calls =>
      (∀ c ∈ calls, c.Told) ∧
      (acq ≠ .got ∨ (∃ c ∈ calls, c.Rejected) →
        ∀ r ∈ ls.recordings.head?, r.size.toNat ≤ (restored ls.savedif).toNat)

instance (ls : Loop) (act : LoopAction) : Decidable (TellsApart ls act) := by
  cases act
  · exact inferInstanceAs (Decidable True)
  · exact inferInstanceAs (Decidable (_ ∧ _))

/-- What holds of the thread between two attempts. -/
structure Loop.Inv (o : Opt) (ls : Loop) : Prop where
  safe : ∀ r ∈ ls.recordings, r.Safe o
  /-- A buffer that is being tried has not been let go, and all of it is to be
  written. -/
  trying : ls.phase = .trying → ∃ r rest, ls.recordings = r :: rest ∧
    r.onDisk = false ∧ r.freed = false ∧ r.size.toNat ≤ ls.sbuf.diff.toNat

section Invariant

variable {o : Opt} {ls ls' : Loop} {r : Recording} {rest : List Recording} {a : Attempt}

theorem Loop.Inv.fill {diff : BitVec 64} (h : ls.Inv o) (hstep : ls.fill o diff = some ls') :
    ls'.Inv o := by
  unfold Loop.fill at hstep
  split at hstep
  · obtain rfl := Option.some.inj hstep
    constructor
    · intro r hr
      rcases List.mem_cons.mp hr with rfl | hr
      · exact ⟨fun a ha => by simp at ha, fun hlet => by simp at hlet⟩
      · exact h.safe r hr
    · exact fun _ => ⟨_, _, rfl, rfl, rfl, le_rfl⟩
  · cases hstep

/-- Another attempt at a buffer that has not been let go. -/
theorem Recording.Safe.retry (h : r.Safe o) (hdisk : r.onDisk = false)
    (hfreed : r.freed = false) (ha : a.Reports) :
    ({ r with attempts := a :: r.attempts } : Recording).Safe o where
  reported a' hmem := by
    rcases List.mem_cons.mp hmem with rfl | hbefore
    · exact ha
    · exact h.reported a' hbefore
  written hlet := by simp [hdisk, hfreed] at hlet

/-- **An attempt preserves the invariant.** -/
theorem Loop.Inv.attempted {acq : Acquire} (h : ls.Inv o) (hphase : ls.phase = .trying)
    (hrec : ls.recordings = r :: rest) (htells : TellsApart ls (.attempt acq a.calls))
    (hout : writeBuffer o ls.sbuf acq a.calls = some a.out) :
    (ls.attempted r rest a).Inv o := by
  obtain ⟨htold, hsurvives⟩ := htells
  have hspec := writeBuffer_spec hout htold
  obtain ⟨_, _, hrec', hdisk, hfreed, hsize⟩ := h.trying hphase
  obtain ⟨rfl, rfl⟩ := List.cons.inj (hrec.symm.trans hrec')
  have hsafe : r.Safe o := h.safe r (by simp [hrec])
  have hothers : ∀ r' ∈ rest, r'.Safe o := fun r' hr' => h.safe r' (by simp [hrec, hr'])
  have hreports : a.Reports := fun hfail => by
    obtain ⟨s', hs'⟩ := hspec.failed hfail
    exact ⟨-1, s', hs', by decide⟩
  have hagain := hsafe.retry hdisk hfreed hreports
  have hall : ∀ {r' : Recording}, r'.Safe o → ∀ x ∈ r' :: rest, x.Safe o := by
    intro r' hr' x hx
    rcases List.mem_cons.mp hx with rfl | hx
    · exact hr'
    · exact hothers x hx
  unfold Loop.attempted
  cases hcase : a.out with
  | returned ret s =>
      by_cases hret : ret = 0
      · -- success: the recorder took every byte
        subst hret
        refine ⟨hall ⟨hagain.reported, fun _ => ⟨a, r.attempts, s, rfl, hcase, ?_⟩⟩,
          fun hsleep => by simp at hsleep⟩
        exact hsize.trans (hspec.took s hcase)
      · -- failure: the byte count comes back from `savedif`
        simp only [ne_eq, hret, not_false_eq_true, ↓reduceIte]
        refine ⟨hall hagain, fun _ => ⟨_, _, rfl, hdisk, hfreed, ?_⟩⟩
        exact hsurvives (hspec.gaveUp ret s hcase hret) r (by simp [hrec])
  | waiting s => exact ⟨hall hagain, fun htrying => by simp at htrying⟩
  | aborted => exact ⟨hall hagain, fun htrying => by simp at htrying⟩

theorem Loop.Inv.step {act : LoopAction} (h : ls.Inv o) (htells : TellsApart ls act)
    (hstep : ls.step o act = some ls') : ls'.Inv o := by
  cases act with
  | fill diff => exact h.fill hstep
  | attempt acq calls =>
      simp only [Loop.step] at hstep
      split at hstep
      · split at hstep
        · cases hstep
        next r rest hrec =>
          obtain ⟨out, hout, rfl⟩ := Option.map_eq_some_iff.mp hstep
          exact h.attempted (a := ⟨calls, out⟩) ‹_ ∧ _›.1 hrec htells hout
      · cases hstep

end Invariant

/-! ## The results -/

/-- **Write failures are not taken for success when they can be told apart.** -/
theorem safe_of_reachable (o : Opt) (ls : Loop)
    (h : (simpleWriteLoop o).ReachableUnder TellsApart ls) :
    ∀ r ∈ ls.recordings, r.Safe o := by
  have hinv : ls.Inv o := h.invariant
    (fun ls hinit => ⟨by simp [hinit.2.2.2], by simp [hinit.1]⟩)
    (fun _ _ _ hinv htells hstep => hinv.step htells hstep)
  exact hinv.safe

/-- **The first failed write passes for success.**  Whatever back end records
synchronously and whatever it has written so far: its write fails, the file is
marked `FH_ONDISK` and the buffer is freed. -/
theorem failedWrite_marked {o : Opt} {ls : Loop} {r : Recording} {rest : List Recording}
    {calls : List Call} {s : Sbuf} {count : ℕ} {ret : ℤ}
    (hphase : ls.phase = .trying) (hrunning : ls.sbuf.running = true)
    (hrec : ls.recordings = r :: rest) (hrecer : ls.sbuf.recer = false)
    (hsync : o.asyncWrite = false)
    (hopen : syncLoop o calls { ls.sbuf with recer := true } = some (.waiting s))
    (hret : o.writend.Answers o.packetSize count ret) (hneg : ret < 0) :
    ∃ ls' a, ls.step o (.attempt .got (calls ++ [.write ret])) = some ls' ∧
      ls'.recordings = ⟨r.size, a :: r.attempts, true, true⟩ :: rest := by
  have heof : ret = eof := Backend.write_neg hret hneg
  have hout : writeBuffer o ls.sbuf .got (calls ++ [.write ret]) =
      some (.returned 0 { s with diff := 0, recer := false }) := by
    simp [writeBuffer, writeLoop, hrecer, hsync, heof, syncLoop_eof hopen, Outcome.release]
  let s' : Sbuf := { s with diff := 0, recer := false }
  let a : Attempt := ⟨calls ++ [.write ret], .returned 0 s'⟩
  refine ⟨{ ls with
    sbuf := s'
    phase := .sleeping
    recordings := ⟨r.size, a :: r.attempts, true, true⟩ :: rest }, a, ?_, rfl⟩
  simp [Loop.step, hphase, hrunning, hrec, hout, Loop.attempted, s', a]

/-! ## Two runs -/

/-- Synchronous recording with the default back end, 8192 bytes at a time. -/
def exampleOpt : Opt where
  writend := .recDef
  asyncWrite := false
  writeToSingleFile := false
  statusRunning := true
  haveAssert := true
  packetSize := 1024
  bufNumElems := 8
  doWStuffEvery := 8192

/-- A thread that has just been started. -/
def exampleStart : Loop where
  sbuf := ⟨0, 0, 0, false, true⟩
  savedif := 0
  phase := .sleeping
  recordings := []

theorem exampleStart_reachable {ok : Loop → LoopAction → Prop} :
    (simpleWriteLoop exampleOpt).ReachableUnder ok exampleStart :=
  .init ⟨rfl, rfl, rfl, rfl⟩

/-- A recorder that cannot be acquired, a write that fails with `-5`, and then
the whole buffer. -/
theorem safe_of_reachable_retried : ∃ ls a₁ a₂ a₃,
    (simpleWriteLoop exampleOpt).ReachableUnder TellsApart ls ∧
    ls.recordings = [⟨8192, [a₃, a₂, a₁], true, true⟩] ∧
    ∀ r ∈ ls.recordings, r.Safe exampleOpt := by
  have hstart : (simpleWriteLoop exampleOpt).ReachableUnder TellsApart exampleStart :=
    exampleStart_reachable
  have hfill := hstart.step (show TellsApart exampleStart (.fill 8192) from trivial)
    (by rfl : exampleStart.step exampleOpt _ = some _)
  have hfailed := hfill.step (a := .attempt .failed []) (by decide) (by rfl)
  have hwrite := hfailed.step (a := .attempt .got [.write (-5)]) (by decide) (by rfl)
  have hdone := hwrite.step (a := .attempt .got [.write 8192]) (by decide) (by rfl)
  exact ⟨_, _, _, _, hdone, rfl, safe_of_reachable exampleOpt _ hdone⟩

/-- **One failed `write(2)` loses the buffer.**  `def_write` passes `-1` on, the
attempt returns zero, and the file is on disk. -/
theorem failedWrite_lost : defWrite false true 8192 [-1] = some (-1) ∧
    ¬ ∀ (o : Opt) (ls : Loop), (simpleWriteLoop o).Reachable ls →
      ∀ r ∈ ls.recordings, r.Safe o := by
  refine ⟨by decide, fun hall => ?_⟩
  have hstart : (simpleWriteLoop exampleOpt).ReachableUnder (fun _ _ => True) exampleStart :=
    exampleStart_reachable
  have hfill := hstart.step (a := .fill 8192) trivial
    (by rfl : exampleStart.step exampleOpt _ = some _)
  have hwrite := hfill.step (a := .attempt .got [.write (-1)]) trivial (by rfl)
  have hsafe := hall exampleOpt _ hwrite _ List.mem_cons_self
  obtain ⟨ret, s, hout, hret⟩ :=
    hsafe.reported _ List.mem_cons_self ⟨.write (-1), by simp, by decide⟩
  exact hret (Outcome.returned.inj hout).1.symm

end VlbiStreamer.Recorder
