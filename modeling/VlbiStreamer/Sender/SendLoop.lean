import Mathlib.Algebra.BigOperators.Group.Finset.Basic
import Mathlib.Algebra.Order.BigOperators.Group.Finset
import VlbiStreamer.Sender.FileJump

/-!
# Sending a finished recording

`generic_sendloop` jumps from file to file and sends each loaded buffer packet
by packet.  `Env.Complete` is what it is for: every packet of every file that is
not missing is sent once, in order, and the counters agree with it.

`genericSendloop_complete_iff` says when that comes about: only for a sender that
is stopped before its loop begins and has nothing to send.  A running sender
follows `NULL` in its first jump, whatever the recording.
-/

namespace VlbiStreamer.Sender

open ActiveFileIndex

/-! ## The loop -/

section Functions

variable (env : Env)

/-- `init_sender_tracking` and `throttling_count` on a sender without a buffer. -/
def initSender : SenderState where
  st :=
    { allocatedToLoad := env.allocated
      filesSent := 0
      filesSkipped := 0
      filesLoaded := 0
      packetsLoaded := 0
      packetsSent := 0
      filesInLoading := 0
      nPacketsProbed := BitVec.ofNat 64 env.fi.nPackets
      nFilesProbed := BitVec.ofNat 64 env.fi.nFiles
      totalBytesToSend := 0
      statusProbed := env.fi.status
      packetcounter := 0
      inc := 0 }
  be := none
  asked := 0
  freed := []
  sent := []

/-- `should_i_be_running` -/
def shouldIBeRunning : Run Bool := do
  let running ← ask env.running
  let s ← get
  return running && (decide (s.st.packetsSent < s.st.nPacketsProbed) ||
    decide (s.st.filesSent ≠ s.st.nFilesProbed))

/-- `bboundary_packetnum` -/
def bboundaryPacketnum : Run Unit :=
  track fun st => { st with
    packetcounter := minU (st.nPacketsProbed - st.packetsSent) (env.bufNumElems.setWidth 64) }

/-- `udp_sender_sendcmd`: one packet from the buffer in `se->be`. -/
def sendcmd : Run ℤ := do
  let s ← get
  match s.be with
  | none => throw .nullDeref
  | some held => do
      let err ← ask env.sendto
      if err < 0 then return -1
      if (BitVec.ofInt 32 err).setWidth 64 = env.packetSize then
        modify fun s => { s with
          sent := (held.file, s.st.inc.toNat) :: s.sent
          st := { s.st with
            packetsSent := s.st.packetsSent + 1
            inc := s.st.inc + env.packetSize
            packetcounter := s.st.packetcounter - 1 } }
      return 0

/-- The inner loop of `generic_sendloop`; `false` is an error of `sendcmd`. -/
def sendBuffer : ℕ → Run Bool
  | 0 => throw .outOfFuel
  | fuel + 1 => do
      if 0 < (← get).st.packetcounter then
        let err ← sendcmd env
        if err ≠ 0 then return false
        sendBuffer fuel
      else return true

/-- `UDPS_EXIT` and `UDPS_EXIT_ERROR` hand back the buffer that is held. -/
def udpsExit (ret : ℤ) : Run ℤ := do
  let s ← get
  if s.be.isSome then setFree s.be
  return ret

/-- The loop of `generic_sendloop`. -/
def sendLoop : ℕ → Run ℤ
  | 0 => throw .outOfFuel
  | fuel + 1 => do
      if ← shouldIBeRunning env then
        let err ← jumpToNextFile env fuel
        if err = allDone then udpsExit 0
        else if err < 0 then udpsExit (-1)
        else do
          if (← get).be.isNone then throw .threadExit
          track fun st => { st with inc := 0 }
          bboundaryPacketnum env
          if ← sendBuffer env fuel then sendLoop fuel else udpsExit (-1)
      else udpsExit 0

/-- `generic_sendloop` with `bboundary_packetnum`. -/
def genericSendloop (fuel : ℕ) : Except Stop (ℤ × SenderState) :=
  (sendLoop env fuel).run (initSender env)

end Functions

/-! ## What it is for -/

section Specification

variable (env : Env)

/-- The index is that of a recording that is over: `F ≥ 1` files with their cells,
and `T` packets with `(F - 1) * N < T ≤ F * N`. -/
structure Env.Finished : Prop where
  notRecording : has env.fi.status afiRecord = false
  files : 1 ≤ env.fi.nFiles
  cells : env.fi.nFiles ≤ env.fi.files.length
  above : (env.fi.nFiles - 1) * env.bufNumElems.toNat < env.fi.nPackets
  below : env.fi.nPackets ≤ env.fi.nFiles * env.bufNumElems.toNat
  word : env.fi.nPackets < 2 ^ 64

/-- A file that is marked missing. -/
def Env.isMissing (i : ℕ) : Bool :=
  (env.fi.files[i]?).any fun fh => has fh.status fhMissing

/-- The packets of a file. -/
def Env.packetsOf (i : ℕ) : ℕ :=
  min env.bufNumElems.toNat (env.fi.nPackets - env.bufNumElems.toNat * i)

/-- Each packet of each file that is not missing, as its file and its offset. -/
def Env.packets : List (ℕ × ℕ) :=
  ((List.range env.fi.nFiles).filter fun i => !env.isMissing i).flatMap fun i =>
    (List.range (env.packetsOf i)).map fun k => (i, k * env.packetSize.toNat)

/-- The packets of the missing files. -/
def Env.missingPackets : ℕ :=
  ∑ i ∈ (Finset.range env.fi.nFiles).filter (fun i => env.isMissing i = true), env.packetsOf i

/-- A sender that is done: nothing but the packets was sent, each once and in
order, `files_sent` counts the buffers handed back besides the files it skipped,
and the packets add up. -/
structure Env.Complete (s : SenderState) : Prop where
  sent : s.sent.reverse = env.packets
  files : s.st.filesSent.toNat = s.freed.length + s.st.filesSkipped.toNat
  total : s.st.packetsSent.toNat + env.missingPackets = env.fi.nPackets

end Specification

/-! ## When it comes about -/

section Results

variable {env : Env}

/-- The files of a finished recording hold its packets. -/
theorem sum_packetsOf (h : env.Finished) :
    ∑ i ∈ Finset.range env.fi.nFiles, env.packetsOf i = env.fi.nPackets := by
  have hmin : ∀ n, ∑ i ∈ Finset.range n, env.packetsOf i =
      min env.fi.nPackets (env.bufNumElems.toNat * n) := by
    intro n
    induction n with
    | zero => simp
    | succ n ih =>
        rw [Finset.sum_range_succ, ih, Env.packetsOf, Nat.mul_succ]
        omega
  rw [hmin, Nat.mul_comm]
  exact Nat.min_eq_left h.below

/-- Every file of a finished recording has a packet. -/
theorem packetsOf_pos (h : env.Finished) {i : ℕ} (hi : i < env.fi.nFiles) :
    0 < env.packetsOf i := by
  have hmono : env.bufNumElems.toNat * i ≤ (env.fi.nFiles - 1) * env.bufNumElems.toNat := by
    rw [Nat.mul_comm]
    exact Nat.mul_le_mul_right _ (by omega)
  have habove := h.above
  have hbelow := h.below
  have hpos : 0 < env.bufNumElems.toNat := by
    apply Nat.pos_of_ne_zero
    intro hzero
    rw [hzero, Nat.mul_zero] at hbelow
    omega
  unfold Env.packetsOf
  omega

/-- There is nothing to send only when every file is missing. -/
theorem packets_eq_nil_iff (h : env.Finished) :
    env.packets = [] ↔ ∀ i < env.fi.nFiles, env.isMissing i = true := by
  unfold Env.packets
  rw [List.flatMap_eq_nil_iff]
  constructor
  · intro hnil i hi
    by_contra hpresent
    have hmap := hnil i (by simp [hi, hpresent])
    have hpos := packetsOf_pos h hi
    simp at hmap
    omega
  · intro hmissing i hi
    simp only [List.mem_filter, List.mem_range] at hi
    simp [hmissing i hi.1] at hi

/-- The first test of the loop. -/
theorem shouldIBeRunning_init (h : env.Finished) :
    (shouldIBeRunning env).run (initSender env) =
      .ok (env.running 0, { initSender env with asked := 1 }) := by
  have hword : (BitVec.ofNat 64 env.fi.nPackets).toNat = env.fi.nPackets := by
    rw [BitVec.toNat_ofNat, Nat.mod_eq_of_lt h.word]
  have hpos : 0#64 < BitVec.ofNat 64 env.fi.nPackets := by
    rw [BitVec.lt_def, hword]
    exact (Nat.zero_le _).trans_lt h.above
  have htest : (env.running 0 && (decide (0#64 < BitVec.ofNat 64 env.fi.nPackets) ||
      decide (0#64 ≠ BitVec.ofNat 64 env.fi.nFiles))) = env.running 0 := by
    rw [decide_eq_true hpos, Bool.true_or, Bool.and_true]
  exact congrArg (fun b => Except.ok (b, { initSender env with asked := 1 })) htest

/-- **A running sender does not get past its first jump.** -/
theorem genericSendloop_running (h : env.Finished) (hrunning : env.running 0 = true)
    (fuel : ℕ) : genericSendloop env fuel = .error .outOfFuel ∨
      genericSendloop env fuel = .error .nullDeref := by
  cases fuel with
  | zero => exact Or.inl rfl
  | succ fuel =>
      unfold genericSendloop sendLoop
      rw [run_bind_ok (shouldIBeRunning_init h), hrunning]
      cases fuel with
      | zero => exact Or.inl rfl
      | succ fuel => exact Or.inr (run_bind_error (jumpToNextFile_null rfl))

/-- A sender that is stopped sends nothing. -/
theorem genericSendloop_stopped (h : env.Finished) (hrunning : env.running 0 = false)
    (fuel : ℕ) : genericSendloop env (fuel + 1) =
      .ok (0, { initSender env with asked := 1 }) := by
  unfold genericSendloop sendLoop
  rw [run_bind_ok (shouldIBeRunning_init h), hrunning]
  rfl

/-- **When the sender is complete.**  For a finished recording, whatever the
buffers, the loads and the network answer: exactly when the sender is stopped
before its loop begins and every file is missing. -/
theorem genericSendloop_complete_iff (env : Env) (h : env.Finished) :
    (∃ fuel s, genericSendloop env fuel = .ok (0, s) ∧ env.Complete s) ↔
      env.running 0 = false ∧ ∀ i < env.fi.nFiles, env.isMissing i = true := by
  constructor
  · rintro ⟨fuel, s, hrun, hcomplete⟩
    have hstopped : env.running 0 = false := by
      rw [← Bool.not_eq_true]
      intro hrunning
      rcases genericSendloop_running h hrunning fuel with hstop | hstop <;>
        · rw [hstop] at hrun
          cases hrun
    refine ⟨hstopped, (packets_eq_nil_iff h).mp ?_⟩
    cases fuel with
    | zero => cases hrun
    | succ fuel =>
        rw [genericSendloop_stopped h hstopped] at hrun
        cases hrun
        exact hcomplete.sent.symm
  · rintro ⟨hstopped, hmissing⟩
    refine ⟨1, _, genericSendloop_stopped h hstopped 0, ?_, rfl, ?_⟩
    · exact ((packets_eq_nil_iff h).mpr hmissing).symm
    · have hall : (Finset.range env.fi.nFiles).filter (fun i => env.isMissing i = true) =
          Finset.range env.fi.nFiles :=
        Finset.filter_true_of_mem fun i hi => hmissing i (Finset.mem_range.mp hi)
      show 0 + env.missingPackets = _
      rw [Env.missingPackets, hall, sum_packetsOf h, Nat.zero_add]

end Results

/-! ## A recording on disk -/

/-- Two files of four packets, both on disk, seven packets in all, and a sender
that nobody stops, with a free buffer whenever it asks for one. -/
def exampleEnv : Env where
  fi :=
    { status := afiSend
      packetSize := 1024
      files := [⟨0, fhOndisk⟩, ⟨0, fhOndisk⟩]
      nPackets := 7
      nFiles := 2
      allocatedFiles := 2 }
  bufNumElems := 4
  packetSize := 1024
  allocated := 2
  running := fun _ => true
  checkIfFree := fun _ => 0
  getFree := fun n => some n
  getLoaded := fun n => some n
  sendto := fun _ => 1024

theorem exampleEnv_finished : exampleEnv.Finished where
  notRecording := by decide
  files := by decide
  cells := by decide
  above := by decide
  below := by decide
  word := by decide

/-- The iff for that recording: it is not sent. -/
theorem genericSendloop_complete_iff_example :
    ¬ ∃ fuel s, genericSendloop exampleEnv fuel = .ok (0, s) ∧ exampleEnv.Complete s := by
  rw [genericSendloop_complete_iff exampleEnv exampleEnv_finished]
  exact fun h => absurd h.1 (by decide)

/-- **A recording that is not sent.** -/
theorem recording_not_sent : ¬ ∀ env : Env, env.Finished → (∀ n, env.running n = true) →
    (∀ n, (env.getFree n).isSome) → (∀ n, (env.getLoaded n).isSome) →
    ∃ fuel s, genericSendloop env fuel = .ok (0, s) ∧ env.Complete s := by
  intro hall
  obtain ⟨fuel, s, hrun, -⟩ := hall exampleEnv exampleEnv_finished (fun _ => rfl)
    (fun _ => rfl) (fun _ => rfl)
  rcases genericSendloop_running exampleEnv_finished rfl fuel with hstop | hstop <;>
    · rw [hstop] at hrun
      cases hrun

end VlbiStreamer.Sender
