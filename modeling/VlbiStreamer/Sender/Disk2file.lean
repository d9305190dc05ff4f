import VlbiStreamer.Library.Extent
import VlbiStreamer.Recorder.Writers
import VlbiStreamer.Sender.SendLoop

/-!
# Writing a recording into a file

`disk2file` walks the files of a recording like the sender and writes the packets of each
loaded buffer, without their first `offset` bytes, into one file.

`disk2file_never_copies` says that no recording gets there: `se->be` is `NULL` when
`disk2file` calls `jump_to_next_file`, and the jump follows it.  What the loop would do with a
loaded buffer is `copyBuffer_spec`; the packets it takes from each buffer are counted from the
packets of the whole recording, so that a short last file would be written with the slots
behind its last packet (`copyBuffer_full`).
-/

namespace VlbiStreamer.Sender

open Library (flatMap_range_add length_flatMap_range)
open VlbiStreamer.Recorder (iovMax)

/-- What is around `disk2file`. -/
structure D2fEnv (α : Type) where
  env : Env
  /-- `opt->offset` -/
  offset : BitVec 32
  /-- The bytes of the buffer that a file is loaded into. -/
  bytes : ℕ → ℕ → α
  /-- What `writev` with this number returns for so many bytes. -/
  writev : ℕ → ℕ → ℤ

/-- The sender, the variables of `disk2file` and the output file.  `buf` counts from the start
of the buffer of `file`. -/
structure D2fState (α : Type) where
  sender : SenderState
  file : ℕ
  buf : ℕ
  totalI : BitVec 32
  packetpeek : BitVec 64
  writevs : ℕ
  output : List α
  written : BitVec 64

/-- Functions of `disk2file`. -/
abbrev D2f (α : Type) := StateT (D2fState α) (Except Stop)

section Functions

variable {α : Type} (d : D2fEnv α)

/-- A function of the sender. -/
def onSender {β : Type} (m : Run β) : D2f α β := fun s =>
  match m.run s.sender with
  | .ok (b, sender) => .ok (b, { s with sender := sender })
  | .error e => .error e

/-- `D2FEXIT` -/
def d2fExit : D2f α Unit := do
  let s ← get
  match s.sender.be with
  | none => pure ()
  | some held => do
      onSender (setFree (some held))
      modify fun s => { s with sender := { s.sender with be := none } }

/-- `buf = se->be->simple_get_writebuf(se->be, &inc)` and `total_i = 0` -/
def getWritebuf : D2f α Unit := do
  let s ← get
  match s.sender.be with
  | none => throw .nullDeref
  | some held => set { s with file := held.file, buf := 0, totalI := 0 }

/-- `MIN` of `unsigned int`s. -/
def minU32 (x y : BitVec 32) : BitVec 32 := if x < y then x else y

/-- `iov_len` -/
def D2fEnv.iovLen : ℕ := (d.env.packetSize - d.offset.signExtend 64).toNat

/-- `n` vectors from `buf` on. -/
def D2fEnv.vectors (file buf n : ℕ) : List α :=
  (List.range n).flatMap fun i => (List.range d.iovLen).map fun x =>
    d.bytes file (buf + i * d.env.packetSize.toNat + d.offset.toNat + x)

/-- One `writev` of the inner loop; `false` is its error. -/
def copyBatch (real : BitVec 32) : D2f α Bool := do
  let s ← get
  let i := minU32 (real - s.totalI) (BitVec.ofNat 32 iovMax)
  let vectors := d.vectors s.file s.buf i.toNat
  let ret := d.writev s.writevs vectors.length
  set { s with writevs := s.writevs + 1, output := s.output ++ vectors.take ret.toNat }
  if (BitVec.ofInt 32 ret).toInt < 0 then return false
  modify fun s => { s with
    sender := { s.sender with
      st := { s.sender.st with packetsSent := s.sender.st.packetsSent + i.setWidth 64 } }
    written := s.written +
      (i.setWidth 64 * d.env.packetSize - (i * d.offset).setWidth 64)
    buf := s.buf + i.toNat * d.env.packetSize.toNat
    totalI := s.totalI + i }
  return true

/-- The inner loop of `disk2file`. -/
def copyBuffer (real : BitVec 32) : ℕ → D2f α Bool
  | 0 => throw .outOfFuel
  | fuel + 1 => do
      if (← get).totalI < real then
        if ← copyBatch d real then copyBuffer real fuel else return false
      else return true

/-- `real_num_packets` -/
def realNumPackets (s : D2fState α) : BitVec 32 :=
  minU32 d.env.bufNumElems (s.packetpeek.setWidth 32)

/-- `packetpeek = afi_get_n_packets(opt->fi)` -/
def peek : D2f α Unit := modify fun s => { s with
  packetpeek := BitVec.ofNat 64 d.env.fi.nPackets }

/-- The loop of `disk2file`. -/
def d2fLoop : ℕ → D2f α Unit
  | 0 => throw .outOfFuel
  | fuel + 1 => do
      if ← onSender (shouldIBeRunning d.env) then
        let s ← get
        if s.totalI = d.env.bufNumElems ∨ s.sender.st.packetsSent - s.packetpeek = 0 then
          let err ← onSender (jumpToNextFile d.env fuel)
          peek d
          if err = allDone ∨ err < 0 then
            d2fExit
            return
          getWritebuf
        if ← copyBuffer d (realNumPackets d (← get)) fuel then d2fLoop fuel
        else d2fExit
      else d2fExit

/-- `disk2file` from the first jump on. -/
def d2fBody (fuel : ℕ) : D2f α Unit := do
  let _ ← onSender (jumpToNextFile d.env fuel)
  if (← get).sender.be.isNone then d2fExit
  else do
    getWritebuf
    peek d
    d2fLoop d fuel

/-- `disk2file`: the sender without a buffer and an empty output file. -/
def disk2file (fuel : ℕ) : Except Stop (Unit × D2fState α) :=
  (d2fBody d fuel).run
    { sender := initSender d.env
      file := 0
      buf := 0
      totalI := 0
      packetpeek := 0
      writevs := 0
      output := []
      written := 0 }

/-- Packet `t` of the recording without its first `offset` bytes. -/
def D2fEnv.packet (t : ℕ) : List α :=
  (List.range d.iovLen).map fun x => d.bytes (t / d.env.bufNumElems.toNat)
    (t % d.env.bufNumElems.toNat * d.env.packetSize.toNat + d.offset.toNat + x)

/-- The output file is the concatenation of the stripped packets, and `written` counts its
bytes. -/
structure D2fEnv.Copied (s : D2fState α) : Prop where
  output : s.output = (List.range d.env.fi.nPackets).flatMap d.packet
  written : s.written = BitVec.ofNat 64 (d.env.fi.nPackets * d.iovLen)

end Functions

section Results

variable {α : Type} {d : D2fEnv α} {s s' : D2fState α} {real : BitVec 32}

/-! ## A loaded buffer -/

/-- Every `writev` takes all it is given, and a batch fits an `int`. -/
structure D2fEnv.Complete (d : D2fEnv α) : Prop where
  all : ∀ n len, d.writev n len = len
  int : iovMax * d.iovLen < 2 ^ 31

theorem length_vectors (d : D2fEnv α) (file buf n : ℕ) :
    (d.vectors file buf n).length = n * d.iovLen := by
  refine length_flatMap_range (fun i => ?_) n
  rw [List.length_map, List.length_range]

/-- The vectors of a batch are followed by those behind it. -/
theorem vectors_append (file buf n m : ℕ) :
    d.vectors file buf n ++ d.vectors file (buf + n * d.env.packetSize.toNat) m =
      d.vectors file buf (n + m) := by
  unfold D2fEnv.vectors
  rw [flatMap_range_add]
  congr 1
  apply List.flatMap_congr
  intro i _
  rw [Nat.add_mul, Nat.add_assoc buf]

/-- `n` more slots of the buffer are in the file. -/
structure Took (d : D2fEnv α) (n : ℕ) (s s' : D2fState α) : Prop where
  output : s'.output = s.output ++ d.vectors s.file s.buf n
  file : s'.file = s.file
  buf : s'.buf = s.buf + n * d.env.packetSize.toNat
  totalI : s'.totalI = s.totalI + BitVec.ofNat 32 n
  packetsSent : s'.sender.st.packetsSent = s.sender.st.packetsSent + BitVec.ofNat 64 n

theorem Took.refl : Took d 0 s s where
  output := (List.append_nil _).symm
  file := rfl
  buf := by rw [Nat.zero_mul, Nat.add_zero]
  totalI := (BitVec.add_zero _).symm
  packetsSent := (BitVec.add_zero _).symm

theorem Took.trans {n m : ℕ} {s'' : D2fState α} (h : Took d n s s') (h' : Took d m s' s'') :
    Took d (n + m) s s'' where
  output := by
    rw [h'.output, h.output, h.file, h.buf, List.append_assoc, vectors_append]
  file := h'.file.trans h.file
  buf := by rw [h'.buf, h.buf, Nat.add_mul, Nat.add_assoc]
  totalI := by rw [h'.totalI, h.totalI, BitVec.ofNat_add, BitVec.add_assoc]
  packetsSent := by rw [h'.packetsSent, h.packetsSent, BitVec.ofNat_add, BitVec.add_assoc]

theorem toNat_minU32 (x y : BitVec 32) : (minU32 x y).toNat = min x.toNat y.toNat := by
  unfold minU32
  split
  next hlt => exact (Nat.min_eq_left (Nat.le_of_lt (BitVec.lt_def.mp hlt))).symm
  next hlt => exact (Nat.min_eq_right (Nat.not_lt.mp fun h => hlt (BitVec.lt_def.mpr h))).symm

/-- The vectors of the next batch. -/
def batchLen (real : BitVec 32) (s : D2fState α) : BitVec 32 :=
  minU32 (real - s.totalI) (BitVec.ofNat 32 iovMax)

theorem batchLen_le : (batchLen real s).toNat ≤ iovMax := by
  unfold batchLen
  rw [toNat_minU32]
  exact Nat.min_le_right _ _

/-- A complete `writev`. -/
theorem copyBatch_took (hcomplete : d.Complete) :
    ∃ s', (copyBatch d real).run s = .ok (true, s') ∧ Took d (batchLen real s).toNat s s' := by
  have hret := hcomplete.all s.writevs
    (d.vectors s.file s.buf (batchLen real s).toNat).length
  have hok : ¬ (BitVec.ofInt 32 (d.writev s.writevs
      (d.vectors s.file s.buf (batchLen real s).toNat).length)).toInt < 0 := by
    have hlen := length_vectors d s.file s.buf (batchLen real s).toNat
    have hle : (batchLen real s).toNat ≤ iovMax := batchLen_le
    have hsmall := (Nat.mul_le_mul_right d.iovLen hle).trans_lt hcomplete.int
    rw [hret, hlen, BitVec.ofInt_natCast, BitVec.toInt_eq_toNat_cond, BitVec.toNat_ofNat]
    split <;> omega
  unfold copyBatch
  unfold batchLen at hret hok ⊢
  simp only [StateT.run_bind, StateT.run_get, StateT.run_set, pure_bind]
  rw [if_neg hok]
  refine ⟨_, rfl, ?_, rfl, rfl, ?_, ?_⟩
  · show s.output ++ List.take _ _ = _
    rw [hret, Int.toNat_natCast, List.take_length]
  · show s.totalI + _ = _
    rw [BitVec.ofNat_toNat, BitVec.setWidth_eq]
  · show s.sender.st.packetsSent + _ = _
    rw [BitVec.ofNat_toNat]

/-- **What `disk2file` does with a loaded buffer**: the slots up to `real_num_packets`, each
once and in order.  By induction on the fuel; a batch takes at least one slot. -/
theorem copyBuffer_spec {fuel : ℕ} (hcomplete : d.Complete) (hle : s.totalI ≤ real)
    (hfuel : real.toNat - s.totalI.toNat < fuel) :
    ∃ s', (copyBuffer d real fuel).run s = .ok (true, s') ∧
      Took d (real.toNat - s.totalI.toNat) s s' ∧ s'.totalI = real := by
  induction fuel generalizing s with
  | zero => omega
  | succ fuel ih =>
      have hle' : s.totalI.toNat ≤ real.toNat := BitVec.le_def.mp hle
      by_cases hmore : s.totalI < real
      · have hlt : s.totalI.toNat < real.toNat := BitVec.lt_def.mp hmore
        have hbatch : (batchLen real s).toNat = min (real.toNat - s.totalI.toNat) iovMax := by
          unfold batchLen
          rw [toNat_minU32, BitVec.toNat_sub_of_le hle]
          rfl
        obtain ⟨s₁, hrun, htook⟩ : ∃ s', (copyBatch d real).run s = .ok (true, s') ∧
            Took d (batchLen real s).toNat s s' := copyBatch_took hcomplete
        have htotal : s₁.totalI.toNat = s.totalI.toNat + (batchLen real s).toNat := by
          have hword := real.isLt
          rw [htook.totalI, BitVec.toNat_add, BitVec.toNat_ofNat, Nat.add_mod_mod]
          apply Nat.mod_eq_of_lt
          omega
        unfold iovMax at hbatch
        obtain ⟨s₂, hrun', htook', hend⟩ :=
          ih (s := s₁) (BitVec.le_def.mpr (by omega)) (by omega)
        refine ⟨s₂, ?_, ?_, hend⟩
        · unfold copyBuffer
          simp only [StateT.run_bind, StateT.run_get, pure_bind, if_pos hmore]
          rw [hrun]
          exact hrun'
        · have hparts : real.toNat - s.totalI.toNat =
              (batchLen real s).toNat + (real.toNat - s₁.totalI.toNat) := by omega
          rw [hparts]
          exact htook.trans htook'
      · have hreal : real.toNat ≤ s.totalI.toNat :=
          Nat.not_lt.mp fun h => hmore (BitVec.lt_def.mpr h)
        have hdone : s.totalI = real :=
          BitVec.eq_of_toNat_eq (Nat.le_antisymm hle' hreal)
        refine ⟨s, ?_, ?_, hdone⟩
        · unfold copyBuffer
          simp only [StateT.run_bind, StateT.run_get, pure_bind, if_neg hmore]
          rfl
        · rw [hdone, Nat.sub_self]
          exact Took.refl

/-- `real_num_packets` is that of a full buffer for every file of a recording with a full
one. -/
theorem realNumPackets_eq (hpeek : s.packetpeek = BitVec.ofNat 64 d.env.fi.nPackets)
    (hfull : d.env.bufNumElems.toNat ≤ d.env.fi.nPackets) (hint : d.env.fi.nPackets < 2 ^ 32) :
    realNumPackets d s = d.env.bufNumElems := by
  unfold realNumPackets minU32
  split
  · rfl
  next hless =>
    apply BitVec.eq_of_toNat_eq
    have hpackets : (s.packetpeek.setWidth 32).toNat = d.env.fi.nPackets := by
      rw [hpeek, BitVec.toNat_setWidth, BitVec.toNat_ofNat]
      omega
    rw [BitVec.lt_def, hpackets] at hless
    omega

/-- **Every buffer is copied as a full one** when the recording has a full buffer: also that of a
short last file, whose slots behind the last packet hold no packet. -/
theorem copyBuffer_full {fuel : ℕ} (hcomplete : d.Complete)
    (hpeek : s.packetpeek = BitVec.ofNat 64 d.env.fi.nPackets) (hstart : s.totalI = 0)
    (hfull : d.env.bufNumElems.toNat ≤ d.env.fi.nPackets) (hint : d.env.fi.nPackets < 2 ^ 32)
    (hfuel : d.env.bufNumElems.toNat < fuel) :
    ∃ s', (copyBuffer d (realNumPackets d s) fuel).run s = .ok (true, s') ∧
      s'.output = s.output ++ d.vectors s.file s.buf d.env.bufNumElems.toNat := by
  rw [realNumPackets_eq hpeek hfull hint]
  have hzero : s.totalI.toNat = 0 := by
    rw [hstart]
    rfl
  obtain ⟨s', hrun, htook, -⟩ : ∃ s', (copyBuffer d d.env.bufNumElems fuel).run s = .ok (true, s') ∧
      Took d (d.env.bufNumElems.toNat - s.totalI.toNat) s s' ∧ s'.totalI = d.env.bufNumElems :=
    copyBuffer_spec hcomplete (BitVec.le_def.mpr (by omega)) (by omega)
  rw [hzero, Nat.sub_zero] at htook
  exact ⟨s', hrun, htook.output⟩

/-! ## A recording -/

theorem run_onSender_error {β : Type} {m : Run β} {e : Stop} (h : m.run s.sender = .error e) :
    (onSender m : D2f α β).run s = .error e := by
  show (match m.run s.sender with | .ok (b, sender) => _ | .error e => _) = _
  rw [h]

/-- **`disk2file` does not get past its first jump.** -/
theorem disk2file_error (d : D2fEnv α) (fuel : ℕ) :
    disk2file d fuel = .error .outOfFuel ∨ disk2file d fuel = .error .nullDeref := by
  unfold disk2file d2fBody
  rw [StateT.run_bind]
  cases fuel with
  | zero =>
      rw [run_onSender_error (e := .outOfFuel) rfl]
      exact Or.inl rfl
  | succ fuel =>
      rw [run_onSender_error (jumpToNextFile_null rfl)]
      exact Or.inr rfl

/-- **No recording is copied.** -/
theorem disk2file_never_copies (d : D2fEnv α) :
    ¬ ∃ fuel s, disk2file d fuel = .ok ((), s) ∧ d.Copied s := by
  rintro ⟨fuel, s, hrun, -⟩
  rcases disk2file_error d fuel with hstop | hstop
  · cases hstop.symm.trans hrun
  · cases hstop.symm.trans hrun

/-! ## A recording on disk -/

/-- The recording of two files and seven packets, whose packets lose their first byte. -/
def exampleD2f : D2fEnv ℕ where
  env := exampleEnv
  offset := 1
  bytes := fun file p => file * 4096 + p
  writev := fun _ len => len

/-- **A recording that is not copied**, although no file is missing and every `writev` is
complete. -/
theorem recording_not_copied : ¬ ∀ d : D2fEnv ℕ, d.env.Finished →
    (∀ i, d.env.isMissing i = false) → d.Complete → (∀ n, d.env.running n = true) →
    (∀ n, (d.env.getFree n).isSome) → (∀ n, (d.env.getLoaded n).isSome) →
    d.offset.toNat < d.env.packetSize.toNat →
    ∃ fuel s, disk2file d fuel = .ok ((), s) ∧ d.Copied s := by
  intro h
  have hmissing : ∀ i, exampleD2f.env.isMissing i = false := by
    intro i
    match i with
    | 0 => rfl
    | 1 => rfl
    | i + 2 => rfl
  obtain ⟨fuel, s, hrun, -⟩ := h exampleD2f exampleEnv_finished hmissing
    ⟨fun _ _ => rfl, by decide⟩ (fun _ => rfl) (fun _ => rfl) (fun _ => rfl) (by decide)
  rcases disk2file_error exampleD2f fuel with hstop | hstop
  · cases hstop.symm.trans hrun
  · cases hstop.symm.trans hrun

end Results

end VlbiStreamer.Sender
