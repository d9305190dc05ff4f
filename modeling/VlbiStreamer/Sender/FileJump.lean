import Mathlib.Data.Int.Notation
import VlbiStreamer.ActiveFileIndex.Index

/-!
# Walking the files of a recording

The sender keeps its place in a recording in `sender_tracking` and goes from one
file to the next with `jump_to_next_file`: it gives back the buffer it has sent,
starts loading files into free buffers and takes the next loaded one.

The functions run on a `SenderState` and what is around it is an `Env`: the index of a
recording that is finished, and the answers of the calls into the buffer branch
and of the status word, by number.  A function that stops the program says how.

`jumpToNextFile_null` is the first thing the sender runs into: the buffer it
gives back is the one in `se->be`, and `se->be` may be `NULL`.
`startLoading_aborts` is the second: a file of the index cannot be loaded.
-/

namespace VlbiStreamer.Sender

open ActiveFileIndex

/-- How a function ends other than by returning. -/
inductive Stop where
  /-- A `NULL` pointer is followed. -/
  | nullDeref
  /-- An assertion fails or a cell outside the table is read. -/
  | aborted
  /-- The thread sleeps and nobody is left to wake it. -/
  | blocked
  /-- `pthread_exit` -/
  | threadExit
  | outOfFuel
  deriving DecidableEq, Repr

/-- `struct sender_tracking` -/
structure SenderTracking where
  allocatedToLoad : ℤ
  filesSent : BitVec 64
  filesSkipped : BitVec 64
  filesLoaded : BitVec 64
  packetsLoaded : BitVec 64
  packetsSent : BitVec 64
  filesInLoading : BitVec 64
  nPacketsProbed : BitVec 64
  nFilesProbed : BitVec 64
  totalBytesToSend : BitVec 64
  statusProbed : Status
  packetcounter : BitVec 64
  inc : BitVec 64
  deriving DecidableEq

/-- A buffer of the branch and the file that was loaded into it. -/
structure Held where
  buffer : ℕ
  file : ℕ
  deriving DecidableEq

/-- What is around the sender. -/
structure Env where
  fi : FileIndex
  /-- `buf_num_elems` -/
  bufNumElems : BitVec 32
  packetSize : BitVec 64
  /-- What `throttling_count` puts into `allocated_to_load`. -/
  allocated : ℤ
  /-- Whether the test of `opt->status` with this number sees `STATUS_RUNNING`. -/
  running : ℕ → Bool
  /-- Answers of `check_if_free`, `get_free`, `get_loaded` and `sendto`. -/
  checkIfFree : ℕ → ℤ
  getFree : ℕ → Option ℕ
  getLoaded : ℕ → Option ℕ
  sendto : ℕ → ℤ

/-- The sender: its tracking, `se->be`, how many answers it has used, and what it
has done, the latest first: buffers given back and packets sent, each as a file
and the offset in its buffer. -/
structure SenderState where
  st : SenderTracking
  be : Option Held
  asked : ℕ
  freed : List ℕ
  sent : List (ℕ × ℕ)
  deriving DecidableEq

/-- Functions of the sender. -/
abbrev Run := StateT SenderState (Except Stop)

/-- `ALL_DONE` -/
def allDone : ℤ := 3123

/-- `DONTRYLOADNOMORE` -/
def dontTryLoadNoMore : ℤ := 4

/-- `MIN` of `unsigned long`s. -/
def minU (x y : BitVec 64) : BitVec 64 := if x < y then x else y

theorem toNat_minU (x y : BitVec 64) : (minU x y).toNat = min x.toNat y.toNat := by
  unfold minU
  split
  · rename_i hlt
    exact (Nat.min_eq_left (Nat.le_of_lt (BitVec.lt_def.mp hlt))).symm
  · rename_i hlt
    exact (Nat.min_eq_right (Nat.not_lt.mp fun h => hlt (BitVec.lt_def.mpr h))).symm

/-- `bboundary_bytenum`: what it sets the counter to. -/
def bboundaryBytenum (totalBytesToSend transacted packetSize : BitVec 64)
    (bufNumElems : BitVec 32) : BitVec 64 :=
  minU (totalBytesToSend - transacted) (bufNumElems.setWidth 64 * packetSize)

/-- The numbered answer of a call. -/
def ask {α : Type} (answers : ℕ → α) : Run α := do
  let s ← get
  set { s with asked := s.asked + 1 }
  return answers s.asked

/-- A change of the tracking. -/
def track (f : SenderTracking → SenderTracking) : Run Unit :=
  modify fun s => { s with st := f s.st }

/-- A value that an assertion or a read may refuse. -/
def checked {α : Type} : Option α → Run α
  | some a => pure a
  | none => throw .aborted

/-- The index is not updated any more, so that a wait for it does not end. -/
def waited : FileIndex.Wait → Run ℤ
  | .returns value => pure value
  | .sleeps => throw .blocked

/-- `set_free(opt->membranch, be->self)` -/
def setFree : Option Held → Run Unit
  | none => throw .nullDeref
  | some held => modify fun s => { s with freed := held.buffer :: s.freed }

section Functions

variable (env : Env)

/-- `afi_update_metadata(opt->fi, ..)` -/
def updateMetadata : Run Unit :=
  track fun st => { st with
    nFilesProbed := BitVec.ofNat 64 env.fi.nFiles
    nPacketsProbed := BitVec.ofNat 64 env.fi.nPackets
    statusProbed := env.fi.status }

/-- The `SKIP_*` argument. -/
inductive Lors where
  | skipLoaded
  | skipSent
  deriving DecidableEq

/-- `*target` of `skip_missing` -/
def Lors.target (st : SenderTracking) : Lors → BitVec 64
  | .skipLoaded => st.filesLoaded
  | .skipSent => st.filesSent

/-- The loop body of `skip_missing`. -/
def Lors.skip (nuf : BitVec 64) (st : SenderTracking) : Lors → SenderTracking
  | .skipLoaded =>
      { st with
        filesLoaded := st.filesLoaded + 1
        packetsLoaded := st.packetsLoaded + nuf }
  | .skipSent =>
      { st with
        filesSkipped := st.filesSkipped + 1
        filesSent := st.filesSent + 1
        packetsSent := st.packetsSent + nuf }

/-- `skip_missing`; the packets of a file are counted from the number of files. -/
def skipMissing (lors : Lors) : ℕ → Run Unit
  | 0 => throw .outOfFuel
  | fuel + 1 => do
      let s ← get
      if lors.target s.st ≤ s.st.nFilesProbed then
        let missing ← checked (env.fi.afiIsMissing (lors.target s.st).toNat)
        if missing then
          let nuf := minU (BitVec.ofNat 64 env.fi.nFiles - s.st.packetsLoaded)
            (env.bufNumElems.setWidth 64)
          track fun st => lors.skip nuf st
          skipMissing lors fuel

/-- `start_loading` from the buffer on: `be`, or a free one. -/
def requestLoad (be : Option Held) (nuf : BitVec 64) : Run ℤ := do
  let s ← get
  match be with
  | some _ => pure ()
  | none => do
      let got ← ask env.getFree
      track fun st => { st with allocatedToLoad := st.allocatedToLoad - 1 }
      if got.isNone then throw .threadExit
  track fun st => { st with
    filesInLoading := st.filesInLoading + 1
    packetsLoaded := s.st.packetsLoaded + nuf
    filesLoaded := s.st.filesLoaded + 1 }
  return 0

/-- `start_loading(opt, be, st)` -/
def startLoading (be : Option Held) (fuel : ℕ) : Run ℤ := do
  skipMissing env .skipLoaded fuel
  let s ← get
  if s.st.filesLoaded = s.st.nFilesProbed then return dontTryLoadNoMore
  let err ← waited (← checked
    (env.fi.afiStartLoading s.st.filesLoaded.toNat (decide (0 < s.st.filesInLoading))))
  if err ≠ 0 then
    return if err = 1 then dontTryLoadNoMore else err
  updateMetadata env
  let s ← get
  let nuf := minU (s.st.nPacketsProbed - s.st.packetsLoaded) (env.bufNumElems.setWidth 64)
  if nuf = 0 then return dontTryLoadNoMore
  if be = none then
    let noneFree ← ask env.checkIfFree
    if noneFree ≠ 0 ∧ s.st.filesInLoading ≠ 0 then return dontTryLoadNoMore
  requestLoad env be nuf

/-- The loading loop of `jump_to_next_file`; the answer is the error it returns
with, if any. -/
def loadFiles : ℕ → Run (Option ℤ)
  | 0 => throw .outOfFuel
  | fuel + 1 => do
      let s ← get
      if s.st.filesLoaded < s.st.nFilesProbed ∧ 0 < s.st.allocatedToLoad then
        let err ← startLoading env s.be fuel
        if err = dontTryLoadNoMore then return none
        if err ≠ 0 then return some (-1)
        loadFiles fuel
      else return none

/-- The last loop of `jump_to_next_file`: the next loaded file. -/
def takeLoaded (fuel : ℕ) : Run ℤ := do
  let s ← get
  match s.be with
  | some _ => return 0
  | none => do
      skipMissing env .skipSent fuel
      let s ← get
      if 0 < s.st.filesInLoading then
        match ← ask env.getLoaded with
        | none => return -1
        | some buffer => do
            modify fun s => { s with be := some ⟨buffer, s.st.filesSent.toNat⟩ }
            track fun st => { st with filesInLoading := st.filesInLoading - 1 }
            return 0
      else return -1

/-- The top of `jump_to_next_file`: the buffer in `se->be` has been sent. -/
def bufferEmpty : Run Unit := do
  updateMetadata env
  track fun st => { st with
    totalBytesToSend := st.nPacketsProbed * env.packetSize
    filesSent := st.filesSent + 1 }
  setFree (← get).be
  modify fun s => { s with be := none }
  track fun st => { st with allocatedToLoad := st.allocatedToLoad + 1 }

/-- `jump_to_next_file` -/
def jumpToNextFile : ℕ → Run ℤ
  | 0 => throw .outOfFuel
  | fuel + 1 => do
      bufferEmpty env
      let s ← get
      if s.st.filesSent = s.st.nFilesProbed then
        if has env.fi.status afiRecord then throw .blocked else return allDone
      if let some err ← loadFiles env fuel then return err
      if (← get).st.filesInLoading = 0 then
        let err ← waited env.fi.afiWaitOnUpdate
        if err ≠ 0 then return -1
        jumpToNextFile fuel
      else takeLoaded env fuel

end Functions

/-! ## Where it stops -/

section Stops

variable {env : Env} {s : SenderState} {fuel : ℕ}

/-- What follows a function that returns. -/
theorem run_bind_ok {α β : Type} {m : Run α} {f : α → Run β} {a : α} {s' : SenderState}
    (h : m.run s = .ok (a, s')) : (m >>= f).run s = (f a).run s' := by
  rw [StateT.run_bind, h]
  rfl

/-- What follows a function that stops. -/
theorem run_bind_error {α β : Type} {m : Run α} {f : α → Run β} {e : Stop}
    (h : m.run s = .error e) : (m >>= f).run s = .error e := by
  rw [StateT.run_bind, h]
  rfl

/-- A file that is not missing is not skipped. -/
theorem skipMissing_present {lors : Lors} (hfile : lors.target s.st ≤ s.st.nFilesProbed)
    (hcell : env.fi.afiIsMissing (lors.target s.st).toNat = some false) :
    (skipMissing env lors (fuel + 1)).run s = .ok ((), s) := by
  simp [skipMissing, hfile, hcell, checked]
  rfl

/-- **The first jump follows `NULL`.**  `jump_to_next_file` gives back the buffer
in `se->be` without looking whether there is one. -/
theorem jumpToNextFile_null (hbe : s.be = none) :
    (jumpToNextFile env (fuel + 1)).run s = .error .nullDeref := by
  simp [jumpToNextFile, bufferEmpty, updateMetadata, track, hbe, setFree]
  rfl

/-- **A file of the index cannot be loaded.**  `afi_start_loading` asserts that
the file is not one of the index. -/
theorem startLoading_aborts {be : Option Held}
    (hprobed : s.st.nFilesProbed = BitVec.ofNat 64 env.fi.nFiles)
    (hfile : s.st.filesLoaded < s.st.nFilesProbed)
    (hcell : env.fi.afiIsMissing s.st.filesLoaded.toNat = some false) :
    (startLoading env be (fuel + 1)).run s = .error .aborted := by
  have hfile' : ¬ env.fi.nFiles ≤ s.st.filesLoaded.toNat := by
    have hlt := BitVec.lt_def.mp hfile
    rw [hprobed, BitVec.toNat_ofNat] at hlt
    exact Nat.not_le.mpr (Nat.lt_of_lt_of_le hlt (Nat.mod_le _ _))
  have hload : env.fi.afiStartLoading s.st.filesLoaded.toNat
      (decide (0 < s.st.filesInLoading)) = none := if_neg hfile'
  have hne : s.st.filesLoaded ≠ s.st.nFilesProbed := BitVec.ne_of_lt hfile
  have hskip : (skipMissing env .skipLoaded (fuel + 1)).run s = .ok ((), s) :=
    skipMissing_present (BitVec.le_of_lt hfile) hcell
  unfold startLoading
  have hget : (get : Run SenderState).run s = .ok (s, s) := rfl
  rw [run_bind_ok hskip, run_bind_ok hget]
  dsimp only
  rw [if_neg hne, hload]
  exact run_bind_error rfl

end Stops

end VlbiStreamer.Sender
