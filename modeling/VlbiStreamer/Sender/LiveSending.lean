import Mathlib.Logic.Function.Basic
import VlbiStreamer.Library.Transition
import VlbiStreamer.Sender.FileJump

/-!
# Sending a recording that is still being made

`jump_to_next_file` reads the index of the recording under one lock after the other while
the recorder changes it.  Here every region that a lock protects is one step, of the sender,
of a buffer thread that loads a file for it, or of the recorder.

* `Pc` is the region that the sender comes to next; what it does in between only concerns
  itself and is part of the step before.
* `afi_wait_on_file` and `afi_start_loading` take `wait_mutex` before they give up the lock
  of the index: there the look at the file and the look at `fi->status` are two steps, and
  `holder` has the mutex in between.
* The receiver adds the packets of a buffer when it is full, only the last one may be short,
  and the writer adds a file after the packets it holds.
* Packets have numbers; file `f` has those from `f * buf_num_elems` on.
-/

namespace VlbiStreamer.Sender

open ActiveFileIndex Library

/-- What is fixed for the sender. -/
structure LiveSetup where
  /-- `buf_num_elems` -/
  bufNumElems : BitVec 32
  packetSize : BitVec 64
  /-- A buffer holds a packet. -/
  elems_pos : 0 < bufNumElems.toNat

/-- The packets of a full buffer. -/
abbrev LiveSetup.elems (d : LiveSetup) : ℕ := d.bufNumElems.toNat

theorem LiveSetup.toNat_setWidth (d : LiveSetup) : (d.bufNumElems.setWidth 64).toNat = d.elems := by
  rw [BitVec.toNat_setWidth]
  exact Nat.mod_eq_of_lt (by have := d.bufNumElems.isLt; omega)

/-- How far the recorder is. -/
inductive Recorder where
  | recording
  /-- `afi_disassociate` has taken `AFI_RECORD` off the status; its `afi_wake_up` is to come. -/
  | ending
  | gone
  deriving DecidableEq, Repr

/-- How `jump_to_next_file` ends, other than with a buffer. -/
inductive End where
  /-- `ALL_DONE` -/
  | allDone
  /-- An error of a wait for an update. -/
  | waitFailed
  /-- There is no loaded file. -/
  | noLoaded
  deriving DecidableEq, Repr

/-- The region that the sender comes to next. -/
inductive Pc where
  /-- It sends the packets of the buffer. -/
  | sending
  /-- `afi_update_metadata` at the top of `jump_to_next_file`. -/
  | entry
  /-- `afi_get_status` -/
  | getStatus
  /-- `afi_wait_on_update`; `again` where no files are in loading. -/
  | waitOnUpdate (again : Bool)
  | asleep (again : Bool)
  /-- `afi_update_metadata` after a wait. -/
  | refresh
  /-- `afi_is_missing` in `skip_missing`. -/
  | skip (lors : Lors)
  /-- `afi_get_n_files` in `skip_missing`. -/
  | skipCount (lors : Lors)
  /-- `afi_start_loading` -/
  | startLoading
  /-- It has taken `wait_mutex` in `afi_start_loading`. -/
  | holding
  | asleepLoading
  /-- The loop of `afi_start_loading` after a wait. -/
  | wokenLoading
  /-- `afi_update_metadata` in `start_loading`. -/
  | requesting
  /-- `get_loaded` -/
  | getLoaded
  | returned (e : End)
  /-- It has followed `NULL`, failed an assertion or left its thread. -/
  | stopped
  deriving DecidableEq

/-- The sender sleeps. -/
def Pc.isAsleep : Pc → Bool
  | .asleep _ | .asleepLoading => true
  | _ => false

/-- The thread of a buffer that loads a file. -/
inductive Loader where
  | idle
  /-- It is about to look at the file in `afi_wait_on_file`. -/
  | checking (file : ℕ)
  /-- The file was not on disk, and it has taken `wait_mutex`. -/
  | holding (file : ℕ)
  | asleep (file : ℕ)
  /-- `afi_wait_on_file` has returned, `afi_get_disk_id` is next. -/
  | found (file : ℕ)
  | reading (file : ℕ)
  | loaded (file : ℕ)
  deriving DecidableEq, Repr

/-- A thread that takes `wait_mutex`. -/
inductive Waiter where
  | sender
  | loader (buffer : ℕ)
  deriving DecidableEq, Repr

/-- The index, the recorder, the sender and the threads that load. -/
structure Live where
  fi : FileIndex
  recorder : Recorder
  /-- The files that are being written, up to the wake-up. -/
  writing : ℕ → Bool
  /-- Who has `wait_mutex` from one step to the next. -/
  holder : Option Waiter
  pc : Pc
  st : SenderTracking
  /-- `se->be` -/
  be : Option Held
  loaders : ℕ → Loader
  /-- The packets that were sent. -/
  sent : List ℕ
  /-- The recording was on when `jump_to_next_file` began. -/
  live : Bool

/-- The first look of `afi_start_loading`: it returns with the value or is to wait. -/
def startCheck (fi : FileIndex) (fileId : ℕ) (inLoading : Bool) : Option (Option ℤ) :=
  if fi.nFiles ≤ fileId then
    fi.files[fileId]?.map fun fh =>
      if has fh.status fhOndisk then some 0
      else if has fh.status fhBusy then
        if inLoading then some 1 else none
      else some 1
  else none

/-- Its later looks. -/
def wokenCheck (fi : FileIndex) (fileId : ℕ) : Option (Option ℤ) :=
  fi.files[fileId]?.map fun fh =>
    if has fh.status fhBusy && !has fh.status fhOndisk then none else some 0

/-- The function without another thread between the two looks. -/
theorem afiStartLoading_eq (fi : FileIndex) (fileId : ℕ) (inLoading : Bool) :
    fi.afiStartLoading fileId inLoading = (startCheck fi fileId inLoading).map fun look =>
      (look.map FileIndex.Wait.returns).getD fi.afiWaitOnUpdate := by
  unfold FileIndex.afiStartLoading startCheck
  split
  · cases fi.files[fileId]? with
    | none => rfl
    | some fh =>
        apply congrArg some
        dsimp only
        split_ifs <;> rfl
  · rfl

namespace Live

variable (d : LiveSetup) (s : Live)

/-- The tracking changes. -/
def track (f : SenderTracking → SenderTracking) : Live := { s with st := f s.st }

/-- The sender comes to another region. -/
def goTo (pc : Pc) : Live := { s with pc := pc }

/-- The thread of a buffer comes to another region. -/
def setLoader (buffer : ℕ) (loader : Loader) : Live :=
  { s with loaders := Function.update s.loaders buffer loader }

/-! ## `jump_to_next_file` between its regions -/

/-- After the `skip_missing` of the last loop. -/
def skippedSent : Live :=
  if 0 < s.st.filesInLoading then s.goTo .getLoaded else s.goTo (.returned .noLoaded)

/-- `skip_missing` of the last loop. -/
def skipSent : Live :=
  if s.st.filesSent ≤ s.st.nFilesProbed then s.goTo (.skip .skipSent) else s.skippedSent

/-- After the loop that loads files. -/
def afterLoading : Live :=
  if s.st.filesInLoading = 0 then s.goTo (.waitOnUpdate true) else s.skipSent

/-- After the `skip_missing` of `start_loading`. -/
def skippedLoaded : Live :=
  if s.st.filesLoaded = s.st.nFilesProbed then s.afterLoading else s.goTo .startLoading

/-- `skip_missing` of `start_loading`. -/
def skipLoaded : Live :=
  if s.st.filesLoaded ≤ s.st.nFilesProbed then s.goTo (.skip .skipLoaded)
  else s.skippedLoaded

/-- The condition of the loop that loads files. -/
def loadNext : Live :=
  if s.st.filesLoaded < s.st.nFilesProbed ∧ 0 < s.st.allocatedToLoad then s.skipLoaded
  else s.afterLoading

/-- The condition of the loop that waits for another file. -/
def compare : Live :=
  if s.st.filesSent = s.st.nFilesProbed then s.goTo .getStatus else s.loadNext

/-- The loop of `skip_missing` again. -/
def skipAgain : Lors → Live
  | .skipLoaded => s.skipLoaded
  | .skipSent => s.skipSent

/-- `skip_missing` is over. -/
def skipped : Lors → Live
  | .skipLoaded => s.skippedLoaded
  | .skipSent => s.skippedSent

/-! ## Its regions -/

/-- `afi_update_metadata` -/
def updateMetadata : Live :=
  s.track fun st => { st with
    nFilesProbed := BitVec.ofNat 64 s.fi.nFiles
    nPacketsProbed := BitVec.ofNat 64 s.fi.nPackets
    statusProbed := s.fi.status }

/-- `st->total_bytes_to_send` after it. -/
def countBytes : Live :=
  s.track fun st => { st with totalBytesToSend := st.nPacketsProbed * d.packetSize }

/-- The buffer that was sent is set free. -/
def giveBack (held : Held) : Live :=
  track { s.setLoader held.buffer .idle with be := none } fun st => { st with
    filesSent := st.filesSent + 1
    allocatedToLoad := st.allocatedToLoad + 1 }

/-- The top of `jump_to_next_file`. -/
def enter : Live :=
  let entered := { s.updateMetadata.countBytes d with live := has s.fi.status afiRecord }
  match s.be with
  | none => entered.goTo .stopped
  | some held => (entered.giveBack held).compare

/-- `afi_get_status` -/
def getStatus : Live :=
  if has s.fi.status afiRecord then s.goTo (.waitOnUpdate false)
  else s.goTo (.returned .allDone)

/-- What `mutex_free_afi_wait_on_update` comes to. -/
def waitOr (asleep : Pc) : Live :=
  match s.fi.afiWaitOnUpdate with
  | .sleeps => s.goTo asleep
  | .returns _ => s.goTo (.returned .waitFailed)

/-- After the wait for another file. -/
def refresh : Live := (s.updateMetadata.countBytes d).compare

/-- `afi_is_missing` in `skip_missing`. -/
def isMissing (lors : Lors) : Live :=
  match s.fi.afiIsMissing (lors.target s.st).toNat with
  | none => s.goTo .stopped
  | some true => s.goTo (.skipCount lors)
  | some false => s.skipped lors

/-- `afi_get_n_files` in `skip_missing` and the rest of its loop. -/
def skipFile (lors : Lors) : Live :=
  let nuf := minU (BitVec.ofNat 64 s.fi.nFiles - s.st.packetsLoaded)
    (d.bufNumElems.setWidth 64)
  (s.track fun st => lors.skip nuf st).skipAgain lors

/-- `wait_mutex` is taken for the second look, when it is free. -/
def takeMutex : Option Live :=
  if s.holder = none then some { s with holder := some .sender, pc := .holding } else none

/-- `afi_start_loading` up to `wait_mutex`. -/
def startLoading : Option Live :=
  match startCheck s.fi s.st.filesLoaded.toNat (decide (0 < s.st.filesInLoading)) with
  | none => some (s.goTo .stopped)
  | some none => s.takeMutex
  | some (some ret) => some (if ret = 0 then s.goTo .requesting else s.afterLoading)

/-- Its loop after a wait. -/
def wokenLoading : Option Live :=
  match wokenCheck s.fi s.st.filesLoaded.toNat with
  | none => some (s.goTo .stopped)
  | some none => s.takeMutex
  | some (some _) => some (s.goTo .requesting)

/-- The rest of `start_loading`: the answers of `check_if_free` and `get_free`.  The thread
of the buffer begins with `afi_wait_on_file`. -/
def requesting (noneFree : Bool) (buffer : Option ℕ) : Option Live :=
  let s := s.updateMetadata
  let nuf := minU (s.st.nPacketsProbed - s.st.packetsLoaded) (d.bufNumElems.setWidth 64)
  if nuf = 0 then some s.afterLoading
  else if noneFree ∧ s.st.filesInLoading ≠ 0 then some s.afterLoading
  else
    match buffer with
    | none => some (s.goTo .stopped)
    | some buffer =>
        if s.loaders buffer = .idle then
          let loading := s.setLoader buffer (.checking s.st.filesLoaded.toNat)
          some <| loadNext <| loading.track fun st => { st with
            allocatedToLoad := st.allocatedToLoad - 1
            filesInLoading := st.filesInLoading + 1
            packetsLoaded := st.packetsLoaded + nuf
            filesLoaded := st.filesLoaded + 1 }
        else none

/-- `get_loaded` and its answer, a buffer with the file. -/
def getLoaded : Option ℕ → Option Live
  | none => some (s.goTo (.returned .noLoaded))
  | some buffer =>
      if s.loaders buffer = .loaded s.st.filesSent.toNat then
        some <| { s with
          be := some ⟨buffer, s.st.filesSent.toNat⟩, pc := .sending }.track fun st =>
            { st with filesInLoading := st.filesInLoading - 1 }
      else none

/-- The region that the sender has come to. -/
def region (noneFree : Bool) (buffer : Option ℕ) : Option Live :=
  match s.pc with
  | .entry => some (s.enter d)
  | .getStatus => some s.getStatus
  | .waitOnUpdate again =>
      if s.holder = none then some (s.waitOr (.asleep again)) else none
  | .refresh => some (s.refresh d)
  | .skip lors => some (s.isMissing lors)
  | .skipCount lors => some (s.skipFile d lors)
  | .startLoading => s.startLoading
  | .holding => some { s.waitOr .asleepLoading with holder := none }
  | .wokenLoading => s.wokenLoading
  | .requesting => s.requesting d noneFree buffer
  | .getLoaded => s.getLoaded buffer
  | _ => none

/-! ## The rest of the threads -/

/-- `bboundary_packetnum`: how many packets of the buffer are sent. -/
def bboundaryPacketnum : BitVec 64 :=
  minU (s.st.nPacketsProbed - s.st.packetsSent) (d.bufNumElems.setWidth 64)

/-- The packets of the buffer are sent, up to `should_i_be_running`. -/
def send : Option Live :=
  match s.pc, s.be with
  | .sending, some held =>
      let count := s.bboundaryPacketnum d
      let s := { s with
        st := { s.st with packetsSent := s.st.packetsSent + count }
        sent := s.sent ++
          (List.range count.toNat).map fun x => held.file * d.elems + x }
      some <|
        if s.st.packetsSent < s.st.nPacketsProbed ∨ s.st.filesSent ≠ s.st.nFilesProbed then
          s.goTo .entry
        else s.goTo .stopped
  | _, _ => none

/-- Where the sender goes on when it is woken. -/
def wokenPc : Pc → Pc
  | .asleep true => .entry
  | .asleep false => .refresh
  | .asleepLoading => .wokenLoading
  | pc => pc

/-- The loader looks at the file again. -/
def wokenLoader : Loader → Loader
  | .asleep file => .checking file
  | loader => loader

/-- `pthread_cond_broadcast` -/
def wakeAll : Live :=
  { s with pc := wokenPc s.pc, loaders := fun b => wokenLoader (s.loaders b) }

/-- One region of the thread that loads: `afi_wait_on_file`, `afi_get_disk_id` and, when the
file is read, `afi_update_fh(fi, file, FH_INMEM, AFI_ADD_TO_STATUS)`.  After an error it sets
the buffer free. -/
def load (buffer : ℕ) (isRead : Bool) : Option Live :=
  match s.loaders buffer with
  | .checking file =>
      match s.fi.afiWaitOnFile file with
      | none => none
      | some (.returns ret) =>
          some (s.setLoader buffer (if ret = 0 then .found file else .idle))
      | some .sleeps =>
          if s.holder = none then
            some { s.setLoader buffer (.holding file) with holder := some (.loader buffer) }
          else none
  | .holding file =>
      -- the value of the wait is not looked at
      match s.fi.afiWaitOnUpdate with
      | .sleeps => some { s.setLoader buffer (.asleep file) with holder := none }
      | .returns _ => some { s.setLoader buffer (.checking file) with holder := none }
  | .found file =>
      (s.fi.afiGetDiskId file).map fun _ => s.setLoader buffer (.reading file)
  | .reading file =>
      if isRead then
        (s.fi.addToStatus file fhInmem).map fun fi =>
          { s.setLoader buffer (.loaded file) with fi := fi }
      else some (s.setLoader buffer .idle)
  | _ => none

/-- The lock-protected region of a recorder that changes the index. -/
def withIndex (fi : Option FileIndex) : Option Live := fi.map fun fi => { s with fi := fi }

end Live

/-- A step of one of the threads. -/
inductive Act where
  /-- `afi_add_to_packets` of a full buffer, or of the last one. -/
  | addPackets (n : ℕ)
  /-- `afi_add_file` of a writer. -/
  | addFile (id : ℕ) (diskid : ℤ) (realloc : Option (ℕ → Fileholder))
  /-- `afi_update_fh(fi, id, FH_BUSY, AFI_DEL_FROM_STATUS)` -/
  | delBusy (id : ℕ)
  /-- `afi_update_fh(fi, id, FH_ONDISK, AFI_ADD_TO_STATUS)` -/
  | addOndisk (id : ℕ)
  /-- `afi_wake_up` of the writer of the file. -/
  | wakeUp (id : ℕ)
  /-- `afi_disassociate` -/
  | disassociate
  /-- The `afi_wake_up` in it. -/
  | lastWakeUp
  /-- The sender sends its buffer. -/
  | send
  /-- It stops, for an error of the socket or the status of the program. -/
  | quit
  /-- It takes its next region; with the answers of `check_if_free` and of `get_free` or
  `get_loaded`. -/
  | region (noneFree : Bool) (buffer : Option ℕ)
  /-- The thread of a buffer goes on. -/
  | load (buffer : ℕ) (isRead : Bool)
  /-- A sleeper that nobody woke. -/
  | spurious (waiter : Waiter)

namespace Live

variable (d : LiveSetup)

/-- The step, where it can be taken. -/
def next (s : Live) : Act → Option Live
  | .addPackets n =>
      if s.recorder = .recording ∧ d.elems ∣ s.fi.nPackets ∧
          n ≤ d.elems then
        s.withIndex (some (s.fi.afiAddToPackets n))
      else none
  | .addFile id diskid realloc =>
      if s.recorder = .recording ∧ id * d.elems < s.fi.nPackets then
        ({ s with writing := Function.update s.writing id true }).withIndex
          ((s.fi.afiAddFile id diskid (fhInmem ||| fhBusy) realloc).map Prod.snd)
      else none
  | .delBusy id =>
      if s.recorder = .recording ∧ s.writing id then
        s.withIndex (s.fi.delFromStatus id fhBusy)
      else none
  | .addOndisk id =>
      if s.recorder = .recording ∧ s.writing id then
        s.withIndex (s.fi.addToStatus id fhOndisk)
      else none
  | .wakeUp id =>
      if s.recorder = .recording ∧ s.writing id ∧ s.holder = none then
        some { s with writing := Function.update s.writing id false }.wakeAll
      else none
  | .disassociate =>
      if s.recorder = .recording then
        some { s with
          fi := { s.fi with status := s.fi.status &&& ~~~afiRecord }
          recorder := .ending }
      else none
  | .lastWakeUp =>
      if s.recorder = .ending ∧ s.holder = none then
        some { s with recorder := .gone }.wakeAll
      else none
  | .send => s.send d
  | .quit => if s.pc = .sending then some (s.goTo .stopped) else none
  | .region noneFree buffer => s.region d noneFree buffer
  | .load buffer isRead => s.load buffer isRead
  | .spurious .sender => some (s.goTo (wokenPc s.pc))
  | .spurious (.loader buffer) =>
      some (s.setLoader buffer (wokenLoader (s.loaders buffer)))

/-- What the sender has read of the index, at some time of the recording: each of its files
has a packet, and they are full unless nothing has changed. -/
structure Snapshot (d : LiveSetup) (fi : FileIndex) (st : SenderTracking) : Prop where
  files : st.nFilesProbed.toNat ≤ fi.nFiles
  packets : st.nPacketsProbed.toNat ≤ fi.nPackets
  counted : ∀ file < st.nFilesProbed.toNat, file * d.elems < st.nPacketsProbed.toNat
  full : st.nFilesProbed.toNat * d.elems ≤ st.nPacketsProbed.toNat ∨
    (st.nFilesProbed.toNat = fi.nFiles ∧ st.nPacketsProbed.toNat = fi.nPackets)

/-- A sender holds a buffer with its next file, and the recording is on. -/
structure Starts (s : Live) : Prop where
  recorder : s.recorder = .recording
  status : has s.fi.status afiRecord = true
  word : s.fi.nPackets < 2 ^ 64
  counted : ∀ file < s.fi.nFiles, file * d.elems < s.fi.nPackets
  snapshot : Snapshot d s.fi s.st
  pc : s.pc = .sending
  be : ∃ buffer, s.be = some ⟨buffer, s.st.filesSent.toNat⟩ ∧
    s.loaders buffer = .loaded s.st.filesSent.toNat
  place : s.st.filesSent < s.st.nFilesProbed
  packets : s.st.packetsSent.toNat = s.st.filesSent.toNat * d.elems
  sent : s.sent = List.range s.st.packetsSent.toNat
  holder : s.holder = none
  /-- The other buffers have nothing to do, or look for a file or have one. -/
  loaders : ∀ buffer, s.loaders buffer = .idle ∨ ∃ file,
    s.loaders buffer = .checking file ∨ s.loaders buffer = .loaded file

/-- The sender, the threads that load and the recorder. -/
def system : System Live Act := System.ofNext (Starts d) (next d)

/-! ## What the sender is to do -/

/-- Nobody sleeps in a wait for an update. -/
structure Awake (s : Live) : Prop where
  sender : s.pc.isAsleep = false
  loader : ∀ buffer file, s.loaders buffer ≠ .asleep file

/-- **A live sender against the end of the recording.**  `jump_to_next_file` has not failed
for the end of a recording that was on when it began, nobody sleeps through the last wake-up
nor through that of his file, and when all is done every packet of the recording was sent. -/
structure Served (s : Live) : Prop where
  notEnded : s.pc = .returned .waitFailed → s.live = false
  awake : s.recorder = .gone → s.Awake
  noticed : ∀ buffer file, s.loaders buffer = .asleep file →
    s.fi.onDisk file = some true → s.writing file = true ∨ s.recorder = .ending
  complete : s.pc = .returned .allDone →
    s.recorder ≠ .recording ∧ s.sent = List.range s.fi.nPackets

/-- Where a step is sound: the packets fit their word, every packet is in a counted file when
the recorder is done, and the status has not changed to the end of the recording since
`jump_to_next_file` last looked at the files or, for a wait, since it began.  A file to be
sent does not show `FH_MISSING`. -/
def Sound (s : Live) : Act → Prop
  | .addPackets n => s.fi.nPackets + n < 2 ^ 64
  | .disassociate => s.fi.nPackets ≤ s.fi.nFiles * d.elems
  | .region _ _ =>
      match s.pc with
      | .getStatus =>
          has s.fi.status afiRecord = true ∨ s.st.nFilesProbed.toNat = s.fi.nFiles
      | .waitOnUpdate _ | .holding => has s.fi.status afiRecord = true ∨ s.live = false
      | .skip .skipSent => s.fi.afiIsMissing s.st.filesSent.toNat ≠ some true
      | _ => True
  | _ => True

end Live

end VlbiStreamer.Sender
