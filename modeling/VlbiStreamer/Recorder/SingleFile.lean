import VlbiStreamer.Library.Extent
import VlbiStreamer.Library.Transition
import VlbiStreamer.Recorder.WriteBuffer

/-!
# A recording into a single file

With `WRITE_TO_SINGLE_FILE` the threads of all buffers write to one descriptor, in the order
of the chunks: `write_buffer` waits for `next_fd_id_to_write` before it gets a recording
entity, and the `release` of the entity, `common_finish_file`, adds one to it.

* `Buffer` is a thread in `sbuf_simple_write_loop` and `write_buffer`, stopped before each
  thing that it does with the others: the wait, `get_free`, a call of the recorder and
  `set_free`.
* A recorder is busy while a thread holds it; one that `handle_error` finds full goes back
  to the free list, any other faulty one is removed.
* `aiow_write` only submits a request.  The kernel brings its bytes to the file at any time
  from then on, `aiow_check` reports it, and `aiow_close` gives up those that are left.
* `file` says what is where: byte `j` of the buffer of chunk `k` is `(k, j)`.
-/

namespace VlbiStreamer.Recorder

open Library

/-- `ENOSPC` -/
def enospc : ℤ := 28

/-- What is fixed for the recording. -/
structure Setup where
  opt : Opt
  /-- `opt->offset`, the bytes that are stripped off a packet. -/
  offset : ℕ
  /-- `do_w_stuff_every` is an `unsigned long`. -/
  bounded : opt.doWStuffEvery < 2 ^ 64
  /-- `ASYNC_WRITE` is set along with `REC_AIO`, and cleared with every other back end. -/
  async : opt.asyncWrite = true → opt.writend = .recAio

/-- `CALC_BUFSIZE_FROM_OPT` -/
def Setup.calcBufsize (d : Setup) : ℕ := d.opt.bufNumElems * (d.opt.packetSize - d.offset)

/-- The back end writes at `ioi->offset`; the others write where the descriptor stands. -/
def Backend.seeks : Backend → Bool
  | .recWritev | .recAio => true
  | .recDef | .recSplicer | .recSendfile => false

/-- The places of the buffer whose bytes come to the file with a write of `count` bytes from
`start`.  `writev_write` takes whole packets, without their first `offset` bytes. -/
def Setup.bytes (d : Setup) (start count : ℕ) : List ℕ :=
  if d.opt.writend = .recWritev then
    (List.range (count / d.opt.packetSize)).flatMap fun packet =>
      (List.range (d.opt.packetSize - d.offset)).map fun x =>
        start + packet * d.opt.packetSize + d.offset + x
  else (List.range count).map fun x => start + x

/-- The bytes of chunk `k` in the file, when its buffer has `size` bytes. -/
def Setup.chunk (d : Setup) (k size : ℕ) : List (ℕ × ℕ) := (d.bytes 0 size).map fun x => (k, x)

/-- What a back end takes of `count` bytes.  `writev_write` takes all or fails, `aiow_write`
takes all or has no room, and whatever fails is answered with `-1`. -/
def Backend.Takes (b : Backend) (count : ℕ) (ret : ℤ) : Prop :=
  -1 ≤ ret ∧ ret ≤ count ∧ (b = .recWritev → 0 ≤ ret → ret = count) ∧
    (b = .recAio → 0 < ret → ret = count)

instance (b : Backend) (count : ℕ) (ret : ℤ) : Decidable (b.Takes count ret) :=
  inferInstanceAs (Decidable (_ ∧ _))

/-- Where the thread of a buffer stands. -/
inductive Stand where
  /-- It waits for a filled buffer. -/
  | sleeping
  /-- It is about to wait for its turn. -/
  | trying
  /-- It is about to get a recorder. -/
  | acquiring
  /-- It is in the loop that writes. -/
  | writing
  /-- It is about to let the recorder go. -/
  | releasing
  /-- It has left its loop. -/
  | stopped
  deriving DecidableEq, Repr

/-- The thread of a buffer. -/
structure Buffer where
  stand : Stand
  fileid : ℕ
  /-- The bytes that were handed over. -/
  size : BitVec 64
  savedif : BitVec 32
  sbuf : Sbuf
  /-- A chunk has been written and its `sbuf_check` comes next. -/
  due : Bool
  /-- The recorder. -/
  recer : ℕ
  /-- `ioi->offset` -/
  offset : ℕ
  /-- The bytes of this attempt that the recorder got rid of. -/
  taken : ℕ

/-- A request in the queue of the kernel: `count` bytes of the buffer of chunk `chunk`, from
`start`, which belong in the file from `place` on. -/
structure Flight where
  chunk : ℕ
  start : ℕ
  count : ℕ
  place : ℕ

/-- Where a recorder is. -/
inductive RecStatus where
  | free
  | busy
  /-- On the free list with `RECSTATUS_FULL`. -/
  | full
  | removed
  deriving DecidableEq, Repr

/-- The recording; `ι` are the buffers. -/
structure SingleFile (ι : Type) where
  /-- `next_fd_id_to_write` -/
  next : ℕ
  buffers : ι → Buffer
  recers : ℕ → RecStatus
  /-- The requests of a recorder that are submitted and not reported. -/
  flights : ℕ → List Flight
  /-- `singlefile_fd` is open. -/
  opened : Bool
  /-- Where the descriptor stands. -/
  position : ℕ
  file : ℕ → Option (ℕ × ℕ)
  /-- The chunks that were handed over, with their bytes. -/
  sizes : ℕ → Option ℕ
  /-- The chunks that were written completely, one after the other. -/
  written : List ℕ

/-- What a thread does next; in `fill` the receiver hands over chunk `k`. -/
inductive FileAction (ι : Type) where
  | fill (i : ι) (k : ℕ) (diff : BitVec 64)
  /-- The wait for `next_fd_id_to_write` is over. -/
  | pass (i : ι)
  /-- `get_free` gets recorder `r`, and its `acquire` returns `err`. -/
  | acquire (i : ι) (r : ℕ) (err : ℤ)
  /-- `get_free` returns `NULL`. -/
  | noRecer (i : ι)
  /-- `write` returns `ret` after it has brought `put` bytes to the file. -/
  | write (i : ι) (ret : ℤ) (put : ℕ)
  /-- The kernel brings the first `put` bytes of request `n` of recorder `r` to the file. -/
  | land (r n put : ℕ)
  /-- `check` returns `ret`, which is about request `n` if there is one. -/
  | check (i : ι) (n : Option ℕ) (ret : ℤ)
  | release (i : ι)

variable {ι : Type} [DecidableEq ι]

/-- The thread after a step of the loop that writes. -/
def Buffer.looped (d : Setup) (b : Buffer) : Buffer :=
  if (if d.opt.asyncWrite then !b.due && b.sbuf.asyncdiff = 0 else b.sbuf.diff = 0) then
    { b with stand := .releasing }
  else { b with stand := .writing }

/-- A failed attempt puts the byte count and the offset back. -/
def Buffer.failed (b : Buffer) : Buffer :=
  { b with
    stand := .trying
    sbuf := { b.sbuf with diff := b.savedif.signExtend 64, bufoffset := 0, recer := false } }

namespace SingleFile

variable (d : Setup) (s : SingleFile ι) (i : ι)

/-- Thread `i` changes. -/
def become (b : Buffer) : SingleFile ι := { s with buffers := Function.update s.buffers i b }

/-- The status of recorder `r` changes. -/
def setRecer (r : ℕ) (status : RecStatus) : SingleFile ι :=
  { s with recers := Function.update s.recers r status }

/-- `sbuf_simple_write_loop` takes a filled buffer. -/
def fill (k : ℕ) (diff : BitVec 64) : Option (SingleFile ι) :=
  let b := s.buffers i
  if b.stand = .sleeping ∧ b.sbuf.running ∧ diff ≠ 0 ∧ s.sizes k = none ∧
      (d.opt.haveAssert → diff.toNat % 2 ^ 32 ≤ d.opt.packetSize * d.opt.bufNumElems) then
    some { s.become i { b with
        stand := .trying
        fileid := k
        size := diff
        savedif := diff.setWidth 32
        sbuf := { b.sbuf with diff := diff, bufoffset := 0 } } with
      sizes := Function.update s.sizes k (some diff.toNat) }
  else none

/-- The loop around `pthread_cond_wait` ends. -/
def pass : Option (SingleFile ι) :=
  let b := s.buffers i
  if b.stand = .trying ∧ b.fileid ≤ s.next then some (s.become i { b with stand := .acquiring })
  else none

/-- `handle_error` for a recorder that could not be acquired.  A full one is set free, and
`common_finish_file` adds one to `next_fd_id_to_write`. -/
def handleError (r : ℕ) (err : ℤ) : SingleFile ι :=
  if err = enospc then { s.setRecer r .full with next := s.next + 1 } else s.setRecer r .removed

/-- `get_free` with `common_open_new_file`, which copies the descriptor when it is open. -/
def acquire (r : ℕ) (err : ℤ) : Option (SingleFile ι) :=
  let b := s.buffers i
  if b.stand = .acquiring ∧ s.recers r = .free ∧ (s.opened → err = 0) then
    if err = 0 then
      some { (s.setRecer r .busy).become i (Buffer.looped d { b with
          sbuf := { b.sbuf with recer := true, asyncdiff := b.sbuf.diff }
          due := false
          recer := r
          offset := d.calcBufsize * b.fileid
          taken := 0 }) with
        opened := true }
    else some ((s.handleError r err).become i b.failed)
  else none

/-- `get_free` returns `NULL`: the thread leaves its loop. -/
def noRecer : Option (SingleFile ι) :=
  let b := s.buffers i
  if b.stand = .acquiring then
    some (s.become i { b.failed with
      stand := .stopped
      sbuf := { b.failed.sbuf with running := false } })
  else none

/-- Where the recorder that `b` holds writes. -/
def place (b : Buffer) : ℕ := if d.opt.writend.seeks then b.offset else s.position

/-- The first `put` bytes that a write of `count` bytes brings to the file. -/
def bring (b : Buffer) (count put : ℕ) : SingleFile ι :=
  { s with
    file := overwrite s.file (s.place d b)
      (((d.bytes b.sbuf.bufoffset.toNat count).take put).map fun x => (b.fileid, x))
    position := if d.opt.writend.seeks then s.position else s.position + put }

/-- `io_submit` -/
def submit (b : Buffer) (count : ℕ) : SingleFile ι :=
  { s with
    flights := Function.update s.flights b.recer
      (s.flights b.recer ++ [⟨b.fileid, b.sbuf.bufoffset.toNat, count, s.place d b⟩]) }

/-- The attempt failed: `close_recer` removes the recorder, and `aiow_close` destroys its
queue. -/
def closeRecer (b : Buffer) : SingleFile ι :=
  { (s.setRecer b.recer .removed).become i b.failed with
    flights := Function.update s.flights b.recer [] }

/-- `simple_write_bytes` -/
def write (ret : ℤ) (put : ℕ) : Option (SingleFile ι) :=
  let b := s.buffers i
  if b.stand = .writing ∧ b.due = false ∧ b.sbuf.diff ≠ 0 then
    match simpleWriteBytes d.opt b.sbuf with
    | none => none
    | some req =>
        let start := b.sbuf.bufoffset.toNat
        if d.opt.writend.Takes req.count.toNat ret ∧
            put ≤ (d.bytes start req.count.toNat).length ∧ (d.opt.asyncWrite → put = 0) then
          let (err, sbuf) := writeAnswered req b.sbuf ret
          let s := if d.opt.asyncWrite then
              if 0 < ret then s.submit d b ret.toNat else s
            else s.bring d b req.count.toNat put
          if err = 0 then
            some (s.become i (Buffer.looped d { b with
              sbuf := sbuf
              due := d.opt.asyncWrite
              offset := b.offset + (d.bytes start ret.toNat).length
              taken := if d.opt.asyncWrite then b.taken else b.taken + ret.toNat }))
          else some (s.closeRecer i { b with sbuf := sbuf })
        else none
  else none

/-- The kernel writes. -/
def land (r n put : ℕ) : Option (SingleFile ι) :=
  match (s.flights r)[n]? with
  | none => none
  | some flight =>
      if put ≤ flight.count then
        some { s with
          file := overwrite s.file flight.place
            ((d.bytes flight.start put).map fun x => (flight.chunk, x)) }
      else none

/-- What can be reported of request `n`: no more than was asked for.  Without a request there
is nothing to report. -/
def Reports (b : Buffer) (n : Option ℕ) (ret : ℤ) : Prop :=
  match n with
  | none => ret ≤ 0
  | some n => ∃ flight ∈ (s.flights b.recer)[n]?, ret ≤ flight.count

instance (b : Buffer) (n : Option ℕ) (ret : ℤ) : Decidable (s.Reports b n ret) := by
  cases n with
  | none => exact inferInstanceAs (Decidable (ret ≤ 0))
  | some n =>
      exact inferInstanceAs (Decidable (∃ flight ∈ (s.flights b.recer)[n]?, ret ≤ flight.count))

/-- The request that is reported leaves the queue. -/
def reap (b : Buffer) (n : Option ℕ) : SingleFile ι :=
  match n with
  | none => s
  | some n =>
      { s with
        flights := Function.update s.flights b.recer ((s.flights b.recer).eraseIdx n) }

/-- `sbuf_check` -/
def check (n : Option ℕ) (ret : ℤ) : Option (SingleFile ι) :=
  let b := s.buffers i
  if b.stand = .writing ∧ d.opt.asyncWrite ∧ (b.due ∨ b.sbuf.diff = 0) ∧ s.Reports b n ret then
    let (err, sbuf) := sbufCheck b.sbuf ret
    let s := s.reap b n
    if err = 0 then
      some (s.become i (Buffer.looped d { b with
        sbuf := sbuf
        due := false
        taken := b.taken + (checkRet ret).toNat }))
    else some (s.closeRecer i { b with sbuf := sbuf })
  else none

/-- `set_free` with `common_finish_file`. -/
def release : Option (SingleFile ι) :=
  let b := s.buffers i
  if b.stand = .releasing then
    some { (s.setRecer b.recer .free).become i { b with
        stand := .sleeping
        sbuf := { b.sbuf with recer := false } } with
      next := s.next + 1
      written := if b.size.toNat ≤ b.taken then s.written ++ [b.fileid] else s.written }
  else none

/-- One step of a thread. -/
def step : FileAction ι → Option (SingleFile ι)
  | .fill i k diff => s.fill d i k diff
  | .pass i => s.pass i
  | .acquire i r err => s.acquire d i r err
  | .noRecer i => s.noRecer i
  | .write i ret put => s.write d i ret put
  | .land r n put => s.land d r n put
  | .check i n ret => s.check d i n ret
  | .release i => s.release i

/-- The recording starts with an empty file and all threads asleep. -/
structure Starts : Prop where
  next : s.next = 0
  buffers : ∀ i, (s.buffers i).stand = .sleeping
  flights : ∀ r, s.flights r = []
  file : ∀ p, s.file p = none
  position : s.position = 0
  sizes : ∀ k, s.sizes k = none
  written : s.written = []

end SingleFile

/-- The recording. -/
def singleFile (ι : Type) [DecidableEq ι] (d : Setup) : System (SingleFile ι) (FileAction ι) :=
  .ofNext SingleFile.Starts fun s a => s.step d a

/-! ## The back ends -/

/-- `writev_write` returns the count or `-1`. -/
theorem writevWrite_takes {fdSet : Bool} {packetSize count : ℕ} {calls : List ℤ} {r : ℤ}
    (h : writevWrite false fdSet packetSize count calls = some r) :
    Backend.recWritev.Takes count r := by
  simp only [writevWrite, Bool.false_eq_true, ↓reduceIte, Option.map_eq_some_iff] at h
  obtain ⟨done, -, rfl⟩ := h
  cases done with
  | false =>
      refine ⟨le_rfl, ?_, fun _ hneg => ?_, fun haio => by cases haio⟩
      · show (-1 : ℤ) ≤ count
        omega
      · exact absurd (show (0 : ℤ) ≤ -1 from hneg) (by decide)
  | true =>
      refine ⟨?_, le_rfl, fun _ _ => rfl, fun haio => by cases haio⟩
      show (-1 : ℤ) ≤ count
      omega

/-- `aiow_write` returns the count, `0` or `-1`. -/
theorem aiowWrite_takes {usedEvents count : ℕ} {submit : ℤ} :
    Backend.recAio.Takes count (aiowWrite usedEvents count submit) := by
  have hother : Backend.recAio ≠ .recWritev := by decide
  unfold aiowWrite
  split_ifs
  · exact ⟨le_rfl, by omega, fun hwritev => absurd hwritev hother, fun _ hpos => by omega⟩
  · exact ⟨by omega, le_rfl, fun hwritev => absurd hwritev hother, fun _ _ => rfl⟩
  · exact ⟨by omega, by omega, fun hwritev => absurd hwritev hother, fun _ hpos => by omega⟩

namespace Setup

variable {d : Setup} {start a b : ℕ}

/-- Two writes, one after the other. -/
theorem bytes_add (h : d.opt.writend = .recWritev → d.opt.packetSize ∣ a) :
    d.bytes start (a + b) = d.bytes start a ++ d.bytes (start + a) b := by
  unfold bytes
  split
  next hwritev =>
    obtain ⟨n, rfl⟩ := h hwritev
    rcases Nat.eq_zero_or_pos d.opt.packetSize with hzero | hpos
    · simp [hzero]
    · rw [Nat.mul_add_div hpos, Nat.mul_div_cancel_left n hpos, flatMap_range_add]
      congr 1
      refine List.flatMap_congr fun packet _ => List.map_congr_left fun x _ => ?_
      rw [Nat.add_mul, Nat.mul_comm d.opt.packetSize n]
      omega
  · rw [List.range_add, List.map_append, List.map_map]
    congr 1
    exact List.map_congr_left fun x _ => (Nat.add_assoc start a x).symm

@[simp] theorem bytes_zero : d.bytes start 0 = [] := by
  unfold bytes
  split
  · rw [Nat.zero_div]
    rfl
  · rfl

end Setup

end VlbiStreamer.Recorder
