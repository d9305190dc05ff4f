import VlbiStreamer.Library.Transition
import VlbiStreamer.Receiver.Headers

/-!
# The resequencing receiver

`udp_receiver` takes packets into one buffer after the other.  A packet is
received where the next one in order belongs; `calc_bufpos_general` then looks at
its number and leaves it there, or copies it to its own place: behind, ahead, in
the buffer before, which is held back while packets of it may still come, or in
the next buffer.

A buffer is named by the file it was got for, so that a block of the memory is
what one file is written from; `get_free` brings the block with whatever was in
it.  Nothing is said about the order of the bytes of a packet beyond its number.

The receiver also carries a record of what it did, which it never reads: every
`recv` and `memcpy`, every packet it stored and every buffer it handed over.
-/

namespace VlbiStreamer.Receiver

open Library

/-- The ways a receiver ends other than by leaving its loop. -/
inductive Halt where
  /-- `ASSERT((unsigned)resq->i < buf_num_elems)` -/
  | assertI
  /-- `ASSERT((unsigned)*resq->inc <= CALC_BUFSIZE_FROM_OPT_NOOFFSET)` -/
  | assertInc
  /-- `ASSERT(resq->inc_before != NULL)` -/
  | assertIncBefore
  /-- `get_free` gave no buffer: `pthread_exit`. -/
  | threadExit
  | nullDeref
  | sigfpe
  deriving DecidableEq, Repr

/-- A packet that the receiver stored: where, its bytes and its number. -/
structure Stored where
  ptr : Ptr
  packet : Bytes
  seqnum : ℤ

/-- A `recv` or `memcpy`: its target, and the current and the held-back buffer. -/
structure Write where
  target : Ptr
  current : ℕ
  before : Option ℕ

/-- A buffer handed to the writer, with the bytes it is to write; `complete` when
the receiver found that it has all its packets. -/
structure Released where
  file : ℕ
  diff : ℕ
  complete : Bool

/-- The receiver: `resq_info`, the parts of `opt_s`, `socketopts` and
`streamer_entity` that it changes, the memory, and the record. -/
structure RecvState where
  incBefore : Option ℕ
  inc : ℕ
  buf : Ptr
  usebuf : Option Ptr
  bufstart : Ptr
  bufstartBefore : Option Ptr
  before : Option ℕ
  currentSeq : ℤ
  seqstartCurrent : ℤ
  i : ℤ
  vdif : VdifSeq
  be : ℕ
  cumul : ℕ
  totalPackets : ℕ
  /-- `n_packets` of the file index. -/
  nPackets : ℕ
  firstPacket : Option Bytes
  /-- `WAIT_START_ON_METADATA` -/
  waitStart : Bool
  /-- `status & STATUS_RUNNING` -/
  running : Bool
  missing : ℕ
  incomplete : ℕ
  wrongsizeerrors : ℕ
  totalTransactedBytes : ℕ
  mem : Memory
  stored : List Stored
  writes : List Write
  released : List Released

/-- `CALC_BUFSIZE_FROM_OPT` -/
def calcBufsize (o : Opt) : ℕ := ulong (o.bufNumElems * (o.packetSize - o.offset : ℤ))

/-- `CALC_BUFSIZE_FROM_OPT_NOOFFSET` -/
def calcBufsizeNooffset (o : Opt) : ℕ := ulong (o.bufNumElems * o.packetSize)

/-- `NONEVEN_PACKET` -/
def nonevenPacket : ℤ := 2 ^ 31 - 1

/-- `WRONGSIZELIMITBEFOREEXIT` -/
def wrongSizeLimitBeforeExit : ℕ := 20

section Functions

variable (o : Opt)

/-! ## Moving the packets -/

/-- `memcpy` of a packet, on the record. -/
def RecvState.copyPacket (s : RecvState) (dst src : Ptr) : RecvState :=
  { s with
    mem := s.mem.copy dst src o.packetSize
    writes := ⟨dst, s.be, s.before⟩ :: s.writes }

/-- The packet at `p` is stored under its number. -/
def RecvState.store (s : RecvState) (p : Ptr) (seqnum : ℤ) : RecvState :=
  { s with stored := ⟨p, s.mem.read p, seqnum⟩ :: s.stored }

/-- `*inc += packet_size` -/
def RecvState.bumpInc (s : RecvState) : RecvState :=
  { s with inc := ulong (s.inc + o.packetSize) }

/-- `spec_ops->missing++` -/
def RecvState.drop (s : RecvState) : RecvState := { s with missing := ulong (s.missing + 1) }

/-- `free_the_buf` on a buffer of a file. -/
def RecvState.free (s : RecvState) (file diff : ℕ) (complete : Bool) : RecvState :=
  { s with released := ⟨file, diff, complete⟩ :: s.released }

/-! ## The next buffer -/

/-- `jump_to_next_buf`: a held-back buffer is written out as it is. -/
def releaseBefore (s : RecvState) : Except Halt RecvState :=
  match s.before, s.incBefore with
  | none, _ => .ok s
  | some _, none => .error .nullDeref
  | some before, some incBefore =>
      .ok { s.free before (calcBufsize o) false with
        missing := ulong (s.missing + ulong (calcBufsize o - incBefore) / o.packetSize)
        bufstartBefore := none
        before := none
        incBefore := none }

/-- `jump_to_next_buf`: a full buffer is handed over, another one is held back. -/
def releaseCurrent (s : RecvState) : RecvState :=
  if s.inc = calcBufsizeNooffset o then
    { s.free s.be s.inc true with
      bufstartBefore := none
      before := none }
  else
    { s with
      before := some s.be
      bufstartBefore := some s.bufstart
      incBefore := some s.inc }

/-- `get_free(opt->membranch, opt, &cumul, NULL, 1)` and `simple_get_writebuf`. -/
def getBuffer (content : ℤ → Byte) (s : RecvState) : RecvState :=
  { s with
    be := s.cumul
    mem := s.mem.replace s.cumul content
    buf := ⟨s.cumul, 0⟩
    inc := 0 }

/-- `jump_to_next_buf` in its new buffer. -/
def enterNext (content : ℤ → Byte) (s : RecvState) : RecvState :=
  let s := getBuffer content s
  { s with
    i := 0
    bufstart := s.buf
    seqstartCurrent := long (s.seqstartCurrent + o.bufNumElems) }

/-- `spec_ops->opt->cumul++` -/
def RecvState.nextFile (s : RecvState) : RecvState := { s with cumul := s.cumul + 1 }

/-- `jump_to_next_buf`; `free` is what `get_free` gives. -/
def jumpToNextBuf (free : Option (ℤ → Byte)) (s : RecvState) : Except Halt RecvState := do
  let s ← releaseBefore o s.nextFile
  match free with
  | none => .error .threadExit
  | some content => .ok (enterNext o content (releaseCurrent o s))

/-! ## The place of a packet -/

/-- The packet belongs where it was received. -/
def takeInOrder (seqnum : ℤ) (s : RecvState) : RecvState :=
  let s := (s.store s.buf seqnum).bumpInc o
  { s with i := int (s.i + 1), buf := s.buf.add o.packetSize }

/-- A held-back buffer that has room for no more packets is handed over. -/
def freeBeforeIfReady (s : RecvState) : Except Halt RecvState :=
  match s.before, s.incBefore with
  | some before, some incBefore =>
      if ulong (incBefore + o.packetSize) > calcBufsize o then
        .ok { s.free before incBefore true with
          bufstartBefore := none
          before := none
          incBefore := none }
      else .ok s
  | _, _ => .error .nullDeref

/-- The packet belongs in the held-back buffer. -/
def storeBefore (seqnum diffFromStart : ℤ) (bufstartBefore : Ptr) (s : RecvState) :
    Except Halt RecvState :=
  match s.incBefore with
  | none => .error .assertIncBefore
  | some incBefore =>
      let target := bufstartBefore.add ((o.bufNumElems + diffFromStart) * o.packetSize)
      let s := { s with
        incBefore := some (ulong (incBefore + o.packetSize))
        usebuf := some target }
      freeBeforeIfReady o ((s.copyPacket o target s.buf).store target seqnum)

/-- The packet belongs behind, in this buffer. -/
def storeBehind (seqnum diffFromStart : ℤ) (s : RecvState) : RecvState :=
  let target := s.bufstart.add (diffFromStart * o.packetSize)
  ({ s.bumpInc o with usebuf := some target }.copyPacket o target s.buf).store target seqnum

/-- The packet belongs ahead, in this buffer. -/
def storeAhead (seqnum diffFromStart diffToCurrent : ℤ) (s : RecvState) : RecvState :=
  let target := s.bufstart.add (diffFromStart * o.packetSize)
  let s := ({ s.bumpInc o with usebuf := some target }.copyPacket o target s.buf).store
    target seqnum
  { s with
    i := int (s.i + diffToCurrent)
    currentSeq := seqnum
    buf := target.add o.packetSize }

/-- The packet belongs in the next buffer. -/
def storeNext (seqnum diffFromStart : ℤ) (free : Option (ℤ → Byte)) (s : RecvState) :
    Except Halt RecvState := do
  let iFromNextSeqstart := diffFromStart - o.bufNumElems
  let origbuf := s.buf
  let s ← jumpToNextBuf o free s
  let target := s.bufstart.add (iFromNextSeqstart * o.packetSize)
  let s := (({ s with usebuf := some target }.copyPacket o target origbuf).bumpInc o).store
    target seqnum
  return { s with
    currentSeq := seqnum
    i := int (s.i + iFromNextSeqstart + 1)
    buf := target.add o.packetSize }

/-- `calc_bufpos_general` once it has the number. -/
def placePacket (seqnum : ℤ) (free : Option (ℤ → Byte)) (s : RecvState) :
    Except Halt RecvState :=
  if s.currentSeq = int64Max ∧ s.seqstartCurrent = int64Max then
    .ok (takeInOrder o seqnum { s with currentSeq := seqnum, seqstartCurrent := seqnum })
  else if seqnum = long (s.currentSeq + 1) then
    .ok (takeInOrder o seqnum { s with currentSeq := long (s.currentSeq + 1) })
  else if seqnum = s.currentSeq then .ok s
  else
    let diffFromStart := long (seqnum - s.seqstartCurrent)
    let diffToCurrent := long (seqnum - s.currentSeq)
    if diffToCurrent < 0 then
      if diffFromStart < 0 then
        match s.bufstartBefore with
        | none => .ok s.drop
        | some before =>
            if diffFromStart < -o.bufNumElems then .ok s.drop
            else storeBefore o seqnum diffFromStart before s
      else .ok (storeBehind o seqnum diffFromStart s)
    else if diffFromStart ≥ o.bufNumElems then
      if diffFromStart ≥ uint (o.bufNumElems * 2) then .ok s.drop
      else storeNext o seqnum diffFromStart free s
    else .ok (storeAhead o seqnum diffFromStart diffToCurrent s)

/-- `calc_bufpos_general(resq->buf, se, resq)` -/
def calcBufposGeneral (free : Option (ℤ → Byte)) (s : RecvState) : Except Halt RecvState :=
  match getseq o.datatype (s.mem.read s.buf) s.vdif s.currentSeq with
  | none => .error .sigfpe
  | some (seqnum, vdif) => placePacket o seqnum free { s with vdif := vdif }

/-! ## The loop -/

/-- `recv(fd, resq->buf, packet_size, 0)` of so many bytes. -/
def recvPacket (received : ℕ) (bytes : Bytes) (s : RecvState) : RecvState :=
  { s with
    mem := s.mem.write s.buf received bytes
    writes := ⟨s.buf, s.be, s.before⟩ :: s.writes }

/-- What `WAIT_START_ON_METADATA` makes of `get_sec_dif_from_buf`, the difference
and the error: the packet is left, or the recording fails, or it starts. -/
def waitOnMetadata (metadata : ℤ × ℤ) (s : RecvState) : Option ℤ × RecvState :=
  if s.waitStart then
    if metadata.2 = nonevenPacket then (some 0, s)
    else if metadata.2 ≠ 0 then (some (-1), s)
    else if 0 < metadata.1 then (some 0, s)
    else (none, { s with waitStart := false })
  else (none, s)

/-- `udps_handle_received_packet` after the place of the packet is settled. -/
def countPacket (received : ℕ) (s : RecvState) : Except Halt RecvState :=
  if uint s.inc ≤ calcBufsizeNooffset o then
    .ok { s with
      totalTransactedBytes := ulong (s.totalTransactedBytes + received)
      totalPackets := s.totalPackets + 1
      running := s.running && decide (o.lastPacket ≠ s.totalPackets + 1) }
  else .error .assertInc

/-- `init_header` and `copy_metadata` for the first packet of the recording. -/
def RecvState.copyMetadata (s : RecvState) : RecvState :=
  { s with firstPacket := s.firstPacket.orElse fun _ => some (s.mem.read s.buf) }

/-- `udps_handle_received_packet` on a packet of the right size. -/
def handleWhole (received : ℕ) (metadata : ℤ × ℤ) (free : Option (ℤ → Byte))
    (s : RecvState) : Except Halt (ℤ × RecvState) :=
  if uint s.i < o.bufNumElems then
    if o.datatype = .unknown then do
      let s := (s.store s.buf 0).bumpInc o
      let s := { s with buf := s.buf.add o.packetSize, i := int (s.i + 1) }
      let s ← countPacket o received s
      return (0, s)
    else
      match waitOnMetadata metadata s with
      | (some err, s) => .ok (err, s)
      | (none, s) => do
          let s ← calcBufposGeneral o free s.copyMetadata
          let s ← countPacket o received s
          return (0, s)
  else .error .assertI

/-- `udps_handle_received_packet(se, resq, received)`: `1` leaves the loop, a
negative number is an error. -/
def udpsHandleReceivedPacket (received : ℤ) (metadata : ℤ × ℤ)
    (free : Option (ℤ → Byte)) (s : RecvState) : Except Halt (ℤ × RecvState) :=
  if received = 0 then .ok (1, s)
  else if received < 0 then .ok (-1, { s with running := false })
  else if received ≠ o.packetSize then
    if s.running then
      let s := { s with
        incomplete := s.incomplete + 1
        wrongsizeerrors := s.wrongsizeerrors + 1 }
      if wrongSizeLimitBeforeExit < s.wrongsizeerrors then
        .ok (-1, { s with running := false })
      else .ok (0, s)
    else .ok (0, s)
  else handleWhole o received.toNat metadata free s

/-- `handle_buffer_switch(se, resq)` -/
def handleBufferSwitch (free : Option (ℤ → Byte)) (s : RecvState) : Except Halt RecvState :=
  if uint s.i = o.bufNumElems then
    let s := { s with nPackets := s.nPackets + o.bufNumElems }
    if o.datatype = .unknown then
      let s := ({ s.nextFile with i := 0 }).free s.be s.inc false
      match free with
      | none => .error .threadExit
      | some content => .ok (getBuffer content s)
    else jumpToNextBuf o free s
  else .ok s

/-- `udp_receiver` after its loop: the held-back buffer and the last one. -/
def leaveLoop (s : RecvState) : RecvState :=
  let s := match s.before with
    | none => s
    | some before => s.free before (calcBufsize o) false
  if s.inc = 0 then s
  else ({ s with nPackets := s.nPackets + (ulong s.i), cumul := s.cumul + 1 }).free
    s.be s.inc false

/-- `udp_receiver` before its loop, with its first buffer. -/
def udpReceiver (content : ℤ → Byte) (waitStart : Bool) : RecvState where
  incBefore := none
  inc := 0
  buf := ⟨0, 0⟩
  usebuf := none
  bufstart := ⟨0, 0⟩
  bufstartBefore := none
  before := none
  currentSeq := int64Max
  seqstartCurrent := int64Max
  i := 0
  vdif := .initial
  be := 0
  cumul := 0
  totalPackets := 0
  nPackets := 0
  firstPacket := none
  waitStart := waitStart
  running := true
  missing := 0
  incomplete := 0
  wrongsizeerrors := 0
  totalTransactedBytes := 0
  mem := fun _ => content
  stored := []
  writes := []
  released := []

end Functions

/-! ## Runs -/

/-- Where the loop of `udp_receiver` is. -/
inductive Phase where
  /-- Before `handle_buffer_switch`. -/
  | switching
  /-- Before `recv`. -/
  | receiving
  /-- Out of the loop. -/
  | leaving
  /-- Done. -/
  | done
  deriving DecidableEq

/-- A receiver in its loop, or one that has been ended. -/
inductive Config where
  | run (phase : Phase) (s : RecvState)
  | halted (h : Halt)

/-- What happens to a receiver. -/
inductive Event where
  /-- The test of the loop and `handle_buffer_switch`. -/
  | bufferSwitch (free : Option (ℤ → Byte))
  /-- `recv` and `udps_handle_received_packet`. -/
  | packet (received : ℤ) (bytes : Bytes) (metadata : ℤ × ℤ) (free : Option (ℤ → Byte))
  /-- Somebody stops the receiver. -/
  | stop
  /-- The test of the loop fails. -/
  | leave
  /-- The end of `udp_receiver`. -/
  | close

/-- The next configuration. -/
def Config.ofExcept {α : Type} (f : α → Config) : Except Halt α → Config
  | .ok a => f a
  | .error h => .halted h

/-- One step of the receiver; `recv` gets at most `packet_size` bytes. -/
def step (o : Opt) : Config → Event → Option Config
  | .run .switching s, .bufferSwitch free =>
      if s.running then some (.ofExcept (.run .receiving) (handleBufferSwitch o free s))
      else none
  | .run .receiving s, .packet received bytes metadata free =>
      if received ≤ o.packetSize then
        some <| .ofExcept (fun (err, s) => .run (if err = 0 then .switching else .leaving) s) <|
          udpsHandleReceivedPacket o received metadata free
            (recvPacket received.toNat bytes s)
      else none
  | .run .switching s, .leave => if s.running then none else some (.run .leaving s)
  | .run .leaving s, .close => some (.run .done (leaveLoop o s))
  | .run phase s, .stop => some (.run phase { s with running := false })
  | _, _ => none

/-- The receiver of a recording. -/
def receiver (o : Opt) : System Config Event :=
  .ofNext (fun c => ∃ content waitStart, c = .run .switching (udpReceiver content waitStart))
    (step o)

end VlbiStreamer.Receiver
