import VlbiStreamer.Library.Memory

/-!
# The headers of the packets

Four kinds of streams carry a number in the header of every packet; the receiver
reads it with a `getseq_*` function, and `check_and_fill` goes over a buffer that
is about to be written and puts a header where the number is not the expected one.

VDIF packets are numbered by second and frame, and the length of a second is
learned from the stream, so that its numbers depend on `resq_info`.
-/

namespace VlbiStreamer.Receiver

open Library

/-- `LOCKER_DATATYPE` -/
inductive Datatype where
  | unknown
  | vdif
  | mark5b
  | udpmon
  | mark5bnet
  deriving DecidableEq, Repr

/-- The `HSIZE_*` sizes. -/
def Datatype.hsize : Datatype → ℕ
  | .unknown => 0
  | .vdif => 16
  | .mark5b => 16
  | .udpmon => 8
  | .mark5bnet => 24

/-- The options of a recording that the receiver reads.  `buf_num_elems` is an
`unsigned int`, and a buffer of so many packets is in memory, where no object is
larger than a `long` can count. -/
structure Opt where
  datatype : Datatype
  bufNumElems : ℕ
  packetSize : ℕ
  offset : ℕ
  lastPacket : ℕ
  bufNumElems_lt : bufNumElems < 2 ^ 32
  bufsize_lt : bufNumElems * packetSize < 2 ^ 63

/-! ## Machine integers -/

/-- Conversion to `long`. -/
def long (x : ℤ) : ℤ := (x + 2 ^ 63) % 2 ^ 64 - 2 ^ 63

/-- Conversion to `int`. -/
def int (x : ℤ) : ℤ := (x + 2 ^ 31) % 2 ^ 32 - 2 ^ 31

/-- Conversion to `unsigned`. -/
def uint (x : ℤ) : ℕ := (x % 2 ^ 32).toNat

/-- Conversion to `unsigned long`. -/
def ulong (x : ℤ) : ℕ := (x % 2 ^ 64).toNat

/-- `INT64_MAX` -/
def int64Max : ℤ := 2 ^ 63 - 1

theorem long_of_fits {x : ℤ} (hlo : -2 ^ 63 ≤ x) (hhi : x < 2 ^ 63) : long x = x := by
  unfold long
  omega

/-- An `int` that is moved keeps its value as an `unsigned`, as long as that fits. -/
theorem uint_int_add {x d : ℤ} (hlo : 0 ≤ uint x + d) (hhi : uint x + d < 2 ^ 32) :
    (uint (int (x + d)) : ℤ) = uint x + d := by
  unfold uint int at *
  omega

/-! ## Numbers -/

/-- What `getseq_vdif` keeps in `resq_info`; `-1` is not known yet. -/
structure VdifSeq where
  startingSecond : ℤ
  packetsPerSecond : ℤ
  packetsecdif : ℤ

/-- `init_resq` on these fields. -/
def VdifSeq.initial : VdifSeq := ⟨-1, -1, 0⟩

/-- `getseq_mark5b_net`: the signed word after the first. -/
def getseqMark5bNet (header : Bytes) : ℤ := (word32 header 4).toInt

/-- `getseq_udpmon`: the first eight bytes in network order. -/
def getseqUdpmon (header : Bytes) : BitVec 64 := word64be header 0

/-- `SECOND_FROM_VDIF` -/
def secondFromVdif (header : Bytes) : ℤ := (word32 header 0 &&& 0x3fffffff).toNat

/-- `FRAMENUM_FROM_VDIF` -/
def framenumFromVdif (header : Bytes) : ℤ := (word32be header 4 &&& 0x00ffffff).toNat

/-- `getseq_vdif`; `none` is a division by zero. -/
def getseqVdif (header : Bytes) (v : VdifSeq) (currentSeq : ℤ) : Option (ℤ × VdifSeq) :=
  let second := secondFromVdif header
  let framenum := framenumFromVdif header
  if v.startingSecond = -1 then some (framenum, { v with startingSecond := second })
  else if v.packetsPerSecond = -1 ∧ second = currentSeq then some (framenum, v)
  else
    let v := if v.packetsPerSecond = -1 then
        { v with
          packetsPerSecond := int currentSeq
          packetsecdif := int (second - v.startingSecond) }
      else v
    if v.packetsPerSecond = 0 then
      if v.packetsecdif = 0 then none
      else some (long ((second - v.startingSecond).tdiv v.packetsecdif), v)
    else some (long ((second - v.startingSecond) * v.packetsPerSecond + framenum), v)

/-- The number of a packet in `calc_bufpos_general`; `none` is a division by zero. -/
def getseq (d : Datatype) (header : Bytes) (v : VdifSeq) (currentSeq : ℤ) :
    Option (ℤ × VdifSeq) :=
  match d with
  | .vdif => getseqVdif header v currentSeq
  | .udpmon => some ((getseqUdpmon header).toInt, v)
  | .mark5bnet => some (getseqMark5bNet header, v)
  | .mark5b | .unknown => some (long (currentSeq + 1), v)

/-! ## Filling holes -/

/-- `SET_FRAMENUM_FOR_MARK5BNET` -/
def setFramenumForMark5bNet (header : Bytes) (framenum : ℤ) : Bytes :=
  setWord32 header 4 (BitVec.ofInt 32 framenum)

/-- `SET_FRAMENUM_FOR_UDPMON` -/
def setFramenumForUdpmon (header : Bytes) (framenum : ℤ) : Bytes :=
  setWord64be header 0 (BitVec.ofInt 64 framenum)

/-- `create_initial_header(fileid, opt)`: the header of the first packet of a file,
from the one of the recording.  `none` where no header can be made. -/
def createInitialHeader (o : Opt) (firstPacket : Option Bytes) (v : VdifSeq) (fileid : ℤ) :
    Option Bytes :=
  firstPacket.bind fun first =>
    match o.datatype with
    | .vdif => if v.startingSecond = -1 ∨ v.packetsPerSecond = -1 then none else some first
    | .mark5b => some first
    | .udpmon => some (setFramenumForUdpmon (fun _ => 0)
        ((getseqUdpmon first).toInt + o.bufNumElems * fileid))
    | .mark5bnet => some (setFramenumForMark5bNet first
        (getseqMark5bNet first + o.bufNumElems * fileid))
    | .unknown => none

/-- `header_match`; for VDIF the comma operator leaves the number of the second.
`none` is a division by zero. -/
def headerMatch (o : Opt) (target model : Bytes) (v : VdifSeq) (currentSeq : ℤ) :
    Option (ℤ × VdifSeq) :=
  match o.datatype with
  | .vdif => do
      let (_, v) ← getseqVdif target v currentSeq
      getseqVdif model v currentSeq
  | .mark5b => some (0, v)
  | .udpmon => some ((getseqUdpmon target - getseqUdpmon model).toInt, v)
  | .mark5bnet => some (long (getseqMark5bNet target - getseqMark5bNet model), v)
  | .unknown => some (-1, v)

/-- `increment_header` -/
def incrementHeader (d : Datatype) (header : Bytes) : Bytes :=
  match d with
  | .udpmon => setFramenumForUdpmon header ((getseqUdpmon header).toInt + 1)
  | .mark5bnet => setFramenumForMark5bNet header (getseqMark5bNet header + 1)
  | .vdif | .mark5b | .unknown => header

/-- The loop of `check_and_fill`, `n` packets from `buffer` on. -/
def fillLoop (o : Opt) (currentSeq : ℤ) :
    ℕ → Memory → Ptr → Bytes → VdifSeq → Option Memory
  | 0, m, _, _, _ => some m
  | n + 1, m, buffer, model, v => do
      let (off, v) ← headerMatch o (m.read buffer) model v currentSeq
      let m := if off ≠ 0 then m.write buffer o.datatype.hsize model else m
      fillLoop o currentSeq n m (buffer.add o.packetSize) (incrementHeader o.datatype model) v

/-- How many packets `check_and_fill` goes over: at most as many as the index says
the recording has from this file on. -/
def realNumberOfElements (o : Opt) (nPackets : ℕ) (fileid : ℤ) : ℤ :=
  let packetsLeft := long (nPackets - o.bufNumElems * fileid)
  if o.bufNumElems < packetsLeft then o.bufNumElems else packetsLeft

/-- `check_and_fill(buffer, opt, fileid, NULL)`: without a model header it returns
an error and fills nothing. -/
def checkAndFill (o : Opt) (nPackets : ℕ) (firstPacket : Option Bytes) (v : VdifSeq)
    (currentSeq : ℤ) (m : Memory) (buffer : Ptr) (fileid : ℤ) : Option Memory :=
  match createInitialHeader o firstPacket v fileid with
  | none => some m
  | some model =>
      fillLoop o currentSeq (realNumberOfElements o nPackets fileid).toNat m buffer model v

/-- The number of a packet is a `long`. -/
theorem getseq_bounds {d : Datatype} {header : Bytes} {v v' : VdifSeq} {currentSeq q : ℤ}
    (h : getseq d header v currentSeq = some (q, v')) : -2 ^ 63 ≤ q ∧ q < 2 ^ 63 := by
  have hlong : ∀ x, -2 ^ 63 ≤ long x ∧ long x < 2 ^ 63 := by
    intro x
    unfold long
    omega
  have hframenum : -2 ^ 63 ≤ framenumFromVdif header ∧ framenumFromVdif header < 2 ^ 63 := by
    have hlt := (word32be header 4 &&& 0x00ffffff).isLt
    unfold framenumFromVdif
    omega
  cases d with
  | vdif =>
      simp only [getseq, getseqVdif] at h
      split at h
      · cases h
        exact hframenum
      split at h
      · cases h
        exact hframenum
      generalize (if v.packetsPerSecond = -1 then _ else v) = w at h
      split at h
      · split at h
        · cases h
        · cases h
          exact hlong _
      · cases h
        exact hlong _
  | udpmon =>
      cases h
      exact ⟨BitVec.le_toInt _, BitVec.toInt_lt⟩
  | mark5bnet =>
      cases h
      have hlo : -2 ^ 31 ≤ getseqMark5bNet header := BitVec.le_toInt _
      have hhi : getseqMark5bNet header < 2 ^ 31 := BitVec.toInt_lt
      omega
  | mark5b => cases h; exact hlong _
  | unknown => cases h; exact hlong _

/-! ## VDIF -/

section Vdif

variable {header : Bytes} {v : VdifSeq} {currentSeq : ℤ}

/-- Once the rate is known, it and the second the seconds are counted from stay. -/
theorem getseqVdif_of_known (hstart : v.startingSecond ≠ -1) (hknown : v.packetsPerSecond ≠ -1) :
    getseqVdif header v currentSeq =
      if v.packetsPerSecond = 0 then
        if v.packetsecdif = 0 then none
        else some (long ((secondFromVdif header - v.startingSecond).tdiv v.packetsecdif), v)
      else some (long ((secondFromVdif header - v.startingSecond) * v.packetsPerSecond +
        framenumFromVdif header), v) := by
  unfold getseqVdif
  simp only [hstart, hknown, if_false, false_and]

/-- The rate is learned: it is the number of the packet before. -/
theorem getseqVdif_learn (hstart : v.startingSecond ≠ -1) (hunknown : v.packetsPerSecond = -1)
    (hsecond : secondFromVdif header ≠ currentSeq) (hknown : int currentSeq ≠ -1) :
    getseqVdif header v currentSeq = getseqVdif header
      ⟨v.startingSecond, int currentSeq, int (secondFromVdif header - v.startingSecond)⟩
      currentSeq := by
  unfold getseqVdif
  simp only [hstart, hunknown, hsecond, hknown, if_false, and_false, if_true]

end Vdif

/-! ## MARK5BNET -/

section Mark5bNet

variable {o : Opt} {header : Bytes} {n : ℤ}

/-- The numbers of a MARK5BNET stream are 32-bit. -/
theorem getseqMark5bNet_bounds (header : Bytes) :
    -2 ^ 31 ≤ getseqMark5bNet header ∧ getseqMark5bNet header < 2 ^ 31 :=
  ⟨BitVec.le_toInt _, BitVec.toInt_lt⟩

/-- A number that is set is read back. -/
theorem getseq_setFramenum (hlo : -2 ^ 31 ≤ n) (hhi : n < 2 ^ 31) :
    getseqMark5bNet (setFramenumForMark5bNet header n) = n := by
  unfold getseqMark5bNet setFramenumForMark5bNet
  rw [word32_setWord32, BitVec.toInt_ofInt, Int.bmod_def]
  omega

/-- Setting and reading a number is arithmetic modulo `2 ^ 32`. -/
theorem getseq_setFramenum_bmod :
    getseqMark5bNet (setFramenumForMark5bNet header n) = n.bmod (2 ^ 32) := by
  unfold getseqMark5bNet setFramenumForMark5bNet
  rw [word32_setWord32, BitVec.toInt_ofInt]

end Mark5bNet

end VlbiStreamer.Receiver
