import VlbiStreamer.FuseIndex.Reading
import VlbiStreamer.Library.Looping
import VlbiStreamer.Library.PacketLayout

/-!
# Reading stripped packets

With an offset set, a thread of `vbs_read` splices what is left of the header of a packet into
a dummy space and the payload into the buffer.  The kernel may take less of the two vectors
than it is given, and the thread goes on from there.

`vbs_read` converts the position and the length of a read each for itself, so that both may
count a header, and the loop gives up when no more than a header's length is left.
`readsStripped_iff` says for which reads the buffer gets its bytes whatever the kernel
takes: those that start within the payload of a packet, end with a packet, and go over no
header that could be taken in two parts.
-/

namespace VlbiStreamer.FuseIndex

open Library Receiver

/-! ## The loop -/

/-- The loop around `vmsplice` between two turns; `base` is `iov[1].iov_base`. -/
structure Splicing where
  count : ℕ
  transacted : ℕ
  base : Ptr
  mem : Memory
  calls : ℕ

section Loop

variable (fi : DataIndex) (strip : ℕ) (ro : ReadOperator) (file : DataFile) (rets : ℕ → ℤ)

/-- The lengths of the two vectors; the first is zero where only the second is spliced. -/
def iovLen (count transacted : ℕ) : ℕ × ℕ :=
  let fromBoundary := ulong (ro.offset + transacted) % fi.packetSize
  if fromBoundary < strip then
    let len := strip - fromBoundary
    (len, min (ulong (count - len)) (uint (fi.packetSize - strip)))
  else (0, min count (uint (fi.packetSize - fromBoundary)))

/-- A turn of the loop of `do_operation` when packets are stripped.  The buffer is as it was
left when the loop stops, unless a `vmsplice` has failed. -/
def spliceTurn (s : Splicing) : Turn Splicing (Option Memory) :=
  if s.count = 0 then .stop (some s.mem)
  else if s.count ≤ strip then .stop (some s.mem)
  else
    let len := (iovLen fi strip ro s.count s.transacted).1
    let err := int (rets s.calls)
    if err < 0 then .stop none
    else if err = 0 then .stop (some s.mem)
    else .again
      { count := ulong (s.count - err)
        transacted := ulong (s.transacted + err)
        base := s.base.add (err - len)
        -- the first `len` bytes go to the dummy space
        mem := s.mem.write s.base (err - len).toNat fun x =>
          file.bytes (ro.offset.toNat + s.transacted + len + x)
        calls := s.calls + 1 }

/-- The loop is entered. -/
def splicing (m : Memory) : Splicing := ⟨ro.size, 0, ro.buf, m, 0⟩

/-- What is still to come out of the pipe. -/
def pipeLeft (s : Splicing) : ℕ := min ro.size (file.length - ro.offset.toNat) - s.transacted

/-- The kernel takes what there is or less, but not nothing. -/
structure Taken (s : Splicing) (err : ℤ) : Prop where
  nonneg : 0 ≤ err
  le_vectors : err ≤ (iovLen fi strip ro s.count s.transacted).1 +
    (iovLen fi strip ro s.count s.transacted).2
  le_pipe : err ≤ pipeLeft ro file s
  progress : 0 < pipeLeft ro file s → 0 < err

/-- The results of the `vmsplice`s of a read. -/
def PartialResults (m : Memory) : Prop :=
  ∀ s, Reaches (spliceTurn fi strip ro file rets) (splicing ro m) s → strip < s.count →
    Taken fi strip ro file s (rets s.calls)

end Loop

/-! ## A read -/

/-- A read of `amount` bytes of payload from `position` on, inside one file. -/
structure StrippedRead where
  fi : DataIndex
  /-- `vbs_data->offset` -/
  strip : ℕ
  /-- The length of the file. -/
  length : ℕ
  position : ℕ
  amount : ℕ
  strip_pos : 0 < strip
  strip_lt : strip < fi.packetSize
  packetSize_lt : fi.packetSize < 2 ^ 31
  filesize_lt : fi.filesize < 2 ^ 63
  length_le : length ≤ fi.filesize
  amount_pos : 1 ≤ amount
  inside : ((position + amount : ℕ) : ℤ) ≤ convertFromTruelengthToWoffset fi strip length

namespace StrippedRead

/-- The packets of the file. -/
def layout (d : StrippedRead) : PacketLayout := ⟨d.fi.packetSize, d.strip, d.strip_lt⟩

/-- What `vbs_read` hands to the thread. -/
def operator (d : StrippedRead) (drive : ℤ) (filenum : ℕ) (buf : Ptr) : ReadOperator where
  drive := drive
  filenum := filenum
  buf := buf
  offset := convertFromWoffsetToTruelength d.fi d.strip d.position
  size := ulong (convertFromWoffsetToTruelength d.fi d.strip d.amount)

/-- The bytes of the file without the headers. -/
def payload (d : StrippedRead) (bytes : Bytes) : Bytes := fun i =>
  bytes (d.layout.pos (d.position + i))

/-- Whatever the kernel takes of the vectors, the loop ends, and the buffer has the bytes asked
for and nothing else. -/
def ReadsStripped (d : StrippedRead) : Prop :=
  ∀ (drive : ℤ) (filenum : ℕ) (buf : Ptr) (bytes : Bytes) (rets : ℕ → ℤ) (m : Memory),
    PartialResults d.fi d.strip (d.operator drive filenum buf) ⟨d.length, bytes⟩ rets m →
    Ends (spliceTurn d.fi d.strip (d.operator drive filenum buf) ⟨d.length, bytes⟩ rets)
      (splicing (d.operator drive filenum buf) m)
      (some (m.write buf d.amount (d.payload bytes)))

/-- The read starts within the payload of a packet, ends with a packet, and goes over no
header of more than a byte. -/
def EndsPacket (d : StrippedRead) : Prop :=
  0 < d.position % d.layout.payload ∧ (d.position + d.amount) % d.layout.payload = 0 ∧
    (d.amount < d.layout.payload ∨ d.strip = 1)

section Results

variable {d : StrippedRead} {drive : ℤ} {filenum : ℕ} {buf : Ptr} {bytes : Bytes} {rets : ℕ → ℤ}
  {m : Memory}

/-! ### Positions and lengths -/

theorem cast_payload : ((d.fi.packetSize : ℤ) - d.strip) = (d.layout.payload : ℕ) :=
  (Int.ofNat_sub d.strip_lt.le).symm

theorem convert_eq (n : ℕ) :
    convertFromWoffsetToTruelength d.fi d.strip n = d.layout.trueLength n := by
  have hsize : (d.fi.packetSize : ℤ) = d.layout.size := rfl
  have hstrip : (d.strip : ℤ) = d.layout.header := rfl
  unfold convertFromWoffsetToTruelength PacketLayout.trueLength
  rw [cast_payload, ← Int.ofNat_tdiv, ← Int.ofNat_tmod, hsize, hstrip]
  by_cases hrest : 0 < n % d.layout.payload
  · rw [if_pos hrest, Nat.cast_add, Nat.cast_add, Nat.cast_mul]
    exact if_pos (Int.ofNat_lt.mpr hrest)
  · rw [if_neg hrest, Nat.cast_mul]
    exact if_neg (mt Int.ofNat_lt.mp hrest)

/-- The bytes are in whole packets of the file. -/
theorem inside_payload :
    d.position + d.amount ≤ d.length / d.fi.packetSize * d.layout.payload := by
  have hinside := d.inside
  rw [convertFromTruelengthToWoffset, cast_payload, ← Int.ofNat_tdiv] at hinside
  exact_mod_cast hinside

/-- Where the read starts in the file. -/
def start (d : StrippedRead) : ℕ := d.layout.trueLength d.position

/-- How many bytes the loop is to read. -/
def size (d : StrippedRead) : ℕ := d.layout.trueLength d.amount

theorem trueLength_le_length {n : ℕ} (h : n ≤ d.position + d.amount) :
    d.layout.trueLength n ≤ d.length :=
  calc d.layout.trueLength n ≤ d.length / d.fi.packetSize * d.fi.packetSize :=
        PacketLayout.trueLength_le (h.trans inside_payload)
    _ ≤ d.length := Nat.div_mul_le_self _ _

theorem start_le : d.start ≤ d.length := trueLength_le_length (Nat.le_add_right _ _)

theorem size_le : d.size ≤ d.length := trueLength_le_length (Nat.le_add_left _ _)

theorem length_lt : d.length < 2 ^ 63 := lt_of_le_of_lt d.length_le d.filesize_lt

theorem operator_offset : (d.operator drive filenum buf).offset = d.start := convert_eq _

theorem operator_size : (d.operator drive filenum buf).size = d.size := by
  have hle := d.size_le
  have hlt := d.length_lt
  show ulong (convertFromWoffsetToTruelength d.fi d.strip d.amount) = d.size
  rw [convert_eq]
  show ulong (d.size : ℕ) = d.size
  unfold ulong
  omega

/-- The payload of a full file. -/
def fullPayload (d : StrippedRead) : ℕ := d.fi.filesize / d.fi.packetSize * d.layout.payload

theorem fullPayload_lt : d.fullPayload < 2 ^ 63 :=
  calc d.fullPayload ≤ d.fi.filesize / d.fi.packetSize * d.fi.packetSize :=
        Nat.mul_le_mul_left _ (Nat.sub_le _ _)
    _ ≤ d.fi.filesize := Nat.div_mul_le_self _ _
    _ < 2 ^ 63 := d.filesize_lt

theorem effectiveFilesize_eq : effectiveFilesize d.fi d.strip = d.fullPayload := by
  have hlt := d.fullPayload_lt
  rw [effectiveFilesize, if_pos d.strip_pos, convertFromTruelengthToWoffset, cast_payload,
    ← Int.ofNat_tdiv, ← Nat.cast_mul]
  show ulong (d.fullPayload : ℕ) = d.fullPayload
  unfold ulong
  omega

theorem inside_fullPayload : d.position + d.amount ≤ d.fullPayload :=
  d.inside_payload.trans (Nat.mul_le_mul_right _ (Nat.div_le_div_right d.length_le))

/-- `vbs_read` starts a thread for the read with this operator. -/
theorem readLoop_operator {n : ℕ} (h : d.fi.fileid filenum ≠ -1) :
    ∃ rest, readLoop d.fi d.strip (n + 1) filenum buf d.amount d.position =
      d.operator (d.fi.fileid filenum) filenum buf :: rest := by
  have hinside := d.inside_fullPayload
  have hlt := d.fullPayload_lt
  have hover : ¬ ulong (d.position + d.amount) > effectiveFilesize d.fi d.strip := by
    rw [effectiveFilesize_eq]
    unfold ulong
    omega
  have hamount : long d.amount = d.amount := long_of_fits (by omega) (by omega)
  unfold readLoop
  dsimp only
  rw [if_neg h, if_pos d.strip_pos, if_neg hover, if_pos d.strip_pos, hamount]
  exact ⟨_, rfl⟩

/-! ### The vectors -/

theorem header_mod_size {x : ℕ} : x % d.fi.packetSize < d.fi.packetSize :=
  Nat.mod_lt x d.layout.size_pos

theorem fromBoundary_eq {transacted : ℕ} (h : transacted ≤ d.size) :
    ulong ((d.operator drive filenum buf).offset + transacted) = d.start + transacted := by
  have hstart := d.start_le
  have hsize := d.size_le
  have hlength := d.length_lt
  rw [operator_offset]
  unfold ulong
  omega

variable {count transacted : ℕ}

/-- The first vector takes what is left of the header. -/
theorem iovLen_fst (h : transacted ≤ d.size) :
    (iovLen d.fi d.strip (d.operator drive filenum buf) count transacted).1 =
      d.strip - (d.start + transacted) % d.fi.packetSize := by
  unfold iovLen
  rw [fromBoundary_eq h]
  dsimp only
  split
  · rfl
  · exact (Nat.sub_eq_zero_of_le (Nat.le_of_not_lt ‹_›)).symm

/-- The two vectors go up to the end of the packet. -/
theorem iovLen_add (h : transacted ≤ d.size) (hcount : d.strip < count) (hlt : count < 2 ^ 64) :
    (iovLen d.fi d.strip (d.operator drive filenum buf) count transacted).1 +
      (iovLen d.fi d.strip (d.operator drive filenum buf) count transacted).2 =
      min count (d.fi.packetSize - (d.start + transacted) % d.fi.packetSize) := by
  have hmod : (d.start + transacted) % d.fi.packetSize < d.fi.packetSize := header_mod_size
  have hpacket := d.packetSize_lt
  have hstrip := d.strip_lt
  unfold iovLen
  rw [fromBoundary_eq h]
  dsimp only
  generalize (d.start + transacted) % d.fi.packetSize = fromBoundary at *
  have hpayload : uint (d.fi.packetSize - d.strip) = d.fi.packetSize - d.strip := by
    unfold uint
    omega
  have hrest : uint (d.fi.packetSize - fromBoundary) = d.fi.packetSize - fromBoundary := by
    unfold uint
    omega
  split
  · have hkept : ulong (count - (d.strip - fromBoundary : ℕ)) =
        count - (d.strip - fromBoundary) := by
      unfold ulong
      omega
    dsimp only
    rw [hkept, hpayload]
    omega
  · dsimp only
    rw [hrest]
    omega

/-! ### One turn -/

/-- The operation of the thread. -/
def turn (d : StrippedRead) (drive : ℤ) (filenum : ℕ) (buf : Ptr) (bytes : Bytes)
    (rets : ℕ → ℤ) : Splicing → Turn Splicing (Option Memory) :=
  spliceTurn d.fi d.strip (d.operator drive filenum buf) ⟨d.length, bytes⟩ rets

variable {s : Splicing} {e : ℕ}

/-- What is left of the header at the position of a state. -/
def headerLeft (d : StrippedRead) (s : Splicing) : ℕ :=
  d.strip - (d.start + s.transacted) % d.fi.packetSize

/-- No more than a header's length is left. -/
theorem turn_short (h : s.count ≤ d.strip) :
    d.turn drive filenum buf bytes rets s = .stop (some s.mem) := by
  unfold turn spliceTurn
  rw [if_pos h, ite_self]

/-- The pipe is closed and empty. -/
theorem turn_drained (hcount : d.strip < s.count) (h : rets s.calls = 0) :
    d.turn drive filenum buf bytes rets s = .stop (some s.mem) := by
  have hzero : ¬ s.count = 0 := by omega
  have herr : int (rets s.calls) = 0 := by
    rw [h]
    rfl
  unfold turn spliceTurn
  dsimp only
  rw [if_neg hzero, if_neg (Nat.not_le_of_lt hcount), herr,
    if_neg (lt_irrefl _)]
  exact if_pos rfl

/-- The kernel takes `e` bytes. -/
theorem turn_taken (hsum : s.count + s.transacted = d.size) (hcount : d.strip < s.count)
    (h : rets s.calls = e) (hpos : 0 < e) (hle : e ≤ s.count)
    (hpacket : (d.start + s.transacted) % d.fi.packetSize + e ≤ d.fi.packetSize) :
    d.turn drive filenum buf bytes rets s = .again
      { count := s.count - e
        transacted := s.transacted + e
        base := s.base.add (e - d.headerLeft s)
        mem := s.mem.write s.base (e - d.headerLeft s) fun x =>
          bytes (d.start + s.transacted + d.headerLeft s + x)
        calls := s.calls + 1 } := by
  have hsize := d.size_le
  have hlength := d.length_lt
  have hlt := d.packetSize_lt
  have hzero : ¬ s.count = 0 := by omega
  have herr : int (rets s.calls) = e := by
    rw [h]
    unfold int
    omega
  have hfst : (iovLen d.fi d.strip (d.operator drive filenum buf) s.count s.transacted).1 =
      d.headerLeft s := iovLen_fst (by omega)
  have hwrap : ulong (s.count - e) = s.count - e ∧ ulong (s.transacted + e) = s.transacted + e := by
    unfold ulong
    omega
  have hkept : ((e : ℤ) - d.headerLeft s).toNat = e - d.headerLeft s := by omega
  unfold turn spliceTurn
  dsimp only
  rw [if_neg hzero, if_neg (Nat.not_le_of_lt hcount), herr, hfst, if_neg (by omega),
    if_neg (by omega), hwrap.1, hwrap.2, operator_offset]
  show Turn.again (Splicing.mk _ _ _ (s.mem.write s.base ((e : ℤ) - d.headerLeft s).toNat _) _) = _
  rw [hkept]
  rfl

/-! ### A run that keeps to the payload -/

theorem before_start : d.layout.before d.start = d.position := PacketLayout.before_trueLength _

theorem strip_lt_size : d.strip < d.size := by
  have h : d.layout.header < d.layout.trueLength d.amount :=
    PacketLayout.header_lt_trueLength d.amount_pos
  exact h

/-- The payload between the start of the read and `x`. -/
def kept (d : StrippedRead) (x : ℕ) : ℕ := d.layout.before x - d.position

theorem kept_start : d.kept d.start = 0 := Nat.sub_eq_zero_of_le before_start.le

/-- The loop has come to `x` in the file with `k` calls, and the payload before `x` is in the
buffer. -/
def reached (d : StrippedRead) (buf : Ptr) (bytes : Bytes) (m : Memory) (x k : ℕ) : Splicing where
  count := d.start + d.size - x
  transacted := x - d.start
  base := buf.add (d.kept x)
  mem := m.write buf (d.kept x) (d.payload bytes)
  calls := k

theorem splicing_eq :
    splicing (d.operator drive filenum buf) m = d.reached buf bytes m d.start 0 := by
  unfold splicing reached
  rw [operator_size, kept_start, Nat.sub_self, write_zero, Nat.add_sub_cancel_left]
  show Splicing.mk _ _ buf _ _ = Splicing.mk _ _ ⟨buf.block, buf.off + 0⟩ _ _
  rw [add_zero]

/-- Bytes that are not written do not matter. -/
theorem write_congr {p : Ptr} {n : ℕ} {bs bs' : Bytes} (h : ∀ i < n, bs i = bs' i) :
    m.write p n bs = m.write p n bs' := by
  funext b o
  refine ite_congr rfl (fun hin => ?_) fun _ => rfl
  exact h _ (by omega)

/-- The next bytes of a run of bytes. -/
theorem write_append {c n : ℕ} {bs bs' : Bytes} (h : ∀ i < n, bs' i = bs (c + i)) :
    (m.write buf c bs).write (buf.add c) n bs' = m.write buf (c + n) bs := by
  have hwrite : (m.write buf c bs).write (buf.add c) (c + n - c) (fun x => bs (c + x)) =
      m.write buf (c + n) bs := write_write (Nat.le_add_right c n)
  rw [Nat.add_sub_cancel_left] at hwrite
  rw [← hwrite, write_congr h]

variable {x k : ℕ}

theorem position_le_before (h : d.start ≤ x) : d.position ≤ d.layout.before x :=
  before_start.symm.le.trans (PacketLayout.before_mono h)

theorem kept_add (hstart : d.start ≤ x) (hpacket : x % d.fi.packetSize + e ≤ d.fi.packetSize) :
    d.kept (x + e) = d.kept x + (e - (d.strip - x % d.fi.packetSize)) := by
  have hbefore : d.layout.before (x + e) =
      d.layout.before x + (e - (d.strip - x % d.fi.packetSize)) := PacketLayout.before_add hpacket
  rw [kept, hbefore, Nat.sub_add_comm (position_le_before hstart)]
  rfl

/-- The payload that a turn at `x` puts into the buffer. -/
theorem payload_kept {i : ℕ} (hstart : d.start ≤ x)
    (hi : x % d.fi.packetSize + (d.strip - x % d.fi.packetSize) + i < d.fi.packetSize) :
    bytes (x + (d.strip - x % d.fi.packetSize) + i) = d.payload bytes (d.kept x + i) := by
  have hposition := position_le_before hstart
  have hpos : d.layout.pos (d.layout.before x + i) = x + (d.strip - x % d.fi.packetSize) + i :=
    PacketLayout.pos_before_add hi
  have hindex : d.position + (d.kept x + i) = d.layout.before x + i := by
    unfold kept
    omega
  show _ = bytes (d.layout.pos (d.position + (d.kept x + i)))
  rw [hindex, hpos]

/-- **One turn.**  Where at most a byte of header is left, the result is in step with the
payload. -/
theorem turn_reached (hstart : d.start ≤ x) (hcount : x + d.strip < d.start + d.size)
    (hheader : d.strip ≤ x % d.fi.packetSize + 1) (h : rets k = e) (hpos : 0 < e)
    (hle : x + e ≤ d.start + d.size) (hpacket : x % d.fi.packetSize + e ≤ d.fi.packetSize) :
    d.turn drive filenum buf bytes rets (d.reached buf bytes m x k) =
      .again (d.reached buf bytes m (x + e) (k + 1)) := by
  have hx : d.start + (x - d.start) = x := Nat.add_sub_cancel' hstart
  have hkept := kept_add hstart hpacket
  have hleft : d.headerLeft (d.reached buf bytes m x k) = d.strip - x % d.fi.packetSize := by
    show d.strip - (d.start + (x - d.start)) % d.fi.packetSize = _
    rw [hx]
  have hsum : d.start + d.size - x + (x - d.start) = d.size := by omega
  have hlong : d.strip < d.start + d.size - x := by omega
  have htaken : e ≤ d.start + d.size - x := by omega
  have hend : (d.start + (d.reached buf bytes m x k).transacted) % d.fi.packetSize + e ≤
      d.fi.packetSize := hx.symm ▸ hpacket
  have hrest : d.start + d.size - x - e = d.start + d.size - (x + e) := by omega
  have hsofar : x - d.start + e = x + e - d.start := by omega
  have hbase : (buf.add (d.kept x)).add (e - (d.strip - x % d.fi.packetSize : ℕ)) =
      buf.add (d.kept (x + e)) := by
    have hsum : buf.off + d.kept x + (e - (d.strip - x % d.fi.packetSize : ℕ)) =
        buf.off + (d.kept (x + e) : ℤ) := by omega
    exact congrArg (Ptr.mk buf.block) hsum
  have hmem : (m.write buf (d.kept x) (d.payload bytes)).write (buf.add (d.kept x))
      (e - (d.strip - x % d.fi.packetSize))
      (fun i => bytes (x + (d.strip - x % d.fi.packetSize) + i)) =
      m.write buf (d.kept (x + e)) (d.payload bytes) := by
    rw [hkept]
    exact write_append fun i hi => payload_kept hstart (by omega)
  rw [turn_taken hsum hlong h hpos htaken hend, hleft]
  show Turn.again (Splicing.mk (d.start + d.size - x - e) (x - d.start + e) (Ptr.add (buf.add _) _)
    (Memory.write (m.write buf _ _) (buf.add _) _ fun i => bytes (d.start + (x - d.start) + _ + i))
    (k + 1)) = _
  rw [hrest, hsofar, hx, hbase, hmem]
  rfl

/-! ### Reads that end with a packet -/

theorem start_eq (h : 0 < d.position % d.layout.payload) :
    d.start = d.position / d.layout.payload * d.fi.packetSize + d.strip +
      d.position % d.layout.payload := if_pos h

theorem size_eq (h : 0 < d.amount % d.layout.payload) :
    d.size = d.amount / d.layout.payload * d.fi.packetSize + d.strip +
      d.amount % d.layout.payload := if_pos h

theorem payload_add_strip : d.layout.payload + d.strip = d.fi.packetSize :=
  PacketLayout.payload_add_header

/-- The whole packets' worth of the position and of the length, and what is over of them. -/
theorem packets_mul_add :
    (d.position / d.layout.payload + d.amount / d.layout.payload) * d.layout.payload +
      (d.position % d.layout.payload + d.amount % d.layout.payload) = d.position + d.amount := by
  have hposition := Nat.div_add_mod' d.position d.layout.payload
  have hamount := Nat.div_add_mod' d.amount d.layout.payload
  rw [Nat.add_mul]
  omega

/-- The read starts within a packet and ends in the one where its last whole packet's worth of
bytes ends. -/
structure Within (d : StrippedRead) : Prop where
  position_pos : 0 < d.position % d.layout.payload
  amount_pos : 0 < d.amount % d.layout.payload
  add_le : d.position % d.layout.payload + d.amount % d.layout.payload ≤ d.layout.payload

/-- The loop comes to no more than a byte of header. -/
theorem Within.header_le (h : d.Within) (hsmall : d.amount < d.layout.payload ∨ d.strip = 1)
    (hstart : d.start ≤ x) (hend : x + d.strip < d.start + d.size) :
    d.strip ≤ x % d.fi.packetSize + 1 := by
  rcases hsmall with hless | hone
  · have hadd := h.add_le
    have hsum := d.payload_add_strip
    have hdiv : d.amount / d.layout.payload = 0 := Nat.div_eq_of_lt hless
    have hstart' := start_eq h.position_pos
    have hsize' := size_eq h.amount_pos
    rw [hdiv, Nat.zero_mul, Nat.zero_add] at hsize'
    obtain ⟨f, rfl⟩ : ∃ f, x = d.fi.packetSize * (d.position / d.layout.payload) + f :=
      Nat.exists_eq_add_of_le (by rw [Nat.mul_comm]; omega)
    rw [Nat.mul_comm] at hstart'
    rw [Nat.mul_add_mod, Nat.mod_eq_of_lt (by omega)]
    omega
  · omega

/-- The number of the packet behind the read. -/
def lastPacket (d : StrippedRead) : ℕ :=
  d.position / d.layout.payload + d.amount / d.layout.payload + 1

namespace EndsPacket

theorem rest_eq (h : d.EndsPacket) :
    d.position % d.layout.payload + d.amount % d.layout.payload = d.layout.payload := by
  obtain ⟨hposition, hend, -⟩ := h
  have hplt := Nat.mod_lt d.position d.layout.payload_pos
  have halt := Nat.mod_lt d.amount d.layout.payload_pos
  rw [Nat.add_mod] at hend
  obtain ⟨c, hc⟩ := Nat.dvd_of_mod_eq_zero hend
  -- less than two payloads, and not nothing
  have hone : c = 1 := by
    have hlt : c < 2 := by
      have hmul : d.layout.payload * c < d.layout.payload * 2 := by omega
      exact Nat.lt_of_mul_lt_mul_left hmul
    have hne : c ≠ 0 := by
      rintro rfl
      omega
    omega
  rw [hc, hone, Nat.mul_one]

theorem within (h : d.EndsPacket) : d.Within where
  position_pos := h.1
  amount_pos := by
    have hplt := Nat.mod_lt d.position d.layout.payload_pos
    have hrest := h.rest_eq
    omega
  add_le := h.rest_eq.le

theorem position_add_amount (h : d.EndsPacket) :
    d.position + d.amount = d.lastPacket * d.layout.payload := by
  rw [lastPacket, Nat.succ_mul, ← packets_mul_add, h.rest_eq]

/-- One header more than the bytes need is counted. -/
theorem start_add_size (h : d.EndsPacket) :
    d.start + d.size = d.lastPacket * d.fi.packetSize + d.strip := by
  have hrest := h.rest_eq
  have hsum := d.payload_add_strip
  rw [start_eq h.within.position_pos, size_eq h.within.amount_pos, lastPacket, Nat.add_mul,
    Nat.add_mul, Nat.one_mul]
  omega

theorem lastPacket_le (h : d.EndsPacket) : d.lastPacket * d.fi.packetSize ≤ d.length := by
  have hinside := d.inside_payload
  rw [h.position_add_amount] at hinside
  calc d.lastPacket * d.fi.packetSize ≤ d.length / d.fi.packetSize * d.fi.packetSize :=
        Nat.mul_le_mul_right _ (Nat.le_of_mul_le_mul_right hinside d.layout.payload_pos)
    _ ≤ d.length := Nat.div_mul_le_self _ _

theorem kept_lastPacket (h : d.EndsPacket) :
    d.kept (d.lastPacket * d.fi.packetSize) = d.amount := by
  have hbefore : d.layout.before (d.lastPacket * d.layout.size + 0) =
      d.lastPacket * d.layout.payload + (0 - d.layout.header) :=
    PacketLayout.before_mul_add (Nat.zero_le _)
  have hsum := h.position_add_amount
  show d.layout.before (d.lastPacket * d.layout.size + 0) - d.position = d.amount
  rw [hbefore]
  omega

end EndsPacket

/-- What the kernel takes is within the packet. -/
theorem taken_spec {err : ℤ} (hsum : s.count + s.transacted = d.size) (hcount : d.strip < s.count)
    (h : Taken d.fi d.strip (d.operator drive filenum buf) ⟨d.length, bytes⟩ s err)
    (hleft : d.start + s.transacted < d.length) :
    ∃ e : ℕ, err = e ∧ 0 < e ∧ e ≤ s.count ∧
      (d.start + s.transacted) % d.fi.packetSize + e ≤ d.fi.packetSize := by
  have hsize := d.size_le
  have hlength := d.length_lt
  have hvectors := h.le_vectors
  have hadd : (iovLen d.fi d.strip (d.operator drive filenum buf) s.count s.transacted).1 +
      (iovLen d.fi d.strip (d.operator drive filenum buf) s.count s.transacted).2 =
      min s.count (d.fi.packetSize - (d.start + s.transacted) % d.fi.packetSize) :=
    iovLen_add (by omega) hcount (by omega)
  have hpipe : 0 < pipeLeft (d.operator drive filenum buf) ⟨d.length, bytes⟩ s := by
    rw [pipeLeft, operator_size, operator_offset]
    show 0 < min d.size (d.length - d.start) - s.transacted
    omega
  have hpos := h.progress hpipe
  have hmod : (d.start + s.transacted) % d.fi.packetSize < d.fi.packetSize := header_mod_size
  exact ⟨err.toNat, by omega, by omega, by omega, by omega⟩

/-- **Whatever the kernel takes**, a read that ends with a packet gets its bytes. -/
theorem EndsPacket.readsStripped (h : d.EndsPacket) : d.ReadsStripped := by
  intro drive filenum buf bytes rets m hresults
  have hend := h.start_add_size
  have hlength := h.lastPacket_le
  have hrun : ∃ r, Ends (d.turn drive filenum buf bytes rets)
      (splicing (d.operator drive filenum buf) m) r ∧
      r = some (m.write buf d.amount (d.payload bytes)) := by
    refine Ends.of_variant (fun s => Reaches (d.turn drive filenum buf bytes rets)
        (splicing (d.operator drive filenum buf) m) s ∧ ∃ x k, s = d.reached buf bytes m x k ∧
        d.start ≤ x ∧ x ≤ d.lastPacket * d.fi.packetSize) _ Splicing.count ?_ ?_
    · rintro s ⟨hreach, x, k, rfl, hstart, hx⟩
      rcases hx.lt_or_eq with hx | rfl
      · left
        have hcount : d.strip < d.start + d.size - x := by omega
        have hsofar : d.start + (x - d.start) = x := Nat.add_sub_cancel' hstart
        obtain ⟨e, herr, hpos, hle, hpacket⟩ := taken_spec
          (show d.start + d.size - x + (x - d.start) = d.size by omega) hcount
          (hresults _ hreach hcount) (show d.start + (x - d.start) < d.length by omega)
        have hmod : x % d.fi.packetSize + e ≤ d.fi.packetSize := hsofar ▸ hpacket
        have htaken : e ≤ d.start + d.size - x := hle
        have hnext : x + e ≤ d.lastPacket * d.layout.size := PacketLayout.add_le_of_mod hx hmod
        have hturn : d.turn drive filenum buf bytes rets (d.reached buf bytes m x k) =
            .again (d.reached buf bytes m (x + e) (k + 1)) :=
          turn_reached hstart (by omega) (h.within.header_le h.2.2 hstart (by omega)) herr hpos
            (by omega) hmod
        refine ⟨_, hturn, ⟨hreach.next hturn, x + e, k + 1, rfl, by omega, hnext⟩, ?_⟩
        show d.start + d.size - (x + e) < d.start + d.size - x
        omega
      · right
        refine ⟨_, turn_short (show d.start + d.size - _ ≤ d.strip by omega), ?_⟩
        show some (m.write buf (d.kept _) _) = _
        rw [h.kept_lastPacket]
    · refine ⟨Reaches.refl, d.start, 0, splicing_eq, le_rfl, ?_⟩
      have hsize := d.strip_lt_size
      omega
  obtain ⟨r, hends, rfl⟩ := hrun
  exact hends

end Results

end StrippedRead

end VlbiStreamer.FuseIndex
