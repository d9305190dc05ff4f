import Mathlib.Data.BitVec
import Mathlib.Tactic.Ring
import VlbiStreamer.Sender.Accessors
import VlbiStreamer.Sender.LiveEnding

/-!
# How much of a buffer is sent

Before `generic_sendloop` sends a buffer, `bboundary_packetnum` or `bboundary_bytenum` sets
the counter of what is to be sent of it: from the packets that were sent or skipped, for
UDP, and from the bytes that were transmitted, for TCP.

`Passing` is a sender on its way through the files, with the steps of
`jump_to_next_file`, of `start_loading` and of the two send commands that concern the
counters, while the recording goes on.  It begins with the first file before it; the jump
that gives back a buffer which is not there is left out.  `sentFiles` and `skips` keep what
has happened so far: how many files were sent, and what was counted for each skipped one.

`boundaryRight_iff` says when the counter is the size of the file in the buffer.
-/

namespace VlbiStreamer.Sender

open ActiveFileIndex Library

/-- Which of the two boundaries the sender uses, and with which send command. -/
inductive Protocol where
  | udp
  | tcp
  deriving DecidableEq, Repr

/-- What is fixed for the sender.  A packet has a byte, and a buffer fits the address
space. -/
structure PassingSetup extends LiveSetup where
  protocol : Protocol
  packet_pos : 0 < packetSize.toNat
  buffer_fits : bufNumElems.toNat * packetSize.toNat < 2 ^ 64

/-- `packet_size` -/
abbrev PassingSetup.size (d : PassingSetup) : ℕ := d.packetSize.toNat

/-- Where the sender is. -/
inductive Stage where
  /-- In the loop of `jump_to_next_file` that waits for another file. -/
  | comparing
  /-- Behind it. -/
  | ready
  /-- It has the next file in its buffer and comes to the boundary. -/
  | taken
  /-- In the inner loop of `generic_sendloop`. -/
  | sending
  deriving DecidableEq, Repr

/-- A sender on its way through the files. -/
structure Passing where
  fi : FileIndex
  st : SenderTracking
  /-- `total_transacted_bytes` -/
  transacted : BitVec 64
  stage : Stage
  sentFiles : ℕ
  skips : List ℕ

/-- The recorder has gone on: the files that were there are full, unless nothing is added
any more.  The bytes of a recording fit an `off_t`. -/
structure Grows (d : PassingSetup) (fi fi' : FileIndex) : Prop where
  files : fi.nFiles ≤ fi'.nFiles
  packets : fi.nPackets ≤ fi'.nPackets
  counted : fi'.nFiles * d.elems < fi'.nPackets + d.elems
  full : fi.nFiles * d.elems ≤ fi.nPackets ∨
    (fi'.nFiles = fi.nFiles ∧ fi'.nPackets = fi.nPackets)
  bytes : fi'.nPackets * d.size < 2 ^ 63

instance (d : PassingSetup) (fi fi' : FileIndex) : Decidable (Grows d fi fi') :=
  decidable_of_iff (fi.nFiles ≤ fi'.nFiles ∧ fi.nPackets ≤ fi'.nPackets ∧
      fi'.nFiles * d.elems < fi'.nPackets + d.elems ∧
      (fi.nFiles * d.elems ≤ fi.nPackets ∨
        (fi'.nFiles = fi.nFiles ∧ fi'.nPackets = fi.nPackets)) ∧
      fi'.nPackets * d.size < 2 ^ 63)
    ⟨fun h => ⟨h.1, h.2.1, h.2.2.1, h.2.2.2.1, h.2.2.2.2⟩,
      fun h => ⟨h.1, h.2, h.3, h.4, h.5⟩⟩

/-- What happens next. -/
inductive Passage where
  /-- The recorder changes the index. -/
  | others (fi : FileIndex)
  /-- The wait for another file is over. -/
  | refresh
  /-- There is one. -/
  | compare
  /-- `start_loading` reads the index and requests loads. -/
  | load (packetsLoaded : BitVec 64)
  /-- `skip_missing(opt, st, SKIP_SENT)`, once. -/
  | skip
  /-- `get_loaded` -/
  | take
  /-- `buffer_boundary(se, &st, &counter)` -/
  | boundary
  /-- `sendcmd(se, &st)`, and what the system call returned. -/
  | sendcmd (err : ℕ)
  /-- The top of `jump_to_next_file`. -/
  | jump

namespace Passing

variable (d : PassingSetup) (s : Passing)

/-- `bboundary_packetnum` -/
def bboundaryPacketnum : BitVec 64 :=
  minU (s.st.nPacketsProbed - s.st.packetsSent) (d.bufNumElems.setWidth 64)

/-- `bboundary_bytenum` -/
def bboundaryBytenum : BitVec 64 :=
  Sender.bboundaryBytenum s.st.totalBytesToSend s.transacted d.packetSize d.bufNumElems

/-- `afi_update_metadata` -/
def updateMetadata : Passing :=
  { s with st := { s.st with
      nFilesProbed := BitVec.ofNat 64 s.fi.nFiles
      nPacketsProbed := BitVec.ofNat 64 s.fi.nPackets
      statusProbed := s.fi.status } }

/-- `st->total_bytes_to_send` after it. -/
def countBytes : Passing :=
  { s.updateMetadata with st := { s.updateMetadata.st with
      totalBytesToSend := s.updateMetadata.st.nPacketsProbed * d.packetSize } }

/-- The counter that the boundary sets. -/
def boundary : BitVec 64 :=
  match d.protocol with
  | .udp => s.bboundaryPacketnum d
  | .tcp => s.bboundaryBytenum d

/-- `udp_sender_sendcmd`, and `tcp_sendcmd` or `tcp_sendfilecmd`. -/
def sendcmd (err : ℕ) : Option Passing :=
  match d.protocol with
  | .udp =>
      if err < 2 ^ 31 then
        if (BitVec.ofNat 32 err).setWidth 64 = d.packetSize then
          some { s with
            st := { s.st with
              packetsSent := s.st.packetsSent + 1
              inc := s.st.inc + d.packetSize
              packetcounter := s.st.packetcounter - 1 }
            transacted := s.transacted + BitVec.ofNat 64 err }
        else some s
      else none
  | .tcp =>
      if 0 < err ∧ err ≤ s.st.packetcounter.toNat then
        some { s with
          st := { s.st with
            inc := s.st.inc + BitVec.ofNat 64 err
            packetcounter := s.st.packetcounter - BitVec.ofNat 64 err }
          transacted := s.transacted + BitVec.ofNat 64 err }
      else none

/-- The body of `skip_missing` for a missing file. -/
def skip : Passing :=
  let nuf := minU (BitVec.ofNat 64 s.fi.nFiles - s.st.packetsLoaded) (d.bufNumElems.setWidth 64)
  { s with st := Lors.skipSent.skip nuf s.st, skips := s.skips ++ [nuf.toNat] }

/-- The buffer was sent and is given back. -/
def jump : Passing :=
  { s.countBytes d with
    st := { (s.countBytes d).st with filesSent := s.st.filesSent + 1 }
    stage := .comparing
    sentFiles := s.sentFiles + 1 }

/-- One step. -/
def next : Passage → Option Passing
  | .others fi => if Grows d s.fi fi then some { s with fi := fi } else none
  | .refresh =>
      if s.stage = .comparing ∧ s.st.filesSent = s.st.nFilesProbed then some (s.countBytes d)
      else none
  | .compare =>
      if s.stage = .comparing ∧ s.st.filesSent ≠ s.st.nFilesProbed then
        some { s with stage := .ready }
      else none
  | .load packetsLoaded =>
      if s.stage = .ready then
        some { s.updateMetadata with st := { s.updateMetadata.st with
          packetsLoaded := packetsLoaded } }
      else none
  | .skip =>
      if s.stage = .ready ∧ s.st.filesSent ≤ s.st.nFilesProbed ∧
          s.fi.afiIsMissing s.st.filesSent.toNat = some true then some (s.skip d)
      else none
  | .take =>
      if s.stage = .ready ∧ s.st.filesSent < s.st.nFilesProbed ∧
          s.fi.afiIsMissing s.st.filesSent.toNat = some false then
        some { s with stage := .taken, st := { s.st with inc := 0 } }
      else none
  | .boundary =>
      if s.stage = .taken then
        some { s with stage := .sending, st := { s.st with packetcounter := s.boundary d } }
      else none
  | .sendcmd err =>
      if s.stage = .sending ∧ 0 < s.st.packetcounter then s.sendcmd d err else none
  | .jump =>
      if s.stage = .sending ∧ s.st.packetcounter = 0 then some (s.jump d) else none

/-- A sender before the first file of an index that it has just read. -/
structure Starts : Prop where
  index : Grows d s.fi s.fi
  filesSent : s.st.filesSent = 0
  packetsSent : s.st.packetsSent = 0
  probed : s.st.nFilesProbed = BitVec.ofNat 64 s.fi.nFiles
  packets : s.st.nPacketsProbed = BitVec.ofNat 64 s.fi.nPackets
  total : s.st.totalBytesToSend = s.st.nPacketsProbed * d.packetSize
  transacted : s.transacted = 0
  stage : s.stage = .comparing
  sentFiles : s.sentFiles = 0
  skips : s.skips = []

/-- All ways of a sender through the files. -/
def system : System Passing Passage := .ofNext (Starts d) (next d)

/-- The packets of the next file. -/
def filePackets : ℕ := min d.elems (s.fi.nPackets - s.st.filesSent.toNat * d.elems)

/-- The counter is the size of the file in the buffer, and the subtraction does not wrap. -/
def BoundaryRight : Prop :=
  match d.protocol with
  | .udp => s.st.packetsSent ≤ s.st.nPacketsProbed ∧
      (s.bboundaryPacketnum d).toNat = s.filePackets d
  | .tcp => s.transacted ≤ s.st.totalBytesToSend ∧
      (s.bboundaryBytenum d).toNat = s.filePackets d * d.size

/-- The file is full, or what was skipped is counted: each skipped file as a full one, for
UDP, while for TCP there is none. -/
def Accounted : Prop :=
  (s.st.filesSent.toNat + 1) * d.elems ≤ s.fi.nPackets ∨
    match d.protocol with
    | .udp => ∀ packets ∈ s.skips, packets = d.elems
    | .tcp => s.skips = []

/-! ## What holds on the way -/

/-- The packets that were counted when `n` files were sent. -/
def packetsAfter (n : ℕ) : ℕ :=
  match d.protocol with
  | .udp => n * d.elems + s.skips.sum
  | .tcp => s.skips.sum

/-- The packets of the buffer that are still to be counted. -/
def restPackets : BitVec 64 :=
  match d.protocol with
  | .udp => s.st.packetcounter
  | .tcp => 0#64

/-- The bytes of the buffer that are still to be transmitted. -/
def restBytes : BitVec 64 :=
  match d.protocol with
  | .udp => s.st.packetcounter * d.packetSize
  | .tcp => s.st.packetcounter

/-- The counters say that `n` full files were sent when the rest is. -/
structure Counted (n : ℕ) (restPackets restBytes : BitVec 64) : Prop where
  packets : s.st.packetsSent + restPackets = BitVec.ofNat 64 (s.packetsAfter d n)
  bytes : s.transacted + restBytes = BitVec.ofNat 64 (n * (d.elems * d.size))

/-- `total_bytes_to_send` is from a time when there were files still to be sent. -/
structure Total (files packets : ℕ) : Prop where
  ahead : s.sentFiles < files
  total : s.st.totalBytesToSend = BitVec.ofNat 64 (packets * d.size)
  packets_le : packets ≤ s.fi.nPackets
  counted : files * d.elems < packets + d.elems
  full : files * d.elems ≤ packets ∨ (files = s.fi.nFiles ∧ packets = s.fi.nPackets)

/-- The last file was not full, and it has been sent. -/
structure Over : Prop where
  sent : s.st.filesSent = s.st.nFilesProbed
  probed : s.st.nFilesProbed.toNat = s.fi.nFiles
  short : s.fi.nPackets < s.fi.nFiles * d.elems

/-- What holds at each stage. -/
def Placed : Stage → Prop
  | .comparing => s.st.totalBytesToSend = s.st.nPacketsProbed * d.packetSize ∧
      s.st.filesSent ≤ s.st.nFilesProbed ∧ (s.Counted d s.sentFiles 0#64 0#64 ∨ s.Over d)
  | .ready => s.Counted d s.sentFiles 0#64 0#64 ∧ ∃ files packets, s.Total d files packets
  | .taken => s.st.filesSent < s.st.nFilesProbed ∧ s.Counted d s.sentFiles 0#64 0#64 ∧
      ∃ files packets, s.Total d files packets
  | .sending => s.st.filesSent < s.st.nFilesProbed ∧
      (s.Counted d (s.sentFiles + 1) (s.restPackets d) (s.restBytes d) ∨
        s.fi.nPackets < (s.st.filesSent.toNat + 1) * d.elems)

/-- The invariant. -/
structure Inv : Prop where
  index : s.fi.nFiles * d.elems < s.fi.nPackets + d.elems
  bytes : s.fi.nPackets * d.size < 2 ^ 63
  snapshot : Live.Snapshot d.toLiveSetup s.fi s.st
  place : s.sentFiles + s.skips.length = s.st.filesSent.toNat
  skipped : ∀ packets ∈ s.skips, packets ≤ d.elems
  placed : s.Placed d s.stage

section Lists

variable {l : List ℕ} {n : ℕ}

theorem sum_le_of_le (h : ∀ x ∈ l, x ≤ n) : l.sum ≤ l.length * n := by
  induction l with
  | nil => exact Nat.zero_le _
  | cons a l ih =>
      have ha := h a List.mem_cons_self
      have hl := ih fun x hx => h x (List.mem_cons_of_mem _ hx)
      rw [List.sum_cons, List.length_cons, Nat.succ_mul]
      omega

/-- The sum is as large as it can be exactly when each number is. -/
theorem sum_eq_iff (h : ∀ x ∈ l, x ≤ n) : l.sum = l.length * n ↔ ∀ x ∈ l, x = n := by
  induction l with
  | nil => simp
  | cons a l ih =>
      have ha := h a List.mem_cons_self
      have htail : ∀ x ∈ l, x ≤ n := fun x hx => h x (List.mem_cons_of_mem _ hx)
      have hl := sum_le_of_le htail
      rw [List.sum_cons, List.length_cons, Nat.succ_mul, List.forall_mem_cons, ← ih htail]
      omega

end Lists

section Boundary

variable {d : PassingSetup} {s t : Passing}

theorem packetsAfter_udp (h : d.protocol = .udp) (n : ℕ) :
    s.packetsAfter d n = n * d.elems + s.skips.sum := by
  unfold packetsAfter
  rw [h]

theorem packetsAfter_tcp (h : d.protocol = .tcp) (n : ℕ) :
    s.packetsAfter d n = s.skips.sum := by
  unfold packetsAfter
  rw [h]

theorem Inv.packets_word (h : s.Inv d) : s.fi.nPackets < 2 ^ 63 :=
  (Nat.le_mul_of_pos_right _ d.packet_pos).trans_lt h.bytes

/-- A file that was read is there. -/
theorem Inv.file_lt (h : s.Inv d) (hfile : s.st.filesSent < s.st.nFilesProbed) :
    s.st.filesSent.toNat < s.fi.nFiles :=
  (BitVec.lt_def.mp hfile).trans_le h.snapshot.files

/-- It has a packet, and if it is not full it is the last one and all packets were read. -/
theorem Inv.file_cases (h : s.Inv d) (hfile : s.st.filesSent < s.st.nFilesProbed) :
    s.st.filesSent.toNat * d.elems < s.st.nPacketsProbed.toNat ∧
      s.st.nPacketsProbed.toNat ≤ s.fi.nPackets ∧
      ((s.st.filesSent.toNat + 1) * d.elems ≤ s.st.nPacketsProbed.toNat ∨
        (s.fi.nFiles = s.st.filesSent.toNat + 1 ∧
          s.st.nPacketsProbed.toNat = s.fi.nPackets)) := by
  have hlt := BitVec.lt_def.mp hfile
  have hinside := h.file_lt hfile
  refine ⟨h.snapshot.counted _ hlt, h.snapshot.packets, ?_⟩
  have hnext : (s.st.filesSent.toNat + 1) * d.elems ≤ s.st.nFilesProbed.toNat * d.elems :=
    Nat.mul_le_mul_right _ hlt
  rcases h.snapshot.full with hfull | ⟨-, hsame⟩
  · exact Or.inl (hnext.trans hfull)
  · by_cases hlast : s.fi.nFiles = s.st.filesSent.toNat + 1
    · exact Or.inr ⟨hlast, hsame⟩
    · have hafter : (s.st.filesSent.toNat + 2) * d.elems ≤ s.fi.nFiles * d.elems :=
        Nat.mul_le_mul_right _ (by omega)
      have hindex := h.index
      rw [Nat.add_mul] at hafter
      rw [Nat.succ_mul, hsame]
      omega

/-- The files that were sent and skipped, in packets. -/
theorem Inv.sum_skips (h : s.Inv d) : s.sentFiles * d.elems + s.skips.length * d.elems =
    s.st.filesSent.toNat * d.elems := by
  rw [← Nat.add_mul, h.place]

/-- **What `bboundary_packetnum` sets.** -/
theorem Inv.toNat_packetnum (h : s.Inv d) (hprotocol : d.protocol = .udp)
    (hfile : s.st.filesSent < s.st.nFilesProbed) (hcounted : s.Counted d s.sentFiles 0#64 0#64) :
    s.st.packetsSent.toNat = s.sentFiles * d.elems + s.skips.sum ∧
      (s.bboundaryPacketnum d).toNat =
        min (s.st.nPacketsProbed.toNat - (s.sentFiles * d.elems + s.skips.sum)) d.elems := by
  obtain ⟨hbefore, hpackets, -⟩ := h.file_cases hfile
  have hsum := h.sum_skips
  have hle := sum_le_of_le h.skipped
  have hword := h.packets_word
  have hsent : s.st.packetsSent.toNat = s.sentFiles * d.elems + s.skips.sum := by
    have hbits := hcounted.packets
    rw [BitVec.add_zero] at hbits
    rw [hbits, BitVec.toNat_ofNat, packetsAfter_udp hprotocol]
    exact Nat.mod_eq_of_lt (by omega)
  refine ⟨hsent, ?_⟩
  unfold bboundaryPacketnum
  rw [toNat_minU, d.toNat_setWidth, BitVec.toNat_sub_of_le, hsent]
  rw [BitVec.le_def, hsent]
  omega

/-- **What `bboundary_bytenum` sets.** -/
theorem Inv.toNat_bytenum (h : s.Inv d) {files packets : ℕ}
    (hcounted : s.Counted d s.sentFiles 0#64 0#64) (htotal : s.Total d files packets) :
    s.transacted ≤ s.st.totalBytesToSend ∧
      (s.bboundaryBytenum d).toNat = min (packets - s.sentFiles * d.elems) d.elems * d.size := by
  have hsent : s.sentFiles * d.elems < packets := by
    have hcount := htotal.counted
    have hle : (s.sentFiles + 1) * d.elems ≤ files * d.elems :=
      Nat.mul_le_mul_right _ htotal.ahead
    rw [Nat.succ_mul] at hle
    omega
  have hbytes : packets * d.size < 2 ^ 64 :=
    (Nat.mul_le_mul_right _ htotal.packets_le).trans_lt (h.bytes.trans (by decide))
  have hsentBytes : s.sentFiles * (d.elems * d.size) ≤ packets * d.size := by
    rw [← Nat.mul_assoc]
    exact Nat.mul_le_mul_right _ hsent.le
  have htransacted : s.transacted.toNat = s.sentFiles * (d.elems * d.size) := by
    have hbits := hcounted.bytes
    rw [BitVec.add_zero] at hbits
    rw [hbits, BitVec.toNat_ofNat]
    exact Nat.mod_eq_of_lt (by omega)
  have htotalBytes : s.st.totalBytesToSend.toNat = packets * d.size := by
    rw [htotal.total, BitVec.toNat_ofNat]
    exact Nat.mod_eq_of_lt hbytes
  have hle : s.transacted ≤ s.st.totalBytesToSend := by
    rw [BitVec.le_def, htransacted, htotalBytes]
    exact hsentBytes
  refine ⟨hle, ?_⟩
  unfold Passing.bboundaryBytenum Sender.bboundaryBytenum
  rw [toNat_minU, BitVec.toNat_sub_of_le hle, htransacted, htotalBytes, BitVec.toNat_mul,
    d.toNat_setWidth, Nat.mod_eq_of_lt d.buffer_fits, ← Nat.mul_assoc, ← Nat.sub_mul]
  exact Nat.mul_min_mul_right _ _ _

/-- The counters of a file that is full. -/
theorem Inv.boundary_full (h : s.Inv d) (hfile : s.st.filesSent < s.st.nFilesProbed)
    (hcounted : s.Counted d s.sentFiles 0#64 0#64) {files packets : ℕ}
    (htotal : s.Total d files packets)
    (hfull : (s.st.filesSent.toNat + 1) * d.elems ≤ s.fi.nPackets) :
    s.filePackets d = d.elems ∧
      (d.protocol = .udp → (s.bboundaryPacketnum d).toNat = d.elems) ∧
      (s.bboundaryBytenum d).toNat = d.elems * d.size := by
  have hsum := h.sum_skips
  rw [Nat.succ_mul] at hfull
  refine ⟨?_, fun hprotocol => ?_, ?_⟩
  · unfold filePackets
    omega
  · obtain ⟨-, -, hcases⟩ := h.file_cases hfile
    rw [(h.toNat_packetnum hprotocol hfile hcounted).2]
    have hle := sum_le_of_le h.skipped
    rw [Nat.succ_mul] at hcases
    omega
  · rw [(h.toNat_bytenum hcounted htotal).2]
    congr 1
    -- the total is that of one more full file, whether it is old or not
    have hahead : (s.sentFiles + 1) * d.elems ≤ files * d.elems :=
      Nat.mul_le_mul_right _ htotal.ahead
    have hcases := htotal.full
    rw [Nat.succ_mul] at hahead
    omega

/-- **The counters of the last file**, if it is not full. -/
theorem Inv.boundary_short (h : s.Inv d) (hfile : s.st.filesSent < s.st.nFilesProbed)
    (hcounted : s.Counted d s.sentFiles 0#64 0#64) {files packets : ℕ}
    (htotal : s.Total d files packets)
    (hshort : s.fi.nPackets < (s.st.filesSent.toNat + 1) * d.elems) :
    (d.protocol = .udp → ((s.bboundaryPacketnum d).toNat = s.filePackets d ↔
      ∀ packets ∈ s.skips, packets = d.elems)) ∧
    ((s.bboundaryBytenum d).toNat = s.filePackets d * d.size ↔ s.skips = []) := by
  have hsum := h.sum_skips
  have hle := sum_le_of_le h.skipped
  obtain ⟨hbefore, hpackets, hcases⟩ := h.file_cases hfile
  rw [Nat.succ_mul] at hshort
  have hlast : s.fi.nFiles = s.st.filesSent.toNat + 1 ∧
      s.st.nPacketsProbed.toNat = s.fi.nPackets := by
    rw [Nat.succ_mul] at hcases
    exact hcases.resolve_left (by omega)
  refine ⟨fun hprotocol => ?_, ?_⟩
  · rw [(h.toNat_packetnum hprotocol hfile hcounted).2, ← sum_eq_iff h.skipped, hlast.2]
    unfold filePackets
    omega
  · rw [(h.toNat_bytenum hcounted htotal).2, Nat.mul_left_inj d.packet_pos.ne']
    have hahead : (s.sentFiles + 1) * d.elems ≤ files * d.elems :=
      Nat.mul_le_mul_right _ htotal.ahead
    have hcount := htotal.counted
    have htotalCases := htotal.full
    rw [Nat.succ_mul] at hahead
    have hfew : s.skips = [] ↔ s.skips.length * d.elems = 0 := by
      rw [Nat.mul_eq_zero, List.length_eq_zero_iff, or_iff_left d.elems_pos.ne']
    have hmost : s.skips ≠ [] → d.elems ≤ s.skips.length * d.elems := fun hne =>
      Nat.le_mul_of_pos_left _ (List.length_pos_iff.mpr hne)
    have hfiles : files = s.fi.nFiles →
        files * d.elems = s.st.filesSent.toNat * d.elems + d.elems := fun heq => by
      rw [heq, hlast.1, Nat.succ_mul]
    have hpacketsLe := htotal.packets_le
    unfold filePackets
    by_cases hskips : s.skips = []
    · have hzero := hfew.mp hskips
      refine iff_of_true ?_ hskips
      rcases htotalCases with hold | ⟨hnow, hsame⟩
      · omega
      · have := hfiles hnow
        omega
    · refine iff_of_false ?_ hskips
      have := hmost hskips
      rcases htotalCases with hold | ⟨hnow, hsame⟩
      · omega
      · have := hfiles hnow
        omega

/-! ## One step -/

/-- An index that is read as it is. -/
theorem counts_of_index (hindex : s.fi.nFiles * d.elems < s.fi.nPackets + d.elems)
    (hbytes : s.fi.nPackets * d.size < 2 ^ 63) :
    Live.Counts d.toLiveSetup s.fi .recording where
  word := (Nat.le_mul_of_pos_right _ d.packet_pos).trans_lt (hbytes.trans (by decide))
  counted file hfile := by
    have hle : (file + 1) * d.elems ≤ s.fi.nFiles * d.elems := Nat.mul_le_mul_right _ hfile
    rw [Nat.succ_mul] at hle
    omega
  ended h := absurd rfl h

theorem Inv.counts (h : s.Inv d) : Live.Counts d.toLiveSetup s.fi .recording :=
  counts_of_index h.index h.bytes

/-- The files that were read and one more fit a word. -/
theorem Inv.files_word (h : s.Inv d) : s.fi.nFiles < 2 ^ 63 :=
  h.counts.nFiles_le.trans_lt h.packets_word

theorem Starts.inv (h : s.Starts d) : s.Inv d where
  index := h.index.counted
  bytes := h.index.bytes
  snapshot := (counts_of_index h.index.counted h.index.bytes).snapshot h.probed h.packets
  place := by
    rw [h.sentFiles, h.skips, h.filesSent]
    rfl
  skipped packets hmem := by
    rw [h.skips] at hmem
    exact absurd hmem List.not_mem_nil
  placed := by
    rw [h.stage]
    refine ⟨h.total, ?_, Or.inl ⟨?_, ?_⟩⟩
    · rw [h.filesSent, BitVec.le_def]
      exact Nat.zero_le _
    · unfold packetsAfter
      rw [h.packetsSent, h.sentFiles, h.skips, Nat.zero_mul]
      cases d.protocol <;> rfl
    · rw [h.transacted, h.sentFiles, Nat.zero_mul]
      rfl

/-- The total stays what it was. -/
theorem Total.grow {fi : FileIndex} {files packets : ℕ} (h : s.Total d files packets)
    (hg : Grows d s.fi fi) : Total d { s with fi := fi } files packets where
  ahead := h.ahead
  total := h.total
  packets_le := h.packets_le.trans hg.packets
  counted := h.counted
  full := by
    rcases h.full with hold | ⟨hfiles, hpackets⟩
    · exact Or.inl hold
    · rcases hg.full with hfull | ⟨hsameFiles, hsamePackets⟩
      · rw [← hfiles, ← hpackets] at hfull
        exact Or.inl hfull
      · exact Or.inr ⟨hfiles.trans hsameFiles.symm, hpackets.trans hsamePackets.symm⟩

/-- An index with a file that is not full does not change any more. -/
theorem same_of_short {fi : FileIndex} (hg : Grows d s.fi fi)
    (hshort : s.fi.nPackets < s.fi.nFiles * d.elems) :
    fi.nFiles = s.fi.nFiles ∧ fi.nPackets = s.fi.nPackets :=
  hg.full.resolve_left (Nat.not_le.mpr hshort)

theorem Inv.others {fi : FileIndex} (h : s.Inv d) (hg : Grows d s.fi fi) :
    Inv d { s with fi := fi } where
  index := hg.counted
  bytes := hg.bytes
  snapshot := h.snapshot.grow hg.files hg.packets hg.full
  place := h.place
  skipped := h.skipped
  placed := by
    have hplaced := h.placed
    show Placed d { s with fi := fi } s.stage
    cases hstage : s.stage with
    | comparing =>
        rw [hstage] at hplaced
        refine ⟨hplaced.1, hplaced.2.1, hplaced.2.2.imp (fun hc => ⟨hc.1, hc.2⟩) fun hover => ?_⟩
        obtain ⟨hfiles, hpackets⟩ := same_of_short hg hover.short
        exact ⟨hover.sent, hover.probed.trans hfiles.symm, by
          show fi.nPackets < fi.nFiles * d.elems
          rw [hfiles, hpackets]
          exact hover.short⟩
    | ready =>
        rw [hstage] at hplaced
        obtain ⟨hcounted, files, packets, htotal⟩ := hplaced
        have ht := htotal.grow hg
        exact ⟨⟨hcounted.1, hcounted.2⟩, files, packets, ⟨ht.1, ht.2, ht.3, ht.4, ht.5⟩⟩
    | taken =>
        rw [hstage] at hplaced
        obtain ⟨hfile, hcounted, files, packets, htotal⟩ := hplaced
        have ht := htotal.grow hg
        exact ⟨hfile, ⟨hcounted.1, hcounted.2⟩, files, packets, ⟨ht.1, ht.2, ht.3, ht.4, ht.5⟩⟩
    | sending =>
        rw [hstage] at hplaced
        obtain ⟨hfile, hcases⟩ := hplaced
        refine ⟨hfile, hcases.imp (fun hc => ⟨hc.1, hc.2⟩) fun hshort => ?_⟩
        have hinside : (s.st.filesSent.toNat + 1) * d.elems ≤ s.fi.nFiles * d.elems :=
          Nat.mul_le_mul_right _ (h.file_lt hfile)
        show fi.nPackets < _
        rw [(same_of_short hg (hshort.trans_le hinside)).2]
        exact hshort

/-- The index is read in `jump_to_next_file`. -/
theorem Inv.countBytes (h : s.Inv d) (hle : s.st.filesSent.toNat ≤ s.fi.nFiles)
    (hcases : s.Counted d s.sentFiles 0#64 0#64 ∨
      (s.st.filesSent.toNat = s.fi.nFiles ∧ s.fi.nPackets < s.fi.nFiles * d.elems))
    (hstage : s.stage = .comparing) : Inv d (s.countBytes d) where
  index := h.index
  bytes := h.bytes
  snapshot := h.counts.snapshot rfl rfl
  place := h.place
  skipped := h.skipped
  placed := by
    have hnFiles : (BitVec.ofNat 64 s.fi.nFiles).toNat = s.fi.nFiles := h.counts.toNat_nFiles
    show Placed d (s.countBytes d) s.stage
    rw [hstage]
    refine ⟨rfl, ?_, hcases.imp (fun hc => ⟨hc.1, hc.2⟩) fun hover => ⟨?_, hnFiles, hover.2⟩⟩
    · rw [BitVec.le_def]
      exact hle.trans hnFiles.ge
    · exact BitVec.eq_of_toNat_eq (hover.1.trans hnFiles.symm)

theorem Inv.refresh (h : s.Inv d) (hstage : s.stage = .comparing) : Inv d (s.countBytes d) := by
  have hplaced := h.placed
  rw [hstage] at hplaced
  obtain ⟨-, hle, hcases⟩ := hplaced
  refine h.countBytes ((BitVec.le_def.mp hle).trans h.snapshot.files)
    (hcases.imp_right fun hover => ⟨?_, hover.short⟩) hstage
  rw [hover.sent, hover.probed]

theorem Inv.compare (h : s.Inv d) (hstage : s.stage = .comparing)
    (hne : s.st.filesSent ≠ s.st.nFilesProbed) : Inv d { s with stage := .ready } where
  index := h.index
  bytes := h.bytes
  snapshot := h.snapshot
  place := h.place
  skipped := h.skipped
  placed := by
    have hplaced := h.placed
    rw [hstage] at hplaced
    obtain ⟨htotal, hle, hcases⟩ := hplaced
    have hcounted := hcases.resolve_right fun hover => hne hover.sent
    have hlt : s.st.filesSent.toNat < s.st.nFilesProbed.toNat :=
      lt_of_le_of_ne (BitVec.le_def.mp hle) fun heq => hne (BitVec.eq_of_toNat_eq heq)
    refine ⟨⟨hcounted.1, hcounted.2⟩, s.st.nFilesProbed.toNat, s.st.nPacketsProbed.toNat, ?_⟩
    refine ⟨?_, ?_, h.snapshot.packets, ?_, h.snapshot.full⟩
    · have hplace := h.place
      show s.sentFiles < _
      omega
    · refine htotal.trans ?_
      rw [BitVec.ofNat_mul, BitVec.ofNat_toNat, BitVec.ofNat_toNat, BitVec.setWidth_eq,
        BitVec.setWidth_eq]
    · have hlast := h.snapshot.counted (s.st.nFilesProbed.toNat - 1) (by omega)
      have hsplit : s.st.nFilesProbed.toNat * d.elems =
          (s.st.nFilesProbed.toNat - 1) * d.elems + d.elems := by
        rw [← Nat.succ_mul]
        congr 1
        omega
      rw [hsplit]
      exact Nat.add_lt_add_right hlast _

theorem Inv.load (h : s.Inv d) (hstage : s.stage = .ready) (packetsLoaded : BitVec 64) :
    Inv d { s.updateMetadata with st := { s.updateMetadata.st with
      packetsLoaded := packetsLoaded } } where
  index := h.index
  bytes := h.bytes
  snapshot := h.counts.snapshot rfl rfl
  place := h.place
  skipped := h.skipped
  placed := by
    have hplaced := h.placed
    rw [hstage] at hplaced
    obtain ⟨hcounted, files, packets, htotal⟩ := hplaced
    show Placed d _ s.stage
    rw [hstage]
    exact ⟨⟨hcounted.1, hcounted.2⟩, files, packets,
      ⟨htotal.1, htotal.2, htotal.3, htotal.4, htotal.5⟩⟩

/-- What is counted for a skipped file is counted. -/
theorem packetsAfter_skip (n : ℕ) : (s.skip d).packetsAfter d n = s.packetsAfter d n +
    (minU (BitVec.ofNat 64 s.fi.nFiles - s.st.packetsLoaded)
      (d.bufNumElems.setWidth 64)).toNat := by
  unfold packetsAfter skip
  cases d.protocol <;>
    simp only [List.sum_append, List.sum_cons, List.sum_nil, Nat.add_zero, Nat.add_assoc]

theorem Inv.skip (h : s.Inv d) (hstage : s.stage = .ready)
    (hfile : s.st.filesSent ≤ s.st.nFilesProbed) : Inv d (s.skip d) where
  index := h.index
  bytes := h.bytes
  snapshot := ⟨h.snapshot.1, h.snapshot.2, h.snapshot.3, h.snapshot.4⟩
  place := by
    have hle := (BitVec.le_def.mp hfile).trans h.snapshot.files
    have hword := h.files_word
    have hnext : (s.st.filesSent + 1).toNat = s.st.filesSent.toNat + 1 := by
      rw [BitVec.toNat_add]
      exact Nat.mod_eq_of_lt (show s.st.filesSent.toNat + 1 < 2 ^ 64 by omega)
    show s.sentFiles + (s.skips ++ [_]).length = (s.st.filesSent + 1).toNat
    rw [hnext, List.length_append, List.length_singleton, ← h.place, Nat.add_assoc]
  skipped packets hmem := by
    rcases List.mem_append.mp hmem with hold | hnew
    · exact h.skipped packets hold
    · rw [List.mem_singleton.mp hnew, toNat_minU, d.toNat_setWidth]
      exact Nat.min_le_right _ _
  placed := by
    have hplaced := h.placed
    rw [hstage] at hplaced
    obtain ⟨hcounted, files, packets, htotal⟩ := hplaced
    show Placed d (s.skip d) s.stage
    rw [hstage]
    refine ⟨⟨?_, hcounted.2⟩, files, packets,
      ⟨htotal.1, htotal.2, htotal.3, htotal.4, htotal.5⟩⟩
    have hbefore := hcounted.packets
    show s.st.packetsSent + _ + 0#64 = _
    rw [BitVec.add_zero] at hbefore ⊢
    rw [packetsAfter_skip, BitVec.ofNat_add, BitVec.ofNat_toNat, BitVec.setWidth_eq, hbefore]
    rfl

theorem Inv.take (h : s.Inv d) (hstage : s.stage = .ready)
    (hfile : s.st.filesSent < s.st.nFilesProbed) :
    Inv d { s with stage := .taken, st := { s.st with inc := 0 } } where
  index := h.index
  bytes := h.bytes
  snapshot := ⟨h.snapshot.1, h.snapshot.2, h.snapshot.3, h.snapshot.4⟩
  place := h.place
  skipped := h.skipped
  placed := by
    have hplaced := h.placed
    rw [hstage] at hplaced
    obtain ⟨hcounted, files, packets, htotal⟩ := hplaced
    exact ⟨hfile, ⟨hcounted.1, hcounted.2⟩, files, packets,
      ⟨htotal.1, htotal.2, htotal.3, htotal.4, htotal.5⟩⟩

/-- The boundary of a full file makes the counters those of one more file. -/
theorem Counted.boundary (hcounted : s.Counted d s.sentFiles 0#64 0#64)
    (hpacketnum : d.protocol = .udp → (s.bboundaryPacketnum d).toNat = d.elems)
    (hbytenum : (s.bboundaryBytenum d).toNat = d.elems * d.size) :
    s.Counted d (s.sentFiles + 1)
      (match d.protocol with | .udp => s.boundary d | .tcp => 0#64)
      (match d.protocol with
        | .udp => s.boundary d * d.packetSize
        | .tcp => s.boundary d) := by
  have hpackets := hcounted.packets
  have hbytes := hcounted.bytes
  rw [BitVec.add_zero] at hpackets hbytes
  have hnext : (s.sentFiles + 1) * (d.elems * d.size) =
      s.sentFiles * (d.elems * d.size) + d.elems * d.size := Nat.succ_mul _ _
  cases hprotocol : d.protocol with
  | udp =>
      have hcount : s.boundary d = BitVec.ofNat 64 d.elems := by
        have hvalue : s.boundary d = s.bboundaryPacketnum d := by
          unfold Passing.boundary
          rw [hprotocol]
        rw [hvalue, ← hpacketnum hprotocol, BitVec.ofNat_toNat, BitVec.setWidth_eq]
      have hsize : d.packetSize = BitVec.ofNat 64 d.size := by
        rw [BitVec.ofNat_toNat, BitVec.setWidth_eq]
      refine ⟨?_, ?_⟩
      · dsimp only
        rw [hpackets, hcount, packetsAfter_udp hprotocol, packetsAfter_udp hprotocol,
          ← BitVec.ofNat_add, Nat.succ_mul]
        congr 1
        omega
      · dsimp only
        rw [hbytes, hcount, hsize, ← BitVec.ofNat_mul, ← BitVec.ofNat_add, hnext]
  | tcp =>
      have hcount : s.boundary d = BitVec.ofNat 64 (d.elems * d.size) := by
        have hvalue : s.boundary d = s.bboundaryBytenum d := by
          unfold Passing.boundary
          rw [hprotocol]
        rw [hvalue, ← hbytenum, BitVec.ofNat_toNat, BitVec.setWidth_eq]
      refine ⟨?_, ?_⟩
      · dsimp only
        rw [BitVec.add_zero, hpackets, packetsAfter_tcp hprotocol, packetsAfter_tcp hprotocol]
      · dsimp only
        rw [hbytes, hcount, ← BitVec.ofNat_add, hnext]

theorem Inv.boundary (h : s.Inv d) (hstage : s.stage = .taken) :
    Inv d { s with stage := .sending, st := { s.st with packetcounter := s.boundary d } } where
  index := h.index
  bytes := h.bytes
  snapshot := ⟨h.snapshot.1, h.snapshot.2, h.snapshot.3, h.snapshot.4⟩
  place := h.place
  skipped := h.skipped
  placed := by
    have hplaced := h.placed
    rw [hstage] at hplaced
    obtain ⟨hfile, hcounted, files, packets, htotal⟩ := hplaced
    refine ⟨hfile, ?_⟩
    rcases Nat.lt_or_ge s.fi.nPackets ((s.st.filesSent.toNat + 1) * d.elems) with hshort | hfull
    · exact Or.inr hshort
    · obtain ⟨-, hpacketnum, hbytenum⟩ := h.boundary_full hfile hcounted htotal hfull
      have hnext := hcounted.boundary hpacketnum hbytenum
      exact Or.inl ⟨hnext.1, hnext.2⟩

/-- What a send command moves is taken off the rest of the buffer, and nothing else
changes. -/
structure Moves (d : PassingSetup) (s t : Passing) : Prop where
  packets : t.st.packetsSent + t.restPackets d = s.st.packetsSent + s.restPackets d
  bytes : t.transacted + t.restBytes d = s.transacted + s.restBytes d
  fi : t.fi = s.fi
  stage : t.stage = s.stage
  sentFiles : t.sentFiles = s.sentFiles
  skips : t.skips = s.skips
  filesSent : t.st.filesSent = s.st.filesSent
  nFilesProbed : t.st.nFilesProbed = s.st.nFilesProbed
  nPacketsProbed : t.st.nPacketsProbed = s.st.nPacketsProbed

/-- A packet is sent whole or does not count. -/
theorem moves_udp {err : ℕ} (hprotocol : d.protocol = .udp) (hsend : s.sendcmd d err = some t) :
    Moves d s t := by
  have hrestPackets : ∀ u : Passing, u.restPackets d = u.st.packetcounter := fun u => by
    unfold restPackets
    rw [hprotocol]
  have hrestBytes : ∀ u : Passing, u.restBytes d = u.st.packetcounter * d.packetSize :=
    fun u => by
      unfold restBytes
      rw [hprotocol]
  unfold Passing.sendcmd at hsend
  rw [hprotocol] at hsend
  dsimp only at hsend
  split at hsend
  next herr =>
    split at hsend
    next hwhole =>
      obtain rfl := Option.some.inj hsend
      have hbytes : BitVec.ofNat 64 err = d.packetSize := by
        rw [← hwhole]
        refine BitVec.eq_of_toNat_eq ?_
        rw [BitVec.toNat_setWidth, BitVec.toNat_ofNat, BitVec.toNat_ofNat]
        omega
      refine ⟨?_, ?_, rfl, rfl, rfl, rfl, rfl, rfl, rfl⟩
      · rw [hrestPackets, hrestPackets]
        show s.st.packetsSent + 1 + (s.st.packetcounter - 1) = _
        ring
      · rw [hrestBytes, hrestBytes]
        show s.transacted + BitVec.ofNat 64 err + (s.st.packetcounter - 1) * d.packetSize = _
        rw [hbytes]
        ring
    next =>
      obtain rfl := Option.some.inj hsend
      exact ⟨rfl, rfl, rfl, rfl, rfl, rfl, rfl, rfl, rfl⟩
  next => cases hsend

/-- As many bytes as the system call has taken. -/
theorem moves_tcp {err : ℕ} (hprotocol : d.protocol = .tcp) (hsend : s.sendcmd d err = some t) :
    Moves d s t := by
  have hrestPackets : ∀ u : Passing, u.restPackets d = 0#64 := fun u => by
    unfold restPackets
    rw [hprotocol]
  have hrestBytes : ∀ u : Passing, u.restBytes d = u.st.packetcounter := fun u => by
    unfold restBytes
    rw [hprotocol]
  unfold Passing.sendcmd at hsend
  rw [hprotocol] at hsend
  dsimp only at hsend
  split at hsend
  next =>
    obtain rfl := Option.some.inj hsend
    refine ⟨?_, ?_, rfl, rfl, rfl, rfl, rfl, rfl, rfl⟩
    · rw [hrestPackets, hrestPackets]
    · rw [hrestBytes, hrestBytes]
      show s.transacted + BitVec.ofNat 64 err +
        (s.st.packetcounter - BitVec.ofNat 64 err) = _
      ring
  next => cases hsend

theorem moves_of_sendcmd {err : ℕ} (hsend : s.sendcmd d err = some t) :
    Moves d s t := by
  cases hprotocol : d.protocol with
  | udp => exact moves_udp hprotocol hsend
  | tcp => exact moves_tcp hprotocol hsend

theorem Inv.moves (h : s.Inv d) (hstage : s.stage = .sending) (hm : Moves d s t) :
    t.Inv d where
  index := hm.fi ▸ h.index
  bytes := hm.fi ▸ h.bytes
  snapshot := by
    refine ⟨?_, ?_, ?_, ?_⟩
    · rw [hm.nFilesProbed, hm.fi]
      exact h.snapshot.files
    · rw [hm.nPacketsProbed, hm.fi]
      exact h.snapshot.packets
    · rw [hm.nFilesProbed, hm.nPacketsProbed]
      exact h.snapshot.counted
    · rw [hm.nFilesProbed, hm.nPacketsProbed, hm.fi]
      exact h.snapshot.full
  place := by
    rw [hm.sentFiles, hm.skips, hm.filesSent]
    exact h.place
  skipped := by
    rw [hm.skips]
    exact h.skipped
  placed := by
    have hplaced := h.placed
    rw [hstage] at hplaced
    obtain ⟨hfile, hcases⟩ := hplaced
    have hafter : t.packetsAfter d (t.sentFiles + 1) = s.packetsAfter d (s.sentFiles + 1) := by
      unfold packetsAfter
      rw [hm.sentFiles, hm.skips]
    rw [hm.stage, hstage]
    refine ⟨?_, hcases.imp (fun hc => ⟨?_, ?_⟩) fun hshort => ?_⟩
    · rw [hm.filesSent, hm.nFilesProbed]
      exact hfile
    · rw [hm.packets, hafter]
      exact hc.packets
    · rw [hm.bytes, hm.sentFiles]
      exact hc.bytes
    · rw [hm.fi, hm.filesSent]
      exact hshort

theorem Inv.jump (h : s.Inv d) (hstage : s.stage = .sending)
    (hcounter : s.st.packetcounter = 0) : Inv d (s.jump d) := by
  have hplaced := h.placed
  rw [hstage] at hplaced
  obtain ⟨hfile, hcases⟩ := hplaced
  have hlt := h.file_lt hfile
  have hword := h.files_word
  have hnext : (s.st.filesSent + 1).toNat = s.st.filesSent.toNat + 1 := by
    rw [BitVec.toNat_add]
    exact Nat.mod_eq_of_lt (show s.st.filesSent.toNat + 1 < 2 ^ 64 by omega)
  have hnFiles : (BitVec.ofNat 64 s.fi.nFiles).toNat = s.fi.nFiles := h.counts.toNat_nFiles
  refine ⟨h.index, h.bytes, h.counts.snapshot rfl rfl, ?_, h.skipped, rfl, ?_, ?_⟩
  · show s.sentFiles + 1 + s.skips.length = (s.st.filesSent + 1).toNat
    rw [hnext, ← h.place]
    omega
  · show s.st.filesSent + 1 ≤ BitVec.ofNat 64 s.fi.nFiles
    rw [BitVec.le_def, hnext, hnFiles]
    exact hlt
  · rcases hcases with hcounted | hshort
    · -- nothing is left of the buffer
      have hpackets : s.restPackets d = 0#64 := by
        unfold restPackets
        cases d.protocol with
        | udp => exact hcounter
        | tcp => rfl
      have hbytes : s.restBytes d = 0#64 := by
        unfold restBytes
        cases d.protocol with
        | udp => exact (congrArg (· * d.packetSize) hcounter).trans BitVec.zero_mul
        | tcp => exact hcounter
      rw [hpackets, hbytes] at hcounted
      exact Or.inl ⟨hcounted.1, hcounted.2⟩
    · -- it was the last file
      have hindex := h.index
      have hlast : s.fi.nFiles = s.st.filesSent.toNat + 1 := by
        by_contra hne
        have hafter : (s.st.filesSent.toNat + 2) * d.elems ≤ s.fi.nFiles * d.elems :=
          Nat.mul_le_mul_right _ (by omega)
        rw [Nat.succ_mul] at hafter
        omega
      refine Or.inr ⟨BitVec.eq_of_toNat_eq (hnext.trans (hlast.symm.trans hnFiles.symm)), hnFiles,
        ?_⟩
      show s.fi.nPackets < s.fi.nFiles * d.elems
      rw [hlast]
      exact hshort

/-- **Every step keeps the invariant.** -/
theorem Inv.next {passage : Passage} (h : s.Inv d) (hnext : s.next d passage = some t) :
    t.Inv d := by
  unfold Passing.next at hnext
  cases passage with
  | others fi =>
      obtain ⟨hg, hsome⟩ := Option.ite_none_right_eq_some.mp hnext
      obtain rfl := Option.some.inj hsome
      exact h.others hg
  | refresh =>
      obtain ⟨hat, hsome⟩ := Option.ite_none_right_eq_some.mp hnext
      obtain rfl := Option.some.inj hsome
      exact h.refresh hat.1
  | compare =>
      obtain ⟨hat, hsome⟩ := Option.ite_none_right_eq_some.mp hnext
      obtain rfl := Option.some.inj hsome
      exact h.compare hat.1 hat.2
  | load packetsLoaded =>
      obtain ⟨hat, hsome⟩ := Option.ite_none_right_eq_some.mp hnext
      obtain rfl := Option.some.inj hsome
      exact h.load hat packetsLoaded
  | skip =>
      obtain ⟨hat, hsome⟩ := Option.ite_none_right_eq_some.mp hnext
      obtain rfl := Option.some.inj hsome
      exact h.skip hat.1 hat.2.1
  | take =>
      obtain ⟨hat, hsome⟩ := Option.ite_none_right_eq_some.mp hnext
      obtain rfl := Option.some.inj hsome
      exact h.take hat.1 hat.2.1
  | boundary =>
      obtain ⟨hat, hsome⟩ := Option.ite_none_right_eq_some.mp hnext
      obtain rfl := Option.some.inj hsome
      exact h.boundary hat
  | sendcmd err =>
      obtain ⟨hat, hsend⟩ := Option.ite_none_right_eq_some.mp hnext
      exact h.moves hat.1 (moves_of_sendcmd hsend)
  | jump =>
      obtain ⟨hat, hsome⟩ := Option.ite_none_right_eq_some.mp hnext
      obtain rfl := Option.some.inj hsome
      exact h.jump hat.1 hat.2

theorem inv_of_reachable (h : (system d).Reachable s) : s.Inv d :=
  h.invariant (fun _ hstart => Starts.inv hstart) fun _ _ _ hinv hnext => Inv.next hinv hnext

/-- **When the boundary is the size of the file in the buffer.**  For every way of a sender
through the files, whatever is missing and however the bytes are sent: exactly when the file
is full or what was skipped is accounted for. -/
theorem boundaryRight_iff (h : (system d).Reachable s) (hstage : s.stage = .taken) :
    s.BoundaryRight d ↔ s.Accounted d := by
  have hinv := inv_of_reachable h
  have hplaced := hinv.placed
  rw [hstage] at hplaced
  obtain ⟨hfile, hcounted, files, packets, htotal⟩ := hplaced
  have hwrapBytes := (hinv.toNat_bytenum hcounted htotal).1
  have hwrapPackets : d.protocol = .udp → s.st.packetsSent ≤ s.st.nPacketsProbed := fun hudp => by
    obtain ⟨hbefore, -, -⟩ := hinv.file_cases hfile
    have hsum := hinv.sum_skips
    have hle := sum_le_of_le hinv.skipped
    rw [BitVec.le_def, (hinv.toNat_packetnum hudp hfile hcounted).1]
    omega
  unfold BoundaryRight Accounted
  rcases Nat.lt_or_ge s.fi.nPackets ((s.st.filesSent.toNat + 1) * d.elems) with hshort | hfull
  · obtain ⟨hpacketnum, hbytenum⟩ := hinv.boundary_short hfile hcounted htotal hshort
    rw [or_iff_right (Nat.not_le.mpr hshort)]
    cases hprotocol : d.protocol with
    | udp => exact (and_iff_right (hwrapPackets hprotocol)).trans (hpacketnum hprotocol)
    | tcp => exact (and_iff_right hwrapBytes).trans hbytenum
  · obtain ⟨hsize, hpacketnum, hbytenum⟩ := hinv.boundary_full hfile hcounted htotal hfull
    refine iff_of_true ?_ (Or.inl hfull)
    cases hprotocol : d.protocol with
    | udp => exact ⟨hwrapPackets hprotocol, (hpacketnum hprotocol).trans hsize.symm⟩
    | tcp => exact ⟨hwrapBytes, by rw [hbytenum, hsize]⟩

end Boundary

/-! ## Two files -/

/-- Packets of ten bytes, four in a buffer. -/
def exampleSetup (protocol : Protocol) : PassingSetup where
  bufNumElems := 4
  packetSize := 10
  elems_pos := by decide
  protocol := protocol
  packet_pos := by decide
  buffer_fits := by decide

/-- Two files and six packets; the first file is missing, or not. -/
def twoFiles (missing : Bool) : Passing where
  fi :=
    { status := afiSend
      packetSize := 10
      files := [⟨0, if missing then fhMissing else fhOndisk⟩, ⟨0, fhOndisk⟩]
      nPackets := 6
      nFiles := 2
      allocatedFiles := 2 }
  st := { Sending.noTracking with nFilesProbed := 2, nPacketsProbed := 6, totalBytesToSend := 60 }
  transacted := 0
  stage := .comparing
  sentFiles := 0
  skips := []

theorem twoFiles_starts (protocol : Protocol) (missing : Bool) :
    (twoFiles missing).Starts (exampleSetup protocol) where
  index := ⟨Nat.le_refl 2, Nat.le_refl 6, (by decide : 2 * 4 < 6 + 4), Or.inr ⟨rfl, rfl⟩,
    (by decide : 6 * 10 < 2 ^ 63)⟩
  filesSent := rfl
  packetsSent := rfl
  probed := rfl
  packets := rfl
  total := rfl
  transacted := rfl
  stage := rfl
  sentFiles := rfl
  skips := rfl

/-- The first file is sent in two parts, and twenty bytes are left for the second one. -/
theorem boundaryRight_iff_sent : ∃ s,
    System.runFrom (next (exampleSetup .tcp)) (twoFiles false)
      [.compare, .take, .boundary, .sendcmd 25, .sendcmd 15, .jump, .compare, .take] = some s ∧
    s.bboundaryBytenum (exampleSetup .tcp) = 20 ∧
    (s.BoundaryRight (exampleSetup .tcp) ↔ s.Accounted (exampleSetup .tcp)) := by
  obtain ⟨s, hrun, hbytes, hstage⟩ : ∃ s,
      System.runFrom (next (exampleSetup .tcp)) (twoFiles false)
        [.compare, .take, .boundary, .sendcmd 25, .sendcmd 15, .jump, .compare, .take] = some s ∧
      s.bboundaryBytenum (exampleSetup .tcp) = 20 ∧ s.stage = .taken := ⟨_, rfl, rfl, rfl⟩
  have hstart : (system (exampleSetup .tcp)).Reachable (twoFiles false) :=
    .init (twoFiles_starts .tcp false)
  exact ⟨s, hrun, hbytes, boundaryRight_iff (hstart.runFrom hrun) hstage⟩

/-- **Skipped files are not transmitted.**  The first file is missing and the second one has
two packets, of which the counter makes forty bytes. -/
theorem skipped_file_sent_again : ¬ ∀ (d : PassingSetup) (s : Passing),
    (system d).Reachable s → s.stage = .taken → s.BoundaryRight d := by
  intro hall
  obtain ⟨s, hrun, hstage, hbytes, hpackets⟩ : ∃ s,
      System.runFrom (next (exampleSetup .tcp)) (twoFiles true) [.compare, .skip, .take] =
        some s ∧ s.stage = .taken ∧ (s.bboundaryBytenum (exampleSetup .tcp)).toNat = 40 ∧
        s.filePackets (exampleSetup .tcp) = 2 := ⟨_, rfl, rfl, rfl, rfl⟩
  have hstart : (system (exampleSetup .tcp)).Reachable (twoFiles true) :=
    .init (twoFiles_starts .tcp true)
  have hright := (hall (exampleSetup .tcp) s (hstart.runFrom hrun) hstage).2
  rw [hbytes, hpackets] at hright
  exact absurd hright (by decide)

end Passing

end VlbiStreamer.Sender
