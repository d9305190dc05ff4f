import Mathlib.Data.List.Range
import VlbiStreamer.Library.Looping
import VlbiStreamer.Sender.FileJump

/-!
# Sending a buffer by UDP

The inner loop of `generic_sendloop` calls `udp_sender_sendcmd` until nothing is left of the
buffer.  Each call sends one packet without its first `offset` bytes, and the packet counts
as sent when the network has taken `packet_size` bytes of it.

`sendsBuffer_iff` says when the buffer is sent, on a network that takes every datagram: when
no bytes are stripped and a packet fits an `int`.  Otherwise the loop sends the first packet
for ever, or gives up after it.
-/

namespace VlbiStreamer.Sender

open Library

/-- What is fixed for the buffer: its packets fit the address space. -/
structure UdpSetup where
  packetSize : ℕ
  offset : ℕ
  /-- The packets in the buffer. -/
  packets : ℕ
  offset_lt : offset < packetSize
  buffer_fits : packets * packetSize < 2 ^ 64

/-- What the inner loop changes, with the datagrams that were sent. -/
structure UdpSending (α : Type) where
  st : SenderTracking
  /-- `total_transacted_bytes` -/
  transacted : BitVec 64
  datagrams : List (List α)

namespace UdpSending

variable {α : Type} (d : UdpSetup) (buffer : ℕ → α)

/-- The bytes of the buffer from `start` on. -/
def bytesFrom (start n : ℕ) : List α := (List.range n).map fun x => buffer (start + x)

/-- `udp_sender_sendcmd(se, st)` with its return value, when `sendto` returns `ret`, which
goes into an `int`. -/
def udpSenderSendcmd (ret : ℤ) (s : UdpSending α) : ℤ × UdpSending α :=
  let err := BitVec.ofInt 32 ret
  let sent := { s with
    datagrams := s.datagrams ++
      [bytesFrom buffer (s.st.inc + BitVec.ofNat 64 d.offset).toNat (d.packetSize - d.offset)] }
  if err.toInt < 0 then (-1, sent)
  else if err.setWidth 64 ≠ BitVec.ofNat 64 d.packetSize then (0, sent)
  else
    (0, { sent with
      st := { s.st with
        packetsSent := s.st.packetsSent + 1
        inc := s.st.inc + BitVec.ofNat 64 d.packetSize
        packetcounter := s.st.packetcounter - 1 }
      transacted := s.transacted + BitVec.ofInt 64 err.toInt })

/-- One turn of the inner loop on a network that takes every datagram.  The loop stops with
`false` after an error of the command. -/
def turn (s : UdpSending α) : Turn (UdpSending α) (Bool × UdpSending α) :=
  if 0 < s.st.packetcounter then
    match udpSenderSendcmd d buffer (d.packetSize - d.offset : ℕ) s with
    | (err, s') => if err ≠ 0 then .stop (false, s') else .again s'
  else .stop (true, s)

/-- The datagram of packet `j`: its bytes behind the offset. -/
def datagram (j : ℕ) : List α :=
  bytesFrom buffer (j * d.packetSize + d.offset) (d.packetSize - d.offset)

/-- The loop is entered with a buffer. -/
structure Starts (s : UdpSending α) : Prop where
  inc : s.st.inc = 0
  counter : s.st.packetcounter = BitVec.ofNat 64 d.packets

/-- The tracking when `n` packets have been sent. -/
def tracking (n : ℕ) (st : SenderTracking) : SenderTracking :=
  { st with
    packetsSent := st.packetsSent + BitVec.ofNat 64 n
    inc := BitVec.ofNat 64 (n * d.packetSize)
    packetcounter := BitVec.ofNat 64 (d.packets - n) }

/-- The loop sends the buffer: a datagram for each packet, in order, and the counters are
those of the packets and of the bytes of the datagrams. -/
def SendsBuffer (s : UdpSending α) : Prop :=
  Ends (turn d buffer) s (true,
    { st := tracking d d.packets s.st
      transacted := s.transacted +
        BitVec.ofNat 64 (d.packets * (d.packetSize - d.offset))
      datagrams := s.datagrams ++ (List.range d.packets).map (datagram d buffer) })

/-- The state after `n` datagrams of whole packets. -/
def after (s : UdpSending α) (n : ℕ) : UdpSending α where
  st := tracking d n s.st
  transacted := s.transacted + BitVec.ofNat 64 (n * (d.packetSize - d.offset))
  datagrams := s.datagrams ++ (List.range n).map (datagram d buffer)

section Results

variable {d : UdpSetup} {buffer : ℕ → α} {s : UdpSending α} {n : ℕ}

/-- What `sendto` returns is `packet_size` exactly when nothing is stripped and the packet
fits an `int`. -/
theorem whole_iff (hsize : d.packetSize < 2 ^ 64) :
    ¬ (BitVec.ofInt 32 (d.packetSize - d.offset : ℕ)).toInt < 0 ∧
        (BitVec.ofInt 32 (d.packetSize - d.offset : ℕ)).setWidth 64 =
          BitVec.ofNat 64 d.packetSize ↔
      d.offset = 0 ∧ d.packetSize < 2 ^ 31 := by
  have hlt := d.offset_lt
  have herr : (BitVec.ofInt 32 (d.packetSize - d.offset : ℕ)).toNat =
      (d.packetSize - d.offset) % 2 ^ 32 := by
    rw [BitVec.ofInt_natCast, BitVec.toNat_ofNat]
  have hnumbers : (BitVec.ofInt 32 (d.packetSize - d.offset : ℕ)).setWidth 64 =
      BitVec.ofNat 64 d.packetSize ↔
        (d.packetSize - d.offset) % 2 ^ 32 = d.packetSize := by
    rw [← BitVec.toNat_inj, BitVec.toNat_setWidth, herr, BitVec.toNat_ofNat,
      Nat.mod_eq_of_lt hsize, Nat.mod_eq_of_lt (show _ < 2 ^ 64 by omega)]
  rw [hnumbers, BitVec.toInt_eq_toNat_cond, herr]
  omega

theorem packetSize_word (hpackets : 0 < d.packets) : d.packetSize < 2 ^ 64 :=
  (Nat.le_mul_of_pos_left _ hpackets).trans_lt d.buffer_fits

theorem packets_word : d.packets < 2 ^ 64 :=
  (Nat.le_mul_of_pos_right _ (Nat.zero_lt_of_lt d.offset_lt)).trans_lt d.buffer_fits

theorem after_zero (h : s.Starts d) : s.after d buffer 0 = s := by
  have hst : tracking d 0 s.st = s.st := by
    have hcounter : BitVec.ofNat 64 (d.packets - 0) = s.st.packetcounter := h.counter.symm
    have hinc : BitVec.ofNat 64 (0 * d.packetSize) = s.st.inc := by
      rw [h.inc, Nat.zero_mul]
      rfl
    unfold tracking
    rw [hcounter, hinc, BitVec.add_zero]
  unfold after
  rw [hst, Nat.zero_mul, BitVec.add_zero, List.range_zero, List.map_nil, List.append_nil]

/-- There is something left of the buffer. -/
theorem after_counter (hn : n < d.packets) : 0 < (s.after d buffer n).st.packetcounter := by
  have hword : d.packets < 2 ^ 64 := packets_word
  show 0 < BitVec.ofNat 64 (d.packets - n)
  rw [BitVec.lt_def, BitVec.toNat_ofNat, Nat.mod_eq_of_lt (by omega)]
  exact Nat.sub_pos_of_lt hn

/-- The next datagram is that of the next packet. -/
theorem after_datagram (hn : n < d.packets) :
    bytesFrom buffer ((s.after d buffer n).st.inc + BitVec.ofNat 64 d.offset).toNat
      (d.packetSize - d.offset) = datagram d buffer n := by
  have hfits := d.buffer_fits
  have hoffset := d.offset_lt
  have hnext : (n + 1) * d.packetSize ≤ d.packets * d.packetSize := Nat.mul_le_mul_right _ hn
  rw [Nat.succ_mul] at hnext
  have hstart : ((s.after d buffer n).st.inc + BitVec.ofNat 64 d.offset).toNat =
      n * d.packetSize + d.offset := by
    show (BitVec.ofNat 64 (n * d.packetSize) + _).toNat = _
    rw [← BitVec.ofNat_add, BitVec.toNat_ofNat]
    exact Nat.mod_eq_of_lt (by omega)
  rw [hstart]
  rfl

/-- One packet more. -/
theorem turn_after (hwhole : d.offset = 0 ∧ d.packetSize < 2 ^ 31) (hn : n < d.packets) :
    turn d buffer (s.after d buffer n) = .again (s.after d buffer (n + 1)) := by
  obtain ⟨hpos, hequal⟩ :=
    (whole_iff (packetSize_word (Nat.zero_lt_of_lt hn))).mpr hwhole
  have hcommand : udpSenderSendcmd d buffer (d.packetSize - d.offset : ℕ) (s.after d buffer n) =
      (0, s.after d buffer (n + 1)) := by
    unfold udpSenderSendcmd
    dsimp only
    rw [if_neg hpos, if_neg (not_not.mpr hequal), after_datagram hn]
    have hsent : s.st.packetsSent + BitVec.ofNat 64 n + 1 =
        s.st.packetsSent + BitVec.ofNat 64 (n + 1) := by
      rw [BitVec.ofNat_add, BitVec.add_assoc]
      rfl
    have hinc : BitVec.ofNat 64 (n * d.packetSize) + BitVec.ofNat 64 d.packetSize =
        BitVec.ofNat 64 ((n + 1) * d.packetSize) := by
      rw [← BitVec.ofNat_add, Nat.succ_mul]
    have hcounter :
        BitVec.ofNat 64 (d.packets - n) - 1 = BitVec.ofNat 64 (d.packets - (n + 1)) := by
      have hleft : d.packets - n = d.packets - (n + 1) + 1 := by omega
      rw [hleft, BitVec.ofNat_add]
      exact BitVec.add_sub_cancel _ _
    have hbytes : s.transacted + BitVec.ofNat 64 (n * (d.packetSize - d.offset)) +
        BitVec.ofInt 64 (BitVec.ofInt 32 (d.packetSize - d.offset : ℕ)).toInt =
        s.transacted + BitVec.ofNat 64 ((n + 1) * (d.packetSize - d.offset)) := by
      have herr : (BitVec.ofInt 32 (d.packetSize - d.offset : ℕ)).toInt =
          (d.packetSize - d.offset : ℕ) := by
        rw [BitVec.toInt_eq_toNat_cond, BitVec.ofInt_natCast, BitVec.toNat_ofNat]
        omega
      rw [herr, BitVec.ofInt_natCast, BitVec.add_assoc, ← BitVec.ofNat_add, Nat.succ_mul]
    have hdatagrams : s.datagrams ++ (List.range n).map (datagram d buffer) ++
        [datagram d buffer n] =
        s.datagrams ++ (List.range (n + 1)).map (datagram d buffer) := by
      rw [List.append_assoc, List.range_succ, List.map_append, List.map_singleton]
    unfold after tracking
    dsimp only
    rw [hsent, hinc, hcounter, hbytes, hdatagrams]
  unfold turn
  rw [if_pos (after_counter hn), hcommand]
  rfl

/-- A datagram that does not count ends the loop with an error or changes no counter. -/
theorem turn_of_not_whole (hcounter : 0 < s.st.packetcounter) (hsize : d.packetSize < 2 ^ 64)
    (hnot : ¬ (d.offset = 0 ∧ d.packetSize < 2 ^ 31)) :
    (∃ s', turn d buffer s = .stop (false, s')) ∨
      ∃ s', turn d buffer s = .again s' ∧ s'.st = s.st := by
  unfold turn udpSenderSendcmd
  dsimp only
  rw [if_pos hcounter]
  by_cases hneg : (BitVec.ofInt 32 (d.packetSize - d.offset : ℕ)).toInt < 0
  · rw [if_pos hneg]
    exact Or.inl ⟨_, rfl⟩
  · have hne : (BitVec.ofInt 32 (d.packetSize - d.offset : ℕ)).setWidth 64 ≠
        BitVec.ofNat 64 d.packetSize := fun heq => hnot ((whole_iff hsize).mp ⟨hneg, heq⟩)
    rw [if_neg hneg, if_pos hne]
    exact Or.inr ⟨_, rfl, rfl⟩

/-- The loop does not come to its end then. -/
theorem not_ends_of_not_whole {s' : UdpSending α} (hcounter : 0 < s.st.packetcounter)
    (hsize : d.packetSize < 2 ^ 64) (hnot : ¬ (d.offset = 0 ∧ d.packetSize < 2 ^ 31)) :
    ¬ Ends (turn d buffer) s (true, s') := by
  intro hends
  suffices hfailed : (true, s').1 = false from Bool.noConfusion hfailed
  have hcases : ∀ u : UdpSending α, 0 < u.st.packetcounter →
      (∃ s', turn d buffer u = .stop (false, s')) ∨
        ∃ s', turn d buffer u = .again s' ∧ s'.st = u.st :=
    fun u hu => turn_of_not_whole hu hsize hnot
  refine hends.invariant (fun u => 0 < u.st.packetcounter) (fun r => r.1 = false) ?_ ?_ hcounter
  · intro u v hu hturn
    rcases hcases u hu with ⟨w, hstop⟩ | ⟨w, hagain, hst⟩
    · cases hturn.symm.trans hstop
    · obtain rfl := Turn.again.inj (hturn.symm.trans hagain)
      rw [hst]
      exact hu
  · intro u r hu hturn
    rcases hcases u hu with ⟨w, hstop⟩ | ⟨w, hagain, -⟩
    · rw [Turn.stop.inj (hturn.symm.trans hstop)]
    · cases hturn.symm.trans hagain

/-- **The loop sends the buffer exactly when no bytes are stripped and a packet fits an
`int`**, or when there is nothing to send. -/
theorem sendsBuffer_iff (h : s.Starts d) :
    s.SendsBuffer d buffer ↔ d.packets = 0 ∨ d.offset = 0 ∧ d.packetSize < 2 ^ 31 := by
  constructor
  · intro hsends
    rcases Nat.eq_zero_or_pos d.packets with hzero | hpos
    · exact Or.inl hzero
    · have hcounter : 0 < (s.after d buffer 0).st.packetcounter := after_counter hpos
      rw [after_zero h] at hcounter
      by_contra hnot
      exact not_ends_of_not_whole hcounter (packetSize_word hpos)
        (fun hwhole => hnot (Or.inr hwhole)) hsends
  · intro hcases
    have hlast : Ends (turn d buffer) (s.after d buffer d.packets)
        (true, s.after d buffer d.packets) := by
      refine Ends.stop (if_neg ?_)
      show ¬ 0 < BitVec.ofNat 64 (d.packets - d.packets)
      rw [Nat.sub_self]
      exact BitVec.lt_irrefl _
    have hturns : ∀ n < d.packets,
        turn d buffer (s.after d buffer n) = .again (s.after d buffer (n + 1)) := by
      intro n hn
      exact turn_after (hcases.resolve_left (Nat.ne_zero_of_lt hn)) hn
    rw [← Ends.turns_iff hturns, after_zero h] at hlast
    exact hlast

end Results

/-! ## Two packets -/

/-- Two packets of four bytes, of which `offset` are stripped. -/
def exampleUdp (offset : ℕ) (h : offset < 4) : UdpSetup where
  packetSize := 4
  offset := offset
  packets := 2
  offset_lt := h
  buffer_fits := by decide

/-- The buffer counts its bytes. -/
def exampleSending : UdpSending ℕ where
  st :=
    { allocatedToLoad := 0
      filesSent := 0
      filesSkipped := 0
      filesLoaded := 1
      packetsLoaded := 2
      packetsSent := 0
      filesInLoading := 0
      nPacketsProbed := 2
      nFilesProbed := 1
      totalBytesToSend := 8
      statusProbed := 0
      packetcounter := 2
      inc := 0 }
  transacted := 0
  datagrams := []

theorem sendsBuffer_iff_whole :
    exampleSending.SendsBuffer (exampleUdp 0 (by decide)) id := by
  have hstarts : exampleSending.Starts (exampleUdp 0 (by decide)) := ⟨rfl, rfl⟩
  exact (sendsBuffer_iff hstarts).mpr (Or.inr ⟨rfl, by decide⟩)

/-- **A stripped packet is sent for ever.** -/
theorem stripped_not_sent : ¬ ∀ (d : UdpSetup) (buffer : ℕ → ℕ) (s : UdpSending ℕ),
    s.Starts d → s.SendsBuffer d buffer := by
  intro hall
  have hstarts : exampleSending.Starts (exampleUdp 1 (by decide)) := ⟨rfl, rfl⟩
  have hnot : ¬ ((exampleUdp 1 (by decide)).offset = 0 ∧
      (exampleUdp 1 (by decide)).packetSize < 2 ^ 31) := by decide
  exact not_ends_of_not_whole (by decide) (by decide) hnot (hall _ id _ hstarts)

end UdpSending

end VlbiStreamer.Sender
