import VlbiStreamer.Sender.FileJump
import VlbiStreamer.TcpStream.Multistream

/-!
# Sending a recording in several TCP streams

`tcp_multistreamsendcmd` sends the packets of one buffer over `S` connections,
with the threads that `loop_with_threaded_multistream_recv` uses for receiving.
How many packets the buffer has it takes from the bytes left in `packetcounter`,
which `bboundary_bytenum` sets before every call.

A recording of `T` packets, `N` in a buffer, is `Delivered` if every thread stays
inside its buffer, every packet is sent once, in its turn, and a receiver with any
number of packets in a buffer puts it back in its place.  `delivered_iff` says when
it is: its bytes fit in an `unsigned long`, and every buffer has to bring at least one
turn to its end.
-/

namespace VlbiStreamer.TcpStream

open Library (turns window window_congr mem_window mem_turns flatMap_windows flatMap_full_windows
  zip_turns sum_window_length)
open BufData

variable {S : ℕ} [NeZero S]

/-- What a call of `tcp_multistreamsendcmd` finds. -/
structure SendState (S : ℕ) where
  bufData : BufData S
  totalTransactedBytes : BitVec 64
  deriving DecidableEq, Repr

namespace SendState

variable (N P T : ℕ) (st : SendState S)

/-- `st->packetcounter` as `bboundary_bytenum` sets it, where `st->total_bytes_to_send` is
that of `T` packets of `P` bytes. -/
def packetcounter : BitVec 64 :=
  Sender.bboundaryBytenum (BitVec.ofNat 64 T * BitVec.ofNat 64 P) st.totalTransactedBytes
    (BitVec.ofNat 64 P) (BitVec.ofNat 32 N)

/-- `st->packetcounter/spec_ops->opt->packet_size`. -/
def packetsLeft : ℕ := (st.packetcounter N P T).toNat / P

/-- The remainders the threads use. -/
def sendBufData : BufData S :=
  ⟨st.bufData.endRemainder,
    Fin.ofNat S (subUlong (st.packetsLeft N P T) (S - st.bufData.endRemainder))⟩

/-- `elems_in_buf` of a sending thread. -/
def elemsInBuf : ℕ := if st.packetsLeft N P T < N then st.packetsLeft N P T else N

/-- `tcp_multistreamsendcmd`, if every `send` takes a whole packet. -/
def multistreamsendcmd : SendState S :=
  ⟨st.sendBufData N P T,
    st.totalTransactedBytes + BitVec.ofNat 64
      (∑ t : Fin S, P * (st.sendBufData N P T).maxPackets (st.elemsInBuf N P T) t)⟩

/-- One buffer in `generic_sendloop`, which calls nothing for a counter of zero. -/
def sendBuffer : SendState S :=
  if st.packetcounter N P T = 0 then st else st.multistreamsendcmd N P T

/-- The slots of the buffer that thread `t` sends. -/
def sentSlots (t : Fin S) : List ℕ :=
  if st.packetcounter N P T = 0 then []
  else (st.sendBufData N P T).slots (st.elemsInBuf N P T) t

end SendState

/-- The state before buffer `k`. -/
def sending (S N P T : ℕ) [NeZero S] : ℕ → SendState S
  | 0 => ⟨⟨0, 0⟩, 0⟩
  | k + 1 => (sending S N P T k).sendBuffer N P T

/-- The number of buffers of the recording. -/
def buffers (N T : ℕ) : ℕ := (T + N - 1) / N

/-- The packets of buffer `k`. -/
def held (N T k : ℕ) : ℕ := min N (T - k * N)

/-- The packets sent on stream `t`, in this order. -/
def sentOn (N P T : ℕ) (t : Fin S) : List ℕ :=
  (List.range (buffers N T)).flatMap fun k =>
    ((sending S N P T k).sentSlots N P T t).map (k * N + ·)

/-- The places in the recording at which a receiver puts what comes on stream `t`, over `B`
buffers. -/
def receivedAt (N B : ℕ) (t : Fin S) : List ℕ :=
  (List.range B).flatMap fun b => ((receiving S N b).slots N t).map (b * N + ·)

/-- What a receiver makes of the streams: the places with the packets put there. -/
def received (N P T N' B : ℕ) (S : ℕ) [NeZero S] : List (ℕ × ℕ) :=
  (List.finRange S).flatMap fun t => (receivedAt N' B t).zip (sentOn N P T t)

/-- The recording comes over. -/
structure Delivered (S N P T : ℕ) [NeZero S] : Prop where
  /-- Every thread stays inside the packets of the buffer. -/
  inside : ∀ k, k * N < T → ∀ t, ∀ slot ∈ (sending S N P T k).sentSlots N P T t, slot < held N T k
  /-- Every packet is sent once, on the stream whose turn it is, in order. -/
  sent : ∀ t : Fin S, sentOn N P T t = turns S t T
  /-- A receiver gets every packet in its place. -/
  received : ∀ N' B, S ≤ N' → N' < 2 ^ 32 → T ≤ B * N' →
    ∀ p g, (p, g) ∈ received N P T N' B S ↔ p = g ∧ g < T

/-- The bytes of the recording and those of its first buffer fit in an `unsigned long`, and
every buffer brings a turn to its end. -/
structure Sendable (S N P T : ℕ) : Prop where
  bytes : T * P < 2 ^ 64
  fits : min N T * P ≤ N * P % 2 ^ 64
  turn : ∀ k, k * N < T → S ≤ k * N % S + held N T k

/-! ## One call -/

variable {N P T k : ℕ}

/-- The state before buffer `k`, if all went right so far. -/
structure Right (N P k : ℕ) (st : SendState S) : Prop where
  remainder : st.bufData.endRemainder.val = k * N % S
  bytes : st.totalTransactedBytes = BitVec.ofNat 64 (k * N * P)

theorem right_zero : Right N P 0 (sending S N P T 0) := by
  constructor
  · simp [sending]
  · rw [Nat.zero_mul, Nat.zero_mul]
    rfl

theorem held_le (k : ℕ) : held N T k ≤ min N T := by
  unfold held
  omega

variable {st : SendState S}

omit [NeZero S] in
/-- The counter is that of the packets behind the buffers that were sent. -/
theorem Right.packetcounter (h : Right N P k st) (hN : N < 2 ^ 32) (hk : k * N ≤ T) :
    (st.packetcounter N P T).toNat = min ((T - k * N) * P % 2 ^ 64) (N * P % 2 ^ 64) := by
  have htotal : BitVec.ofNat 64 T * BitVec.ofNat 64 P =
      BitVec.ofNat 64 ((T - k * N) * P) + BitVec.ofNat 64 (k * N * P) := by
    rw [← BitVec.ofNat_mul, ← BitVec.ofNat_add, ← Nat.add_mul, Nat.sub_add_cancel hk]
  have hbuffer : (BitVec.ofNat 32 N).setWidth 64 = BitVec.ofNat 64 N := by
    apply BitVec.eq_of_toNat_eq
    rw [BitVec.toNat_setWidth, BitVec.toNat_ofNat, BitVec.toNat_ofNat, Nat.mod_eq_of_lt hN]
  unfold SendState.packetcounter Sender.bboundaryBytenum
  rw [h.bytes, htotal, BitVec.add_sub_cancel, hbuffer, ← BitVec.ofNat_mul, Sender.toNat_minU,
    BitVec.toNat_ofNat, BitVec.toNat_ofNat]

omit [NeZero S] in
/-- The counter never has more packets than there are. -/
theorem Right.packetsLeft_le (h : Right N P k st) (hP : 0 < P) (hN : N < 2 ^ 32)
    (hk : k * N ≤ T) : st.packetsLeft N P T ≤ held N T k := by
  have hrest : (T - k * N) * P % 2 ^ 64 ≤ (T - k * N) * P := Nat.mod_le _ _
  have hbuffer : N * P % 2 ^ 64 ≤ N * P := Nat.mod_le _ _
  rw [SendState.packetsLeft, h.packetcounter hN hk, held, Nat.le_min,
    Nat.div_le_iff_le_mul hP, Nat.div_le_iff_le_mul hP]
  omega

omit [NeZero S] in
/-- A call sends the packets of its buffer. -/
theorem Sendable.packetsLeft (hs : Sendable S N P T) (h : Right N P k st) (hP : 0 < P)
    (hN : N < 2 ^ 32) (hk : k * N < T) : st.packetsLeft N P T = held N T k := by
  refine le_antisymm (h.packetsLeft_le hP hN hk.le) ?_
  have hrest : (T - k * N) * P ≤ T * P := Nat.mul_le_mul_right P (Nat.sub_le _ _)
  rw [SendState.packetsLeft, h.packetcounter hN hk.le, Nat.le_div_iff_mul_le hP,
    Nat.mod_eq_of_lt (hrest.trans_lt hs.bytes)]
  refine le_min (Nat.mul_le_mul_right P (Nat.min_le_right _ _)) ?_
  exact (Nat.mul_le_mul_right P (held_le k)).trans hs.fits

omit [NeZero S] in
theorem packetcounter_ne_zero (hleft : st.packetsLeft N P T ≠ 0) :
    st.packetcounter N P T ≠ 0 := by
  intro hzero
  apply hleft
  rw [SendState.packetsLeft, hzero]
  exact Nat.zero_div P

omit [NeZero S] in
theorem elemsInBuf_eq (hle : st.packetsLeft N P T ≤ N) :
    st.elemsInBuf N P T = st.packetsLeft N P T := by
  rw [SendState.elemsInBuf]
  split <;> omega

/-- The remainders of a call that brings a turn to its end. -/
theorem sendBufData_follows (hturn : S ≤ st.bufData.endRemainder + st.packetsLeft N P T)
    (hlt : st.packetsLeft N P T < 2 ^ 64) :
    (st.sendBufData N P T).Follows (st.packetsLeft N P T) := by
  have hrem := st.bufData.endRemainder.isLt
  show subUlong (st.packetsLeft N P T) (S - st.bufData.endRemainder) % S = _
  rw [subUlong_of_le (by omega) hlt, sub_mod_eq hrem hturn]
  rfl

/-- Then the threads send the packets of the buffer in turns. -/
theorem sentSlots_eq (hne : st.packetsLeft N P T ≠ 0) (hle : st.packetsLeft N P T ≤ N)
    (hN : N < 2 ^ 32) (hturn : S ≤ st.bufData.endRemainder + st.packetsLeft N P T) (t : Fin S) :
    st.sentSlots N P T t = window S st.bufData.endRemainder t (st.packetsLeft N P T) := by
  have hfollows := sendBufData_follows hturn (by omega)
  rw [SendState.sentSlots, if_neg (packetcounter_ne_zero hne), elemsInBuf_eq hle,
    hfollows.slots_eq hturn (by omega)]
  rfl

/-- If the counter has the packets of the buffer, the threads send them. -/
theorem Right.sentSlots (h : Right N P k st) (hN : N < 2 ^ 32)
    (hleft : st.packetsLeft N P T = held N T k) (hk : k * N < T) (hpos : 0 < N)
    (hturn : S ≤ k * N % S + held N T k) (t : Fin S) :
    st.sentSlots N P T t = window S (k * N) t (held N T k) := by
  have hle : held N T k ≤ N := Nat.min_le_left _ _
  have hsome : 0 < held N T k := Nat.lt_min.mpr ⟨hpos, by omega⟩
  rw [sentSlots_eq (by omega) (by omega) hN (by rw [h.remainder, hleft]; exact hturn), hleft,
    h.remainder]
  exact window_congr (Nat.mod_mod _ _)

/-- And the next call finds all right. -/
theorem Right.next (h : Right N P k st) (hN : N < 2 ^ 32) (hpos : 0 < N)
    (hleft : st.packetsLeft N P T = held N T k) (hturn : S ≤ k * N % S + held N T k)
    (hmore : (k + 1) * N < T) : Right N P (k + 1) (st.sendBuffer N P T) := by
  rw [Nat.succ_mul] at hmore
  have hall : held N T k = N := Nat.min_eq_left (by omega)
  have hslots := h.sentSlots hN hleft (by omega) hpos hturn
  rw [hall] at hleft hturn hslots
  have hcall : st.packetcounter N P T ≠ 0 := packetcounter_ne_zero (by omega)
  rw [SendState.sendBuffer, if_neg hcall]
  constructor
  · have hfollows := sendBufData_follows (N := N) (P := P) (T := T)
      (by rw [h.remainder, hleft]; exact hturn) (by omega)
    have hrem : (st.sendBufData N P T).startRemainder.val = k * N % S := h.remainder
    rw [hleft, Follows, hrem, Nat.mod_add_mod, ← Nat.succ_mul] at hfollows
    exact hfollows
  · have hlen : ∀ t : Fin S, (st.sendBufData N P T).maxPackets (st.elemsInBuf N P T) t =
        (window S (k * N) t N).length := by
      intro t
      rw [← hslots t, SendState.sentSlots, if_neg hcall, slots, List.length_map,
        List.length_range]
    have hsum : ∑ t : Fin S, P * (st.sendBufData N P T).maxPackets (st.elemsInBuf N P T) t =
        N * P := by
      rw [← Finset.mul_sum, Finset.sum_congr rfl fun t _ => hlen t,
        sum_window_length (Nat.pos_of_neZero S), Nat.mul_comm]
    show st.totalTransactedBytes + BitVec.ofNat 64 (∑ t : Fin S, P * _) = _
    rw [hsum, h.bytes, ← BitVec.ofNat_add, Nat.succ_mul, Nat.add_mul]

/-- A call that brings no turn to its end: the subtraction goes below zero, and every thread
leaves the buffer. -/
theorem slot_outside {bd : BufData S} {n : ℕ} (hS : S < 2 ^ 31)
    (hlt : n < S - bd.startRemainder) (t : Fin S) : ∃ slot ∈ bd.slots n t, 2 ^ 32 ≤ slot := by
  have hpos : 0 < S := Nat.pos_of_neZero S
  have hmax : 2 ^ 32 + 1 ≤ bd.maxPackets n t := by
    have hdiv : 2 ^ 32 + 1 ≤
        subUlong n ((S - bd.startRemainder) + bd.endRemainder) / S := by
      rw [subUlong_of_lt (by omega), Nat.le_div_iff_mul_le hpos]
      omega
    unfold maxPackets
    simp only
    split_ifs <;> omega
  have hmul : 2 ^ 32 * 1 ≤ 2 ^ 32 * S := Nat.mul_le_mul_left _ hpos
  refine ⟨bd.slot t (2 ^ 32), List.mem_map.mpr ⟨2 ^ 32, List.mem_range.mpr hmax, rfl⟩, ?_⟩
  unfold slot
  omega

/-! ## The whole recording -/

theorem le_buffers_mul (hN : 0 < N) (T : ℕ) : T ≤ buffers N T * N := by
  have hdiv := Nat.div_add_mod (T + N - 1) N
  have hmod := Nat.mod_lt (T + N - 1) hN
  rw [buffers, Nat.mul_comm]
  omega

/-- A call that is made finds all right. -/
theorem Sendable.right (h : Sendable S N P T) (hP : 0 < P) (hN : N < 2 ^ 32) (hpos : 0 < N)
    (hk : k * N < T) : Right N P k (sending S N P T k) := by
  induction k with
  | zero => exact right_zero
  | succ k ih =>
      have hk' : k * N < T := by
        rw [Nat.succ_mul] at hk
        omega
      have hright := ih hk'
      exact hright.next hN hpos (h.packetsLeft hright hP hN hk') (h.turn k hk') hk

theorem Sendable.sentSlots (h : Sendable S N P T) (hP : 0 < P) (hN : N < 2 ^ 32) (hpos : 0 < N)
    (hk : k * N < T) (t : Fin S) :
    (sending S N P T k).sentSlots N P T t = window S (k * N) t (held N T k) := by
  have hright := h.right hP hN hpos hk
  exact hright.sentSlots hN (h.packetsLeft hright hP hN hk) hk hpos (h.turn k hk) t

/-- A buffer of the recording has a packet. -/
theorem mul_lt_of_mem_buffers (hpos : 0 < N) (hk : k ∈ List.range (buffers N T)) : k * N < T := by
  have hle : k * N + N ≤ T + N - 1 := by
    rw [← Nat.succ_mul]
    exact (Nat.le_div_iff_mul_le hpos).mp (List.mem_range.mp hk)
  omega

theorem Sendable.sentOn (h : Sendable S N P T) (hP : 0 < P) (hN : N < 2 ^ 32) (hpos : 0 < N)
    (t : Fin S) : sentOn N P T t = turns S t T := by
  have hlast := le_buffers_mul hpos T
  have hwindows := flatMap_windows S t N T (buffers N T)
  rw [Nat.min_eq_left hlast] at hwindows
  rw [TcpStream.sentOn, ← hwindows]
  refine List.flatMap_congr fun k hk => ?_
  rw [h.sentSlots hP hN hpos (mul_lt_of_mem_buffers hpos hk)]
  rfl

/-- The places at which a receiver puts what comes on a stream are those of its turns. -/
theorem receivedAt_eq {N B : ℕ} (hS : S ≤ N) (hN : N < 2 ^ 32) (t : Fin S) :
    receivedAt N B t = turns S t (B * N) := by
  rw [receivedAt, ← flatMap_full_windows]
  exact List.flatMap_congr fun b _ => by rw [receiving_slots hS hN]

/-- A recording that is sent in turns is put back in place. -/
theorem mem_received_iff {N' B p g : ℕ} (hsent : ∀ t : Fin S, sentOn N P T t = turns S t T)
    (hS : S ≤ N') (hN : N' < 2 ^ 32) (hB : T ≤ B * N') :
    (p, g) ∈ received N P T N' B S ↔ p = g ∧ g < T := by
  have hmem : (p, g) ∈ received N P T N' B S ↔
      ∃ t : Fin S, (p, g) ∈ (turns S t T).map fun g => (g, g) := by
    unfold received
    simp only [List.mem_flatMap, List.mem_finRange, true_and]
    refine exists_congr fun t => ?_
    rw [receivedAt_eq hS hN, hsent, zip_turns hB]
  rw [hmem]
  constructor
  · rintro ⟨t, ht⟩
    obtain ⟨i, hi, heq⟩ := List.mem_map.mp ht
    obtain ⟨rfl, rfl⟩ := Prod.mk.inj heq
    exact ⟨rfl, (mem_turns.mp hi).1⟩
  · rintro ⟨rfl, hlt⟩
    exact ⟨⟨p % S, Nat.mod_lt _ (Nat.pos_of_neZero S)⟩,
      List.mem_map.mpr ⟨p, mem_turns.mpr ⟨hlt, rfl⟩, rfl⟩⟩

/-- A thread that stays inside the buffers means that a call brings a turn to its end. -/
theorem Delivered.turn (h : Delivered S N P T) (hS : S < 2 ^ 31) (hN : N < 2 ^ 32)
    (hk : k * N < T) (hcall : (sending S N P T k).packetcounter N P T ≠ 0) :
    S ≤ (sending S N P T k).bufData.endRemainder + (sending S N P T k).elemsInBuf N P T := by
  by_contra hno
  have hbelow : (sending S N P T k).elemsInBuf N P T <
      S - ((sending S N P T k).sendBufData N P T).startRemainder := by
    show _ < S - (sending S N P T k).bufData.endRemainder.val
    omega
  obtain ⟨slot, hmem, hout⟩ := slot_outside hS hbelow 0
  have hsent : slot ∈ (sending S N P T k).sentSlots N P T 0 := by
    rw [SendState.sentSlots, if_neg hcall]
    exact hmem
  have hin := h.inside k hk 0 slot hsent
  have hle : held N T k ≤ N := Nat.min_le_left _ _
  omega

/-- A packet of the recording is sent with its buffer. -/
theorem Delivered.mem_sentSlots (h : Delivered S N P T) (hpos : 0 < N) {j : ℕ}
    (hj : j < held N T k) : ∃ t, j ∈ (sending S N P T k).sentSlots N P T t := by
  obtain ⟨hjN, hjT⟩ := Nat.lt_min.mp hj
  have hsent : k * N + j ∈
      sentOn N P T (⟨(k * N + j) % S, Nat.mod_lt _ (Nat.pos_of_neZero S)⟩ : Fin S) := by
    rw [h.sent, mem_turns]
    exact ⟨by omega, rfl⟩
  obtain ⟨k', hk', hmem⟩ := List.mem_flatMap.mp hsent
  obtain ⟨slot, hslot, hplace⟩ := List.mem_map.mp hmem
  have hin := h.inside k' (mul_lt_of_mem_buffers hpos hk') _ slot hslot
  have hlt : slot < N := hin.trans_le (Nat.min_le_left _ _)
  -- a packet belongs to one buffer
  have hdiv : ∀ {a b : ℕ}, b < N → (a * N + b) / N = a := fun {a b} hb => by
    rw [Nat.mul_comm, Nat.mul_add_div hpos, Nat.div_eq_of_lt hb, Nat.add_zero]
  have hk : k' = k := by rw [← hdiv (a := k') hlt, hplace, hdiv hjN]
  rw [hk] at hslot hplace
  exact ⟨_, (Nat.add_left_cancel hplace) ▸ hslot⟩

/-- The counter has all the packets of the buffer, or its last packet is not sent. -/
theorem Delivered.held_le (h : Delivered S N P T) (hN : N < 2 ^ 32) (hpos : 0 < N)
    (hS : S < 2 ^ 31) (hk : k * N < T) :
    held N T k ≤ (sending S N P T k).packetsLeft N P T := by
  by_contra hno
  have hfew := not_le.mp hno
  have hle : held N T k ≤ N := Nat.min_le_left _ _
  set st := sending S N P T k with hst
  obtain ⟨t, ht⟩ := h.mem_sentSlots hpos hfew
  rw [← hst] at ht
  have hcall : st.packetcounter N P T ≠ 0 := by
    intro hzero
    rw [SendState.sentSlots, if_pos hzero] at ht
    exact absurd ht List.not_mem_nil
  have hturn := h.turn hS hN hk hcall
  rw [← hst, elemsInBuf_eq (by omega)] at hturn
  rw [SendState.sentSlots, if_neg hcall, elemsInBuf_eq (by omega),
    (sendBufData_follows hturn (by omega)).slots_eq hturn (by omega), mem_window] at ht
  omega

/-- Bytes that are never short, buffer by buffer, do not wrap. -/
theorem bytes_lt (hpos : 0 < N) {n : ℕ}
    (h : ∀ k, k * N < n → held N n k * P ≤ (n - k * N) * P % 2 ^ 64) : n * P < 2 ^ 64 := by
  induction n using Nat.strong_induction_on with
  | _ n ih =>
      have hfirst : 0 < n → min N n * P ≤ n * P % 2 ^ 64 := fun hn => by
        have hzero := h 0 (by omega)
        rwa [held, Nat.zero_mul, Nat.sub_zero] at hzero
      have hmod := Nat.mod_lt (n * P) (show 0 < 2 ^ 64 by decide)
      rcases Nat.lt_or_ge N n with hlt | hge
      · -- one buffer less does not wrap, and one more would leave less than a buffer
        have hbuffer := hfirst (by omega)
        rw [Nat.min_eq_left hlt.le] at hbuffer
        have hless : (n - N) * P < 2 ^ 64 := by
          refine ih (n - N) (by omega) fun k hk => ?_
          have hnext := h (k + 1) (by rw [Nat.succ_mul]; omega)
          have hrest : n - (k + 1) * N = n - N - k * N := by
            rw [Nat.succ_mul]
            omega
          rwa [held, hrest] at hnext
        have hsum : n * P = (n - N) * P + N * P := by
          rw [← Nat.add_mul, Nat.sub_add_cancel hlt.le]
        omega
      · rcases Nat.eq_zero_or_pos n with rfl | hn
        · rw [Nat.zero_mul]
          decide
        · have hall := hfirst hn
          rw [Nat.min_eq_right hge] at hall
          omega

/-- What the counter of a recording that is delivered has at every buffer. -/
theorem Delivered.right (h : Delivered S N P T) (hP : 0 < P) (hN : N < 2 ^ 32) (hpos : 0 < N)
    (hS : S < 2 ^ 31) (hk : k * N < T) :
    Right N P k (sending S N P T k) ∧
      (sending S N P T k).packetsLeft N P T = held N T k ∧ S ≤ k * N % S + held N T k := by
  have hcall : ∀ k, k * N < T → Right N P k (sending S N P T k) →
      (sending S N P T k).packetsLeft N P T = held N T k ∧ S ≤ k * N % S + held N T k := by
    intro k hk hright
    have hleft : (sending S N P T k).packetsLeft N P T = held N T k :=
      le_antisymm (hright.packetsLeft_le hP hN hk.le) (h.held_le hN hpos hS hk)
    have hle : held N T k ≤ N := Nat.min_le_left _ _
    have hsome : 0 < held N T k := Nat.lt_min.mpr ⟨hpos, by omega⟩
    have hturn := h.turn hS hN hk (packetcounter_ne_zero (by omega))
    rw [elemsInBuf_eq (by omega), hleft, hright.remainder] at hturn
    exact ⟨hleft, hturn⟩
  induction k with
  | zero => exact ⟨right_zero, hcall 0 hk right_zero⟩
  | succ k ih =>
      obtain ⟨hright, hleft, hturn⟩ := ih (by rw [Nat.succ_mul] at hk; omega)
      have hnext := hright.next hN hpos hleft hturn hk
      exact ⟨hnext, hcall (k + 1) hk hnext⟩

/-- **A recording is delivered** exactly if it is sendable. -/
theorem delivered_iff (hS : S < 2 ^ 31) (hN : N < 2 ^ 32) (hpos : 0 < N) (hP : 0 < P)
    (hT : 0 < T) : Delivered S N P T ↔ Sendable S N P T := by
  constructor
  · intro h
    have hcounter : ∀ k, k * N < T →
        held N T k * P ≤ min ((T - k * N) * P % 2 ^ 64) (N * P % 2 ^ 64) := by
      intro k hk
      obtain ⟨hright, hleft, -⟩ := h.right hP hN hpos hS hk
      rw [← hright.packetcounter hN hk.le, ← hleft]
      exact Nat.div_mul_le_self _ _
    refine ⟨bytes_lt hpos fun k hk => (hcounter k hk).trans (Nat.min_le_left _ _), ?_,
      fun k hk => (h.right hP hN hpos hS hk).2.2⟩
    have hfirst := (hcounter 0 (by omega)).trans (Nat.min_le_right _ _)
    rwa [held, Nat.zero_mul, Nat.sub_zero] at hfirst
  · intro h
    have hsent := h.sentOn hP hN hpos
    refine ⟨fun k hk t slot hslot => ?_, hsent, fun N' B hS' hN' hB p g =>
      mem_received_iff hsent hS' hN' hB⟩
    rw [h.sentSlots hP hN hpos hk, mem_window] at hslot
    exact hslot.1

/-- Two streams, and the last of three buffers is short. -/
theorem delivered_iff_short : Sendable 2 5 100 12 ∧ Delivered 2 5 100 12 ∧
    (sentOn 5 100 12 : Fin 2 → List ℕ) 0 = [0, 2, 4, 6, 8, 10] := by
  have hturn : ∀ k, k * 5 < 12 → 2 ≤ k * 5 % 2 + held 5 12 k := by
    intro k hk
    obtain rfl | rfl | rfl : k = 0 ∨ k = 1 ∨ k = 2 := by omega
    all_goals decide
  have hsendable : Sendable 2 5 100 12 := ⟨by decide, by decide, hturn⟩
  have hdelivered : Delivered 2 5 100 12 :=
    (delivered_iff (by decide) (by decide) (by decide) (by decide) (by decide)).mpr hsendable
  exact ⟨hsendable, hdelivered, (hdelivered.sent 0).trans (by decide)⟩

/-- Three streams, four packets in a buffer and five packets: the last buffer brings no turn
to its end. -/
theorem last_packet_not_delivered :
    ¬ ∀ (S N P T : ℕ) [NeZero S], S < 2 ^ 31 → N < 2 ^ 32 → 0 < N → 0 < P → 0 < T →
      Delivered S N P T := by
  intro hall
  have h := hall 3 4 100 5 (by decide) (by decide) (by decide) (by decide) (by decide)
  have hturn := h.turn (k := 1) (by decide) (by decide) (by decide) (by decide)
  exact absurd hturn (by decide)

end VlbiStreamer.TcpStream
