import VlbiStreamer.Library.Dealing
import Mathlib.Data.Fin.Basic

/-!
# A recording in several TCP streams

With `stream_multiply = S` the packets of a recording go over `S` connections in
turns, and `S` threads read them into one buffer.  Where a thread starts in the
buffer and how many packets it takes follows from two remainders: the stream of
the buffer's first packet and that of the packet after its last.

* `BufData` has the two remainders.  They are results of `% stream_multiply`, and
  the `int`s computed from them are not negative.
* `firstSlot`, `slot` and `maxPackets` are what `threaded_multistream` computes;
  it does so for sending and for receiving.
* `receiving N b` are the remainders of `loop_with_threaded_multistream_recv` for
  buffer `b`, and `partitioned_receiving` says that its threads share every buffer.
-/

namespace VlbiStreamer.TcpStream

open Library (window window_congr window_eq_map mem_window)

variable {S : ℕ}

/-- `a - b` of `unsigned int`s. -/
def subUint (a b : ℕ) : ℕ := (a + 2 ^ 32 - b) % 2 ^ 32

/-- `a - b` of `uint64_t`s. -/
def subUlong (a b : ℕ) : ℕ := (a + 2 ^ 64 - b) % 2 ^ 64

theorem subUint_of_le {a b : ℕ} (hle : b ≤ a) (ha : a < 2 ^ 32) : subUint a b = a - b := by
  unfold subUint
  omega

theorem subUlong_of_le {a b : ℕ} (hle : b ≤ a) (ha : a < 2 ^ 64) : subUlong a b = a - b := by
  unfold subUlong
  omega

/-- The subtraction goes below zero. -/
theorem subUlong_of_lt {a b : ℕ} (hlt : a < b) :
    subUlong a b = a + 2 ^ 64 - b := by
  unfold subUlong
  omega

/-- `struct multistream_currentbufdata`: its remainders. -/
structure BufData (S : ℕ) where
  startRemainder : Fin S
  endRemainder : Fin S
  deriving DecidableEq, Repr

namespace BufData

/-- `correct_bufspot`, in packets from the start of the buffer. -/
def firstSlot (bd : BufData S) (seq : Fin S) : ℕ :=
  if bd.startRemainder ≤ seq then seq - bd.startRemainder else seq + (S - bd.startRemainder)

/-- `correct_bufspot` when `m` packets are ready. -/
def slot (bd : BufData S) (seq : Fin S) (m : ℕ) : ℕ := bd.firstSlot seq + m * S

/-- `max_packets`. -/
def maxPackets (bd : BufData S) (elemsInBuf : ℕ) (seq : Fin S) : ℕ :=
  let maxPackets := subUlong elemsInBuf ((S - bd.startRemainder) + bd.endRemainder) / S
  let maxPackets := if bd.startRemainder ≤ seq then maxPackets + 1 else maxPackets
  if seq < bd.endRemainder then maxPackets + 1 else maxPackets

/-- The slots a thread fills, in this order. -/
def slots (bd : BufData S) (elemsInBuf : ℕ) (seq : Fin S) : List ℕ :=
  (List.range (bd.maxPackets elemsInBuf seq)).map (bd.slot seq)

variable {bd : BufData S} {seq : Fin S} {n : ℕ}

theorem firstSlot_lt (bd : BufData S) (seq : Fin S) : bd.firstSlot seq < S := by
  unfold firstSlot
  split
  · omega
  next h =>
    have : seq.val < bd.startRemainder.val := not_le.mp h
    omega

/-- The first slot of a thread is the first packet of its stream. -/
theorem start_add_firstSlot (bd : BufData S) (seq : Fin S) :
    (bd.startRemainder + bd.firstSlot seq) % S = seq := by
  unfold firstSlot
  split
  next h =>
    have : bd.startRemainder.val ≤ seq.val := h
    rw [Nat.add_sub_cancel' this, Nat.mod_eq_of_lt seq.isLt]
  next h =>
    have hlt : seq.val < bd.startRemainder.val := not_le.mp h
    have heq : bd.startRemainder.val + (seq + (S - bd.startRemainder)) = seq + S := by omega
    rw [heq, Nat.add_mod_right, Nat.mod_eq_of_lt seq.isLt]

/-- The second remainder belongs to the packet after the buffer's last. -/
def Follows (bd : BufData S) (n : ℕ) : Prop := bd.endRemainder.val = (bd.startRemainder + n) % S

/-- The second remainder, by whether the packets left over make a turn with the streams
before the first packet. -/
theorem Follows.cases (h : bd.Follows n) :
    (bd.startRemainder + n % S < S ∧ bd.endRemainder.val = bd.startRemainder + n % S) ∨
      (S ≤ bd.startRemainder + n % S ∧ bd.endRemainder.val + S = bd.startRemainder + n % S) := by
  have hr := Nat.mod_lt n (Nat.zero_lt_of_lt bd.startRemainder.isLt)
  unfold Follows at h
  rw [Nat.add_mod, Nat.mod_eq_of_lt bd.startRemainder.isLt] at h
  rcases Nat.lt_or_ge (bd.startRemainder + n % S) S with hlt | hge
  · exact .inl ⟨hlt, h.trans (Nat.mod_eq_of_lt hlt)⟩
  · rw [Nat.mod_eq_sub_mod hge, Nat.mod_eq_of_lt (by omega)] at h
    exact .inr ⟨hge, by omega⟩

/-- A buffer whose packets left over make no turn has at least one itself. -/
theorem one_le_div (hturn : S ≤ bd.startRemainder + n) (hlt : bd.startRemainder + n % S < S) :
    1 ≤ n / S := by
  rw [Nat.one_le_div_iff (Nat.zero_lt_of_lt bd.startRemainder.isLt)]
  by_contra hn
  rw [Nat.mod_eq_of_lt (not_le.mp hn)] at hlt
  omega

/-- Where the streams before the first packet and the packets of the buffer make at least
one turn, the subtraction in `max_packets` does not go below zero. -/
theorem Follows.room (h : bd.Follows n) (hturn : S ≤ bd.startRemainder + n) :
    (S - bd.startRemainder) + bd.endRemainder ≤ n := by
  have hdiv := Nat.mod_add_div n S
  rcases h.cases with ⟨hlt, hend⟩ | ⟨-, hend⟩
  · have hone : S * 1 ≤ S * (n / S) := Nat.mul_le_mul_left S (one_le_div hturn hlt)
    omega
  · have hn : n % S ≤ n := Nat.mod_le n S
    omega

/-- The number of packets of a thread: one for every turn, and one more if its first slot
is among the packets left over. -/
theorem Follows.maxPackets_eq (h : bd.Follows n) (hturn : S ≤ bd.startRemainder + n)
    (hn : n < 2 ^ 64) (seq : Fin S) :
    bd.maxPackets n seq = n / S + if bd.firstSlot seq < n % S then 1 else 0 := by
  have hpos : 0 < S := Nat.zero_lt_of_lt seq.isLt
  have hdiv := Nat.mod_add_div n S
  have hr := Nat.mod_lt n hpos
  have hroom := h.room hturn
  unfold maxPackets firstSlot
  rw [subUlong_of_le hroom hn]
  simp only [Fin.le_def, Fin.lt_def]
  rcases h.cases with ⟨hlt, hend⟩ | ⟨hge, hend⟩
  · have hone := one_le_div hturn hlt
    have hturns : n - ((S - bd.startRemainder) + bd.endRemainder) = S * (n / S - 1) := by
      rw [Nat.mul_sub, mul_one]
      omega
    rw [hturns, Nat.mul_div_cancel_left _ hpos]
    split_ifs <;> omega
  · have hturns : n - ((S - bd.startRemainder) + bd.endRemainder) = S * (n / S) := by
      omega
    rw [hturns, Nat.mul_div_cancel_left _ hpos]
    split_ifs <;> omega

/-- A thread's slots are those inside the buffer. -/
theorem Follows.lt_maxPackets_iff (h : bd.Follows n) (hturn : S ≤ bd.startRemainder + n)
    (hn : n < 2 ^ 64) (seq : Fin S) (m : ℕ) : m < bd.maxPackets n seq ↔ bd.slot seq m < n := by
  have hdiv := Nat.mod_add_div n S
  have hfirst := bd.firstSlot_lt seq
  have hr := Nat.mod_lt n (Nat.zero_lt_of_lt seq.isLt)
  rw [h.maxPackets_eq hturn hn, slot]
  rcases Nat.lt_trichotomy m (n / S) with hlt | heq | hgt
  · have hmul : S * (m + 1) ≤ S * (n / S) := Nat.mul_le_mul_left S hlt
    rw [Nat.mul_succ, Nat.mul_comm S m] at hmul
    split_ifs <;> omega
  · rw [heq, Nat.mul_comm (n / S) S]
    split_ifs <;> omega
  · have hmul : S * (n / S + 1) ≤ S * m := Nat.mul_le_mul_left S hgt
    rw [Nat.mul_succ, Nat.mul_comm S m] at hmul
    split_ifs <;> omega

/-- The slots of a thread are the places of its stream in the buffer. -/
theorem Follows.slots_eq (h : bd.Follows n) (hturn : S ≤ bd.startRemainder + n)
    (hn : n < 2 ^ 64) (seq : Fin S) : bd.slots n seq = window S bd.startRemainder seq n := by
  rw [window_eq_map (bd.firstSlot_lt seq) (bd.start_add_firstSlot seq)
    (h.lt_maxPackets_iff hturn hn seq)]
  rfl

end BufData

/-! ## Receiving -/

/-- The packet after a buffer's last, computed back from the end of its first turn. -/
theorem sub_mod_eq {e n : ℕ} (he : e < S) (hturn : S ≤ e + n) :
    (n - (S - e)) % S = (e + n) % S := by
  have hsplit : e + n = (n - (S - e)) + S := by omega
  rw [hsplit, Nat.add_mod_right]

variable [NeZero S]

/-- The remainders of `loop_with_threaded_multistream_recv` for buffer `b` of
`buf_num_elems = N` packets. -/
def receiving (S N : ℕ) [NeZero S] : ℕ → BufData S
  | 0 => ⟨0, Fin.ofNat S N⟩
  | b + 1 =>
      let bd := receiving S N b
      ⟨bd.endRemainder, Fin.ofNat S (subUint N (S - bd.endRemainder))⟩

theorem receiving_eq {N : ℕ} (hS : S ≤ N) (hN : N < 2 ^ 32) (b : ℕ) :
    (receiving S N b).startRemainder.val = b * N % S ∧
      (receiving S N b).endRemainder.val = (b + 1) * N % S := by
  induction b with
  | zero => simp [receiving]
  | succ b ih =>
      refine ⟨ih.2, ?_⟩
      show subUint N (S - (receiving S N b).endRemainder) % S = _
      have hlt := (receiving S N b).endRemainder.isLt
      rw [subUint_of_le (by omega) hN, sub_mod_eq hlt (by omega), ih.2, Nat.mod_add_mod,
        ← Nat.succ_mul]

theorem receiving_follows {N : ℕ} (hS : S ≤ N) (hN : N < 2 ^ 32) (b : ℕ) :
    (receiving S N b).Follows N := by
  obtain ⟨hstart, hend⟩ := receiving_eq hS hN b
  rw [BufData.Follows, hstart, hend, Nat.mod_add_mod, Nat.succ_mul]

/-- The slots of thread `t` in buffer `b`. -/
theorem receiving_slots {N : ℕ} (hS : S ≤ N) (hN : N < 2 ^ 32) (b : ℕ) (t : Fin S) :
    (receiving S N b).slots N t = window S (b * N) t N := by
  rw [(receiving_follows hS hN b).slots_eq (by omega) (by omega), (receiving_eq hS hN b).1]
  exact window_congr (Nat.mod_mod _ _)

/-- The threads share buffer `b`. -/
structure Partitioned (N b : ℕ) (bd : BufData S) : Prop where
  /-- Every slot is inside the buffer. -/
  inside : ∀ t m, m < bd.maxPackets N t → bd.slot t m < N
  /-- No slot belongs to two threads. -/
  disjoint : ∀ t u m k, t ≠ u → m < bd.maxPackets N t → k < bd.maxPackets N u →
    bd.slot t m ≠ bd.slot u k
  /-- Slot `j` belongs to thread `(b * N + j) % S`. -/
  belongs : ∀ j, j < N → ∃ t : Fin S, t.val = (b * N + j) % S ∧
    ∃ m, m < bd.maxPackets N t ∧ bd.slot t m = j
  /-- No subtraction goes below zero. -/
  noWrap : S - bd.endRemainder ≤ N ∧ (S - bd.startRemainder) + bd.endRemainder ≤ N
  /-- The sum that is an `int` stays small. -/
  sum_lt : (S - bd.startRemainder) + bd.endRemainder < 2 * S

/-- **The threads share every buffer** of a reception. -/
theorem partitioned_receiving {N : ℕ} (hS : S ≤ N) (hN : N < 2 ^ 32) (b : ℕ) :
    Partitioned N b (receiving S N b) := by
  have hfollows := receiving_follows hS hN b
  have hmem : ∀ t j, (∃ m, m < (receiving S N b).maxPackets N t ∧
      (receiving S N b).slot t m = j) ↔ j < N ∧ (b * N + j) % S = t := by
    intro t j
    rw [← mem_window, ← receiving_slots hS hN, BufData.slots]
    simp
  refine ⟨fun t m hm => ((hmem t _).mp ⟨m, hm, rfl⟩).1, fun t u m k hne hm hk heq => ?_,
    fun j hj =>
      ⟨⟨(b * N + j) % S, Nat.mod_lt _ (Nat.pos_of_neZero S)⟩, rfl, (hmem _ j).mpr ⟨hj, rfl⟩⟩,
    ⟨by omega, hfollows.room (by omega)⟩, by omega⟩
  have ht := ((hmem t _).mp ⟨m, hm, rfl⟩).2
  have hu := ((hmem u _).mp ⟨k, hk, rfl⟩).2
  rw [heq] at ht
  exact hne (Fin.ext (ht.symm.trans hu))

/-- Three streams and seven packets a buffer. -/
theorem partitioned_receiving_three : Partitioned 7 5 (receiving 3 7 5) :=
  partitioned_receiving (by decide) (by decide) 5

end VlbiStreamer.TcpStream
