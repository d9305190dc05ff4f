import VlbiStreamer.FuseIndex.Stripped

/-!
# Splices that take little

What the loop of `do_operation` makes of a read that does not end with a packet, or that goes
over a long header.  The kernel takes one byte at a time: the header bytes are then taken one by
one, too, and `iov_base` goes back by what is left of the header with each of them.

`Lagging` is the invariant of such a run.  The loop stops when the last byte that it is asked
for is not in the buffer.
-/

namespace VlbiStreamer.FuseIndex.StrippedRead

open Library

variable {d : StrippedRead} {s : Splicing} {x : ℕ}

/-! ## A byte at a time -/

/-- The bytes that come out of the pipe. -/
def avail (d : StrippedRead) : ℕ := min d.size (d.length - d.start)

/-- One byte at a time, as long as there are any. -/
def singles (d : StrippedRead) (k : ℕ) : ℤ := if k < d.avail then 1 else 0

/-- The loop after single bytes. -/
structure Single (d : StrippedRead) (s : Splicing) : Prop where
  calls : s.calls = s.transacted
  sum : s.count + s.transacted = d.size

section Singles

variable {drive : ℤ} {filenum : ℕ} {buf : Ptr} {bytes : Bytes} {m : Memory}

theorem pipeLeft_eq :
    pipeLeft (d.operator drive filenum buf) ⟨d.length, bytes⟩ s = d.avail - s.transacted := by
  rw [pipeLeft, operator_size, operator_offset]
  rfl

theorem single_start : d.Single (splicing (d.operator drive filenum buf) m) where
  calls := rfl
  sum := (operator_size : (d.operator drive filenum buf).size = d.size)

namespace Single

/-- One more byte. -/
theorem again (hs : d.Single s) (hcount : d.strip < s.count) (havail : s.transacted < d.avail) :
    d.turn drive filenum buf bytes d.singles s = .again
      { count := s.count - 1
        transacted := s.transacted + 1
        base := s.base.add ((1 : ℕ) - d.headerLeft s)
        mem := s.mem.write s.base (1 - d.headerLeft s) fun x =>
          bytes (d.start + s.transacted + d.headerLeft s + x)
        calls := s.calls + 1 } := by
  have hone : d.singles s.calls = (1 : ℕ) := by
    rw [hs.calls]
    exact if_pos havail
  exact turn_taken hs.sum hcount hone Nat.one_pos (by omega) header_mod_size

/-- The pipe is empty, or no more than a header is left. -/
theorem stop (hs : d.Single s) (h : s.count ≤ d.strip ∨ d.avail ≤ s.transacted) :
    d.turn drive filenum buf bytes d.singles s = .stop (some s.mem) := by
  rcases Nat.lt_or_ge d.strip s.count with hcount | hshort
  · have hdrained : d.avail ≤ s.transacted := by omega
    refine turn_drained hcount ?_
    rw [hs.calls]
    exact if_neg (Nat.not_lt_of_le hdrained)
  · exact turn_short hshort

theorem upholds : Upholds (d.turn drive filenum buf bytes d.singles) d.Single fun _ => True := by
  intro s hs
  by_cases h : s.count ≤ d.strip ∨ d.avail ≤ s.transacted
  · exact Or.inl ⟨_, hs.stop h, trivial⟩
  · have hsum := hs.sum
    refine Or.inr ⟨_, hs.again (by omega) (by omega), congrArg (· + 1) hs.calls, ?_⟩
    show s.count - 1 + (s.transacted + 1) = d.size
    omega

theorem taken (hs : d.Single s) (hcount : d.strip < s.count) :
    Taken d.fi d.strip (d.operator drive filenum buf) ⟨d.length, bytes⟩ s
      (d.singles s.calls) := by
  have hsum := hs.sum
  have hsize := d.size_le
  have hlength := d.length_lt
  have hadd : (iovLen d.fi d.strip (d.operator drive filenum buf) s.count s.transacted).1 +
      (iovLen d.fi d.strip (d.operator drive filenum buf) s.count s.transacted).2 =
      min s.count (d.fi.packetSize - (d.start + s.transacted) % d.fi.packetSize) :=
    iovLen_add (by omega) hcount (by omega)
  have hmod : (d.start + s.transacted) % d.fi.packetSize < d.fi.packetSize := header_mod_size
  rw [hs.calls, singles]
  constructor
  · split <;> omega
  · split <;> omega
  · rw [pipeLeft_eq]
    split <;> omega
  · rw [pipeLeft_eq]
    intro hleft
    rw [if_pos (Nat.lt_of_sub_pos hleft)]
    exact zero_lt_one

end Single

/-- **The kernel may take one byte at a time**, whatever the read. -/
theorem partialResults_singles :
    PartialResults d.fi d.strip (d.operator drive filenum buf) ⟨d.length, bytes⟩ d.singles m :=
  fun _ hreach hcount => (Single.upholds.reaches hreach single_start).taken hcount

end Singles

/-! ## A pointer that falls behind -/

/-- A file of ones. -/
def ones : Bytes := fun _ => 1

/-- A buffer of zeros. -/
def zeros : Memory := fun _ _ => 0

/-- The loop on the file of ones into the buffer of zeros. -/
def onesTurn (d : StrippedRead) : (ℕ → ℤ) → Splicing → Turn Splicing (Option Memory) :=
  d.turn 0 0 ⟨0, 0⟩ ones

def onesStart (d : StrippedRead) : Splicing := splicing (d.operator 0 0 ⟨0, 0⟩) zeros

/-- The bytes that are written, and those that are not. -/
theorem write_ones {n i : ℕ} :
    zeros.write ⟨0, 0⟩ n (d.payload ones) 0 i = if i < n then 1 else 0 := by
  refine if_congr ?_ rfl rfl
  show (0 = 0 ∧ (0 : ℤ) ≤ i ∧ (i : ℤ) < 0 + n) ↔ i < n
  omega

/-- The loop after single bytes: the pointer is at least `lag` behind the payload, and the
last byte asked for is not there. -/
structure Lagging (d : StrippedRead) (lag : ℕ → ℕ) (s : Splicing) : Prop extends d.Single s where
  strip_le : d.strip ≤ s.count
  block : s.base.block = 0
  off_le : s.base.off + lag (d.start + s.transacted) ≤ d.kept (d.start + s.transacted)
  untouched : s.mem 0 (d.amount - 1 : ℕ) = 0

/-- A `lag` that the pointer falls behind by, so far that it is not at the last byte in time. -/
structure FallsBehind (d : StrippedRead) (lag : ℕ → ℕ) : Prop where
  start : lag d.start = 0
  succ_le : ∀ x, lag (x + 1) ≤ lag x + (d.strip - x % d.fi.packetSize - 1)
  last : ∀ x, d.start ≤ x → x + d.strip < d.start + d.size → d.strip ≤ x % d.fi.packetSize →
    d.kept x + 1 < d.amount + lag x

namespace FallsBehind

variable {lag : ℕ → ℕ}

theorem lagging_start (hlag : d.FallsBehind lag) : d.Lagging lag d.onesStart where
  toSingle := single_start
  strip_le := by
    show d.strip ≤ (d.operator 0 0 ⟨0, 0⟩).size
    rw [operator_size]
    exact d.strip_lt_size.le
  block := rfl
  off_le := by
    show (0 : ℤ) + lag d.start ≤ d.kept d.start
    rw [hlag.start, kept_start]
    rfl
  untouched := rfl

theorem upholds (hlag : d.FallsBehind lag) : Upholds (d.onesTurn d.singles) (d.Lagging lag)
    fun r => ∀ m, r = some m → m 0 (d.amount - 1 : ℕ) = 0 := by
  intro s hs
  have hsum := hs.sum
  have hoff := hs.off_le
  by_cases h : s.count ≤ d.strip ∨ d.avail ≤ s.transacted
  · refine Or.inl ⟨_, hs.stop h, fun m hm => ?_⟩
    exact Option.some.inj hm ▸ hs.untouched
  have hagain : d.onesTurn d.singles s = .again _ := hs.again (by omega) (by omega)
  refine Or.inr ⟨_, hagain, ?_⟩
  constructor
  · exact Single.upholds.again hs.toSingle hagain
  · show d.strip ≤ s.count - 1
    omega
  · exact hs.block
  · have hkept : d.kept (d.start + s.transacted + 1) =
        d.kept (d.start + s.transacted) + (1 - d.headerLeft s) :=
      kept_add (Nat.le_add_right _ _) header_mod_size
    have hsucc : lag (d.start + s.transacted + 1) ≤
        lag (d.start + s.transacted) + (d.headerLeft s - 1) := hlag.succ_le _
    show s.base.off + ((1 : ℕ) - d.headerLeft s) + lag (d.start + s.transacted + 1) ≤
      d.kept (d.start + s.transacted + 1)
    omega
  · refine Eq.trans (if_neg ?_) hs.untouched
    rintro ⟨-, hle, hlt⟩
    -- the byte is of payload, and the pointer is not yet at the last one
    have hpayload : d.headerLeft s = 0 := by omega
    have hlast := hlag.last (d.start + s.transacted) (Nat.le_add_right _ _) (by omega)
      (Nat.le_of_sub_eq_zero hpayload)
    omega

/-- **A pointer that falls behind** leaves the last byte out. -/
theorem not_readsStripped (hlag : d.FallsBehind lag) : ¬ d.ReadsStripped := by
  intro h
  have hwritten := hlag.upholds.ends (h 0 0 ⟨0, 0⟩ ones d.singles zeros partialResults_singles)
    hlag.lagging_start _ rfl
  rw [write_ones, if_pos (Nat.sub_lt d.amount_pos Nat.one_pos)] at hwritten
  cases hwritten

end FallsBehind

/-! ## Reads that lose their last byte -/

theorem kept_eq (c f : ℕ) (hend : x = c * d.fi.packetSize + f) (hf : f ≤ d.fi.packetSize) :
    d.kept x = c * d.layout.payload + (f - d.strip) - d.position := by
  have hbefore : d.layout.before x = c * d.layout.payload + (f - d.strip) := by
    rw [hend]
    exact PacketLayout.before_mul_add hf
  rw [kept, hbefore]

/-- The end of the loop in packets, and the payload up to it. -/
theorem kept_end (c f : ℕ) (hend : d.start + d.size = c * d.fi.packetSize + f + d.strip)
    (hf : f ≤ d.fi.packetSize) :
    d.kept (d.start + d.size - d.strip) =
      c * d.layout.payload + (f - d.strip) - d.position := by
  refine kept_eq c f ?_ hf
  rw [hend, Nat.add_sub_cancel]

/-- The loop stops within the bytes asked for. -/
theorem kept_end_lt (h : ¬ d.Within) : d.kept (d.start + d.size - d.strip) < d.amount := by
  have hstrip := d.strip_pos
  have hpayload := d.layout.payload_pos
  have hsum := d.payload_add_strip
  have hamount := d.amount_pos
  have hplt := Nat.mod_lt d.position hpayload
  have halt := Nat.mod_lt d.amount hpayload
  have hp := Nat.div_add_mod' d.position d.layout.payload
  have ha := Nat.div_add_mod' d.amount d.layout.payload
  rcases Nat.eq_zero_or_pos (d.position % d.layout.payload) with hr | hr
  · have hstart : d.start = d.position / d.layout.payload * d.fi.packetSize :=
      if_neg (by omega)
    rcases Nat.eq_zero_or_pos (d.amount % d.layout.payload) with hs | hs
    · -- whole packets: the last header's length of payload is left out
      have hsize : d.size = d.amount / d.layout.payload * d.fi.packetSize := if_neg (by omega)
      obtain ⟨j, hj⟩ : ∃ j, d.amount / d.layout.payload = j + 1 :=
        Nat.exists_eq_succ_of_ne_zero (by rintro hzero; rw [hzero] at ha; omega)
      rw [hj, Nat.succ_mul] at hsize ha
      rw [kept_end (d.position / d.layout.payload + j) d.layout.payload
        (by rw [Nat.add_mul]; omega) (by omega), Nat.add_mul]
      omega
    · have hsize := size_eq hs
      rw [kept_end (d.position / d.layout.payload + d.amount / d.layout.payload)
        (d.amount % d.layout.payload) (by rw [Nat.add_mul]; omega) (by omega), Nat.add_mul]
      omega
  · have hstart := start_eq hr
    rcases Nat.eq_zero_or_pos (d.amount % d.layout.payload) with hs | hs
    · have hsize : d.size = d.amount / d.layout.payload * d.fi.packetSize := if_neg (by omega)
      rw [kept_end (d.position / d.layout.payload + d.amount / d.layout.payload)
        (d.position % d.layout.payload) (by rw [Nat.add_mul]; omega) (by omega), Nat.add_mul]
      omega
    · -- one more packet is begun, and its header is not counted
      have hsize := size_eq hs
      have hover : d.layout.payload <
          d.position % d.layout.payload + d.amount % d.layout.payload := by
        by_contra hle
        exact h ⟨hr, hs, Nat.le_of_not_lt hle⟩
      rw [kept_end (d.position / d.layout.payload + d.amount / d.layout.payload + 1)
        (d.position % d.layout.payload + d.amount % d.layout.payload - d.layout.payload)
        (by rw [Nat.add_mul, Nat.add_mul]; omega) (by omega), Nat.add_mul, Nat.add_mul]
      omega

theorem kept_succ (hstart : d.start ≤ x) (h : d.strip ≤ x % d.fi.packetSize) :
    d.kept (x + 1) = d.kept x + 1 := by
  rw [kept_add hstart header_mod_size, Nat.sub_eq_zero_of_le h]

theorem kept_mono {y : ℕ} (h : x ≤ y) : d.kept x ≤ d.kept y :=
  Nat.sub_le_sub_right (PacketLayout.before_mono h) _

/-- A read that gets its bytes starts and ends within a packet. -/
theorem ReadsStripped.within (h : d.ReadsStripped) : d.Within := by
  by_contra hnot
  have hlast := kept_end_lt hnot
  have hlag : d.FallsBehind fun _ => 0 :=
    { start := rfl
      succ_le := fun _ => Nat.zero_le _
      last := by
        intro x hstart hend hpayload
        have hmono : d.kept (x + 1) ≤ d.kept (d.start + d.size - d.strip) :=
          kept_mono (by omega)
        have hsucc := kept_succ hstart hpayload
        show d.kept x + 1 < d.amount + 0
        omega }
  exact hlag.not_readsStripped h

namespace Within

/-- The end of the loop is the end of the bytes asked for. -/
theorem end_eq (h : d.Within) :
    d.start + d.size = (d.position / d.layout.payload + d.amount / d.layout.payload) *
      d.fi.packetSize + (d.strip + d.position % d.layout.payload + d.amount % d.layout.payload) +
      d.strip := by
  rw [start_eq h.position_pos, size_eq h.amount_pos, Nat.add_mul]
  omega

theorem kept_end (h : d.Within) : d.kept (d.start + d.size - d.strip) = d.amount := by
  have hadd := h.add_le
  have hsum := d.payload_add_strip
  have htotal := d.packets_mul_add
  rw [StrippedRead.kept_end _ _ h.end_eq (by omega)]
  omega

/-- The packet that the read ends in. -/
theorem packet_le (h : d.Within) :
    (d.position / d.layout.payload + d.amount / d.layout.payload + 1) * d.fi.packetSize ≤
      d.length := by
  have hinside := d.inside_payload
  have hpos := h.position_pos
  have htotal := d.packets_mul_add
  have hlt : (d.position / d.layout.payload + d.amount / d.layout.payload) * d.layout.payload <
      d.length / d.fi.packetSize * d.layout.payload := by omega
  calc (d.position / d.layout.payload + d.amount / d.layout.payload + 1) * d.fi.packetSize
      ≤ d.length / d.fi.packetSize * d.fi.packetSize :=
        Nat.mul_le_mul_right _ (Nat.lt_of_mul_lt_mul_right hlt)
    _ ≤ d.length := Nat.div_mul_le_self _ _

/-- The end of the packet that the read starts in, when the read goes over it. -/
theorem kept_packet_lt (h : d.Within) (hlong : d.layout.payload ≤ d.amount) :
    d.kept ((d.position / d.layout.payload + 1) * d.fi.packetSize) < d.amount := by
  have hpos := h.position_pos
  have hamount := d.amount_pos
  have hp := Nat.div_add_mod' d.position d.layout.payload
  rw [kept_eq (d.position / d.layout.payload + 1) 0 (Nat.add_zero _).symm
    (Nat.zero_le _), Nat.succ_mul]
  omega

end Within

/-- A header of more than a byte: the pointer goes back when the read goes over it. -/
theorem ReadsStripped.small (h : d.ReadsStripped) :
    d.amount < d.layout.payload ∨ d.strip = 1 := by
  by_contra hnot
  have hstrip := d.strip_pos
  have hlong : d.layout.payload ≤ d.amount := by omega
  have htwo : 2 ≤ d.strip := by omega
  have hwithin := h.within
  have hadd := hwithin.add_le
  have hsum := d.payload_add_strip
  have hend := hwithin.kept_end
  have hpacket := hwithin.kept_packet_lt hlong
  have hlag : d.FallsBehind fun x =>
      if (d.position / d.layout.payload + 1) * d.fi.packetSize < x then 1 else 0 :=
    { start := by
        have hpos := hwithin.amount_pos
        have hstart := start_eq hwithin.position_pos
        refine if_neg ?_
        rw [Nat.succ_mul]
        omega
      succ_le := by
        intro x
        rcases eq_or_ne x ((d.position / d.layout.payload + 1) * d.fi.packetSize) with rfl | hne
        · rw [Nat.mul_mod_left]
          split <;> split <;> omega
        · split <;> split <;> omega
      last := by
        intro x hstart hx hpayload
        have hsucc := kept_succ hstart hpayload
        split
        · have hmono : d.kept (x + 1) ≤ d.kept (d.start + d.size - d.strip) :=
            kept_mono (by omega)
          omega
        · next hle =>
            have hne : x ≠ (d.position / d.layout.payload + 1) * d.fi.packetSize := by
              rintro rfl
              rw [Nat.mul_mod_left] at hpayload
              omega
            have hmono : d.kept (x + 1) ≤
                d.kept ((d.position / d.layout.payload + 1) * d.fi.packetSize) :=
              kept_mono (by omega)
            omega }
  exact hlag.not_readsStripped h

/-! ## Reads that get a byte too many -/

/-- Single bytes up to the last one asked for, which comes with the next. -/
def lastTwo (d : StrippedRead) (k : ℕ) : ℤ := if k + d.strip + 1 = d.size then 2 else 1

/-- The run with these results. -/
inductive Overrun (d : StrippedRead) : Splicing → Prop where
  | single {k : ℕ} (hk : k + d.strip < d.size) :
      Overrun d (d.reached ⟨0, 0⟩ ones zeros (d.start + k) k)
  | behind {k : ℕ} : Overrun d
      (d.reached ⟨0, 0⟩ ones zeros (d.start + d.size - d.strip + 1) k)

/-- A read that ends in a packet before its end. -/
structure EndsWithin (d : StrippedRead) : Prop extends d.Within where
  small : d.amount < d.layout.payload ∨ d.strip = 1
  add_lt : d.position % d.layout.payload + d.amount % d.layout.payload < d.layout.payload

namespace EndsWithin

variable {k : ℕ}

/-- The byte behind the last one asked for is in the same packet. -/
theorem last_mod (h : d.EndsWithin) (hk : k + d.strip + 1 = d.size) :
    (d.start + k) % d.fi.packetSize + 2 ≤ d.fi.packetSize := by
  have hend := h.end_eq
  have hsum := d.payload_add_strip
  have hpos := h.position_pos
  have hlt := h.add_lt
  have hx : d.start + k = d.fi.packetSize *
      (d.position / d.layout.payload + d.amount / d.layout.payload) +
      (d.strip + d.position % d.layout.payload + d.amount % d.layout.payload - 1) := by
    rw [Nat.mul_comm]
    omega
  rw [hx, Nat.mul_add_mod, Nat.mod_eq_of_lt (by omega)]
  omega

/-- There is a byte behind the last one asked for. -/
theorem le_avail (h : d.EndsWithin) (hk : k + d.strip < d.size) : k + 2 ≤ d.avail := by
  have hstrip := d.strip_pos
  have hpacket := h.packet_le
  have hend := h.end_eq
  have hlt := h.add_lt
  have hsum := d.payload_add_strip
  rw [Nat.succ_mul] at hpacket
  have hlast : d.start + d.size - d.strip < d.length := by omega
  unfold avail
  omega

theorem kept_over (h : d.EndsWithin) :
    d.kept (d.start + d.size - d.strip + 1) = d.amount + 1 := by
  have hend := h.end_eq
  have hlt := h.add_lt
  have hsum := d.payload_add_strip
  have htotal := d.packets_mul_add
  rw [kept_eq (d.position / d.layout.payload + d.amount / d.layout.payload)
    (d.strip + d.position % d.layout.payload + d.amount % d.layout.payload + 1) (by omega)
    (by omega)]
  omega

/-- The results are within the packet and the pipe. -/
theorem lastTwo_spec (h : d.EndsWithin) (hk : k + d.strip < d.size) :
    ∃ e : ℕ, d.lastTwo k = e ∧ 0 < e ∧ k + e ≤ d.avail ∧
      (d.start + k) % d.fi.packetSize + e ≤ d.fi.packetSize ∧
      d.Overrun (d.reached ⟨0, 0⟩ ones zeros (d.start + k + e) (k + 1)) := by
  have havail := h.le_avail hk
  by_cases hlast : k + d.strip + 1 = d.size
  · have hover : d.start + k + 2 = d.start + d.size - d.strip + 1 := by omega
    refine ⟨2, if_pos hlast, Nat.two_pos, havail, h.last_mod hlast, ?_⟩
    rw [hover]
    exact .behind
  · have hnext : k + 1 + d.strip < d.size := by omega
    exact ⟨1, if_neg hlast, Nat.one_pos, by omega, header_mod_size, .single hnext⟩

theorem upholds (h : d.EndsWithin) : Upholds (d.onesTurn d.lastTwo) d.Overrun fun r =>
    r = some (zeros.write ⟨0, 0⟩ (d.amount + 1) (d.payload ones)) := by
  intro s hs
  have hstrip := d.strip_pos
  cases hs with
  | @single k hk =>
      right
      have havail := h.le_avail hk
      obtain ⟨e, he, hpos, hle, hmod, hnext⟩ := h.lastTwo_spec hk
      have hsize : k + e ≤ d.size := hle.trans (Nat.min_le_left _ _)
      exact ⟨_, turn_reached (Nat.le_add_right _ _) (by omega)
        (h.header_le h.small (Nat.le_add_right _ _) (by omega)) he hpos (by omega) hmod, hnext⟩
  | behind =>
      left
      have hsize := d.strip_lt_size
      have hshort : d.start + d.size - (d.start + d.size - d.strip + 1) ≤ d.strip := by omega
      refine ⟨_, turn_short hshort, ?_⟩
      show some (Memory.write _ _ (d.kept _) _) = _
      rw [h.kept_over]

theorem taken (h : d.EndsWithin) (hs : d.Overrun s) (hcount : d.strip < s.count) :
    Taken d.fi d.strip (d.operator 0 0 ⟨0, 0⟩) ⟨d.length, ones⟩ s (d.lastTwo s.calls) := by
  have hstrip := d.strip_pos
  have hsize := d.size_le
  have hlength := d.length_lt
  cases hs with
  | @single k hk =>
      obtain ⟨e, he, hpos, hle, hmod, -⟩ := h.lastTwo_spec hk
      have hsofar : d.start + k - d.start = k := Nat.add_sub_cancel_left _ _
      have hrest : d.start + d.size - (d.start + k) = d.size - k := Nat.add_sub_add_left _ _ _
      have hadd : (iovLen d.fi d.strip (d.operator 0 0 ⟨0, 0⟩) (d.size - k) k).1 +
          (iovLen d.fi d.strip (d.operator 0 0 ⟨0, 0⟩) (d.size - k) k).2 =
          min (d.size - k) (d.fi.packetSize - (d.start + k) % d.fi.packetSize) :=
        iovLen_add (by omega) (by omega) (by omega)
      have havail : k + e ≤ d.size := hle.trans (Nat.min_le_left _ _)
      show Taken _ _ _ _
        (Splicing.mk (d.start + d.size - (d.start + k)) (d.start + k - d.start) _ _ k) (d.lastTwo k)
      rw [hsofar, hrest, he]
      constructor
      · exact Int.natCast_nonneg e
      · show (e : ℤ) ≤ (iovLen _ _ _ (d.size - k) k).1 + (iovLen _ _ _ (d.size - k) k).2
        omega
      · rw [pipeLeft_eq]
        show (e : ℤ) ≤ (d.avail - k : ℕ)
        omega
      · exact fun _ => Int.natCast_pos.mpr hpos
  | behind =>
      have hshort : d.start + d.size - (d.start + d.size - d.strip + 1) ≤ d.strip := by omega
      exact absurd hshort (Nat.not_le_of_lt hcount)

theorem overrun_start : d.Overrun d.onesStart := by
  have hsize := d.strip_lt_size
  have hfirst : 0 + d.strip < d.size := by omega
  rw [onesStart, splicing_eq]
  exact .single hfirst

/-- **A byte too many.** -/
theorem not_readsStripped (h : d.EndsWithin) : ¬ d.ReadsStripped := by
  intro hreads
  have hends := hreads 0 0 ⟨0, 0⟩ ones d.lastTwo zeros fun s hreach hcount =>
    h.taken (h.upholds.reaches hreach overrun_start) hcount
  have hover := h.upholds.ends hends overrun_start
  have hcell := congrFun (congrFun (Option.some.inj hover) 0) d.amount
  rw [write_ones, write_ones, if_neg (lt_irrefl _), if_pos (Nat.lt_succ_self _)] at hcell
  cases hcell

end EndsWithin

/-! ## Which reads get their bytes -/

/-- **A stripped read gets its bytes**, whatever the kernel takes at a time, exactly when it
starts within a packet, ends with one, and goes over no header of more than a byte. -/
theorem readsStripped_iff (d : StrippedRead) : d.ReadsStripped ↔ d.EndsPacket := by
  refine ⟨fun h => ?_, EndsPacket.readsStripped⟩
  have hwithin := h.within
  refine ⟨hwithin.position_pos, ?_, h.small⟩
  rcases hwithin.add_le.lt_or_eq with hlt | heq
  · exact absurd h (EndsWithin.not_readsStripped ⟨hwithin, h.small, hlt⟩)
  · rw [Nat.add_mod, heq, Nat.mod_self]

/-- The last two of the three bytes of a packet. -/
def packetEnd : StrippedRead where
  fi := ⟨4, 8, 2, fun _ => 0⟩
  strip := 1
  length := 8
  position := 1
  amount := 2
  strip_pos := by decide
  strip_lt := by decide
  packetSize_lt := by decide
  filesize_lt := by decide
  length_le := by decide
  amount_pos := by decide
  inside := by decide

/-- They are read. -/
theorem readsStripped_iff_packetEnd : packetEnd.ReadsStripped :=
  (readsStripped_iff packetEnd).mpr ⟨by decide, by decide, Or.inl (by decide)⟩

/-- The payload of the first packet. -/
def firstPacket : StrippedRead where
  fi := ⟨8, 16, 2, fun _ => 0⟩
  strip := 2
  length := 16
  position := 0
  amount := 6
  strip_pos := Nat.two_pos
  strip_lt := by decide
  packetSize_lt := by decide
  filesize_lt := by decide
  length_le := by decide
  amount_pos := by decide
  inside := by decide

/-- **A whole packet is not read** when its bytes come one at a time: the loop stops two bytes
early, as if a header were left. -/
theorem single_bytes_lose_end : ¬ ∀ d : StrippedRead, d.ReadsStripped := by
  intro h
  have hstart := (h firstPacket).within.position_pos
  revert hstart
  decide

end VlbiStreamer.FuseIndex.StrippedRead
