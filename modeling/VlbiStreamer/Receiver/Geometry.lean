import VlbiStreamer.Receiver.Resequencer

/-!
# Where the packets go

`Geo` is the geometry of the resequencer after its first packet: the pointers are
slots of the buffers of the current file and of the one before, the slot the next
packet is received into follows from the numbers, and every stored packet lies in
the slot its number calls for.

`placePacket_arm` says what becomes of a packet in terms of its number alone, as
long as the differences of the numbers fit a `long`, and the `Geo` lemmas say that
each of the arms keeps the geometry.
-/

namespace VlbiStreamer.Receiver

open Library

/-! ## The geometry -/

/-- `(unsigned)resq->i`: the slot the next packet is received into. -/
def RecvState.idx (s : RecvState) : ℕ := uint s.i

/-- No buffer is held back. -/
structure RecvState.NoneHeld (s : RecvState) : Prop where
  before : s.before = none
  bufstartBefore : s.bufstartBefore = none
  incBefore : s.incBefore = none

/-- The buffer of file `k`, the one before the current, is held back with `x` bytes. -/
structure RecvState.Held (o : Opt) (s : RecvState) (k x : ℕ) : Prop where
  before : s.before = some k
  bufstartBefore : s.bufstartBefore = some (slot o.packetSize k 0)
  incBefore : s.incBefore = some x
  cumul : s.cumul = k + 1

/-- A stored packet is number `f + k * N + j` in slot `j` of file `k`. -/
structure Stored.At (o : Opt) (f : ℤ) (st : Stored) (k j : ℕ) : Prop where
  ptr : st.ptr = slot o.packetSize k j
  seqnum : st.seqnum = f + k * o.bufNumElems + j
  lt : j < o.bufNumElems

/-- The geometry of a receiver whose first packet had number `f`. -/
structure Geo (o : Opt) (f : ℤ) (s : RecvState) : Prop where
  be : s.be = s.cumul
  bufstart : s.bufstart = slot o.packetSize s.cumul 0
  buf : s.buf = slot o.packetSize s.cumul s.idx
  idx_le : s.idx ≤ o.bufNumElems
  before : s.NoneHeld ∨ ∃ k x, s.Held o k x
  current : s.currentSeq = s.seqstartCurrent + s.idx - 1
  seqstart : s.seqstartCurrent = f + s.cumul * o.bufNumElems
  current_lt : s.currentSeq < int64Max
  first_ge : -2 ^ 63 ≤ f
  stored : ∀ st ∈ s.stored, ∃ k j, st.At o f k j ∧ k ≤ s.cumul ∧ (k = s.cumul → j < s.idx)

/-- A receiver that waits for its first packet. -/
structure Fresh (o : Opt) (s : RecvState) : Prop where
  be : s.be = 0
  cumul : s.cumul = 0
  bufstart : s.bufstart = slot o.packetSize 0 0
  buf : s.buf = slot o.packetSize 0 0
  i : s.i = 0
  inc : s.inc = 0
  before : s.NoneHeld
  currentSeq : s.currentSeq = int64Max
  seqstartCurrent : s.seqstartCurrent = int64Max
  stored : s.stored = []
  released : s.released = []

/-- The differences of a number to those of the receiver fit a `long`. -/
structure InReach (s : RecvState) (q : ℤ) : Prop where
  lt : q < int64Max
  start_ge : -2 ^ 63 ≤ q - s.seqstartCurrent
  start_lt : q - s.seqstartCurrent < 2 ^ 63
  current_ge : -2 ^ 63 ≤ q - s.currentSeq
  current_lt : q - s.currentSeq < 2 ^ 63

theorem fresh_udpReceiver (o : Opt) (content : ℤ → Byte) (waitStart : Bool) :
    Fresh o (udpReceiver content waitStart) where
  be := rfl
  cumul := rfl
  bufstart := slot_zero.symm
  buf := slot_zero.symm
  i := rfl
  inc := rfl
  before := ⟨rfl, rfl, rfl⟩
  currentSeq := rfl
  seqstartCurrent := rfl
  stored := rfl
  released := rfl

/-! ## What becomes of a packet -/

section Arms

variable {o : Opt} {f q : ℤ} {free : Option (ℤ → Byte)} {s : RecvState}

/-- What becomes of a packet with number `q`. -/
inductive Arm (o : Opt) (free : Option (ℤ → Byte)) (s : RecvState) (q : ℤ) :
    Except Halt RecvState → Prop where
  /-- The next one in order. -/
  | inOrder : q = s.currentSeq + 1 →
      Arm o free s q (.ok (takeInOrder o q { s with currentSeq := q }))
  /-- The current one once more. -/
  | again : q = s.currentSeq → Arm o free s q (.ok s)
  /-- From before the buffers. -/
  | tooEarly : q < s.seqstartCurrent →
      s.NoneHeld ∨ q < s.seqstartCurrent - o.bufNumElems → Arm o free s q (.ok s.drop)
  /-- From the held-back buffer. -/
  | before {k x : ℕ} : s.Held o k x → q ≠ s.currentSeq →
      s.seqstartCurrent - o.bufNumElems ≤ q → q < s.seqstartCurrent →
      Arm o free s q
        (storeBefore o q (q - s.seqstartCurrent) (slot o.packetSize k 0) s)
  /-- From this buffer, and late. -/
  | behind : s.seqstartCurrent ≤ q → q < s.currentSeq →
      Arm o free s q (.ok (storeBehind o q (q - s.seqstartCurrent) s))
  /-- From this buffer, and early. -/
  | ahead : s.currentSeq + 1 < q → q < s.seqstartCurrent + o.bufNumElems →
      Arm o free s q
        (.ok (storeAhead o q (q - s.seqstartCurrent) (q - s.currentSeq) s))
  /-- From the next buffer. -/
  | next : s.currentSeq + 1 < q → s.seqstartCurrent + o.bufNumElems ≤ q →
      q < s.seqstartCurrent + 2 * o.bufNumElems → o.bufNumElems < 2 ^ 31 →
      Arm o free s q (storeNext o q (q - s.seqstartCurrent) free s)
  /-- From after the next buffer. -/
  | tooLate : s.currentSeq + 1 < q → s.seqstartCurrent + o.bufNumElems ≤ q →
      s.seqstartCurrent + 2 * o.bufNumElems ≤ q ∨ 2 ^ 31 ≤ o.bufNumElems →
      Arm o free s q (.ok s.drop)

/-- **What becomes of a packet.** -/
theorem placePacket_arm (h : Geo o f s) (hq : InReach s q) :
    Arm o free s q (placePacket o q free s) := by
  have hN := o.bufNumElems_lt
  have hcurrent := h.current
  have hidx := h.idx_le
  have hstarted : ¬ (s.currentSeq = int64Max ∧ s.seqstartCurrent = int64Max) :=
    fun hmax => absurd hmax.1 (ne_of_lt h.current_lt)
  have hlong : long (s.currentSeq + 1) = s.currentSeq + 1 := by
    have hlt := h.current_lt
    have hge := hq.current_lt
    have hlo := hq.lt
    unfold int64Max at hlt hlo
    have hseq := h.seqstart
    have hfirst := h.first_ge
    have hcumul : 0 ≤ (s.cumul : ℤ) * o.bufNumElems := Int.mul_nonneg (by omega) (by omega)
    exact long_of_fits (by omega) (by omega)
  unfold placePacket
  rw [if_neg hstarted, hlong, long_of_fits hq.start_ge hq.start_lt,
    long_of_fits hq.current_ge hq.current_lt]
  by_cases hnext : q = s.currentSeq + 1
  · rw [if_pos hnext, ← hnext]
    exact .inOrder hnext
  rw [if_neg hnext]
  by_cases hsame : q = s.currentSeq
  · rw [if_pos hsame]
    exact .again hsame
  rw [if_neg hsame]
  dsimp only
  by_cases hlate : q - s.currentSeq < 0
  · rw [if_pos hlate]
    by_cases hbelow : q - s.seqstartCurrent < 0
    · rw [if_pos hbelow]
      rcases h.before with hnone | ⟨k, x, hheld⟩
      · rw [hnone.bufstartBefore]
        exact .tooEarly (by omega) (Or.inl hnone)
      · rw [hheld.bufstartBefore]
        dsimp only
        split
        · exact .tooEarly (by omega) (Or.inr (by omega))
        · exact .before hheld hsame (by omega) (by omega)
    · rw [if_neg hbelow]
      exact .behind (by omega) (by omega)
  · rw [if_neg hlate]
    by_cases hbeyond : q - s.seqstartCurrent ≥ o.bufNumElems
    · rw [if_pos hbeyond]
      -- `buf_num_elems * 2` is computed as an `unsigned int`
      have htwice : (uint (o.bufNumElems * 2) : ℤ) =
          if o.bufNumElems < 2 ^ 31 then (2 * o.bufNumElems : ℤ)
          else 2 * o.bufNumElems - 2 ^ 32 := by
        unfold uint
        split <;> omega
      split at htwice
      · split
        · exact .tooLate (by omega) (by omega) (Or.inl (by omega))
        · exact .next (by omega) (by omega) (by omega) (by omega)
      · rw [if_pos (by omega)]
        exact .tooLate (by omega) (by omega) (Or.inr (by omega))
    · rw [if_neg hbeyond]
      exact .ahead (by omega) (by omega)

end Arms

/-! ## The arms keep the geometry -/

section Arms

variable {o : Opt} {f q : ℤ} {s s' : RecvState} {st : Stored} {k j x idx idx' cumul : ℕ}

/-- One more packet in its place. -/
theorem stored_cons {l : List Stored}
    (hl : ∀ st ∈ l, ∃ k j, st.At o f k j ∧ k ≤ cumul ∧ (k = cumul → j < idx))
    (hst : st.At o f k j) (hk : k ≤ cumul) (hj : k = cumul → j < idx') (hidx : idx ≤ idx') :
    ∀ st' ∈ st :: l, ∃ k j, st'.At o f k j ∧ k ≤ cumul ∧ (k = cumul → j < idx') := by
  intro st' hmem
  rcases List.mem_cons.mp hmem with rfl | hmem
  · exact ⟨k, j, hst, hk, hj⟩
  · obtain ⟨k', j', hat, hk', hj'⟩ := hl st' hmem
    exact ⟨k', j', hat, hk', fun heq => (hj' heq).trans_le hidx⟩

/-- The place of a number of the current file. -/
theorem Geo.at_current (h : Geo o f s) (hlo : s.seqstartCurrent ≤ q)
    (hhi : q < s.seqstartCurrent + o.bufNumElems) {packet : Bytes} :
    Stored.At o f ⟨s.bufstart.add ((q - s.seqstartCurrent) * o.packetSize), packet, q⟩
      s.cumul (q - s.seqstartCurrent).toNat where
  ptr := by
    show s.bufstart.add _ = _
    rw [h.bufstart, slot_add, zero_add, Int.toNat_of_nonneg (by omega)]
  seqnum := by
    have hseq := h.seqstart
    show q = _
    omega
  lt := by omega

theorem takeInOrder_idx (hlt : s.idx < o.bufNumElems) :
    (takeInOrder o q s).idx = s.idx + 1 := by
  have hN := o.bufNumElems_lt
  have hnext : (uint (int (s.i + 1)) : ℤ) = uint s.i + 1 :=
    uint_int_add (by omega) (by unfold RecvState.idx at hlt; omega)
  show uint (int (s.i + 1)) = uint s.i + 1
  omega

/-- The first packet sets the geometry up. -/
theorem Fresh.takeFirst (h : Fresh o s) (hlt : s.idx < o.bufNumElems) (hlo : -2 ^ 63 ≤ q)
    (hhi : q < int64Max) :
    Geo o q (takeInOrder o q { s with currentSeq := q, seqstartCurrent := q }) := by
  have hzero : s.idx = 0 := by rw [RecvState.idx, h.i]; rfl
  have hidx : (takeInOrder o q { s with currentSeq := q, seqstartCurrent := q }).idx = 1 :=
    (takeInOrder_idx (q := q) (s := { s with currentSeq := q, seqstartCurrent := q }) hlt).trans
      (by show s.idx + 1 = 1; omega)
  refine
    { be := h.be.trans h.cumul.symm
      bufstart := h.cumul.symm ▸ h.bufstart
      buf := ?_
      idx_le := by omega
      before := Or.inl ⟨h.before.before, h.before.bufstartBefore, h.before.incBefore⟩
      current := by rw [hidx]; show q = q + _ - 1; simp
      seqstart := ?_
      current_lt := hhi
      first_ge := hlo
      stored := ?_ }
  · rw [hidx]
    show s.buf.add o.packetSize = slot o.packetSize s.cumul _
    rw [h.buf, slot_next, h.cumul]
    rfl
  · show q = q + (s.cumul : ℤ) * o.bufNumElems
    simp [h.cumul]
  · rw [hidx]
    have hnone : ∀ st ∈ s.stored, ∃ k j, st.At o q k j ∧ k ≤ s.cumul ∧ (k = s.cumul → j < 0) := by
      simp [h.stored]
    refine stored_cons (k := 0) (j := 0) hnone ⟨?_, ?_, by omega⟩ (Nat.zero_le _)
      (fun _ => Nat.one_pos) (Nat.zero_le _)
    · exact h.buf
    · show q = _
      simp

/-- A packet in order moves the receiver one slot on. -/
theorem Geo.takeInOrder (h : Geo o f s) (hlt : s.idx < o.bufNumElems)
    (hq : q = s.currentSeq + 1) (hmax : q < int64Max) :
    Geo o f (takeInOrder o q { s with currentSeq := q }) := by
  have hidx : (Receiver.takeInOrder o q { s with currentSeq := q }).idx = s.idx + 1 :=
    takeInOrder_idx hlt
  have hcurrent := h.current
  have hseq := h.seqstart
  refine
    { be := h.be
      bufstart := h.bufstart
      buf := ?_
      idx_le := by omega
      before := h.before.imp (fun hn => ⟨hn.before, hn.bufstartBefore, hn.incBefore⟩)
        (fun ⟨k, x, hheld⟩ => ⟨k, x, hheld.before, hheld.bufstartBefore, hheld.incBefore,
          hheld.cumul⟩)
      current := ?_
      seqstart := h.seqstart
      current_lt := hmax
      first_ge := h.first_ge
      stored := ?_ }
  · rw [hidx]
    show s.buf.add o.packetSize = _
    rw [h.buf, slot_next]
    rfl
  · rw [hidx]
    show q = s.seqstartCurrent + _ - 1
    push_cast
    omega
  · rw [hidx]
    refine stored_cons h.stored (k := s.cumul) (j := s.idx) ⟨h.buf, ?_, hlt⟩ le_rfl
      (fun _ => Nat.lt_succ_self _) (Nat.le_succ _)
    show q = _
    omega

theorem Geo.drop (h : Geo o f s) : Geo o f s.drop :=
  ⟨h.be, h.bufstart, h.buf, h.idx_le, h.before.imp (fun hn => ⟨hn.1, hn.2, hn.3⟩)
    (fun ⟨k, x, hh⟩ => ⟨k, x, hh.1, hh.2, hh.3, hh.4⟩), h.current, h.seqstart, h.current_lt,
    h.first_ge, h.stored⟩

/-- A late packet of this buffer moves nothing. -/
theorem Geo.storeBehind (h : Geo o f s) (hlo : s.seqstartCurrent ≤ q)
    (hhi : q < s.currentSeq) : Geo o f (storeBehind o q (q - s.seqstartCurrent) s) := by
  have hcurrent := h.current
  have hidx := h.idx_le
  refine
    { be := h.be
      bufstart := h.bufstart
      buf := h.buf
      idx_le := h.idx_le
      before := h.before.imp (fun hn => ⟨hn.1, hn.2, hn.3⟩)
        (fun ⟨k, x, hh⟩ => ⟨k, x, hh.1, hh.2, hh.3, hh.4⟩)
      current := h.current
      seqstart := h.seqstart
      current_lt := h.current_lt
      first_ge := h.first_ge
      stored := ?_ }
  exact stored_cons h.stored (h.at_current hlo (by omega)) le_rfl (fun _ => by
    show (q - s.seqstartCurrent).toNat < s.idx
    omega) le_rfl

/-- An early packet of this buffer moves the receiver behind it. -/
theorem Geo.storeAhead (h : Geo o f s) (hlo : s.currentSeq + 1 < q)
    (hhi : q < s.seqstartCurrent + o.bufNumElems) (hmax : q < int64Max) :
    Geo o f (storeAhead o q (q - s.seqstartCurrent) (q - s.currentSeq) s) := by
  have hN := o.bufNumElems_lt
  have hcurrent := h.current
  have hidx : ((Receiver.storeAhead o q (q - s.seqstartCurrent) (q - s.currentSeq) s).idx : ℤ) =
      q - s.seqstartCurrent + 1 := by
    have hmove : (uint (int (s.i + (q - s.currentSeq))) : ℤ) = uint s.i + (q - s.currentSeq) :=
      uint_int_add (by unfold RecvState.idx at hcurrent; omega)
        (by unfold RecvState.idx at hcurrent; omega)
    show (uint (int (s.i + (q - s.currentSeq))) : ℤ) = _
    unfold RecvState.idx at hcurrent
    omega
  refine
    { be := h.be
      bufstart := h.bufstart
      buf := ?_
      idx_le := by omega
      before := h.before.imp (fun hn => ⟨hn.1, hn.2, hn.3⟩)
        (fun ⟨k, x, hh⟩ => ⟨k, x, hh.1, hh.2, hh.3, hh.4⟩)
      current := ?_
      seqstart := h.seqstart
      current_lt := hmax
      first_ge := h.first_ge
      stored := ?_ }
  · rw [hidx]
    show (s.bufstart.add _).add _ = _
    rw [h.bufstart, slot_add, zero_add, slot_next]
    rfl
  · rw [hidx]
    show q = s.seqstartCurrent + _ - 1
    omega
  · refine stored_cons h.stored (h.at_current (by omega) hhi) le_rfl (fun _ => ?_) ?_
    · omega
    · omega

/-- The threshold test on a held-back buffer. -/
inductive ReadyTest (o : Opt) (s : RecvState) (k x : ℕ) : Except Halt RecvState → Prop where
  | ready : ulong (x + o.packetSize) > calcBufsize o →
      ReadyTest o s k x (.ok { s.free k x true with
        bufstartBefore := none
        before := none
        incBefore := none })
  | notYet : ¬ ulong (x + o.packetSize) > calcBufsize o → ReadyTest o s k x (.ok s)

/-- One packet more makes the held-back buffer ready only if that fills it. -/
def ReadyWhenFull (o : Opt) (x : ℕ) : Prop :=
  calcBufsize o < ulong (ulong (x + o.packetSize) + o.packetSize) →
    o.packetSize * o.bufNumElems ≤ x + o.packetSize

instance (o : Opt) (x : ℕ) : Decidable (ReadyWhenFull o x) :=
  inferInstanceAs (Decidable (_ → _))

theorem freeBeforeIfReady_test (h : s.Held o k x) :
    ReadyTest o s k x (freeBeforeIfReady o s) := by
  unfold freeBeforeIfReady
  rw [h.before, h.incBefore]
  dsimp only
  split
  · exact .ready ‹_›
  · exact .notYet ‹_›

/-- The receiver with one more packet in the held-back buffer. -/
def putBefore (o : Opt) (q : ℤ) (target : Ptr) (x : ℕ) (s : RecvState) : RecvState :=
  (({ s with
    incBefore := some (ulong (x + o.packetSize))
    usebuf := some target } : RecvState).copyPacket o target s.buf).store target q

theorem storeBefore_eq (h : s.Held o k x) (d : ℤ) :
    storeBefore o q d (slot o.packetSize k 0) s =
      freeBeforeIfReady o (putBefore o q (slot o.packetSize k (o.bufNumElems + d)) x s) := by
  unfold storeBefore putBefore
  rw [h.incBefore, slot_add, zero_add]

theorem RecvState.Held.putBefore (h : s.Held o k x) (target : Ptr) :
    (putBefore o q target x s).Held o k (ulong (x + o.packetSize)) :=
  ⟨h.before, h.bufstartBefore, rfl, h.cumul⟩

/-- A packet of the file before is stored, and the threshold tested. -/
theorem storeBefore_test (h : s.Held o k x) (d : ℤ) :
    ReadyTest o (putBefore o q (slot o.packetSize k (o.bufNumElems + d)) x s) k
      (ulong (x + o.packetSize)) (storeBefore o q d (slot o.packetSize k 0) s) := by
  rw [storeBefore_eq h]
  exact freeBeforeIfReady_test (h.putBefore _)

/-- The place of a number of the file before. -/
theorem Geo.at_before (h : Geo o f s) (hk : s.cumul = k + 1)
    (hlo : s.seqstartCurrent - o.bufNumElems ≤ q) (hhi : q < s.seqstartCurrent)
    {packet : Bytes} :
    Stored.At o f
      ⟨slot o.packetSize k (o.bufNumElems + (q - s.seqstartCurrent)), packet, q⟩
      k (o.bufNumElems + (q - s.seqstartCurrent)).toNat where
  ptr := by
    show slot _ _ _ = slot _ _ _
    rw [Int.toNat_of_nonneg (by omega)]
  seqnum := by
    have hseq := h.seqstart
    rw [hk] at hseq
    push_cast at hseq
    rw [add_mul] at hseq
    show q = _
    omega
  lt := by omega

/-- A packet of the file before moves nothing of the current one. -/
theorem Geo.putBefore (h : Geo o f s) (hheld : s.Held o k x)
    (hlo : s.seqstartCurrent - o.bufNumElems ≤ q) (hhi : q < s.seqstartCurrent) :
    Geo o f (putBefore o q (slot o.packetSize k (o.bufNumElems + (q - s.seqstartCurrent)))
      x s) where
  be := h.be
  bufstart := h.bufstart
  buf := h.buf
  idx_le := h.idx_le
  before := Or.inr ⟨k, _, hheld.putBefore _⟩
  current := h.current
  seqstart := h.seqstart
  current_lt := h.current_lt
  first_ge := h.first_ge
  stored := by
    have hk : k < s.cumul := by rw [hheld.cumul]; exact Nat.lt_succ_self k
    exact stored_cons h.stored (h.at_before hheld.cumul hlo hhi) hk.le
      (fun heq => absurd heq hk.ne) le_rfl

/-- Handing the held-back buffer over leaves none. -/
theorem Geo.ready (h : Geo o f s) (file diff : ℕ) (complete : Bool) :
    Geo o f { s.free file diff complete with
      bufstartBefore := none
      before := none
      incBefore := none } :=
  ⟨h.be, h.bufstart, h.buf, h.idx_le, Or.inl ⟨rfl, rfl, rfl⟩, h.current, h.seqstart,
    h.current_lt, h.first_ge, h.stored⟩

end Arms

/-! ## The next buffer -/

/-- What `jump_to_next_buf` does. -/
structure Jumped (o : Opt) (content : ℤ → Byte) (s s' : RecvState) : Prop where
  cumul : s'.cumul = s.cumul + 1
  be : s'.be = s.cumul + 1
  mem : s'.mem = s.mem.replace (s.cumul + 1) content
  buf : s'.buf = slot o.packetSize (s.cumul + 1) 0
  bufstart : s'.bufstart = slot o.packetSize (s.cumul + 1) 0
  i : s'.i = 0
  inc : s'.inc = 0
  seqstart : s'.seqstartCurrent = long (s.seqstartCurrent + o.bufNumElems)
  currentSeq : s'.currentSeq = s.currentSeq
  stored : s'.stored = s.stored
  writes : s'.writes = s.writes
  counts : s'.totalPackets = s.totalPackets ∧ s'.nPackets = s.nPackets ∧
    s'.running = s.running ∧ s'.firstPacket = s.firstPacket ∧ s'.vdif = s.vdif ∧
    s'.waitStart = s.waitStart
  /-- A full buffer is handed over. -/
  full : s.inc = calcBufsizeNooffset o → s'.NoneHeld
  /-- Another one is held back. -/
  held : s.inc ≠ calcBufsizeNooffset o → s'.Held o s.cumul s.inc
  released : ∃ old, (s.NoneHeld → old = []) ∧
    (∀ k x, s.Held o k x → old = [⟨k, calcBufsize o, false⟩]) ∧
    s'.released = (if s.inc = calcBufsizeNooffset o then [⟨s.be, s.inc, true⟩] else []) ++
      old ++ s.released
  missing : (s.NoneHeld → s'.missing = s.missing) ∧
    ∀ k x, s.Held o k x → s'.missing =
      ulong (s.missing + ulong (calcBufsize o - x) / o.packetSize)

section Jump

variable {o : Opt} {f q : ℤ} {s s' : RecvState} {content : ℤ → Byte} {k x : ℕ}

/-- The geometry that `jump_to_next_buf` relies on. -/
structure Jumpable (o : Opt) (s : RecvState) : Prop where
  be : s.be = s.cumul
  bufstart : s.bufstart = slot o.packetSize s.cumul 0
  before : s.NoneHeld ∨ ∃ k x, s.Held o k x

theorem Geo.jumpable (h : Geo o f s) : Jumpable o s := ⟨h.be, h.bufstart, h.before⟩

/-- The receiver that has gone on to the next file and written the held-back
buffer out. -/
def writtenOut (missing : ℕ) (old : List Released) (s : RecvState) : RecvState :=
  { s with
    cumul := s.cumul + 1
    missing := missing
    released := old ++ s.released
    bufstartBefore := none
    before := none
    incBefore := none }

theorem releaseBefore_none (h : s.NoneHeld) :
    releaseBefore o s.nextFile = .ok (writtenOut s.missing [] s) := by
  obtain ⟨hbefore, hbufstart, hinc⟩ := h
  simp only [releaseBefore, RecvState.nextFile, writtenOut, hbefore, hbufstart, hinc,
    List.nil_append]

theorem releaseBefore_held (h : s.Held o k x) :
    releaseBefore o s.nextFile =
      .ok (writtenOut (ulong (s.missing + ulong (calcBufsize o - x) / o.packetSize))
        [⟨k, calcBufsize o, false⟩] s) := by
  obtain ⟨hbefore, hbufstart, hinc, -⟩ := h
  simp only [releaseBefore, RecvState.nextFile, writtenOut, RecvState.free, hbefore, hinc,
    List.singleton_append]

/-- **`jump_to_next_buf` goes on to the next file.** -/
theorem jumpToNextBuf_spec (h : Jumpable o s) (content : ℤ → Byte) :
    ∃ s', jumpToNextBuf o (some content) s = .ok s' ∧ Jumped o content s s' := by
  obtain ⟨missing, old, hrelease, hnone, hheld⟩ : ∃ missing old,
      releaseBefore o s.nextFile = .ok (writtenOut missing old s) ∧
      (s.NoneHeld → missing = s.missing ∧ old = []) ∧
      ∀ k x, s.Held o k x →
        missing = ulong (s.missing + ulong (calcBufsize o - x) / o.packetSize) ∧
        old = [⟨k, calcBufsize o, false⟩] := by
    rcases h.before with hn | ⟨k, x, hh⟩
    · exact ⟨_, _, releaseBefore_none hn, fun _ => ⟨rfl, rfl⟩,
        fun k x hh => absurd (hn.before.symm.trans hh.before) (by simp)⟩
    · refine ⟨_, _, releaseBefore_held hh,
        fun hn => absurd (hn.before.symm.trans hh.before) (by simp), fun k' x' hh' => ?_⟩
      obtain rfl := Option.some.inj (hh.before.symm.trans hh'.before)
      obtain rfl := Option.some.inj (hh.incBefore.symm.trans hh'.incBefore)
      exact ⟨rfl, rfl⟩
  have hrun : jumpToNextBuf o (some content) s =
      .ok (enterNext o content (releaseCurrent o (writtenOut missing old s))) := by
    unfold jumpToNextBuf
    rw [hrelease]
    rfl
  refine ⟨_, hrun, ?_⟩
  unfold releaseCurrent
  by_cases hfull : s.inc = calcBufsizeNooffset o
  · rw [if_pos (show (writtenOut missing old s).inc = _ from hfull)]
    exact
      { cumul := rfl, be := rfl, mem := rfl, buf := slot_zero.symm, bufstart := slot_zero.symm
        i := rfl, inc := rfl, seqstart := rfl, currentSeq := rfl, stored := rfl, writes := rfl
        counts := ⟨rfl, rfl, rfl, rfl, rfl, rfl⟩
        full := fun _ => ⟨rfl, rfl, rfl⟩
        held := fun hne => absurd hfull hne
        released := ⟨old, fun hn => (hnone hn).2, fun k x hh => (hheld k x hh).2, by
          rw [if_pos hfull]; rfl⟩
        missing := ⟨fun hn => (hnone hn).1, fun k x hh => (hheld k x hh).1⟩ }
  · rw [if_neg (show ¬ (writtenOut missing old s).inc = _ from hfull)]
    exact
      { cumul := rfl, be := rfl, mem := rfl, buf := slot_zero.symm, bufstart := slot_zero.symm
        i := rfl, inc := rfl, seqstart := rfl, currentSeq := rfl, stored := rfl, writes := rfl
        counts := ⟨rfl, rfl, rfl, rfl, rfl, rfl⟩
        full := fun heq => absurd heq hfull
        held := fun _ => ⟨congrArg some h.be, congrArg some h.bufstart, rfl, rfl⟩
        released := ⟨old, fun hn => (hnone hn).2, fun k x hh => (hheld k x hh).2, by
          rw [if_neg hfull]; rfl⟩
        missing := ⟨fun hn => (hnone hn).1, fun k x hh => (hheld k x hh).1⟩ }

/-- Without a buffer the thread exits. -/
theorem jumpToNextBuf_none (h : Jumpable o s) :
    jumpToNextBuf o none s = .error .threadExit := by
  unfold jumpToNextBuf
  rcases h.before with hn | ⟨k, x, hh⟩
  · rw [releaseBefore_none hn]
    rfl
  · rw [releaseBefore_held hh]
    rfl

/-- A packet of the old files keeps its place. -/
theorem Jumped.stored_at (hj : Jumped o content s s') (h : Geo o f s) :
    ∀ st ∈ s'.stored, ∃ k j, st.At o f k j ∧ k ≤ s'.cumul ∧ (k = s'.cumul → j < 0) := by
  rw [hj.stored, hj.cumul]
  intro st hst
  obtain ⟨k, j, hat, hk, -⟩ := h.stored st hst
  exact ⟨k, j, hat, by omega, fun heq => absurd heq (by omega)⟩

theorem Jumped.before (hj : Jumped o content s s') :
    s'.NoneHeld ∨ ∃ k x, s'.Held o k x := by
  by_cases hfull : s.inc = calcBufsizeNooffset o
  · exact Or.inl (hj.full hfull)
  · exact Or.inr ⟨_, _, hj.held hfull⟩

theorem Jumped.idx (hj : Jumped o content s s') : s'.idx = 0 := by
  rw [RecvState.idx, hj.i]
  rfl

/-- The next file starts where this one ends. -/
theorem Jumped.seqstart_eq (hj : Jumped o content s s') (h : Geo o f s)
    (hfits : s.seqstartCurrent + o.bufNumElems < 2 ^ 63) :
    s'.seqstartCurrent = s.seqstartCurrent + o.bufNumElems ∧
    s'.seqstartCurrent = f + s'.cumul * o.bufNumElems := by
  have hseq := h.seqstart
  have hfirst := h.first_ge
  have hmul : 0 ≤ (s.cumul : ℤ) * o.bufNumElems := Int.mul_nonneg (by omega) (by omega)
  have hstart : s'.seqstartCurrent = s.seqstartCurrent + o.bufNumElems := by
    rw [hj.seqstart]
    exact long_of_fits (by omega) hfits
  refine ⟨hstart, ?_⟩
  rw [hstart, hseq, hj.cumul]
  push_cast
  rw [add_mul, one_mul]
  omega

/-- The place of a number of the next file. -/
theorem Jumped.at_next (hj : Jumped o content s s') (h : Geo o f s)
    (hlo : s.seqstartCurrent + o.bufNumElems ≤ q)
    (hhi : q < s.seqstartCurrent + 2 * o.bufNumElems) (hmax : q < int64Max)
    {packet : Bytes} :
    Stored.At o f
      ⟨s'.bufstart.add ((q - s.seqstartCurrent - o.bufNumElems) * o.packetSize), packet, q⟩
      s'.cumul (q - s.seqstartCurrent - o.bufNumElems).toNat where
  ptr := by
    show s'.bufstart.add _ = _
    rw [hj.bufstart, slot_add, zero_add, hj.cumul, Int.toNat_of_nonneg (by omega)]
  seqnum := by
    obtain ⟨hstart, hseq⟩ := hj.seqstart_eq h (by unfold int64Max at hmax; omega)
    show q = _
    omega
  lt := by omega

/-- **Jumping at the end of a buffer keeps the geometry.** -/
theorem Geo.jump (h : Geo o f s) (hend : s.idx = o.bufNumElems)
    (hj : Jumped o content s s') : Geo o f s' := by
  have hcurrent := h.current
  have hlt := h.current_lt
  obtain ⟨hstart, hseq⟩ := hj.seqstart_eq h (by unfold int64Max at hlt; omega)
  exact
    { be := hj.be.trans hj.cumul.symm
      bufstart := by rw [hj.bufstart, hj.cumul]
      buf := by rw [hj.buf, hj.cumul, hj.idx]; rfl
      idx_le := by rw [hj.idx]; exact Nat.zero_le _
      before := hj.before
      current := by rw [hj.currentSeq, hstart, hj.idx]; push_cast; omega
      seqstart := hseq
      current_lt := by rw [hj.currentSeq]; exact hlt
      first_ge := h.first_ge
      stored := by rw [hj.idx]; exact hj.stored_at h }

/-- `storeNext` once it is in the next buffer. -/
def putNext (o : Opt) (q d : ℤ) (origbuf : Ptr) (s : RecvState) : RecvState :=
  let target := s.bufstart.add (d * o.packetSize)
  let s := (({ s with usebuf := some target }.copyPacket o target origbuf).bumpInc o).store
    target q
  { s with
    currentSeq := q
    i := int (s.i + d + 1)
    buf := target.add o.packetSize }

theorem storeNext_ok {free : Option (ℤ → Byte)} {d : ℤ}
    (h : jumpToNextBuf o free s = .ok s') :
    storeNext o q d free s = .ok (putNext o q (d - o.bufNumElems) s.buf s') := by
  unfold storeNext
  rw [h]
  rfl

theorem storeNext_error {free : Option (ℤ → Byte)} {d : ℤ} {e : Halt}
    (h : jumpToNextBuf o free s = .error e) : storeNext o q d free s = .error e := by
  unfold storeNext
  rw [h]
  rfl

/-- **A packet of the next buffer moves the receiver behind it.** -/
theorem Geo.putNext (h : Geo o f s) (hj : Jumped o content s s')
    (hlo : s.seqstartCurrent + o.bufNumElems ≤ q)
    (hhi : q < s.seqstartCurrent + 2 * o.bufNumElems) (hmax : q < int64Max) :
    Geo o f (putNext o q (q - s.seqstartCurrent - o.bufNumElems) s.buf s') := by
  have hN := o.bufNumElems_lt
  obtain ⟨hstart, hseq⟩ := hj.seqstart_eq h (by unfold int64Max at hmax; omega)
  have hat {packet : Bytes} : Stored.At o f ⟨_, packet, q⟩ _ _ := hj.at_next h hlo hhi hmax
  generalize hd : q - s.seqstartCurrent - o.bufNumElems = d at hat
  have hidx : ((Receiver.putNext o q d s.buf s').idx : ℤ) = d + 1 := by
    have hmove : (uint (int (s'.i + (d + 1))) : ℤ) = uint s'.i + (d + 1) :=
      uint_int_add (by rw [hj.i]; show 0 ≤ 0 + (d + 1); omega)
        (by rw [hj.i]; show 0 + (d + 1) < 2 ^ 32; omega)
    show (uint (int (s'.i + d + 1)) : ℤ) = _
    rw [add_assoc, hmove, hj.i]
    show 0 + (d + 1) = _
    omega
  refine
    { be := hj.be.trans hj.cumul.symm
      bufstart := hj.bufstart.trans (by rw [← hj.cumul]; rfl)
      buf := ?_
      idx_le := by omega
      before := hj.before.imp (fun hn => ⟨hn.1, hn.2, hn.3⟩)
        (fun ⟨k, x, hh⟩ => ⟨k, x, hh.1, hh.2, hh.3, hh.4⟩)
      current := ?_
      seqstart := hseq
      current_lt := hmax
      first_ge := h.first_ge
      stored := ?_ }
  · rw [hidx]
    show (s'.bufstart.add _).add _ = slot _ s'.cumul _
    rw [hj.bufstart, slot_add, zero_add, slot_next, hj.cumul]
  · rw [hidx]
    show q = s'.seqstartCurrent + _ - 1
    omega
  · exact stored_cons (hj.stored_at h) hat le_rfl (fun _ => by omega) (Nat.zero_le _)

end Jump

end VlbiStreamer.Receiver
