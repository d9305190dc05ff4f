import Mathlib.Data.Int.Interval
import VlbiStreamer.Receiver.Filling
import Mathlib.Data.Int.ConditionallyCompleteOrder
import Mathlib.Order.ConditionallyCompleteLattice.Basic

/-!
# Counting the packets of a buffer

`inc` and `inc_before` count bytes, `packet_size` for every packet that is stored,
and a buffer is complete when its count reaches its size.  Nothing records which
slots are filled: a packet that comes late a second time is stored over the first
and counted once more.

`countsRight_of_reachable` is about the runs where that does not happen.  There a
count is `packet_size` times the number of packets in the buffer, the assertion on
`inc` holds, and a buffer is released as complete when every slot has its packet.
`late_duplicates_abort` is a run where it does.
-/

namespace VlbiStreamer.Receiver

open Library

/-! ## The numbers of a buffer -/

/-- The numbers of the packets stored in the buffer of file `k`. -/
def numbersIn (l : List Stored) (k : ℕ) : Finset ℤ :=
  ((l.filter fun st => st.ptr.block = k).map Stored.seqnum).toFinset

section Numbers

variable {o : Opt} {f q : ℤ} {l l' : List Stored} {packet : Bytes} {k k' : ℕ}

theorem mem_numbersIn : q ∈ numbersIn l k ↔ ∃ st ∈ l, st.ptr.block = k ∧ st.seqnum = q := by
  simp [numbersIn, and_assoc]

theorem StoresOne.subset (h : StoresOne o f q packet k l l') : ∀ st ∈ l, st ∈ l' := by
  obtain ⟨st₀, j, rfl, -⟩ := h
  exact fun st hst => List.mem_cons_of_mem _ hst

/-- The buffer a packet is stored in has its number more. -/
theorem StoresOne.numbersIn_self (h : StoresOne o f q packet k l l') :
    numbersIn l' k = insert q (numbersIn l k) := by
  obtain ⟨st, j, rfl, hat, rfl, -⟩ := h
  have hblock : st.ptr.block = k := by rw [hat.ptr]; rfl
  ext q
  simp only [mem_numbersIn, Finset.mem_insert, List.mem_cons]
  constructor
  · rintro ⟨st', rfl | hst', hk, hq⟩
    · exact Or.inl hq.symm
    · exact Or.inr ⟨st', hst', hk, hq⟩
  · rintro (rfl | ⟨st', hst', hk, hq⟩)
    · exact ⟨st, Or.inl rfl, hblock, rfl⟩
    · exact ⟨st', Or.inr hst', hk, hq⟩

/-- The other buffers have the same numbers. -/
theorem StoresOne.numbersIn_other (h : StoresOne o f q packet k l l') (hne : k' ≠ k) :
    numbersIn l' k' = numbersIn l k' := by
  obtain ⟨st, j, rfl, hat, rfl, -⟩ := h
  have hblock : st.ptr.block ≠ k' := by rw [hat.ptr]; exact hne.symm
  ext q
  simp only [mem_numbersIn, List.mem_cons]
  constructor
  · rintro ⟨st', rfl | hst', hk, hq⟩
    · exact absurd hk hblock
    · exact ⟨st', hst', hk, hq⟩
  · rintro ⟨st', hst', hk, hq⟩
    exact ⟨st', Or.inr hst', hk, hq⟩

theorem numbersIn_subset (hl : ∀ st ∈ l, ∃ k j, st.At o f k j) :
    numbersIn l k ⊆ Finset.Ico (f + k * o.bufNumElems) (f + k * o.bufNumElems + o.bufNumElems) := by
  intro q hq
  obtain ⟨st, hst, hk, rfl⟩ := mem_numbersIn.mp hq
  obtain ⟨k', j, hat⟩ := hl st hst
  obtain rfl : k' = k := by rw [← hk, hat.ptr]; rfl
  have hlt := hat.lt
  have hseq := hat.seqnum
  rw [Finset.mem_Ico]
  omega

/-- A buffer has as many numbers as slots at most. -/
theorem card_numbersIn_le (hl : ∀ st ∈ l, ∃ k j, st.At o f k j) :
    (numbersIn l k).card ≤ o.bufNumElems := by
  have hle := Finset.card_le_card (numbersIn_subset (k := k) hl)
  rw [Int.card_Ico] at hle
  omega

/-- With as many numbers as slots every slot has its packet. -/
theorem slots_filled (hl : ∀ st ∈ l, ∃ k j, st.At o f k j)
    (hcard : o.bufNumElems ≤ (numbersIn l k).card) :
    ∀ j < o.bufNumElems, ∃ st ∈ l, st.At o f k j := by
  intro j hj
  have hall : numbersIn l k =
      Finset.Ico (f + k * o.bufNumElems) (f + k * o.bufNumElems + o.bufNumElems) := by
    refine Finset.eq_of_subset_of_card_le (numbersIn_subset hl) ?_
    rw [Int.card_Ico]
    omega
  have hmem : f + k * o.bufNumElems + j ∈ numbersIn l k := by
    rw [hall, Finset.mem_Ico]
    omega
  obtain ⟨st, hst, hk, hq⟩ := mem_numbersIn.mp hmem
  obtain ⟨k', j', hat⟩ := hl st hst
  obtain rfl : k' = k := by rw [← hk, hat.ptr]; rfl
  have hseq := hat.seqnum
  obtain rfl : j' = j := by omega
  exact ⟨st, hst, hat⟩

end Numbers

/-! ## The counts -/

/-- The counts of the buffers are those of their packets. -/
structure Counts (o : Opt) (f : ℤ) (s : RecvState) : Prop where
  inc : s.inc = o.packetSize * (numbersIn s.stored s.cumul).card
  incBefore : ∀ k x, s.Held o k x → x = o.packetSize * (numbersIn s.stored k).card
  complete : ∀ r ∈ s.released, r.complete = true →
    ∀ j < o.bufNumElems, ∃ st ∈ s.stored, st.At o f r.file j

section Counts

variable {o : Opt} {f q : ℤ} {s s' : RecvState} {packet : Bytes} {content : ℤ → Byte}
  {k x : ℕ}

theorem RecvState.Held.inj {k' x' : ℕ} (h : s.Held o k x) (h' : s.Held o k' x') :
    k = k' ∧ x = x' :=
  ⟨Option.some.inj (h.before.symm.trans h'.before),
    Option.some.inj (h.incBefore.symm.trans h'.incBefore)⟩

theorem RecvState.NoneHeld.not_held (h : s.NoneHeld) : ¬ s.Held o k x := by
  intro hh
  have hbefore := h.before
  rw [hh.before] at hbefore
  cases hbefore

/-- Nothing is stored in the next buffer. -/
theorem Geo.numbersIn_next (h : Geo o f s) : numbersIn s.stored (s.cumul + 1) = ∅ := by
  refine Finset.eq_empty_of_forall_notMem fun q hq => ?_
  obtain ⟨st, hst, hk, -⟩ := mem_numbersIn.mp hq
  obtain ⟨k, j, hat, hle, -⟩ := h.stored st hst
  rw [hat.ptr] at hk
  have hblock : k = s.cumul + 1 := hk
  omega

/-- A number more in a buffer. -/
theorem StoresOne.card {l l' : List Stored} (hone : StoresOne o f q packet k l l')
    (hnew : q ∉ numbersIn l k) : (numbersIn l' k).card = (numbersIn l k).card + 1 := by
  rw [hone.numbersIn_self, Finset.card_insert_of_notMem hnew]

/-- A new number in the current buffer. -/
theorem Counts.adds (h : Counts o f s) (hadds : Adds o f q packet s s')
    (hnew : q ∉ numbersIn s.stored s.cumul) : Counts o f s' where
  inc := by
    have hcard := hadds.stored.card hnew
    have hle : (numbersIn s'.stored s.cumul).card ≤ o.bufNumElems :=
      card_numbersIn_le hadds.placed.geo.stored_at
    rw [hadds.inc, hadds.cumul, h.inc, hcard]
    exact ulong_count (by omega)
  incBefore k x hheld := by
    have hheld' := hadds.held_iff.mp hheld
    have hne : k ≠ s.cumul := by
      have hcumul := hheld'.cumul
      omega
    rw [hadds.stored.numbersIn_other hne]
    exact h.incBefore k x hheld'
  complete r hr hcomplete j hj := by
    rw [hadds.released] at hr
    obtain ⟨st, hst, hat⟩ := h.complete r hr hcomplete j hj
    exact ⟨st, hadds.stored.subset st hst, hat⟩

/-- The count of the held-back buffer with a new number. -/
theorem Counts.before_count (h : Counts o f s) (hheld : s.Held o k x)
    (hadds : AddsBefore o f q packet k x s s') (hnew : q ∉ numbersIn s.stored k) :
    (numbersIn s'.stored k).card ≤ o.bufNumElems ∧
    ulong (x + o.packetSize) = o.packetSize * (numbersIn s'.stored k).card := by
  have hcard := hadds.stored.card hnew
  have hle : (numbersIn s'.stored k).card ≤ o.bufNumElems :=
    card_numbersIn_le hadds.placed.geo.stored_at
  refine ⟨hle, ?_⟩
  rw [h.incBefore k x hheld, hcard]
  exact ulong_count (by omega)

/-- Without stripping, a buffer is ready when it is full. -/
theorem Counts.readyWhenFull (h : Counts o f s) (hgeo : Geo o f s) (hoff : o.offset = 0) :
    ∀ x ∈ s.incBefore, ReadyWhenFull o x := by
  intro x hx hroom
  rcases hgeo.before with hnone | ⟨k, x', hheld⟩
  · rw [hnone.incBefore] at hx
    cases hx
  · obtain rfl : x = x' := Option.some.inj (hx.symm.trans hheld.incBefore)
    have hle : (numbersIn s.stored k).card ≤ o.bufNumElems := card_numbersIn_le hgeo.stored_at
    rw [h.incBefore k x hheld] at hroom ⊢
    rcases hle.lt_or_eq with hlt | heq
    · rw [ulong_count hlt] at hroom
      rw [← Nat.mul_succ]
      exact Nat.mul_le_mul_left _ (count_of_noRoom hoff hroom)
    · rw [heq]
      exact Nat.le_add_right _ _

/-- A held-back buffer that becomes ready with a packet has a number for every slot. -/
theorem Counts.card_of_ready (h : Counts o f s) (hpos : 0 < o.packetSize)
    (hready : ReadyWhenFull o x) (hheld : s.Held o k x)
    (hadds : AddsBefore o f q packet k x s s') (hnew : q ∉ numbersIn s.stored k)
    (hroom : calcBufsize o < ulong (ulong (x + o.packetSize) + o.packetSize)) :
    o.bufNumElems ≤ (numbersIn s'.stored k).card := by
  have hall := hready hroom
  rw [h.incBefore k x hheld, ← Nat.mul_succ] at hall
  rw [hadds.stored.card hnew]
  exact Nat.le_of_mul_le_mul_left hall hpos

/-- A new number in the held-back buffer. -/
theorem Counts.addsBefore (h : Counts o f s) (hpos : 0 < o.packetSize)
    (hready : ReadyWhenFull o x) (hheld : s.Held o k x)
    (hadds : AddsBefore o f q packet k x s s') (hnew : q ∉ numbersIn s.stored k) :
    Counts o f s' := by
  have hcount := (h.before_count hheld hadds hnew).2
  have hsubset := hadds.stored.subset
  have hcomplete : ∀ r ∈ s.released, r.complete = true →
      ∀ j < o.bufNumElems, ∃ st ∈ s'.stored, st.At o f r.file j := by
    intro r hr hfull j hj
    obtain ⟨st, hst, hat⟩ := h.complete r hr hfull j hj
    exact ⟨st, hsubset st hst, hat⟩
  refine ⟨?_, ?_, ?_⟩
  · have hne : s.cumul ≠ k := by
      have hcumul := hheld.cumul
      omega
    rw [hadds.inc, hadds.cumul, hadds.stored.numbersIn_other hne]
    exact h.inc
  · intro k' x' hheld'
    rcases hadds.handedOver with ⟨-, hstill, -⟩ | ⟨-, hnone, -⟩
    · obtain ⟨rfl, rfl⟩ := hstill.inj hheld'
      exact hcount
    · exact absurd hheld' hnone.not_held
  · rcases hadds.handedOver with ⟨-, -, hreleased⟩ | ⟨hroom, -, hreleased⟩
    · rw [hreleased]
      exact hcomplete
    · rw [hreleased]
      intro r hr hfull
      rcases List.mem_cons.mp hr with rfl | hr
      · exact slots_filled hadds.placed.geo.stored_at
          (h.card_of_ready hpos hready hheld hadds hnew hroom)
      · exact hcomplete r hr hfull

/-- The next buffer is empty, and the last one was full or is held back. -/
theorem Counts.jumped (h : Counts o f s) (hgeo : Geo o f s) (hpos : 0 < o.packetSize)
    (hj : Jumped o content s s') : Counts o f s' where
  inc := by
    rw [hj.inc, hj.stored, hj.cumul, hgeo.numbersIn_next, Finset.card_empty, Nat.mul_zero]
  incBefore k x hheld := by
    by_cases hfull : s.inc = calcBufsizeNooffset o
    · exact absurd hheld (hj.full hfull).not_held
    · obtain ⟨rfl, rfl⟩ := (hj.held hfull).inj hheld
      rw [hj.stored]
      exact h.inc
  complete r hr hcomplete := by
    rw [hj.stored]
    obtain ⟨old, hnone, hheld, hreleased⟩ := hj.released
    rw [hreleased] at hr
    rcases List.mem_append.mp hr with hr | hr
    · rcases List.mem_append.mp hr with hr | hr
      · -- the current buffer, with the count of all slots
        split at hr
        next hfull =>
          obtain rfl := List.mem_singleton.mp hr
          rw [h.inc, calcBufsizeNooffset_eq] at hfull
          have hcard := Nat.eq_of_mul_eq_mul_left hpos hfull
          rw [← hgeo.be] at hcard
          exact slots_filled hgeo.stored_at hcard.ge
        next => cases hr
      · -- a held-back one is written out incomplete
        rcases hgeo.before with hn | ⟨k, x, hh⟩
        · rw [hnone hn] at hr
          cases hr
        · rw [hheld k x hh] at hr
          obtain rfl := List.mem_singleton.mp hr
          cases hcomplete
    · exact h.complete r hr hcomplete

end Counts

/-! ## The runs that count right -/

/-- A number that is not the mark of a receiver without packets and whose differences
to the numbers of a receiver with packets fit a `long`. -/
def WithinReach (s : RecvState) (q : ℤ) : Prop :=
  q < int64Max ∧ (s.currentSeq ≠ int64Max → InReach s q)

/-- A number, other than the current one, that this buffer or the held-back one has
already. -/
def Repeated (s : RecvState) (q : ℤ) : Prop :=
  q ≠ s.currentSeq ∧ (q ∈ numbersIn s.stored s.be ∨
    ∃ k, s.before = some k ∧ q ∈ numbersIn s.stored k)

/-- A receiver whose buffers have no slots. -/
structure Slotless (o : Opt) (s : RecvState) : Prop where
  zero : o.bufNumElems = 0
  be : s.be = s.cumul
  bufstart : s.bufstart = slot o.packetSize s.cumul 0
  noneHeld : s.NoneHeld
  i : s.i = 0
  inc : s.inc = 0
  stored : s.stored = []

/-- A receiver that counts right. -/
inductive CountInv (o : Opt) (s : RecvState) : Prop where
  | slotless : Slotless o s → CountInv o s
  /-- It waits for its first packet. -/
  | fresh : 0 < o.bufNumElems → Fresh o s → s.AllInside o → CountInv o s
  /-- It has packets. -/
  | counted (f : ℤ) : 0 < o.bufNumElems → 0 < o.packetSize → Placed o f s → Counts o f s →
      CountInv o s

section Invariant

variable {o : Opt} {f q : ℤ} {s s' : RecvState} {free : Option (ℤ → Byte)}
  {content : ℤ → Byte} {received : ℕ} {bytes : Bytes}

theorem Slotless.jumpable (h : Slotless o s) : Jumpable o s :=
  ⟨h.be, h.bufstart, Or.inl h.noneHeld⟩

theorem Slotless.same (h : Slotless o s) (hs : SameResq s s') : Slotless o s' where
  zero := h.zero
  be := by rw [hs.be, hs.cumul]; exact h.be
  bufstart := by rw [hs.bufstart, hs.cumul]; exact h.bufstart
  noneHeld := hs.noneHeld h.noneHeld
  i := hs.i.trans h.i
  inc := hs.inc.trans h.inc
  stored := hs.stored.trans h.stored

/-- Without slots every buffer is full at once. -/
theorem Slotless.jump (h : Slotless o s) (hj : Jumped o content s s') : Slotless o s' where
  zero := h.zero
  be := hj.be.trans hj.cumul.symm
  bufstart := by rw [hj.bufstart, hj.cumul]
  noneHeld := hj.full (by rw [h.inc, calcBufsizeNooffset_eq, h.zero, Nat.mul_zero])
  i := hj.i
  inc := hj.inc
  stored := hj.stored.trans h.stored

theorem Counts.same (h : Counts o f s) (hs : SameResq s s') : Counts o f s' where
  inc := by rw [hs.inc, hs.stored, hs.cumul]; exact h.inc
  incBefore k x hheld := by
    rw [hs.stored]
    exact h.incBefore k x ⟨hs.before.symm.trans hheld.before,
      hs.bufstartBefore.symm.trans hheld.bufstartBefore,
      hs.incBefore.symm.trans hheld.incBefore, hs.cumul.symm.trans hheld.cumul⟩
  complete := by rw [hs.released, hs.stored]; exact h.complete

theorem Arrived.number_bounds (ha : Arrived o s s' bytes q) : -2 ^ 63 ≤ q ∧ q < 2 ^ 63 := by
  obtain ⟨⟨q', v⟩, hget, rfl⟩ := Option.map_eq_some_iff.mp ha.number
  exact getseq_bounds hget

/-- Receiving a packet does not move the receiver. -/
theorem Arrived.inReach (ha : Arrived o s s' bytes q) (h : InReach s q) : InReach s' q where
  lt := h.lt
  start_ge := by rw [ha.same.seqstartCurrent]; exact h.start_ge
  start_lt := by rw [ha.same.seqstartCurrent]; exact h.start_lt
  current_ge := by rw [ha.same.currentSeq]; exact h.current_ge
  current_lt := by rw [ha.same.currentSeq]; exact h.current_lt

theorem Arrived.repeated (ha : Arrived o s s' bytes q) (h : Repeated s' q) : Repeated s q := by
  unfold Repeated at h
  rw [ha.same.currentSeq, ha.same.stored, ha.same.be, ha.same.before] at h
  exact h

/-- A count is not above the size of its buffer. -/
theorem Counts.inc_le (h : Counts o f s) (hgeo : Geo o f s) :
    uint s.inc ≤ calcBufsizeNooffset o := by
  have hle : s.inc ≤ calcBufsizeNooffset o := by
    rw [h.inc, calcBufsizeNooffset_eq]
    exact Nat.mul_le_mul_left _ (card_numbersIn_le hgeo.stored_at)
  have huint : uint s.inc ≤ s.inc := by
    unfold uint
    omega
  omega

/-- The first packet is counted. -/
theorem Fresh.counts (h : Fresh o s) (hroom : s.idx < o.bufNumElems) (hlo : -2 ^ 63 ≤ q)
    (hmax : q < int64Max) :
    Counts o q (takeInOrder o q { s with currentSeq := q, seqstartCurrent := q }) := by
  have hgeo := h.takeFirst hroom hlo hmax
  have hnone : (takeInOrder o q { s with currentSeq := q, seqstartCurrent := q }).NoneHeld :=
    ⟨h.before.before, h.before.bufstartBefore, h.before.incBefore⟩
  have hone : (takeInOrder o q { s with currentSeq := q, seqstartCurrent := q }).stored =
      [⟨s.buf, s.mem.read s.buf, q⟩] := congrArg _ h.stored
  have hstores : StoresOne o q q (s.mem.read s.buf) 0 [] [⟨s.buf, s.mem.read s.buf, q⟩] :=
    ⟨_, 0, rfl, ⟨h.buf, by show q = _; simp, by omega⟩, rfl, fun _ _ => rfl⟩
  refine ⟨?_, fun k x hheld => absurd hheld hnone.not_held, ?_⟩
  · rw [hone]
    show ulong (s.inc + o.packetSize) = o.packetSize * (numbersIn _ s.cumul).card
    rw [h.cumul, hstores.card (Finset.notMem_empty q), h.inc]
    exact ulong_count (o := o) (c := 0) (by omega)
  · show ∀ r ∈ s.released, _
    rw [h.released]
    exact fun r hr => absurd hr List.not_mem_nil

theorem Counts.drop (h : Counts o f s) : Counts o f s.drop :=
  ⟨h.inc, fun k x hh => h.incBefore k x ⟨hh.1, hh.2, hh.3, hh.4⟩, h.complete⟩

/-- `recv` counts nothing. -/
theorem Counts.recv (h : Counts o f s) : Counts o f (recvPacket received bytes s) :=
  ⟨h.inc, fun k x hh => h.incBefore k x ⟨hh.1, hh.2, hh.3, hh.4⟩, h.complete⟩

theorem Counts.copyMetadata (h : Counts o f s) : Counts o f s.copyMetadata :=
  ⟨h.inc, fun k x hh => h.incBefore k x ⟨hh.1, hh.2, hh.3, hh.4⟩, h.complete⟩

/-- **Placing a packet** that is not repeated. -/
theorem Counts.placing (h : Counts o f s) (hgeo : Geo o f s)
    (hready : q < s.seqstartCurrent → ∀ x ∈ s.incBefore, ReadyWhenFull o x)
    (hpos : 0 < o.packetSize) (honce : ¬ Repeated s q) (hplacing : Placing o f q s s') :
    Counts o f s' := by
  cases hplacing with
  | again hsame => exact h
  | tooEarly hbelow hnone => exact h.drop
  | tooLate hgt hge hlate => exact h.drop
  | here hge hbelow hne hadds hcurrent =>
      refine h.adds hadds fun hmem => honce ⟨hne, Or.inl ?_⟩
      rw [hgeo.be]
      exact hmem
  | before hheld hne hge hbelow hadds =>
      exact h.addsBefore hpos (hready hbelow _ hheld.incBefore) hheld hadds fun hmem =>
        honce ⟨hne, Or.inr ⟨_, hheld.before, hmem⟩⟩
  | next hgt hge hbelow hj hadds hcurrent =>
      have hjumped : Counts o f _ := h.jumped hgeo hpos hj
      refine hjumped.adds hadds ?_
      rw [hj.stored, hj.cumul, hgeo.numbersIn_next]
      exact Finset.notMem_empty q

end Invariant

/-- The receive loop counts right where no number is repeated. -/
theorem countInv_loop {o : Opt} (hoff : o.offset = 0) :
    LoopInvariant o (fun s q => WithinReach s q ∧ ¬ Repeated s q) (CountInv o)
      fun e => e = .threadExit ∨ e = .sigfpe ∨ e = .assertI ∧ o.bufNumElems = 0 where
  init content waitStart := by
    have hfresh := fresh_udpReceiver o content waitStart
    rcases Nat.eq_zero_or_pos o.bufNumElems with hzero | hpos
    · exact .slotless ⟨hzero, rfl, hfresh.bufstart, hfresh.before, rfl, rfl, rfl⟩
    · exact .fresh hpos hfresh fun _ hw => absurd hw List.not_mem_nil
  idx_le s h := by
    cases h with
    | slotless hnone =>
        rw [RecvState.idx, hnone.i]
        exact Nat.zero_le _
    | fresh hpos hf hin =>
        rw [RecvState.idx, hf.i]
        exact Nat.zero_le _
    | counted f hpos hP hplaced hcounts => exact hplaced.geo.idx_le
  same s s' h hs := by
    cases h with
    | slotless hnone => exact .slotless (hnone.same hs)
    | fresh hpos hf hin => exact .fresh hpos (hf.same hs) (hin.same hs)
    | counted f hpos hP hplaced hcounts =>
        exact .counted f hpos hP (hplaced.same hs) (hcounts.same hs)
  recv s received bytes h hroom hle := by
    cases h with
    | slotless hnone =>
        exact .slotless ⟨hnone.zero, hnone.be, hnone.bufstart,
          ⟨hnone.noneHeld.1, hnone.noneHeld.2, hnone.noneHeld.3⟩, hnone.i, hnone.inc,
          hnone.stored⟩
    | fresh hpos hf hin =>
        exact .fresh hpos (hf.recv received bytes)
          (inside_current hin (hroom hpos) hf.target)
    | counted f hpos hP hplaced hcounts =>
        exact .counted f hpos hP (hplaced.recv (hroom hpos) hle) hcounts.recv
  roomless hzero := Or.inr (Or.inr ⟨rfl, hzero⟩)
  unnumbered s bytes h hnone := Or.inr (Or.inl rfl)
  place s s' bytes free q h ha hok := by
    obtain ⟨⟨hmax, hreach⟩, honce⟩ := hok
    have hroom : s'.idx < o.bufNumElems := ha.same.idx ▸ ha.room
    cases h with
    | slotless hnone => exact absurd ha.room (by rw [hnone.zero]; exact Nat.not_lt_zero _)
    | fresh hpos hf hin =>
        have hf' : Fresh o s' := (hf.recv _ _).copyMetadata.same ha.same
        have hin' : (recvPacket o.packetSize bytes s).copyMetadata.AllInside o :=
          inside_current hin ha.room hf.target
        have hlo : -2 ^ 63 ≤ q := ha.number_bounds.1
        have hcounts := hf'.counts hroom hlo hmax
        have hplaced := hf'.placed (hin'.same ha.same) hroom hlo hmax
        rw [placePacket_fresh hf']
        exact ⟨.counted q hpos ha.size hplaced hcounts,
          fun hnot => absurd (hcounts.inc_le hplaced.geo) hnot⟩
    | counted f hpos hP hplaced hcounts =>
        have hplaced' : Placed o f s' := (hplaced.recv ha.room le_rfl).copyMetadata.same ha.same
        have hcounts' : Counts o f s' := hcounts.recv.copyMetadata.same ha.same
        have hreach' : InReach s' q := ha.inReach (hreach hplaced.geo.current_lt.ne)
        refine (placePacket_placing hplaced' hroom hreach').imp (fun s'' hp => ?_)
          fun _ he => Or.inl he.1
        have hcounts'' : Counts o f s'' :=
          hcounts'.placing hplaced'.geo (fun _ => hcounts'.readyWhenFull hplaced'.geo hoff) hP
            (fun hrep => honce (ha.repeated hrep)) hp.1
        have hplaced'' : Placed o f s'' := hp.1.placed hplaced'
        exact ⟨.counted f hpos hP hplaced'' hcounts'',
          fun hnot => absurd (hcounts''.inc_le hplaced''.geo) hnot⟩
  jump s free h hend := by
    cases h with
    | slotless hnone =>
        cases free with
        | none =>
            rw [jumpToNextBuf_none hnone.jumpable]
            exact Or.inl rfl
        | some content =>
            obtain ⟨s', hjump, hj⟩ := jumpToNextBuf_spec hnone.jumpable content
            rw [hjump]
            exact ⟨.slotless (hnone.jump hj), fun hpos => absurd hnone.zero hpos.ne'⟩
    | fresh hpos hf hin =>
        rw [RecvState.idx, hf.i] at hend
        exact absurd hend hpos.ne
    | counted f hpos hP hplaced hcounts =>
        cases free with
        | none =>
            rw [jumpToNextBuf_none hplaced.geo.jumpable]
            exact Or.inl rfl
        | some content =>
            obtain ⟨s', hjump, hj⟩ := jumpToNextBuf_spec hplaced.geo.jumpable content
            rw [hjump]
            refine ⟨.counted f hpos hP (hplaced.jump hend hj)
              (hcounts.jumped hplaced.geo hP hj), fun _ => ?_⟩
            rw [hj.idx]
            exact hpos

/-! ## What such runs keep -/

/-- The counts of a receiver are right. -/
structure CountsRight (o : Opt) (s : RecvState) : Prop where
  inc : s.inc = o.packetSize * (numbersIn s.stored s.be).card
  incBefore : ∀ k x, s.before = some k → s.incBefore = some x →
    x = o.packetSize * (numbersIn s.stored k).card
  /-- A buffer is released as complete when all its slots hold their packets. -/
  complete : ∃ f, (∀ st ∈ s.stored, ∃ k j, st.At o f k j) ∧
    ∀ r ∈ s.released, r.complete = true → ∀ j < o.bufNumElems,
      ∃ st ∈ s.stored, st.At o f r.file j ∧ s.mem.Holds st.ptr o.packetSize st.packet

/-- As long as it is in its loop, the counts of a receiver are right; the assertion on
`inc` does not end it. -/
def Config.CountsRight (o : Opt) : Config → Prop
  | .run .done _ => True
  | .run _ s => Receiver.CountsRight o s
  | .halted h => h ≠ .assertInc

/-- The runs where no number comes a second time while its buffer is still there,
other than right after the first. -/
def Once (o : Opt) : Config → Event → Prop :=
  OnNumbers o fun s q => WithinReach s q ∧ ¬ Repeated s q

section Results

variable {o : Opt} {f : ℤ} {s : RecvState} {c : Config}

/-- A slot with its packet shows it. -/
theorem Kept.holds {k j : ℕ} (h : Kept o s.mem s.stored)
    (hst : ∃ st ∈ s.stored, st.At o f k j) :
    ∃ st ∈ s.stored, st.At o f k j ∧ s.mem.Holds st.ptr o.packetSize st.packet := by
  obtain ⟨st, hst, hat⟩ := hst
  obtain ⟨st', hst', hptr, hseq, hholds⟩ := h st hst
  refine ⟨st', hst', ⟨hptr.trans hat.ptr, hseq.trans hat.seqnum, hat.lt⟩, ?_⟩
  rw [hptr]
  exact hholds

theorem CountInv.countsRight (h : CountInv o s) : CountsRight o s := by
  cases h with
  | slotless hnone =>
      refine ⟨?_, ?_, 0, ?_, ?_⟩
      · rw [hnone.inc, hnone.stored]
        rfl
      · intro k x hbefore
        rw [hnone.noneHeld.before] at hbefore
        cases hbefore
      · rw [hnone.stored]
        exact fun _ hst => absurd hst List.not_mem_nil
      · intro r hr hcomplete j hj
        rw [hnone.zero] at hj
        exact absurd hj (Nat.not_lt_zero j)
  | fresh hpos hf hin =>
      refine ⟨?_, ?_, 0, ?_, ?_⟩
      · rw [hf.inc, hf.stored]
        rfl
      · intro k x hbefore
        rw [hf.before.before] at hbefore
        cases hbefore
      · rw [hf.stored]
        exact fun _ hst => absurd hst List.not_mem_nil
      · rw [hf.released]
        exact fun _ hr => absurd hr List.not_mem_nil
  | counted f hpos hP hplaced hcounts =>
      refine ⟨?_, ?_, f, hplaced.geo.stored_at, ?_⟩
      · rw [hplaced.geo.be]
        exact hcounts.inc
      · intro k x hbefore hinc
        rcases hplaced.geo.before with hn | ⟨k', x', hheld⟩
        · rw [hn.before] at hbefore
          cases hbefore
        · obtain rfl := Option.some.inj (hheld.before.symm.trans hbefore)
          obtain rfl := Option.some.inj (hheld.incBefore.symm.trans hinc)
          exact hcounts.incBefore _ _ hheld
      · intro r hr hcomplete j hj
        exact hplaced.kept.holds (hcounts.complete r hr hcomplete j hj)

/-- **The counts are right** in every run where no number comes a second time while
its buffer is still there. -/
theorem countsRight_of_reachable (hd : o.datatype ≠ .unknown) (hoff : o.offset = 0)
    (h : (receiver o).ReachableUnder (Once o) c) : c.CountsRight o := by
  have hsat := (countInv_loop hoff).of_reachable hd h
  cases c with
  | halted e =>
      rintro rfl
      rcases hsat with heq | heq | ⟨heq, -⟩ <;> cases heq
  | run phase s =>
      cases phase with
      | switching => exact CountInv.countsRight hsat
      | receiving => exact CountInv.countsRight hsat.1
      | leaving => exact CountInv.countsRight hsat
      | done => trivial

end Results

/-- Packet `5` and, early, packet `7`. -/
def exampleEarly : List Event := [.bufferSwitch none, receive 5, .bufferSwitch none, receive 7]

theorem countsRight_of_reachable_early :
    ∃ c, System.runFrom (step exampleOpt) exampleStart exampleEarly = some c ∧
      c.CountsRight exampleOpt := by
  obtain ⟨c, hc⟩ := Option.isSome_iff_exists.mp
    (rfl : (System.runFrom (step exampleOpt) exampleStart exampleEarly).isSome = true)
  have hstart : (receiver exampleOpt).ReachableUnder (Once exampleOpt) exampleStart :=
    .init ⟨_, _, rfl⟩
  refine ⟨c, hc, countsRight_of_reachable (by decide) rfl (hstart.runFrom ?_ hc)⟩
  refine ⟨trivial, fun c₁ h₁ => ⟨?_, fun c₂ h₂ => ⟨?_, fun c₃ h₃ => ⟨?_, fun _ _ => trivial⟩⟩⟩⟩
  · obtain rfl := Option.some.inj h₁
    rintro q hq
    obtain rfl : 5 = q := Option.some.inj hq
    refine ⟨⟨by decide, fun hne => absurd rfl hne⟩, ?_⟩
    rintro ⟨-, hmem | ⟨k, hk, -⟩⟩
    · exact absurd hmem (Finset.notMem_empty _)
    · cases hk
  · obtain rfl := Option.some.inj h₁
    obtain rfl := Option.some.inj h₂
    trivial
  · obtain rfl := Option.some.inj h₁
    obtain rfl := Option.some.inj h₂
    obtain rfl := Option.some.inj h₃
    rintro q hq
    obtain rfl : 7 = q := Option.some.inj hq
    refine ⟨⟨by decide, fun _ => ⟨by decide, by decide, by decide, by decide, by decide⟩⟩, ?_⟩
    rintro ⟨-, hmem | ⟨k, hk, -⟩⟩
    · exact absurd hmem (by decide)
    · cases hk

/-- Packets `5` and `6`, and three times more packet `5`. -/
def exampleDuplicates : Option Config :=
  System.runFrom (step exampleOpt) exampleStart
    [.bufferSwitch none, receive 5, .bufferSwitch none, receive 6, .bufferSwitch none,
      receive 5, .bufferSwitch none, receive 5, .bufferSwitch none, receive 5]

/-- **Late duplicates end the receiver** with the assertion on `inc`. -/
theorem late_duplicates_abort :
    ¬ ∀ (o : Opt) (c : Config), o.datatype ≠ .unknown → o.offset = 0 →
      (receiver o).Reachable c → c.CountsRight o := by
  intro hall
  have hrun : exampleDuplicates = some (.halted .assertInc) := rfl
  have hstart : (receiver exampleOpt).Reachable exampleStart := .init ⟨_, _, rfl⟩
  exact hall exampleOpt _ (by decide) rfl (hstart.runFrom hrun) rfl

end VlbiStreamer.Receiver
