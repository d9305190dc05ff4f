import VlbiStreamer.Receiver.Handling

/-!
# Placing a packet

`Placed` adds to the geometry of the receiver what it writes: every `recv` and
`memcpy` goes to a whole slot, and the slot of a stored packet keeps holding a
packet that was stored under its number, since `recv` only overwrites the slot that
is not stored yet and every copy goes to the slot its number calls for.

`Placing` says once what `calc_bufpos_general` can do to such a receiver: nothing, or
a packet more in the current buffer, in the held-back one or in the next.  The
properties of the runs are read off it.
-/

namespace VlbiStreamer.Receiver

open Library

/-! ## The bytes of the stored packets -/

/-- The slot of a stored packet holds one that was stored in it under its number. -/
def Kept (o : Opt) (m : Memory) (l : List Stored) : Prop :=
  ∀ st ∈ l, ∃ st' ∈ l, st'.ptr = st.ptr ∧ st'.seqnum = st.seqnum ∧
    m.Holds st.ptr o.packetSize st'.packet

section Kept

variable {o : Opt} {f q : ℤ} {m : Memory} {l : List Stored} {src target : Ptr} {k j n : ℕ}
  {packet bs : Bytes}

/-- A packet is stored where it was received. -/
theorem Kept.inPlace (h : Kept o m l) : Kept o m (⟨src, m.read src, q⟩ :: l) := by
  intro st hst
  rcases List.mem_cons.mp hst with rfl | hst
  · exact ⟨_, List.mem_cons_self, rfl, rfl, .read_self⟩
  · obtain ⟨st', hst', hkept⟩ := h st hst
    exact ⟨st', List.mem_cons_of_mem _ hst', hkept⟩

/-- A packet is copied to its slot: one that was there before has its number. -/
theorem Kept.copy (h : Kept o m l) (hl : ∀ st ∈ l, ∃ k j, st.At o f k j)
    (hnew : Stored.At o f ⟨target, packet, q⟩ k j) :
    Kept o (m.copy target src o.packetSize)
      (⟨target, (m.copy target src o.packetSize).read target, q⟩ :: l) := by
  obtain rfl : target = slot o.packetSize k j := hnew.ptr
  intro st hst
  rcases List.mem_cons.mp hst with rfl | hst
  · exact ⟨_, List.mem_cons_self, rfl, rfl, .read_self⟩
  obtain ⟨k', j', hat⟩ := hl st hst
  by_cases hsame : k = k' ∧ j = j'
  · -- the slot of the new packet: the number of the old one is the same
    obtain ⟨rfl, rfl⟩ := hsame
    refine ⟨_, List.mem_cons_self, hat.ptr.symm, ?_, ?_⟩
    · exact hnew.seqnum.trans hat.seqnum.symm
    · rw [hat.ptr]
      exact .read_self
  · obtain ⟨st', hst', hptr, hseq, hholds⟩ := h st hst
    refine ⟨st', List.mem_cons_of_mem _ hst', hptr, hseq, ?_⟩
    rw [hat.ptr] at hholds ⊢
    exact hholds.write_slot le_rfl fun hk hj => hsame ⟨hk, by omega⟩

/-- A packet is received into a slot that is not stored. -/
theorem Kept.recv (h : Kept o m l) (hn : n ≤ o.packetSize)
    (hl : ∀ st ∈ l, ∃ k' j', st.At o f k' j' ∧ (k = k' → j ≠ j')) :
    Kept o (m.write (slot o.packetSize k j) n bs) l := by
  intro st hst
  obtain ⟨k', j', hat, hne⟩ := hl st hst
  obtain ⟨st', hst', hptr, hseq, hholds⟩ := h st hst
  refine ⟨st', hst', hptr, hseq, ?_⟩
  rw [hat.ptr] at hholds ⊢
  exact hholds.write_slot hn fun hk hj => hne hk (by omega)

/-- A new buffer replaces none that is stored in. -/
theorem Kept.replace (h : Kept o m l) {content : ℤ → Byte}
    (hl : ∀ st ∈ l, st.ptr.block ≠ k) : Kept o (m.replace k content) l := by
  intro st hst
  obtain ⟨st', hst', hptr, hseq, hholds⟩ := h st hst
  exact ⟨st', hst', hptr, hseq, hholds.replace (hl st hst)⟩

end Kept

/-! ## The targets of the writes -/

/-- The target of a `recv` or `memcpy` is a whole slot of the current buffer or of
the held-back one. -/
def Write.Inside (o : Opt) (w : Write) : Prop :=
  ∃ j < o.bufNumElems, w.target = slot o.packetSize w.current j ∨
    ∃ k, w.before = some k ∧ w.target = slot o.packetSize k j

/-- Every write so far went to a whole slot. -/
def RecvState.AllInside (o : Opt) (s : RecvState) : Prop := ∀ w ∈ s.writes, w.Inside o

section Inside

variable {o : Opt} {l : List Write} {target : Ptr} {current k j : ℕ} {before : Option ℕ}

/-- One more write, to a slot of the current buffer. -/
theorem inside_current (hl : ∀ w ∈ l, w.Inside o) (hj : j < o.bufNumElems)
    (htarget : target = slot o.packetSize current j) :
    ∀ w ∈ (⟨target, current, before⟩ : Write) :: l, w.Inside o := by
  intro w hw
  rcases List.mem_cons.mp hw with rfl | hw
  · exact ⟨j, hj, Or.inl htarget⟩
  · exact hl w hw

/-- One more write, to a slot of the held-back buffer. -/
theorem inside_before (hl : ∀ w ∈ l, w.Inside o) (hj : j < o.bufNumElems)
    (hbefore : before = some k) (htarget : target = slot o.packetSize k j) :
    ∀ w ∈ (⟨target, current, before⟩ : Write) :: l, w.Inside o := by
  intro w hw
  rcases List.mem_cons.mp hw with rfl | hw
  · exact ⟨j, hj, Or.inr ⟨k, hbefore, htarget⟩⟩
  · exact hl w hw

end Inside

/-! ## The receiver and what it writes -/

/-- A receiver after its first packet, which had number `f`. -/
structure Placed (o : Opt) (f : ℤ) (s : RecvState) : Prop where
  geo : Geo o f s
  isInt : -2 ^ 31 ≤ s.i ∧ s.i < 2 ^ 31
  kept : Kept o s.mem s.stored
  inside : s.AllInside o

section Placed

variable {o : Opt} {f q : ℤ} {s s' : RecvState} {content : ℤ → Byte} {received k x : ℕ}
  {bytes : Bytes}

theorem int_isInt (x : ℤ) : -2 ^ 31 ≤ int x ∧ int x < 2 ^ 31 := by
  unfold int
  omega

/-- A stored packet lies in its slot. -/
theorem Geo.stored_at (h : Geo o f s) : ∀ st ∈ s.stored, ∃ k j, st.At o f k j := by
  intro st hst
  obtain ⟨k, j, hat, -⟩ := h.stored st hst
  exact ⟨k, j, hat⟩

theorem Fresh.target (h : Fresh o s) : s.buf = slot o.packetSize s.be s.idx := by
  rw [h.buf, h.be, RecvState.idx, h.i]
  rfl

theorem Geo.target (h : Geo o f s) : s.buf = slot o.packetSize s.be s.idx := by
  rw [h.buf, h.be]

theorem RecvState.AllInside.same (h : s.AllInside o) (hs : SameResq s s') :
    s'.AllInside o := by
  unfold RecvState.AllInside
  rw [hs.writes]
  exact h

theorem Placed.same (h : Placed o f s) (hs : SameResq s s') : Placed o f s' where
  geo := h.geo.same hs
  isInt := by rw [hs.i]; exact h.isInt
  kept := by rw [hs.mem, hs.stored]; exact h.kept
  inside := h.inside.same hs

/-- `recv` goes to a slot that is not stored. -/
theorem Placed.recv (h : Placed o f s) (hroom : s.idx < o.bufNumElems)
    (hle : received ≤ o.packetSize) : Placed o f (recvPacket received bytes s) where
  geo := h.geo.recv received bytes
  isInt := h.isInt
  kept := by
    show Kept o (s.mem.write s.buf received bytes) s.stored
    rw [h.geo.buf]
    refine h.kept.recv (f := f) hle fun st hst => ?_
    obtain ⟨k, j, hat, -, hj⟩ := h.geo.stored st hst
    exact ⟨k, j, hat, fun hk => (hj hk.symm).ne'⟩
  inside := inside_current h.inside hroom h.geo.target

theorem Placed.copyMetadata (h : Placed o f s) : Placed o f s.copyMetadata :=
  ⟨h.geo.copyMetadata, h.isInt, h.kept, h.inside⟩

/-- The first packet of a stream. -/
theorem Fresh.placed (h : Fresh o s) (hin : s.AllInside o) (hlt : s.idx < o.bufNumElems)
    (hlo : -2 ^ 63 ≤ q) (hmax : q < int64Max) :
    Placed o q (takeInOrder o q { s with currentSeq := q, seqstartCurrent := q }) where
  geo := h.takeFirst hlt hlo hmax
  isInt := int_isInt _
  kept := by
    have hnone : Kept o s.mem s.stored := by
      rw [h.stored]
      exact fun _ hst => absurd hst List.not_mem_nil
    exact hnone.inPlace
  inside := hin

theorem Placed.takeInOrder (h : Placed o f s) (hlt : s.idx < o.bufNumElems)
    (hq : q = s.currentSeq + 1) (hmax : q < int64Max) :
    Placed o f (takeInOrder o q { s with currentSeq := q }) where
  geo := h.geo.takeInOrder hlt hq hmax
  isInt := int_isInt _
  kept := h.kept.inPlace
  inside := h.inside

theorem Placed.drop (h : Placed o f s) : Placed o f s.drop :=
  ⟨h.geo.drop, h.isInt, h.kept, h.inside⟩

theorem Placed.storeBehind (h : Placed o f s) (hlo : s.seqstartCurrent ≤ q)
    (hlt : q < s.currentSeq) : Placed o f (storeBehind o q (q - s.seqstartCurrent) s) := by
  have hcurrent := h.geo.current
  have hidx := h.geo.idx_le
  have hat : Stored.At o f ⟨_, s.mem.read s.buf, q⟩ _ _ := h.geo.at_current hlo (by omega)
  exact
    { geo := h.geo.storeBehind hlo hlt
      isInt := h.isInt
      kept := h.kept.copy h.geo.stored_at hat
      inside := inside_current h.inside hat.lt (hat.ptr.trans (by rw [← h.geo.be]; rfl)) }

theorem Placed.storeAhead (h : Placed o f s) (hlo : s.currentSeq + 1 < q)
    (hlt : q < s.seqstartCurrent + o.bufNumElems) (hmax : q < int64Max) :
    Placed o f (storeAhead o q (q - s.seqstartCurrent) (q - s.currentSeq) s) := by
  have hcurrent := h.geo.current
  have hat : Stored.At o f ⟨_, s.mem.read s.buf, q⟩ _ _ := h.geo.at_current (by omega) hlt
  exact
    { geo := h.geo.storeAhead hlo hlt hmax
      isInt := int_isInt _
      kept := h.kept.copy h.geo.stored_at hat
      inside := inside_current h.inside hat.lt (hat.ptr.trans (by rw [← h.geo.be]; rfl)) }

theorem Placed.putBefore (h : Placed o f s) (hheld : s.Held o k x)
    (hlo : s.seqstartCurrent - o.bufNumElems ≤ q) (hlt : q < s.seqstartCurrent) :
    Placed o f (putBefore o q (slot o.packetSize k (o.bufNumElems + (q - s.seqstartCurrent)))
      x s) := by
  have hat : Stored.At o f ⟨_, s.mem.read s.buf, q⟩ _ _ :=
    h.geo.at_before hheld.cumul hlo hlt
  exact
    { geo := h.geo.putBefore hheld hlo hlt
      isInt := h.isInt
      kept := h.kept.copy h.geo.stored_at hat
      inside := inside_before h.inside hat.lt hheld.before hat.ptr }

theorem Placed.ready (h : Placed o f s) (file diff : ℕ) (complete : Bool) :
    Placed o f { s.free file diff complete with
      bufstartBefore := none
      before := none
      incBefore := none } :=
  ⟨h.geo.ready file diff complete, h.isInt, h.kept, h.inside⟩

/-- The new buffer has nothing stored in it. -/
theorem Kept.jumped (h : Placed o f s) (hj : Jumped o content s s') :
    Kept o s'.mem s'.stored := by
  rw [hj.mem, hj.stored]
  refine h.kept.replace fun st hst => ?_
  obtain ⟨k, j, hat, hk, -⟩ := h.geo.stored st hst
  rw [hat.ptr]
  show k ≠ s.cumul + 1
  omega

theorem Placed.jump (h : Placed o f s) (hend : s.idx = o.bufNumElems)
    (hj : Jumped o content s s') : Placed o f s' where
  geo := h.geo.jump hend hj
  isInt := by rw [hj.i]; omega
  kept := .jumped h hj
  inside := by unfold RecvState.AllInside; rw [hj.writes]; exact h.inside

theorem Placed.putNext (h : Placed o f s) (hj : Jumped o content s s')
    (hlo : s.seqstartCurrent + o.bufNumElems ≤ q)
    (hlt : q < s.seqstartCurrent + 2 * o.bufNumElems) (hmax : q < int64Max) :
    Placed o f (putNext o q (q - s.seqstartCurrent - o.bufNumElems) s.buf s') := by
  have hat : Stored.At o f ⟨_, s.mem.read s.buf, q⟩ _ _ := hj.at_next h.geo hlo hlt hmax
  exact
    { geo := h.geo.putNext hj hlo hlt hmax
      isInt := int_isInt _
      kept := by
        refine (Kept.jumped h hj).copy (fun st hst => ?_) hat
        rw [hj.stored] at hst
        exact h.geo.stored_at st hst
      inside := by
        refine inside_current (by rw [hj.writes]; exact h.inside) hat.lt (hat.ptr.trans ?_)
        rw [hj.be, hj.cumul] }

end Placed

/-! ## What can become of a packet -/

/-- A packet that was received is stored, under its number, in file `k`. -/
def StoresOne (o : Opt) (f q : ℤ) (packet : Bytes) (k : ℕ) (l l' : List Stored) : Prop :=
  ∃ st j, l' = st :: l ∧ st.At o f k j ∧ st.seqnum = q ∧
    ∀ x < o.packetSize, st.packet x = packet x

/-- A packet more in the current buffer. -/
structure Adds (o : Opt) (f q : ℤ) (packet : Bytes) (s s' : RecvState) : Prop where
  placed : Placed o f s'
  stored : StoresOne o f q packet s.cumul s.stored s'.stored
  inc : s'.inc = ulong (s.inc + o.packetSize)
  cumul : s'.cumul = s.cumul
  seqstart : s'.seqstartCurrent = s.seqstartCurrent
  before : s'.before = s.before
  bufstartBefore : s'.bufstartBefore = s.bufstartBefore
  incBefore : s'.incBefore = s.incBefore
  missing : s'.missing = s.missing
  released : s'.released = s.released

/-- A packet more in the held-back buffer of file `k`, which is handed over when
the next packet would not fit. -/
structure AddsBefore (o : Opt) (f q : ℤ) (packet : Bytes) (k x : ℕ) (s s' : RecvState) :
    Prop where
  placed : Placed o f s'
  stored : StoresOne o f q packet k s.stored s'.stored
  inc : s'.inc = s.inc
  cumul : s'.cumul = s.cumul
  seqstart : s'.seqstartCurrent = s.seqstartCurrent
  current : s'.currentSeq = s.currentSeq
  missing : s'.missing = s.missing
  handedOver :
    (ulong (ulong (x + o.packetSize) + o.packetSize) ≤ calcBufsize o ∧
      s'.Held o k (ulong (x + o.packetSize)) ∧ s'.released = s.released) ∨
    (calcBufsize o < ulong (ulong (x + o.packetSize) + o.packetSize) ∧ s'.NoneHeld ∧
      s'.released = ⟨k, ulong (x + o.packetSize), true⟩ :: s.released)

/-- **What can become of a packet** with number `q`. -/
inductive Placing (o : Opt) (f q : ℤ) (s : RecvState) : RecvState → Prop where
  /-- It is the current one once more. -/
  | again : q = s.currentSeq → Placing o f q s s
  /-- It is from before the buffers. -/
  | tooEarly : q < s.seqstartCurrent → s.NoneHeld ∨ q < s.seqstartCurrent - o.bufNumElems →
      Placing o f q s s.drop
  /-- It is from after the next buffer. -/
  | tooLate : s.currentSeq + 1 < q → s.seqstartCurrent + o.bufNumElems ≤ q →
      s.seqstartCurrent + 2 * o.bufNumElems ≤ q ∨ 2 ^ 31 ≤ o.bufNumElems →
      Placing o f q s s.drop
  /-- It belongs in this buffer. -/
  | here {s' : RecvState} : s.seqstartCurrent ≤ q →
      q < s.seqstartCurrent + o.bufNumElems → q ≠ s.currentSeq →
      Adds o f q (s.mem.read s.buf) s s' → s'.currentSeq = max s.currentSeq q →
      Placing o f q s s'
  /-- It belongs in the held-back buffer. -/
  | before {k x : ℕ} {s' : RecvState} : s.Held o k x → q ≠ s.currentSeq →
      s.seqstartCurrent - o.bufNumElems ≤ q → q < s.seqstartCurrent →
      AddsBefore o f q (s.mem.read s.buf) k x s s' → Placing o f q s s'
  /-- It belongs in the next buffer. -/
  | next {content : ℤ → Byte} {s₁ s' : RecvState} : s.currentSeq + 1 < q →
      s.seqstartCurrent + o.bufNumElems ≤ q → q < s.seqstartCurrent + 2 * o.bufNumElems →
      Jumped o content s s₁ → Adds o f q (s.mem.read s.buf) s₁ s' → s'.currentSeq = q →
      Placing o f q s s'

section Placing

variable {o : Opt} {f q : ℤ} {s s' : RecvState} {free : Option (ℤ → Byte)}
  {content : ℤ → Byte} {k x : ℕ}

theorem Adds.noneHeld_iff {packet : Bytes} (h : Adds o f q packet s s') :
    s'.NoneHeld ↔ s.NoneHeld := by
  constructor
  · intro hn
    exact ⟨h.before.symm.trans hn.before, h.bufstartBefore.symm.trans hn.bufstartBefore,
      h.incBefore.symm.trans hn.incBefore⟩
  · intro hn
    exact ⟨h.before.trans hn.before, h.bufstartBefore.trans hn.bufstartBefore,
      h.incBefore.trans hn.incBefore⟩

theorem Adds.held_iff {packet : Bytes} (h : Adds o f q packet s s') :
    s'.Held o k x ↔ s.Held o k x := by
  constructor
  · intro hh
    exact ⟨h.before.symm.trans hh.before, h.bufstartBefore.symm.trans hh.bufstartBefore,
      h.incBefore.symm.trans hh.incBefore, h.cumul.symm.trans hh.cumul⟩
  · intro hh
    exact ⟨h.before.trans hh.before, h.bufstartBefore.trans hh.bufstartBefore,
      h.incBefore.trans hh.incBefore, h.cumul.trans hh.cumul⟩

/-- A packet in order. -/
theorem Placing.ofInOrder (h : Placed o f s) (hroom : s.idx < o.bufNumElems)
    (hq : q = s.currentSeq + 1) (hmax : q < int64Max) :
    Placing o f q s (takeInOrder o q { s with currentSeq := q }) := by
  have hcurrent := h.geo.current
  have hseq := h.geo.seqstart
  refine .here (by omega) (by omega) (by omega) ?_ (by show q = _; omega)
  exact
    { placed := h.takeInOrder hroom hq hmax
      stored := ⟨_, s.idx, rfl, ⟨h.geo.buf, by show q = _; omega, hroom⟩, rfl, fun _ _ => rfl⟩
      inc := rfl
      cumul := rfl
      seqstart := rfl
      before := rfl
      bufstartBefore := rfl
      incBefore := rfl
      missing := rfl
      released := rfl }

/-- A late packet of this buffer. -/
theorem Placing.ofBehind (h : Placed o f s) (hlo : s.seqstartCurrent ≤ q)
    (hlt : q < s.currentSeq) :
    Placing o f q s (storeBehind o q (q - s.seqstartCurrent) s) := by
  have hcurrent := h.geo.current
  have hidx := h.geo.idx_le
  refine .here hlo (by omega) (by omega) ?_ (by show s.currentSeq = _; omega)
  exact
    { placed := h.storeBehind hlo hlt
      stored := ⟨_, _, rfl, h.geo.at_current hlo (by omega), rfl,
        fun x hx => Memory.read_write_self hx⟩
      inc := rfl
      cumul := rfl
      seqstart := rfl
      before := rfl
      bufstartBefore := rfl
      incBefore := rfl
      missing := rfl
      released := rfl }

/-- An early packet of this buffer. -/
theorem Placing.ofAhead (h : Placed o f s) (hlo : s.currentSeq + 1 < q)
    (hlt : q < s.seqstartCurrent + o.bufNumElems) (hmax : q < int64Max) :
    Placing o f q s (storeAhead o q (q - s.seqstartCurrent) (q - s.currentSeq) s) := by
  have hcurrent := h.geo.current
  refine .here (by omega) hlt (by omega) ?_ (by show q = _; omega)
  exact
    { placed := h.storeAhead hlo hlt hmax
      stored := ⟨_, _, rfl, h.geo.at_current (by omega) hlt, rfl,
        fun x hx => Memory.read_write_self hx⟩
      inc := rfl
      cumul := rfl
      seqstart := rfl
      before := rfl
      bufstartBefore := rfl
      incBefore := rfl
      missing := rfl
      released := rfl }

/-- A packet of the next buffer. -/
theorem Placing.ofNext (h : Placed o f s) (hj : Jumped o content s s')
    (hgt : s.currentSeq + 1 < q) (hlo : s.seqstartCurrent + o.bufNumElems ≤ q)
    (hlt : q < s.seqstartCurrent + 2 * o.bufNumElems) (hmax : q < int64Max) :
    Placing o f q s (putNext o q (q - s.seqstartCurrent - o.bufNumElems) s.buf s') := by
  refine .next hgt hlo hlt hj ?_ rfl
  exact
    { placed := h.putNext hj hlo hlt hmax
      stored := by
        refine ⟨_, _, rfl, hj.at_next h.geo hlo hlt hmax, rfl, fun x hx => ?_⟩
        -- the packet is still where it was received, in the buffer before
        have hread : s'.mem.read s.buf = s.mem.read s.buf := by
          rw [hj.mem]
          exact Memory.read_replace (by rw [h.geo.buf]; show s.cumul ≠ _; omega)
        rw [← hread]
        exact Memory.read_write_self hx
      inc := rfl
      cumul := rfl
      seqstart := rfl
      before := rfl
      bufstartBefore := rfl
      incBefore := rfl
      missing := rfl
      released := rfl }

/-- A packet of the file before. -/
theorem Placing.ofBefore (h : Placed o f s) (hheld : s.Held o k x) (hne : q ≠ s.currentSeq)
    (hlo : s.seqstartCurrent - o.bufNumElems ≤ q) (hlt : q < s.seqstartCurrent) :
    Outcome (Placing o f q s) (fun _ => False)
      (storeBefore o q (q - s.seqstartCurrent) (slot o.packetSize k 0) s) := by
  have hput := h.putBefore hheld hlo hlt
  have hone : StoresOne o f q (s.mem.read s.buf) k s.stored (putBefore o q
      (slot o.packetSize k (o.bufNumElems + (q - s.seqstartCurrent))) x s).stored :=
    ⟨_, _, rfl, h.geo.at_before hheld.cumul hlo hlt, rfl,
      fun x hx => Memory.read_write_self hx⟩
  have htest := storeBefore_test (q := q) hheld (q - s.seqstartCurrent)
  generalize storeBefore o q _ _ s = r at htest ⊢
  cases htest with
  | ready hready =>
      exact .before hheld hne hlo hlt
        { placed := hput.ready _ _ _, stored := hone, inc := rfl, cumul := rfl, seqstart := rfl
          current := rfl, missing := rfl, handedOver := Or.inr ⟨hready, ⟨rfl, rfl, rfl⟩, rfl⟩ }
  | notYet hnot =>
      exact .before hheld hne hlo hlt
        { placed := hput, stored := hone, inc := rfl, cumul := rfl, seqstart := rfl
          current := rfl, missing := rfl
          handedOver := Or.inl ⟨not_lt.mp hnot, hheld.putBefore _, rfl⟩ }

theorem Arm.placing {r : Except Halt RecvState} (h : Placed o f s)
    (hroom : s.idx < o.bufNumElems) (hmax : q < int64Max) (harm : Arm o free s q r) :
    Outcome (Placing o f q s) (fun e => e = .threadExit ∧ free = none) r := by
  cases harm with
  | inOrder hnext => exact .ofInOrder h hroom hnext hmax
  | again hsame => exact .again hsame
  | tooEarly hlt hnone => exact .tooEarly hlt hnone
  | before hheld hne hge hlt =>
      exact (Placing.ofBefore h hheld hne hge hlt).imp (fun _ hp => hp) fun _ he => he.elim
  | behind hge hlt => exact .ofBehind h hge hlt
  | ahead hgt hlt => exact .ofAhead h hgt hlt hmax
  | next hgt hge hlt hN =>
      cases free with
      | none =>
          rw [storeNext_error (jumpToNextBuf_none h.geo.jumpable)]
          exact ⟨rfl, rfl⟩
      | some content =>
          obtain ⟨s', hjump, hj⟩ := jumpToNextBuf_spec h.geo.jumpable content
          rw [storeNext_ok hjump]
          exact .ofNext h hj hgt hge hlt hmax
  | tooLate hgt hge hlate => exact .tooLate hgt hge hlate

/-- **Placing a packet** within reach ends a receiver only for want of a buffer. -/
theorem placePacket_placing (h : Placed o f s) (hroom : s.idx < o.bufNumElems)
    (hq : InReach s q) :
    Outcome (fun s' => Placing o f q s s' ∧ Frame s s')
      (fun e => e = .threadExit ∧ free = none) (placePacket o q free s) := by
  have harm : Arm o free s q (placePacket o q free s) := placePacket_arm h.geo hq
  have hplacing := harm.placing h hroom hq.lt
  cases hr : placePacket o q free s with
  | error e =>
      rw [hr] at hplacing
      exact hplacing
  | ok s' =>
      rw [hr] at hplacing
      exact ⟨hplacing, placePacket_frame hr⟩

theorem Placing.placed (h : Placed o f s) (hplacing : Placing o f q s s') : Placed o f s' := by
  cases hplacing with
  | again hsame => exact h
  | tooEarly hbelow hnone => exact h.drop
  | tooLate hgt hge hlate => exact h.drop
  | here hge hbelow hne hadds hcurrent => exact hadds.placed
  | before hheld hne hge hbelow hadds => exact hadds.placed
  | next hgt hge hbelow hj hadds hcurrent => exact hadds.placed

/-- The first packet is placed where it was received. -/
theorem placePacket_fresh (h : Fresh o s) :
    placePacket o q free s =
      .ok (takeInOrder o q { s with currentSeq := q, seqstartCurrent := q }) :=
  if_pos ⟨h.currentSeq, h.seqstartCurrent⟩

end Placing

end VlbiStreamer.Receiver
