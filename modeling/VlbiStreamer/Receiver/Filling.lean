import VlbiStreamer.Receiver.Slots

/-!
# Filling the holes

`check_and_fill` goes over a buffer that is about to be written with a model header,
counts the number of the model up from slot to slot, and copies the model over the
header of every packet that has another number.  On a MARK5BNET stream it expects
in every slot the number that the receiver stores there, so that it leaves what was
stored alone and only writes headers into holes.

`slotsRight_of_reachable` collects what every run of the receiver keeps.
-/

namespace VlbiStreamer.Receiver

open Library

section Fill

variable {o : Opt} {f currentSeq : ℤ} {m : Memory} {l : List Stored} {buffer : Ptr}
  {model first : Bytes} {v : VdifSeq} {n nPackets i : ℕ} {k : ℕ}

/-- The stored packets are in memory under their numbers. -/
def Numbered (o : Opt) (f : ℤ) (m : Memory) (l : List Stored) : Prop :=
  ∀ st ∈ l, (∃ k j, st.At o f k j) ∧ getseqMark5bNet (m.read st.ptr) = st.seqnum

/-- Memories with the same stored packets. -/
def Keeps (o : Opt) (l : List Stored) (m m' : Memory) : Prop :=
  ∀ st ∈ l, ∀ x < o.packetSize, m'.read st.ptr x = m.read st.ptr x

theorem Keeps.trans {m' m'' : Memory} (h : Keeps o l m m') (h' : Keeps o l m' m'') :
    Keeps o l m m'' :=
  fun st hst x hx => (h' st hst x hx).trans (h st hst x hx)

theorem Numbered.keeps {m' : Memory} (hP : 8 ≤ o.packetSize) (h : Numbered o f m l)
    (hk : Keeps o l m m') : Numbered o f m' l := by
  intro st hst
  obtain ⟨hat, hnumber⟩ := h st hst
  exact ⟨hat, (number_congr hP (hk st hst)).trans hnumber⟩

/-- What one turn of the loop of `check_and_fill` makes of a slot. -/
def fillSlot (o : Opt) (m : Memory) (buffer : Ptr) (model : Bytes) : Memory :=
  if getseqMark5bNet (m.read buffer) = getseqMark5bNet model then m
  else m.write buffer o.datatype.hsize model

/-- `header_match` compares the numbers. -/
theorem headerMatch_eq_zero {target : Bytes} :
    long (getseqMark5bNet target - getseqMark5bNet model) = 0 ↔
      getseqMark5bNet target = getseqMark5bNet model := by
  have htarget := getseqMark5bNet_bounds target
  have hmodel := getseqMark5bNet_bounds model
  rw [long_of_fits (by omega) (by omega)]
  omega

theorem fillLoop_succ (hd : o.datatype = .mark5bnet) :
    fillLoop o currentSeq (n + 1) m buffer model v =
      fillLoop o currentSeq n (fillSlot o m buffer model) (buffer.add o.packetSize)
        (setFramenumForMark5bNet model (getseqMark5bNet model + 1)) v := by
  rw [fillLoop]
  unfold headerMatch incrementHeader fillSlot
  rw [hd]
  show fillLoop o currentSeq n (if _ ≠ _ then _ else _) _ _ v = _
  by_cases hsame : getseqMark5bNet (m.read buffer) = getseqMark5bNet model
  · rw [if_neg (not_not.mpr (headerMatch_eq_zero.mpr hsame)), if_pos hsame]
  · rw [if_pos (fun hzero => hsame (headerMatch_eq_zero.mp hzero)), if_neg hsame]

/-- A slot with the number of the model is left alone, and no other is touched. -/
theorem fillSlot_keeps (hd : o.datatype = .mark5bnet) (hP : 24 ≤ o.packetSize)
    (hmodel : getseqMark5bNet model = (f + k * o.bufNumElems + i).bmod (2 ^ 32))
    (h : Numbered o f m l) : Keeps o l m (fillSlot o m (slot o.packetSize k i) model) := by
  intro st hst x hx
  obtain ⟨⟨k', j', hat⟩, hnumber⟩ := h st hst
  unfold fillSlot
  split
  next => rfl
  next hdiffer =>
    rw [hat.ptr, hd]
    refine Memory.read_write_slot hP hx ?_
    rintro rfl heq
    -- in its own slot a stored packet has the number of the model
    refine hdiffer ?_
    rw [heq, ← hat.ptr, hnumber, hmodel, heq, ← hat.seqnum, ← hnumber]
    have hbounds := getseqMark5bNet_bounds (m.read st.ptr)
    rw [Int.bmod_def]
    omega

/-- **The loop of `check_and_fill` leaves the stored packets alone.** -/
theorem fillLoop_keeps (hd : o.datatype = .mark5bnet) (hP : 24 ≤ o.packetSize)
    (hmodel : getseqMark5bNet model = (f + k * o.bufNumElems + i).bmod (2 ^ 32))
    (h : Numbered o f m l) :
    ∃ m', fillLoop o currentSeq n m (slot o.packetSize k i) model v = some m' ∧
      Keeps o l m m' := by
  induction n generalizing m model i with
  | zero => exact ⟨m, rfl, fun _ _ _ _ => rfl⟩
  | succ n ih =>
      have hslot : Keeps o l m (fillSlot o m (slot o.packetSize k i) model) :=
        fillSlot_keeps hd hP hmodel h
      have hnext : getseqMark5bNet
          (setFramenumForMark5bNet model (getseqMark5bNet model + 1)) =
          (f + k * o.bufNumElems + (i + 1 : ℕ)).bmod (2 ^ 32) := by
        rw [getseq_setFramenum_bmod, hmodel, Int.bmod_add_bmod]
        push_cast
        rw [add_assoc]
      obtain ⟨m', hloop, hkeeps⟩ := ih hnext (h.keeps (by omega) hslot)
      refine ⟨m', ?_, hslot.trans hkeeps⟩
      rw [fillLoop_succ hd, slot_next]
      exact hloop

/-- **`check_and_fill` leaves the stored packets alone**, whatever the index says
about the number of packets. -/
theorem checkAndFill_keeps (hd : o.datatype = .mark5bnet) (hP : 24 ≤ o.packetSize)
    (h : Numbered o (getseqMark5bNet first) m l) :
    ∃ m', checkAndFill o nPackets (some first) v currentSeq m (slot o.packetSize k 0) k =
        some m' ∧ Keeps o l m m' := by
  have hmodel : getseqMark5bNet (setFramenumForMark5bNet first
      (getseqMark5bNet first + o.bufNumElems * k)) =
      (getseqMark5bNet first + k * o.bufNumElems + (0 : ℕ)).bmod (2 ^ 32) := by
    rw [getseq_setFramenum_bmod]
    congr 1
    push_cast
    rw [mul_comm, add_zero]
  have hfill : ∃ m', fillLoop o currentSeq (realNumberOfElements o nPackets k).toNat m
      (slot o.packetSize k 0) _ v = some m' ∧ Keeps o l m m' := fillLoop_keeps hd hP hmodel h
  obtain ⟨m', hloop, hkeeps⟩ := hfill
  refine ⟨m', ?_, hkeeps⟩
  unfold checkAndFill createInitialHeader
  rw [hd]
  exact hloop

end Fill

/-! ## What every run keeps -/

/-- What a receiver of a MARK5BNET stream keeps right. -/
structure SlotsRight (o : Opt) (s : RecvState) : Prop where
  /-- The next packet is received into slot `i`. -/
  buf : s.buf = s.bufstart.add (s.i * o.packetSize)
  nonneg : 0 ≤ s.i
  le : s.i ≤ o.bufNumElems
  /-- The numbers follow from the one of the first packet. -/
  numbers : ∀ p, s.firstPacket = some p →
    s.i = s.currentSeq - s.seqstartCurrent + 1 ∧
    s.seqstartCurrent = getseqMark5bNet p + s.cumul * o.bufNumElems
  /-- Whole slots of the current or the held-back buffer are written. -/
  inside : s.AllInside o
  unseen : s.firstPacket = none → s.stored = []
  /-- A packet is stored in the slot of its number. -/
  stored : ∀ p, s.firstPacket = some p → ∀ st ∈ s.stored,
    ∃ k j, st.At o (getseqMark5bNet p) k j ∧ k ≤ s.cumul
  /-- The slot still holds a packet that was stored in it under that number. -/
  kept : ∀ st ∈ s.stored, ∃ st' ∈ s.stored, st'.ptr = st.ptr ∧ st'.seqnum = st.seqnum ∧
    s.mem.Holds st.ptr o.packetSize st'.packet
  /-- Its header has that number, if there is room for it. -/
  numbered : 8 ≤ o.packetSize → ∀ st ∈ s.stored, getseqMark5bNet (s.mem.read st.ptr) = st.seqnum
  /-- `check_and_fill` on any file, with whatever count of packets, leaves it alone. -/
  filled : ∀ p, s.firstPacket = some p → o.datatype.hsize ≤ o.packetSize →
    ∀ nPackets v currentSeq, ∀ k : ℕ, ∃ m',
      checkAndFill o nPackets s.firstPacket v currentSeq s.mem (slot o.packetSize k 0) k =
        some m' ∧ Keeps o s.stored s.mem m'

/-- As long as it is in its loop, a receiver keeps the slots right and what is
stored in them; only two assertions and a missing buffer end it. -/
def Config.SlotsRight (o : Opt) : Config → Prop
  | .run .done _ => True
  | .run phase s => Receiver.SlotsRight o s ∧
      ∀ e phase' s', step o (.run phase s) e = some (.run phase' s') → s.stored <:+ s'.stored
  | .halted h => h = .threadExit ∨ h = .assertInc

section Results

variable {o : Opt} {f : ℤ} {s : RecvState} {c : Config}

theorem uint_eq_of_isInt {x : ℤ} (h : -2 ^ 31 ≤ x ∧ x < 2 ^ 31) (hlt : uint x < 2 ^ 31) :
    (uint x : ℤ) = x := by
  unfold uint at *
  omega

theorem Started.numbered (h : Started o f s) (hP : 8 ≤ o.packetSize) :
    ∀ st ∈ s.stored, getseqMark5bNet (s.mem.read st.ptr) = st.seqnum := by
  intro st hst
  obtain ⟨st', hst', -, hseq, hholds⟩ := h.placed.kept st hst
  rw [← hseq, ← h.number hP st' hst']
  exact number_congr hP hholds

theorem SlotInv.slotsRight (h : SlotInv o s) (hd : o.datatype = .mark5bnet)
    (hlt : o.bufNumElems < 2 ^ 31) : SlotsRight o s := by
  cases h with
  | fresh hf hn hin =>
      have hnone : ∀ p, s.firstPacket ≠ some p := by simp [hn]
      have hstored : ∀ st, st ∉ s.stored := by simp [hf.stored]
      exact
        { buf := by rw [hf.buf, hf.bufstart, hf.i, slot_add]; rfl
          nonneg := hf.i.ge
          le := by rw [hf.i]; omega
          numbers := fun p hp => absurd hp (hnone p)
          inside := hin
          unseen := fun _ => hf.stored
          stored := fun p hp => absurd hp (hnone p)
          kept := fun st hst => absurd hst (hstored st)
          numbered := fun _ st hst => absurd hst (hstored st)
          filled := fun p hp => absurd hp (hnone p) }
  | started f hf =>
      obtain ⟨p₀, hp₀, rfl⟩ := hf.first
      have hfirst : ∀ p, s.firstPacket = some p → p = p₀ := fun p hp =>
        Option.some.inj (hp.symm.trans hp₀)
      have hidx : (s.idx : ℤ) = s.i :=
        uint_eq_of_isInt hf.placed.isInt (lt_of_le_of_lt hf.placed.geo.idx_le hlt)
      have hle := hf.placed.geo.idx_le
      have hcurrent := hf.placed.geo.current
      refine
        { buf := by rw [hf.placed.geo.buf, hf.placed.geo.bufstart, slot_add, zero_add, hidx]
          nonneg := by omega
          le := by omega
          numbers := ?_
          inside := hf.placed.inside
          unseen := fun hnone => by rw [hp₀] at hnone; cases hnone
          stored := ?_
          kept := hf.placed.kept
          numbered := hf.numbered
          filled := ?_ }
      · intro p hp
        rw [hfirst p hp]
        exact ⟨by omega, hf.placed.geo.seqstart⟩
      · intro p hp st hst
        rw [hfirst p hp]
        obtain ⟨k, j, hat, hk, -⟩ := hf.placed.geo.stored st hst
        exact ⟨k, j, hat, hk⟩
      · intro p hp hP nPackets v currentSeq k
        rw [hd] at hP
        have hP' : 24 ≤ o.packetSize := hP
        rw [hp₀]
        exact checkAndFill_keeps hd hP' fun st hst =>
          ⟨hf.placed.geo.stored_at st hst, hf.numbered (by omega) st hst⟩

/-- **Every packet in its slot**: the receiver of a MARK5BNET stream keeps the slots
right in every run, whatever packets come in whatever order. -/
theorem slotsRight_of_reachable (hd : o.datatype = .mark5bnet) (hpos : 0 < o.bufNumElems)
    (hlt : o.bufNumElems < 2 ^ 31) (h : (receiver o).Reachable c) : c.SlotsRight o := by
  have hknown : o.datatype ≠ .unknown := by rw [hd]; decide
  have hsat : c.Sat o (SlotInv o) fun e => e = .threadExit ∨ e = .assertInc :=
    (slotInv_loop hd hpos).of_reachable hknown
      (h.mono fun c e _ => onNumbers_true o c e)
  cases c with
  | halted e => exact hsat
  | run phase s =>
      cases phase with
      | switching => exact ⟨hsat.slotsRight hd hlt, fun _ _ _ h => (step_grows hknown h).stored⟩
      | receiving => exact ⟨hsat.1.slotsRight hd hlt, fun _ _ _ h => (step_grows hknown h).stored⟩
      | leaving => exact ⟨hsat.slotsRight hd hlt, fun _ _ _ h => (step_grows hknown h).stored⟩
      | done => trivial

end Results

/-- MARK5BNET packets of a bare header, four in a buffer. -/
def exampleOpt : Opt where
  datatype := .mark5bnet
  bufNumElems := 4
  packetSize := 24
  offset := 0
  lastPacket := 0
  bufNumElems_lt := (by decide : 5 ≤ 2 ^ 32)
  bufsize_lt := by decide

/-- A receiver that is about to take its first packet. -/
def exampleStart : Config := .run .switching (udpReceiver (fun _ => 0) false)

/-- Packet `n` is received, with a buffer to go on to. -/
def receive (n : ℤ) : Event :=
  .packet 24 (setFramenumForMark5bNet (fun _ => 0) n) (0, 0) (some fun _ => 0)

/-- Packets `5`, `7` and `6`, which comes late. -/
def exampleLate : Option Config :=
  System.runFrom (step exampleOpt) exampleStart
    [.bufferSwitch none, receive 5, .bufferSwitch none, receive 7, .bufferSwitch none, receive 6]

theorem slotsRight_of_reachable_late :
    ∃ c, exampleLate = some c ∧ c.SlotsRight exampleOpt := by
  obtain ⟨c, hc⟩ := Option.isSome_iff_exists.mp (rfl : exampleLate.isSome = true)
  have hstart : (receiver exampleOpt).Reachable exampleStart := .init ⟨_, _, rfl⟩
  exact ⟨c, hc, slotsRight_of_reachable rfl (by decide) (by decide) (hstart.runFrom hc)⟩

end VlbiStreamer.Receiver
