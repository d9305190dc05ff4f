import VlbiStreamer.Receiver.Placing

/-!
# Every packet in its slot

On a MARK5BNET stream the numbers of the packets are 32-bit and never leave the
reach of the receiver, so that it is `Placed` in every run, whatever the order of
the packets and however often they come.  The packets carry their numbers with
them, so that the slot of a stored packet always shows the number that the slot
calls for.
-/

namespace VlbiStreamer.Receiver

open Library

/-- A receiver of a MARK5BNET stream after its first packet. -/
structure Started (o : Opt) (f : ℤ) (s : RecvState) : Prop where
  placed : Placed o f s
  first : ∃ p, s.firstPacket = some p ∧ getseqMark5bNet p = f
  ge : -2 ^ 31 ≤ f
  lt : s.currentSeq < 2 ^ 31
  /-- There is room for its number in a packet of eight bytes. -/
  number : 8 ≤ o.packetSize → ∀ st ∈ s.stored, getseqMark5bNet st.packet = st.seqnum

/-- A receiver of a MARK5BNET stream. -/
inductive SlotInv (o : Opt) (s : RecvState) : Prop where
  /-- It waits for its first packet. -/
  | fresh : Fresh o s → s.firstPacket = none → s.AllInside o → SlotInv o s
  | started (f : ℤ) : Started o f s → SlotInv o s

section Invariant

variable {o : Opt} {f q : ℤ} {s s' : RecvState} {free : Option (ℤ → Byte)}
  {content : ℤ → Byte} {received k : ℕ} {bytes packet bs bs' : Bytes}

/-- The number of a packet is in its first bytes. -/
theorem number_congr (hP : 8 ≤ o.packetSize) (h : ∀ x < o.packetSize, bs x = bs' x) :
    getseqMark5bNet bs = getseqMark5bNet bs' := by
  unfold getseqMark5bNet
  rw [word32_congr hP h]

/-- A packet is stored under the number it has. -/
theorem StoresOne.number {l l' : List Stored} (hone : StoresOne o f q packet k l l')
    (hread : getseqMark5bNet packet = q) (hP : 8 ≤ o.packetSize)
    (h : ∀ st ∈ l, getseqMark5bNet st.packet = st.seqnum) :
    ∀ st ∈ l', getseqMark5bNet st.packet = st.seqnum := by
  obtain ⟨st₀, j, rfl, -, hseq, hbytes⟩ := hone
  intro st hst
  rcases List.mem_cons.mp hst with rfl | hst
  · rw [number_congr hP hbytes, hread, hseq]
  · exact h st hst

theorem Started.same (h : Started o f s) (hs : SameResq s s') : Started o f s' where
  placed := h.placed.same hs
  first := by rw [hs.firstPacket]; exact h.first
  ge := h.ge
  lt := by rw [hs.currentSeq]; exact h.lt
  number := by rw [hs.stored]; exact h.number

theorem SlotInv.same (h : SlotInv o s) (hs : SameResq s s') : SlotInv o s' := by
  cases h with
  | fresh hf hn hin => exact .fresh (hf.same hs) (hs.firstPacket.trans hn) (hin.same hs)
  | started f hf => exact .started f (hf.same hs)

theorem SlotInv.recv (h : SlotInv o s) (hroom : s.idx < o.bufNumElems)
    (hle : received ≤ o.packetSize) : SlotInv o (recvPacket received bytes s) := by
  cases h with
  | fresh hf hn hin =>
      exact .fresh (hf.recv received bytes) hn (inside_current hin hroom hf.target)
  | started f hf => exact .started f ⟨hf.placed.recv hroom hle, hf.first, hf.ge, hf.lt, hf.number⟩

theorem Started.copyMetadata (h : Started o f s) : Started o f s.copyMetadata where
  placed := h.placed.copyMetadata
  first := by
    obtain ⟨p, hp, hnumber⟩ := h.first
    refine ⟨p, ?_, hnumber⟩
    show s.firstPacket.orElse _ = some p
    rw [hp]
    rfl
  ge := h.ge
  lt := h.lt
  number := h.number

/-- The numbers of a MARK5BNET stream stay in reach. -/
theorem Started.inReach (h : Started o f s) (hlo : -2 ^ 31 ≤ q) (hhi : q < 2 ^ 31) :
    InReach s q := by
  have hcurrent := h.placed.geo.current
  have hseq := h.placed.geo.seqstart
  have hidx := h.placed.geo.idx_le
  have hN := o.bufNumElems_lt
  have hge := h.ge
  have hlt := h.lt
  have hmul : 0 ≤ (s.cumul : ℤ) * o.bufNumElems := Int.mul_nonneg (by omega) (by omega)
  constructor <;> first | omega | (unfold int64Max; omega)

/-- The packet that is about to be placed has its number. -/
theorem Arrived.number_read (hd : o.datatype = .mark5bnet) (ha : Arrived o s s' bytes q) :
    getseqMark5bNet (s'.mem.read s'.buf) = q := by
  have hnumber := ha.number
  rw [numberOf, hd] at hnumber
  have hsame : getseqMark5bNet ((recvPacket o.packetSize bytes s).mem.read s.buf) = q :=
    Option.some.inj hnumber
  rw [ha.same.mem, ha.same.buf]
  exact hsame

/-- The first packet of a stream. -/
theorem Fresh.started (h : Fresh o s) (hin : s.AllInside o) (hlt : s.idx < o.bufNumElems)
    (hlo : -2 ^ 31 ≤ q) (hhi : q < 2 ^ 31) (hread : getseqMark5bNet (s.mem.read s.buf) = q)
    (hfirst : ∃ p, s.firstPacket = some p ∧ getseqMark5bNet p = q) :
    Started o q (takeInOrder o q { s with currentSeq := q, seqstartCurrent := q }) where
  placed := h.placed hin hlt (by omega) (by unfold int64Max; omega)
  first := hfirst
  ge := hlo
  lt := hhi
  number := by
    rintro - st hst
    rcases List.mem_cons.mp hst with rfl | hst
    · exact hread
    · rw [show RecvState.stored _ = _ from h.stored] at hst
      exact absurd hst List.not_mem_nil

/-- **Placing a packet** of a MARK5BNET stream. -/
theorem Started.placing (h : Started o f s) (hplacing : Placing o f q s s')
    (hframe : Frame s s') (hhi : q < 2 ^ 31)
    (hread : getseqMark5bNet (s.mem.read s.buf) = q) : Started o f s' := by
  have hfirst : ∃ p, s'.firstPacket = some p ∧ getseqMark5bNet p = f := by
    rw [hframe.firstPacket]
    exact h.first
  have hlt := h.lt
  cases hplacing with
  | again hsame => exact h
  | tooEarly hbelow hnone => exact ⟨h.placed.drop, hfirst, h.ge, h.lt, h.number⟩
  | tooLate hgt hge hlate => exact ⟨h.placed.drop, hfirst, h.ge, h.lt, h.number⟩
  | here hge hbelow hne hadds hcurrent =>
      exact ⟨hadds.placed, hfirst, h.ge, by omega,
        fun hP => hadds.stored.number hread hP (h.number hP)⟩
  | before hheld hne hge hbelow hadds =>
      exact ⟨hadds.placed, hfirst, h.ge, by rw [hadds.current]; exact hlt,
        fun hP => hadds.stored.number hread hP (h.number hP)⟩
  | next hgt hge hbelow hj hadds hcurrent =>
      refine ⟨hadds.placed, hfirst, h.ge, by omega, fun hP => ?_⟩
      refine hadds.stored.number hread hP ?_
      rw [hj.stored]
      exact h.number hP

theorem Started.jump (h : Started o f s) (hend : s.idx = o.bufNumElems)
    (hj : Jumped o content s s') : Started o f s' where
  placed := h.placed.jump hend hj
  first := by rw [hj.counts.2.2.2.1]; exact h.first
  ge := h.ge
  lt := by rw [hj.currentSeq]; exact h.lt
  number := by rw [hj.stored]; exact h.number

end Invariant

/-- The receive loop keeps the slots right. -/
theorem slotInv_loop {o : Opt} (hd : o.datatype = .mark5bnet) (hpos : 0 < o.bufNumElems) :
    LoopInvariant o (fun _ _ => True) (SlotInv o)
      fun e => e = .threadExit ∨ e = .assertInc where
  init content waitStart := .fresh (fresh_udpReceiver o content waitStart) rfl
    fun _ hw => absurd hw List.not_mem_nil
  idx_le s h := by
    cases h with
    | fresh hf hn hin =>
        rw [RecvState.idx, hf.i]
        exact Nat.zero_le _
    | started f hf => exact hf.placed.geo.idx_le
  same s s' h hs := h.same hs
  recv s received bytes h hroom hle := h.recv (hroom hpos) hle
  roomless hzero := absurd hzero hpos.ne'
  unnumbered s bytes h hnone := by
    rw [numberOf, hd] at hnone
    cases hnone
  place s s' bytes free q h ha _ := by
    have hread := ha.number_read hd
    have hroom : s'.idx < o.bufNumElems := ha.same.idx ▸ ha.room
    obtain ⟨hlo, hhi⟩ := getseqMark5bNet_bounds (s'.mem.read s'.buf)
    rw [hread] at hlo hhi
    have hrecv : SlotInv o (recvPacket o.packetSize bytes s) := h.recv ha.room le_rfl
    cases hrecv with
    | fresh hf hn hin =>
        -- `copy_metadata` keeps the header of this packet
        have hf' : Fresh o s' := hf.copyMetadata.same ha.same
        have hcopied : (recvPacket o.packetSize bytes s).copyMetadata.AllInside o := hin
        rw [placePacket_fresh hf']
        refine ⟨.started q (hf'.started (hcopied.same ha.same) hroom hlo hhi hread ?_),
          fun _ => Or.inr rfl⟩
        refine ⟨s'.mem.read s'.buf, ?_, hread⟩
        rw [ha.same.firstPacket, ha.same.mem, ha.same.buf]
        show Option.orElse _ _ = _
        rw [hn]
        rfl
    | started f hf =>
        have hstarted : Started o f s' := hf.copyMetadata.same ha.same
        exact (placePacket_placing hstarted.placed hroom (hstarted.inReach hlo hhi)).imp
          (fun _ hp => ⟨.started f (hstarted.placing hp.1 hp.2 hhi hread), fun _ => Or.inr rfl⟩)
          fun _ he => Or.inl he.1
  jump s free h hend := by
    cases h with
    | fresh hf hn hin =>
        rw [RecvState.idx, hf.i] at hend
        exact absurd hend hpos.ne
    | started f hf =>
        cases free with
        | none =>
            rw [jumpToNextBuf_none hf.placed.geo.jumpable]
            exact Or.inl rfl
        | some content =>
            obtain ⟨s', hjump, hj⟩ := jumpToNextBuf_spec hf.placed.geo.jumpable content
            rw [hjump]
            exact ⟨.started f (hf.jump hend hj), fun hpos => by rw [hj.idx]; exact hpos⟩

end VlbiStreamer.Receiver
