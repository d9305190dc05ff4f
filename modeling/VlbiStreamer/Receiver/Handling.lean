import VlbiStreamer.Receiver.Geometry

/-!
# One turn of the receive loop

A turn goes to the next buffer if the last one is full, receives a packet and
handles it.  `Turn` is the inversion of one step of the receiver for the streams
that are resequenced, and `invariant_of_reachable` the induction over its runs: a
property of the receiver is kept by the whole loop when it is kept by `recv`, by
the bookkeeping, by the placing of a packet and by the jump at the end of a buffer.
A packet is `Taken` if it has the right size and the recording has begun; the others
are received and not placed.
-/

namespace VlbiStreamer.Receiver

open Library

/-! ## What the bookkeeping leaves alone -/

/-- Two states that differ in their counts and flags only. -/
structure SameResq (s s' : RecvState) : Prop where
  incBefore : s'.incBefore = s.incBefore
  inc : s'.inc = s.inc
  buf : s'.buf = s.buf
  bufstart : s'.bufstart = s.bufstart
  bufstartBefore : s'.bufstartBefore = s.bufstartBefore
  before : s'.before = s.before
  currentSeq : s'.currentSeq = s.currentSeq
  seqstartCurrent : s'.seqstartCurrent = s.seqstartCurrent
  i : s'.i = s.i
  be : s'.be = s.be
  cumul : s'.cumul = s.cumul
  firstPacket : s'.firstPacket = s.firstPacket
  missing : s'.missing = s.missing
  mem : s'.mem = s.mem
  stored : s'.stored = s.stored
  writes : s'.writes = s.writes
  released : s'.released = s.released

theorem SameResq.refl (s : RecvState) : SameResq s s :=
  ⟨rfl, rfl, rfl, rfl, rfl, rfl, rfl, rfl, rfl, rfl, rfl, rfl, rfl, rfl, rfl, rfl, rfl⟩

section SameResq

variable {o : Opt} {f : ℤ} {s s' : RecvState}

theorem SameResq.idx (h : SameResq s s') : s'.idx = s.idx := congrArg uint h.i

theorem SameResq.noneHeld (h : SameResq s s') (hn : s.NoneHeld) : s'.NoneHeld :=
  ⟨h.before.trans hn.before, h.bufstartBefore.trans hn.bufstartBefore,
    h.incBefore.trans hn.incBefore⟩

theorem SameResq.held {k x : ℕ} (h : SameResq s s') (hh : s.Held o k x) : s'.Held o k x :=
  ⟨h.before.trans hh.before, h.bufstartBefore.trans hh.bufstartBefore,
    h.incBefore.trans hh.incBefore, h.cumul.trans hh.cumul⟩

theorem Geo.same (h : Geo o f s) (hs : SameResq s s') : Geo o f s' where
  be := by rw [hs.be, hs.cumul, h.be]
  bufstart := by rw [hs.bufstart, hs.cumul, h.bufstart]
  buf := by rw [hs.buf, hs.cumul, hs.idx, h.buf]
  idx_le := by rw [hs.idx]; exact h.idx_le
  before := h.before.imp hs.noneHeld fun ⟨k, x, hh⟩ => ⟨k, x, hs.held hh⟩
  current := by rw [hs.currentSeq, hs.seqstartCurrent, hs.idx, h.current]
  seqstart := by rw [hs.seqstartCurrent, hs.cumul, h.seqstart]
  current_lt := by rw [hs.currentSeq]; exact h.current_lt
  first_ge := h.first_ge
  stored := by rw [hs.stored, hs.cumul, hs.idx]; exact h.stored

theorem Fresh.same (h : Fresh o s) (hs : SameResq s s') : Fresh o s' where
  be := hs.be.trans h.be
  cumul := hs.cumul.trans h.cumul
  bufstart := hs.bufstart.trans h.bufstart
  buf := hs.buf.trans h.buf
  i := hs.i.trans h.i
  inc := hs.inc.trans h.inc
  before := hs.noneHeld h.before
  currentSeq := hs.currentSeq.trans h.currentSeq
  seqstartCurrent := hs.seqstartCurrent.trans h.seqstartCurrent
  stored := hs.stored.trans h.stored
  released := hs.released.trans h.released

/-- `recv` only changes the memory. -/
theorem Geo.recv (h : Geo o f s) (received : ℕ) (bytes : Bytes) :
    Geo o f (recvPacket received bytes s) :=
  ⟨h.be, h.bufstart, h.buf, h.idx_le,
    h.before.imp (fun hn => ⟨hn.1, hn.2, hn.3⟩)
      (fun ⟨k, x, hh⟩ => ⟨k, x, hh.1, hh.2, hh.3, hh.4⟩),
    h.current, h.seqstart, h.current_lt, h.first_ge, h.stored⟩

theorem Fresh.recv (h : Fresh o s) (received : ℕ) (bytes : Bytes) :
    Fresh o (recvPacket received bytes s) :=
  ⟨h.be, h.cumul, h.bufstart, h.buf, h.i, h.inc, ⟨h.before.1, h.before.2, h.before.3⟩,
    h.currentSeq, h.seqstartCurrent, h.stored, h.released⟩

theorem Geo.copyMetadata (h : Geo o f s) : Geo o f s.copyMetadata :=
  ⟨h.be, h.bufstart, h.buf, h.idx_le,
    h.before.imp (fun hn => ⟨hn.1, hn.2, hn.3⟩)
      (fun ⟨k, x, hh⟩ => ⟨k, x, hh.1, hh.2, hh.3, hh.4⟩),
    h.current, h.seqstart, h.current_lt, h.first_ge, h.stored⟩

theorem Fresh.copyMetadata (h : Fresh o s) : Fresh o s.copyMetadata :=
  ⟨h.be, h.cumul, h.bufstart, h.buf, h.i, h.inc, ⟨h.before.1, h.before.2, h.before.3⟩,
    h.currentSeq, h.seqstartCurrent, h.stored, h.released⟩

end SameResq

/-! ## The sizes -/

section Sizes

variable {o : Opt} {c : ℕ}

theorem calcBufsizeNooffset_eq (o : Opt) :
    calcBufsizeNooffset o = o.packetSize * o.bufNumElems := by
  have hfits := o.bufsize_lt
  unfold calcBufsizeNooffset ulong
  rw [← Int.natCast_mul, mul_comm o.packetSize]
  omega

theorem calcBufsize_eq (hoff : o.offset = 0) :
    calcBufsize o = o.packetSize * o.bufNumElems := by
  rw [← calcBufsizeNooffset_eq]
  unfold calcBufsize calcBufsizeNooffset
  rw [hoff, Nat.cast_zero, sub_zero]

/-- Counting a packet. -/
theorem ulong_count (hc : c + 1 ≤ o.bufNumElems) :
    ulong ((o.packetSize * c : ℕ) + o.packetSize) = o.packetSize * (c + 1) := by
  have hfits := o.bufsize_lt
  have hle : o.packetSize * (c + 1) ≤ o.bufNumElems * o.packetSize := by
    rw [mul_comm]
    exact Nat.mul_le_mul_right _ hc
  rw [Nat.mul_succ] at hle ⊢
  unfold ulong
  omega

/-- With room for another packet, not every slot is counted. -/
theorem count_of_room (hoff : o.offset = 0) (hN : 0 < o.bufNumElems) (hpos : 0 < o.packetSize)
    (hc : c ≤ o.bufNumElems)
    (h : ulong ((o.packetSize * c : ℕ) + o.packetSize) ≤ calcBufsize o) :
    o.packetSize * c < o.packetSize * o.bufNumElems := by
  have hfits := o.bufsize_lt
  have hle : o.packetSize * c ≤ o.packetSize * o.bufNumElems := Nat.mul_le_mul_left _ hc
  have hone : o.packetSize ≤ o.packetSize * o.bufNumElems := Nat.le_mul_of_pos_right _ hN
  rw [mul_comm] at hfits
  rw [calcBufsize_eq hoff] at h
  unfold ulong at h
  omega

/-- Without room for another packet, every slot is counted. -/
theorem count_of_noRoom (hoff : o.offset = 0)
    (h : calcBufsize o < ulong ((o.packetSize * c : ℕ) + o.packetSize)) :
    o.bufNumElems ≤ c := by
  have hle : ulong ((o.packetSize * c : ℕ) + o.packetSize) ≤ o.packetSize * (c + 1) := by
    rw [Nat.mul_succ]
    unfold ulong
    omega
  rw [calcBufsize_eq hoff] at h
  exact Nat.le_of_lt_succ (Nat.lt_of_mul_lt_mul_left (h.trans_le hle))

end Sizes

/-! ## What the placing of a packet leaves alone -/

/-- The flags and counts are left alone, and what was stored stays stored. -/
structure Frame (s s' : RecvState) : Prop where
  stored : s.stored <:+ s'.stored
  firstPacket : s'.firstPacket = s.firstPacket
  waitStart : s'.waitStart = s.waitStart
  running : s'.running = s.running
  totalPackets : s'.totalPackets = s.totalPackets

theorem Frame.refl (s : RecvState) : Frame s s := ⟨List.suffix_rfl, rfl, rfl, rfl, rfl⟩

theorem Frame.trans {s s' s'' : RecvState} (h : Frame s s') (h' : Frame s' s'') :
    Frame s s'' where
  stored := h.stored.trans h'.stored
  firstPacket := h'.firstPacket.trans h.firstPacket
  waitStart := h'.waitStart.trans h.waitStart
  running := h'.running.trans h.running
  totalPackets := h'.totalPackets.trans h.totalPackets

section Frame

variable {o : Opt} {s s' : RecvState} {free : Option (ℤ → Byte)} {q d : ℤ}

theorem releaseBefore_frame (h : releaseBefore o s = .ok s') : Frame s s' := by
  unfold releaseBefore at h
  split at h <;> cases h <;> exact ⟨List.suffix_rfl, rfl, rfl, rfl, rfl⟩

theorem releaseCurrent_frame : Frame s (releaseCurrent o s) := by
  unfold releaseCurrent
  split <;> exact ⟨List.suffix_rfl, rfl, rfl, rfl, rfl⟩

theorem jumpToNextBuf_frame (h : jumpToNextBuf o free s = .ok s') : Frame s s' := by
  unfold jumpToNextBuf at h
  cases hrelease : releaseBefore o s.nextFile with
  | error e =>
      rw [hrelease] at h
      cases h
  | ok s₁ =>
      rw [hrelease] at h
      have hnext : Frame s s.nextFile := ⟨List.suffix_rfl, rfl, rfl, rfl, rfl⟩
      have hs₁ : Frame s s₁ := hnext.trans (releaseBefore_frame hrelease)
      cases free with
      | none => cases h
      | some content =>
          obtain rfl := Except.ok.inj h
          exact hs₁.trans (releaseCurrent_frame.trans ⟨List.suffix_rfl, rfl, rfl, rfl, rfl⟩)

theorem freeBeforeIfReady_frame (h : freeBeforeIfReady o s = .ok s') : Frame s s' := by
  unfold freeBeforeIfReady at h
  split at h
  · split at h <;> cases h <;> exact ⟨List.suffix_rfl, rfl, rfl, rfl, rfl⟩
  · cases h

theorem storeBefore_frame {p : Ptr} (h : storeBefore o q d p s = .ok s') : Frame s s' := by
  unfold storeBefore at h
  split at h
  · cases h
  · have hready := freeBeforeIfReady_frame h
    exact ⟨(List.suffix_cons _ _).trans hready.stored, hready.firstPacket, hready.waitStart,
      hready.running, hready.totalPackets⟩

theorem storeNext_frame (h : storeNext o q d free s = .ok s') : Frame s s' := by
  cases hjump : jumpToNextBuf o free s with
  | error e =>
      rw [storeNext_error hjump] at h
      cases h
  | ok s₁ =>
      rw [storeNext_ok hjump] at h
      obtain rfl := Except.ok.inj h
      exact (jumpToNextBuf_frame hjump).trans ⟨List.suffix_cons _ _, rfl, rfl, rfl, rfl⟩

/-- **Placing a packet** changes no flag, and forgets no packet. -/
theorem placePacket_frame (h : placePacket o q free s = .ok s') : Frame s s' := by
  have hstores : ∀ {st : Stored} {t : RecvState}, t.stored = st :: s.stored →
      s.stored <:+ t.stored := fun heq => heq ▸ List.suffix_cons _ _
  unfold placePacket at h
  dsimp only at h
  split at h
  · obtain rfl := Except.ok.inj h
    exact ⟨hstores rfl, rfl, rfl, rfl, rfl⟩
  split at h
  · obtain rfl := Except.ok.inj h
    exact ⟨hstores rfl, rfl, rfl, rfl, rfl⟩
  split at h
  · obtain rfl := Except.ok.inj h
    exact .refl s
  split at h
  · -- behind the current packet
    split at h
    · split at h
      · obtain rfl := Except.ok.inj h
        exact ⟨List.suffix_rfl, rfl, rfl, rfl, rfl⟩
      split at h
      · obtain rfl := Except.ok.inj h
        exact ⟨List.suffix_rfl, rfl, rfl, rfl, rfl⟩
      · exact storeBefore_frame h
    · obtain rfl := Except.ok.inj h
      exact ⟨hstores rfl, rfl, rfl, rfl, rfl⟩
  · -- ahead of the current packet
    split at h
    · split at h
      · obtain rfl := Except.ok.inj h
        exact ⟨List.suffix_rfl, rfl, rfl, rfl, rfl⟩
      · exact storeNext_frame h
    · obtain rfl := Except.ok.inj h
      exact ⟨hstores rfl, rfl, rfl, rfl, rfl⟩

end Frame

/-! ## One step -/

/-- The number of a received packet, as `calc_bufpos_general` reads it. -/
def numberOf (o : Opt) (s : RecvState) (bytes : Bytes) : Option ℤ :=
  (getseq o.datatype ((recvPacket o.packetSize bytes s).mem.read s.buf) s.vdif
    s.currentSeq).map Prod.fst

/-- `calc_bufpos_general` and the counts after it. -/
def placed (o : Opt) (r : Except Halt RecvState) (c' : Config) : Prop :=
  match r with
  | .error h => c' = .halted h
  | .ok s =>
      (uint s.inc ≤ calcBufsizeNooffset o ∧
        ∃ s', c' = .run .switching s' ∧ SameResq s s' ∧
          s'.totalPackets = s.totalPackets + 1 ∧ s'.nPackets = s.nPackets) ∨
      (¬ uint s.inc ≤ calcBufsizeNooffset o ∧ c' = .halted .assertInc)

/-- One step of a receiver. -/
inductive Turn (o : Opt) : Config → Event → Config → Prop where
  /-- There is room in the buffer. -/
  | room {s : RecvState} {free : Option (ℤ → Byte)} : s.idx ≠ o.bufNumElems →
      Turn o (.run .switching s) (.bufferSwitch free) (.run .receiving s)
  /-- The buffer is at its end. -/
  | full {s s' : RecvState} {free : Option (ℤ → Byte)} : o.datatype ≠ .unknown →
      s.idx = o.bufNumElems → SameResq s s' → s'.totalPackets = s.totalPackets →
      s'.nPackets = s.nPackets + o.bufNumElems →
      Turn o (.run .switching s) (.bufferSwitch free)
        (.ofExcept (.run .receiving) (jumpToNextBuf o free s'))
  /-- The buffer is at its end, and its packets have no numbers. -/
  | fullUnknown {s : RecvState} {free : Option (ℤ → Byte)} : o.datatype = .unknown →
      s.idx = o.bufNumElems →
      Turn o (.run .switching s) (.bufferSwitch free)
        (.ofExcept (.run .receiving) (handleBufferSwitch o free s))
  /-- No packet is taken. -/
  | skipped {phase : Phase} {s s' : RecvState} {received : ℤ} {bytes : Bytes}
      {metadata : ℤ × ℤ} {free : Option (ℤ → Byte)} : received ≤ o.packetSize →
      phase = .switching ∨ phase = .leaving →
      SameResq (recvPacket received.toNat bytes s) s' →
      s'.totalPackets = s.totalPackets → s'.nPackets = s.nPackets →
      Turn o (.run .receiving s) (.packet received bytes metadata free) (.run phase s')
  /-- There is no room for a packet. -/
  | assertI {s : RecvState} {received : ℤ} {bytes : Bytes} {metadata : ℤ × ℤ}
      {free : Option (ℤ → Byte)} : ¬ s.idx < o.bufNumElems →
      Turn o (.run .receiving s) (.packet received bytes metadata free) (.halted .assertI)
  /-- The number of the packet is a division by zero. -/
  | sigfpe {s : RecvState} {received : ℤ} {bytes : Bytes} {metadata : ℤ × ℤ}
      {free : Option (ℤ → Byte)} : o.datatype ≠ .unknown → numberOf o s bytes = none →
      Turn o (.run .receiving s) (.packet received bytes metadata free) (.halted .sigfpe)
  /-- A packet is placed. -/
  | placed {s s' : RecvState} {bytes : Bytes} {metadata : ℤ × ℤ}
      {free : Option (ℤ → Byte)} {q : ℤ} {c' : Config} : o.datatype ≠ .unknown →
      0 < o.packetSize → s.idx < o.bufNumElems → numberOf o s bytes = some q →
      SameResq (recvPacket o.packetSize bytes s).copyMetadata s' →
      s'.totalPackets = s.totalPackets → s'.nPackets = s.nPackets →
      placed o (placePacket o q free s') c' →
      Turn o (.run .receiving s) (.packet o.packetSize bytes metadata free) c'
  /-- A packet without a number is taken. -/
  | unnumbered {s s' : RecvState} {bytes : Bytes} {metadata : ℤ × ℤ}
      {free : Option (ℤ → Byte)} {c' : Config} : o.datatype = .unknown →
      0 < o.packetSize → s.idx < o.bufNumElems →
      SameResq (recvPacket o.packetSize bytes s) s' →
      s'.totalPackets = s.totalPackets → s'.nPackets = s.nPackets →
      placed o (.ok (takeInOrder o 0 s')) c' →
      Turn o (.run .receiving s) (.packet o.packetSize bytes metadata free) c'
  /-- Somebody stops the receiver. -/
  | stop {phase : Phase} {s s' : RecvState} : SameResq s s' →
      s'.totalPackets = s.totalPackets → s'.nPackets = s.nPackets →
      Turn o (.run phase s) .stop (.run phase s')
  /-- The loop ends. -/
  | leave {s : RecvState} : Turn o (.run .switching s) .leave (.run .leaving s)
  /-- The receiver ends. -/
  | close {s : RecvState} : Turn o (.run .leaving s) .close (.run .done (leaveLoop o s))

section Step

variable {o : Opt} {c c' : Config} {e : Event}

theorem countPacket_placed {received : ℕ} {r : Except Halt RecvState} :
    placed o r (.ofExcept (fun (err, s) => .run (if err = 0 then .switching else .leaving) s)
      (do let s ← r; let s ← countPacket o received s; return ((0 : ℤ), s))) := by
  cases r with
  | error h => rfl
  | ok s =>
      show _ ∨ _
      simp only [countPacket, bind, Except.bind, pure, Except.pure]
      by_cases hinc : uint s.inc ≤ calcBufsizeNooffset o
      · rw [if_pos hinc]
        exact Or.inl ⟨hinc, _, rfl, ⟨rfl, rfl, rfl, rfl, rfl, rfl, rfl, rfl, rfl, rfl, rfl,
          rfl, rfl, rfl, rfl, rfl, rfl⟩, rfl, rfl⟩
      · rw [if_neg hinc]
        exact Or.inr ⟨hinc, rfl⟩

/-- `WAIT_START_ON_METADATA` is bookkeeping. -/
theorem waitOnMetadata_same (metadata : ℤ × ℤ) (s : RecvState) :
    SameResq s (waitOnMetadata metadata s).2 ∧
    (waitOnMetadata metadata s).2.vdif = s.vdif ∧
    (waitOnMetadata metadata s).2.totalPackets = s.totalPackets ∧
    (waitOnMetadata metadata s).2.nPackets = s.nPackets := by
  unfold waitOnMetadata
  split
  · split
    · exact ⟨.refl s, rfl, rfl, rfl⟩
    split
    · exact ⟨.refl s, rfl, rfl, rfl⟩
    split
    · exact ⟨.refl s, rfl, rfl, rfl⟩
    · exact ⟨⟨rfl, rfl, rfl, rfl, rfl, rfl, rfl, rfl, rfl, rfl, rfl, rfl, rfl, rfl, rfl, rfl,
        rfl⟩, rfl, rfl, rfl⟩
  · exact ⟨.refl s, rfl, rfl, rfl⟩

theorem leavingPhase (err : ℤ) : (if err = 0 then Phase.switching else .leaving) = .switching ∨
    (if err = 0 then Phase.switching else .leaving) = .leaving := by
  split
  · exact Or.inl rfl
  · exact Or.inr rfl

/-- A packet of the right size. -/
theorem handleWhole_turn {s : RecvState} {bytes : Bytes} {metadata : ℤ × ℤ}
    {free : Option (ℤ → Byte)} (hsize : 0 < o.packetSize) :
    Turn o (.run .receiving s) (.packet o.packetSize bytes metadata free)
      (.ofExcept (fun (err, s) => .run (if err = 0 then .switching else .leaving) s)
        (handleWhole o o.packetSize metadata free (recvPacket o.packetSize bytes s))) := by
  unfold handleWhole
  by_cases hroom : uint (recvPacket o.packetSize bytes s).i < o.bufNumElems
  · rw [if_pos hroom]
    by_cases hd : o.datatype = .unknown
    · rw [if_pos hd]
      exact .unnumbered hd hsize hroom (.refl _) rfl rfl countPacket_placed
    rw [if_neg hd]
    obtain ⟨hsame, hvdif, htotal, hn⟩ :=
      waitOnMetadata_same metadata (recvPacket o.packetSize bytes s)
    rcases hwait : waitOnMetadata metadata (recvPacket o.packetSize bytes s) with ⟨_ | err, s₁⟩
    · -- the packet is placed
      rw [hwait] at hsame hvdif htotal hn
      dsimp only at hsame hvdif htotal hn ⊢
      have hnumber : numberOf o s bytes = (getseq o.datatype (s₁.mem.read s₁.buf) s₁.vdif
          s₁.currentSeq).map Prod.fst := by
        rw [hsame.mem, hsame.buf, hvdif, hsame.currentSeq]
        rfl
      unfold calcBufposGeneral
      rw [show getseq o.datatype (s₁.copyMetadata.mem.read s₁.copyMetadata.buf)
        s₁.copyMetadata.vdif s₁.copyMetadata.currentSeq =
          getseq o.datatype (s₁.mem.read s₁.buf) s₁.vdif s₁.currentSeq from rfl]
      cases hseq : getseq o.datatype (s₁.mem.read s₁.buf) s₁.vdif s₁.currentSeq with
      | none => exact .sigfpe hd (by rw [hnumber, hseq]; rfl)
      | some qv =>
          obtain ⟨q, v⟩ := qv
          have hplacing : SameResq (recvPacket o.packetSize bytes s).copyMetadata
              { s₁.copyMetadata with vdif := v } := by
            refine { hsame with firstPacket := ?_ }
            show s₁.firstPacket.orElse _ = _
            rw [hsame.firstPacket, hsame.mem, hsame.buf]
            rfl
          exact .placed hd hsize hroom (by rw [hnumber, hseq]; rfl) hplacing htotal hn
            countPacket_placed
    · -- the recording has not started, or fails
      rw [hwait] at hsame htotal hn
      refine .skipped le_rfl (leavingPhase err) ?_ htotal hn
      rw [Int.toNat_natCast]
      exact hsame
  · rw [if_neg hroom]
    exact .assertI hroom

/-- **The steps of a receiver.** -/
theorem step_turn (h : step o c e = some c') : Turn o c e c' := by
  cases c with
  | halted h' => cases h
  | run phase s =>
      cases e with
      | bufferSwitch free =>
          cases phase <;> try cases h
          simp only [step] at h
          split at h
          · obtain rfl := Option.some.inj h
            by_cases hfull : uint s.i = o.bufNumElems
            · by_cases hd : o.datatype = .unknown
              · exact .fullUnknown hd hfull
              unfold handleBufferSwitch
              rw [if_pos hfull, if_neg hd]
              exact .full hd hfull { SameResq.refl s with } rfl rfl
            · unfold handleBufferSwitch
              rw [if_neg hfull]
              exact .room hfull
          · cases h
      | packet received bytes metadata free =>
          cases phase <;> try cases h
          simp only [step] at h
          split at h
          next hle =>
            obtain rfl := Option.some.inj h
            unfold udpsHandleReceivedPacket
            by_cases hzero : received = 0
            · rw [if_pos hzero]
              exact .skipped hle (Or.inr rfl) (.refl _) rfl rfl
            rw [if_neg hzero]
            by_cases hneg : received < 0
            · rw [if_pos hneg]
              exact .skipped hle (Or.inr rfl) { SameResq.refl _ with } rfl rfl
            rw [if_neg hneg]
            by_cases hsize : received ≠ o.packetSize
            · -- a packet of the wrong size
              rw [if_pos hsize]
              split
              · dsimp only
                split
                · exact .skipped hle (Or.inr rfl) { SameResq.refl _ with } rfl rfl
                · exact .skipped hle (Or.inl rfl) { SameResq.refl _ with } rfl rfl
              · exact .skipped hle (Or.inl rfl) (.refl _) rfl rfl
            · rw [if_neg hsize]
              obtain rfl : received = o.packetSize := not_not.mp hsize
              rw [Int.toNat_natCast]
              exact handleWhole_turn (by omega)
          next => cases h
      | stop =>
          cases phase <;>
            · obtain rfl := Option.some.inj h
              exact .stop { SameResq.refl s with } rfl rfl
      | leave =>
          cases phase <;> try cases h
          simp only [step] at h
          split at h
          · cases h
          · obtain rfl := Option.some.inj h
            exact .leave
      | close =>
          cases phase <;> try cases h
          exact .close

/-- What only grows while the loop runs. -/
structure Grows (s s' : RecvState) : Prop where
  stored : s.stored <:+ s'.stored
  totalPackets : s.totalPackets ≤ s'.totalPackets

/-- A step stores at most one packet more and forgets none, and counts none down. -/
theorem step_grows (hd : o.datatype ≠ .unknown) {phase phase' : Phase} {s s' : RecvState}
    (h : step o (.run phase s) e = some (.run phase' s')) : Grows s s' := by
  generalize hc : Config.run phase s = c at h
  generalize hc' : Config.run phase' s' = c' at h
  cases step_turn h with
  | room hne => cases hc; cases hc'; exact ⟨List.suffix_rfl, le_rfl⟩
  | fullUnknown hunknown hfull => exact absurd hunknown hd
  | full hknown hfull hs htotal hn =>
      cases hc
      rename_i s₁ free
      cases hr : jumpToNextBuf o free s₁ with
      | error h' =>
          rw [hr] at hc'
          cases hc'
      | ok s₂ =>
          rw [hr] at hc'
          cases hc'
          have hframe := jumpToNextBuf_frame hr
          exact ⟨hs.stored ▸ hframe.stored, (hframe.totalPackets.trans htotal).ge⟩
  | skipped hle hphase hs htotal hn =>
      cases hc; cases hc'
      exact ⟨hs.stored ▸ List.suffix_rfl, htotal.ge⟩
  | assertI hroom => cases hc'
  | sigfpe hknown hnumber => cases hc'
  | unnumbered hunknown => exact absurd hunknown hd
  | placed hknown hsize hroom hnumber hs htotal hn hplaced =>
      cases hc
      subst hc'
      rename_i s₁ bytes metadata free q
      cases hr : placePacket o q free s₁ with
      | error h' =>
          rw [hr] at hplaced
          cases hplaced
      | ok s₂ =>
          rw [hr] at hplaced
          have hframe := placePacket_frame hr
          rcases hplaced with ⟨-, s₃, heq, hs₃, hmore, -⟩ | ⟨-, heq⟩
          · cases heq
            refine ⟨?_, ?_⟩
            · rw [hs₃.stored, ← show s₁.stored = s.stored from hs.stored]
              exact hframe.stored
            · rw [hmore, hframe.totalPackets, htotal]
              omega
          · cases heq
  | stop hs htotal hn => cases hc; cases hc'; exact ⟨hs.stored ▸ List.suffix_rfl, htotal.ge⟩
  | leave => cases hc; cases hc'; exact ⟨List.suffix_rfl, le_rfl⟩
  | close =>
      cases hc; cases hc'
      unfold leaveLoop
      dsimp only
      split <;> split <;> exact ⟨List.suffix_rfl, le_rfl⟩

end Step

/-- An empty buffer is cancelled. -/
theorem leaveLoop_empty {o : Opt} {s : RecvState} (hbefore : s.before = none) (hinc : s.inc = 0) :
    leaveLoop o s = s := by
  simp only [leaveLoop, hbefore, if_pos hinc]

/-- The last buffer is handed over and counted. -/
theorem leaveLoop_last {o : Opt} {s : RecvState} (hbefore : s.before = none) (hinc : s.inc ≠ 0) :
    leaveLoop o s =
      ({ s with nPackets := s.nPackets + ulong s.i, cumul := s.cumul + 1 } : RecvState).free
        s.be s.inc false := by
  simp only [leaveLoop, hbefore, if_neg hinc]

/-! ## The packets that are taken -/

/-- `recv` got a packet of the right size, and the recording has begun. -/
def Taken (o : Opt) (received : ℤ) (metadata : ℤ × ℤ) (s : RecvState) : Prop :=
  received = o.packetSize ∧ (waitOnMetadata metadata s).1 = none

instance (o : Opt) (received : ℤ) (metadata : ℤ × ℤ) (s : RecvState) :
    Decidable (Taken o received metadata s) :=
  inferInstanceAs (Decidable (_ ∧ _))

/-- Two states with the same packets. -/
structure SameStream (s s' : RecvState) : Prop where
  stored : s'.stored = s.stored
  vdif : s'.vdif = s.vdif
  totalPackets : s'.totalPackets = s.totalPackets

section Taken

variable {o : Opt} {s s' : RecvState} {free : Option (ℤ → Byte)} {c' : Config} {q : ℤ}

theorem waitOnMetadata_recv (metadata : ℤ × ℤ) (received : ℕ) (bytes : Bytes) :
    (waitOnMetadata metadata (recvPacket received bytes s)).1 = (waitOnMetadata metadata s).1 := by
  unfold waitOnMetadata
  split
  next hwait =>
    rw [if_pos (show s.waitStart = true from hwait)]
    split
    · rfl
    · split
      · rfl
      · split <;> rfl
  next hwait => rw [if_neg (show ¬ s.waitStart = true from hwait)]

/-- Without a packet that is taken nothing is stored, and the loop goes on or ends, unless
there is no room for a packet. -/
theorem step_not_taken (hd : o.datatype ≠ .unknown) {received : ℤ} {bytes : Bytes}
    {metadata : ℤ × ℤ} (hnot : ¬ Taken o received metadata s)
    (h : step o (.run .receiving s) (.packet received bytes metadata free) = some c') :
    (¬ s.idx < o.bufNumElems ∧ c' = .halted .assertI) ∨
    ∃ phase s', c' = .run phase s' ∧ SameStream s s' := by
  simp only [step] at h
  split at h
  next hle =>
    obtain rfl := Option.some.inj h
    unfold udpsHandleReceivedPacket
    split
    · exact Or.inr ⟨_, _, rfl, rfl, rfl, rfl⟩
    split
    · exact Or.inr ⟨_, _, rfl, rfl, rfl, rfl⟩
    split
    · dsimp only
      split
      · split <;> exact Or.inr ⟨_, _, rfl, rfl, rfl, rfl⟩
      · exact Or.inr ⟨_, _, rfl, rfl, rfl, rfl⟩
    next hsize =>
      -- a packet of the right size: the recording has not begun
      have hsize' : received = o.packetSize := not_not.mp hsize
      have hwait : (waitOnMetadata metadata (recvPacket received.toNat bytes s)).1 ≠ none := by
        rw [waitOnMetadata_recv]
        exact fun hnone => hnot ⟨hsize', hnone⟩
      obtain ⟨hsame, hvdif, htotal, -⟩ :=
        waitOnMetadata_same metadata (recvPacket received.toNat bytes s)
      unfold handleWhole
      by_cases hroom : s.idx < o.bufNumElems
      · rw [if_pos (show uint (recvPacket received.toNat bytes s).i < _ from hroom), if_neg hd]
        generalize waitOnMetadata metadata (recvPacket received.toNat bytes s) = w at *
        obtain ⟨err, s'⟩ := w
        cases err with
        | none => exact absurd rfl hwait
        | some err => exact Or.inr ⟨_, _, rfl, hsame.stored, hvdif, htotal⟩
      · rw [if_neg (show ¬ uint (recvPacket received.toNat bytes s).i < _ from hroom)]
        exact Or.inl ⟨hroom, rfl⟩
  next => cases h

/-- A packet that is placed is taken. -/
theorem taken_of_placed (hd : o.datatype ≠ .unknown) (hroom : s.idx < o.bufNumElems)
    {received : ℤ} {bytes : Bytes} {metadata : ℤ × ℤ}
    (h : step o (.run .receiving s) (.packet received bytes metadata free) = some c')
    (htotal : s'.totalPackets = s.totalPackets)
    (hplaced : Receiver.placed o (placePacket o q free s') c') : Taken o received metadata s := by
  by_contra hnot
  obtain ⟨phase, s'', rfl, hsame⟩ := (step_not_taken hd hnot h).resolve_left fun hfull =>
    hfull.1 hroom
  cases hr : placePacket o q free s' with
  | error h' =>
      rw [hr] at hplaced
      cases hplaced
  | ok s₁ =>
      rw [hr] at hplaced
      rcases hplaced with ⟨-, s₂, heq, -, hmore, -⟩ | ⟨-, heq⟩
      · cases heq
        rw [(placePacket_frame hr).totalPackets, htotal, hsame.totalPackets] at hmore
        omega
      · cases heq

end Taken

/-! ## The induction over the runs -/

/-- A condition on the numbers of the packets, for the runs of a receiver. -/
def OnNumbers (o : Opt) (ok : RecvState → ℤ → Prop) : Config → Event → Prop
  | .run .receiving s, .packet _ bytes _ _ => ∀ q ∈ numberOf o s bytes, ok s q
  | _, _ => True

theorem onNumbers_true (o : Opt) (c : Config) (e : Event) :
    OnNumbers o (fun _ _ => True) c e := by
  unfold OnNumbers
  split
  · exact fun _ _ => trivial
  · trivial

/-- A property of the receivers in the loop, with room for a packet before `recv` if
buffers have any, and the halts that may end them. -/
def Config.Sat (o : Opt) (inv : RecvState → Prop) (halts : Halt → Prop) : Config → Prop
  | .run .switching s | .run .leaving s => inv s
  | .run .receiving s => inv s ∧ (0 < o.bufNumElems → s.idx < o.bufNumElems)
  | .run .done _ => True
  | .halted h => halts h

/-- What a fallible operation yields, a state or a halt. -/
def Outcome (p : RecvState → Prop) (halts : Halt → Prop) : Except Halt RecvState → Prop
  | .ok s => p s
  | .error h => halts h

theorem Outcome.imp {p p' : RecvState → Prop} {halts halts' : Halt → Prop}
    {r : Except Halt RecvState} (h : Outcome p halts r) (hp : ∀ s, p s → p' s)
    (hh : ∀ e, halts e → halts' e) : Outcome p' halts' r := by
  cases r with
  | ok s => exact hp s h
  | error e => exact hh e h

/-- A packet with number `q` has been received, and `s'` is about to place it. -/
structure Arrived (o : Opt) (s s' : RecvState) (bytes : Bytes) (q : ℤ) : Prop where
  size : 0 < o.packetSize
  room : s.idx < o.bufNumElems
  number : numberOf o s bytes = some q
  same : SameResq (recvPacket o.packetSize bytes s).copyMetadata s'

/-- What an invariant of the receive loop has to survive. -/
structure LoopInvariant (o : Opt) (ok : RecvState → ℤ → Prop) (inv : RecvState → Prop)
    (halts : Halt → Prop) : Prop where
  init : ∀ content waitStart, inv (udpReceiver content waitStart)
  idx_le : ∀ s, inv s → s.idx ≤ o.bufNumElems
  same : ∀ s s', inv s → SameResq s s' → inv s'
  recv : ∀ s received bytes, inv s → (0 < o.bufNumElems → s.idx < o.bufNumElems) →
    received ≤ o.packetSize → inv (recvPacket received bytes s)
  roomless : o.bufNumElems = 0 → halts .assertI
  unnumbered : ∀ s bytes, inv s → numberOf o s bytes = none → halts .sigfpe
  place : ∀ s s' bytes free q, inv s → Arrived o s s' bytes q → ok s q →
    Outcome (fun s'' => inv s'' ∧ (¬ uint s''.inc ≤ calcBufsizeNooffset o → halts .assertInc))
      halts (placePacket o q free s')
  jump : ∀ s free, inv s → s.idx = o.bufNumElems →
    Outcome (fun s' => inv s' ∧ (0 < o.bufNumElems → s'.idx < o.bufNumElems)) halts
      (jumpToNextBuf o free s)

section Induction

variable {o : Opt} {ok : RecvState → ℤ → Prop} {inv : RecvState → Prop}
  {halts : Halt → Prop} {c c' : Config} {e : Event}

/-- One turn keeps the invariant. -/
theorem LoopInvariant.turn (hd : o.datatype ≠ .unknown)
    (hinv : LoopInvariant o ok inv halts) (h : c.Sat o inv halts) (hok : OnNumbers o ok c e)
    (ht : Turn o c e c') : c'.Sat o inv halts := by
  cases ht with
  | room hne => exact ⟨h, fun _ => lt_of_le_of_ne (hinv.idx_le _ h) hne⟩
  | full hknown hfull hs htotal hn =>
      rename_i s s' free
      have hjump := hinv.jump s' free (hinv.same _ _ h hs) (hs.idx.trans hfull)
      cases hr : jumpToNextBuf o free s' with
      | error h' =>
          rw [hr] at hjump
          exact hjump
      | ok s'' =>
          rw [hr] at hjump
          exact hjump
  | fullUnknown hunknown hfull => exact absurd hunknown hd
  | skipped hle hphase hs htotal hn =>
      have hrecv := hinv.same _ _ (hinv.recv _ _ _ h.1 h.2 (by omega)) hs
      rcases hphase with rfl | rfl <;> exact hrecv
  | assertI hroom =>
      exact hinv.roomless (Nat.eq_zero_of_not_pos fun hpos => hroom (h.2 hpos))
  | sigfpe hknown hnumber => exact hinv.unnumbered _ _ h.1 hnumber
  | unnumbered hunknown => exact absurd hunknown hd
  | placed hknown hsize hroom hnumber hs htotal hn hplaced =>
      rename_i s s' bytes metadata free q
      have hplace := hinv.place s s' bytes free q h.1 ⟨hsize, hroom, hnumber, hs⟩
        (hok q hnumber)
      unfold placed at hplaced
      cases hr : placePacket o q free s' with
      | error h' =>
          rw [hr] at hplaced hplace
          rw [hplaced]
          exact hplace
      | ok s'' =>
          rw [hr] at hplaced hplace
          rcases hplaced with ⟨-, s₃, rfl, hs₃, -, -⟩ | ⟨hinc, rfl⟩
          · exact hinv.same _ _ hplace.1 hs₃
          · exact hplace.2 hinc
  | stop hs htotal hn =>
      rename_i phase s s'
      cases phase with
      | switching => exact hinv.same _ _ h hs
      | receiving => exact ⟨hinv.same _ _ h.1 hs, hs.idx ▸ h.2⟩
      | leaving => exact hinv.same _ _ h hs
      | done => trivial
  | leave => exact h
  | close => trivial

/-- **The invariant rule of the receive loop.** -/
theorem LoopInvariant.of_reachable (hd : o.datatype ≠ .unknown)
    (hinv : LoopInvariant o ok inv halts)
    (h : (receiver o).ReachableUnder (OnNumbers o ok) c) : c.Sat o inv halts := by
  refine h.invariant ?_ fun c e c' hc hok hstep => hinv.turn hd hc hok (step_turn hstep)
  rintro c ⟨content, waitStart, rfl⟩
  exact hinv.init content waitStart

end Induction

end VlbiStreamer.Receiver
