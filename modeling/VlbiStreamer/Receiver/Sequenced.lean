import VlbiStreamer.Receiver.Accounting

/-!
# Packets in order

A receiver whose packets come with consecutive numbers, from the first to the last, stores
each of them where it was received: packet `k` of the stream is in slot `k % N` of file
`k / N`.  This holds of every kind of stream; `Consecutive` is the condition on the runs,
and `sequenced_of_reachable` what they keep.
-/

namespace VlbiStreamer.Receiver

open Library

/-- The runs in which packet `k` of the recording has number `f + k`. -/
def Consecutive (o : Opt) (f : ℤ) : Config → Event → Prop
  | .run .receiving s, .packet received bytes metadata _ =>
      Taken o received metadata s → numberOf o s bytes = some (f + s.totalPackets) ∧
        -2 ^ 63 ≤ f ∧ f + s.totalPackets < int64Max
  | _, _ => True

/-- A receiver that has stored packet after packet, the first with number `f`. -/
structure Sequenced (o : Opt) (f : ℤ) (s : RecvState) : Prop where
  accounts : Accounts o s.idx 0 s
  noneHeld : s.NoneHeld
  fresh : s.totalPackets = 0 → Fresh o s ∧ s.AllInside o
  placed : s.totalPackets ≠ 0 → Placed o f s
  seqnums : s.stored.map Stored.seqnum =
    (List.range s.totalPackets).reverse.map fun k : ℕ => f + k

/-- Two states that have recorded the same. -/
structure SameRecording (s s' : RecvState) : Prop where
  stored : s'.stored = s.stored
  mem : s'.mem = s.mem
  firstPacket : s'.firstPacket = s.firstPacket
  totalPackets : s'.totalPackets = s.totalPackets

/-- Such a receiver in its loop, with room for a packet before `recv`; it ends early only
for want of a buffer. -/
def Config.Sequenced (o : Opt) (f : ℤ) : Config → Prop
  | .run .switching s | .run .leaving s => Receiver.Sequenced o f s
  | .run .receiving s => Receiver.Sequenced o f s ∧ s.idx < o.bufNumElems
  | .run .done _ => True
  | .halted h => h = .threadExit

/-- `countPacket` and the end of the turn. -/
def counted (o : Opt) (r : Except Halt RecvState) : Config :=
  .ofExcept (fun (err, s) => .run (if err = 0 then .switching else .leaving) s)
    (do let s ← r; let s ← countPacket o o.packetSize s; return ((0 : ℤ), s))

section Sequenced

variable {o : Opt} {f q : ℤ} {s s' : RecvState} {free : Option (ℤ → Byte)} {c c' : Config}
  {e : Event} {k : ℕ}

theorem Sequenced.same (h : Sequenced o f s) (hs : SameResq s s')
    (htotal : s'.totalPackets = s.totalPackets) (hn : s'.nPackets = s.nPackets) :
    Sequenced o f s' where
  accounts := by rw [hs.idx]; exact h.accounts.same hs htotal hn
  noneHeld := hs.noneHeld h.noneHeld
  fresh hzero := by
    obtain ⟨hfresh, hin⟩ := h.fresh (htotal ▸ hzero)
    exact ⟨hfresh.same hs, hin.same hs⟩
  placed hne := (h.placed (htotal ▸ hne)).same hs
  seqnums := by
    rw [hs.stored, htotal]
    exact h.seqnums

theorem Sequenced.recv (h : Sequenced o f s) (hroom : s.idx < o.bufNumElems) {received : ℕ}
    (hle : received ≤ o.packetSize) (bytes : Bytes) :
    Sequenced o f (recvPacket received bytes s) where
  accounts := h.accounts.recv received bytes
  noneHeld := ⟨h.noneHeld.1, h.noneHeld.2, h.noneHeld.3⟩
  fresh hzero := by
    obtain ⟨hfresh, hin⟩ := h.fresh hzero
    exact ⟨hfresh.recv received bytes, inside_current hin hroom hfresh.target⟩
  placed hne := (h.placed hne).recv hroom hle
  seqnums := h.seqnums

theorem Sequenced.copyMetadata (h : Sequenced o f s) : Sequenced o f s.copyMetadata where
  accounts := h.accounts.copyMetadata
  noneHeld := ⟨h.noneHeld.1, h.noneHeld.2, h.noneHeld.3⟩
  fresh hzero := ⟨(h.fresh hzero).1.copyMetadata, (h.fresh hzero).2⟩
  placed hne := (h.placed hne).copyMetadata
  seqnums := h.seqnums

/-- In order no slot is open. -/
theorem Sequenced.total (h : Sequenced o f s) :
    s.totalPackets = o.bufNumElems * s.cumul + s.idx := by
  have htotal := h.accounts.total
  omega

/-- The number of the last packet. -/
theorem Sequenced.currentSeq (h : Sequenced o f s) (hne : s.totalPackets ≠ 0) :
    s.currentSeq + 1 = f + s.totalPackets := by
  have hgeo := (h.placed hne).geo
  have hcurrent := hgeo.current
  have hseq := hgeo.seqstart
  have htotal := h.total
  rw [mul_comm] at htotal
  rw [htotal]
  push_cast
  omega

/-- The next packet is placed where it was received. -/
theorem Sequenced.place (h : Sequenced o f s) (free : Option (ℤ → Byte))
    (hroom : s.idx < o.bufNumElems) (hq : q = f + s.totalPackets) (hlo : -2 ^ 63 ≤ f)
    (hmax : q < int64Max) :
    ∃ current seqstart, placePacket o q free s = .ok (takeInOrder o q
        { s with currentSeq := current, seqstartCurrent := seqstart }) ∧
      Placed o f (takeInOrder o q
        { s with currentSeq := current, seqstartCurrent := seqstart }) := by
  by_cases hzero : s.totalPackets = 0
  · obtain ⟨hfresh, hin⟩ := h.fresh hzero
    obtain rfl : q = f := by rw [hq, hzero, Nat.cast_zero, add_zero]
    exact ⟨q, q, placePacket_fresh hfresh, hfresh.placed hin hroom hlo hmax⟩
  · have hplaced := h.placed hzero
    have hnext : q = s.currentSeq + 1 := hq.trans (h.currentSeq hzero).symm
    have hlong : long (s.currentSeq + 1) = s.currentSeq + 1 := by
      have hpos := Int.natCast_nonneg s.totalPackets
      unfold int64Max at hmax
      exact long_of_fits (by omega) (by omega)
    have hstarted : ¬ (s.currentSeq = int64Max ∧ s.seqstartCurrent = int64Max) :=
      fun hfirst => absurd hfirst.1 (ne_of_lt hplaced.geo.current_lt)
    refine ⟨q, s.seqstartCurrent, ?_, hplaced.takeInOrder hroom hnext hmax⟩
    unfold placePacket
    rw [if_neg hstarted, hlong, if_pos hnext, ← hnext]

/-- **A packet in order** is stored and counted. -/
theorem Sequenced.take (h : Sequenced o f s) (hroom : s.idx < o.bufNumElems)
    (hsize : 0 < o.packetSize) (hq : q = f + s.totalPackets) (hlo : -2 ^ 63 ≤ f)
    (hmax : q < int64Max) (hplaced : Receiver.placed o (placePacket o q free s) c') :
    ∃ s', c' = .run .switching s' ∧ Sequenced o f s' ∧ s'.totalPackets = s.totalPackets + 1 := by
  obtain ⟨current, seqstart, hplace, htaken⟩ := h.place free hroom hq hlo hmax
  have hmoved := h.accounts.moved current seqstart
  have hidx := takeInOrder_idx (q := q)
    (s := { s with currentSeq := current, seqstartCurrent := seqstart }) hroom
  have hinc : (takeInOrder o q
      { s with currentSeq := current, seqstartCurrent := seqstart }).inc =
      o.packetSize * (s.idx + 1) := by
    show ulong (s.inc + o.packetSize) = _
    rw [h.accounts.inc]
    exact ulong_count hroom
  have hle : o.packetSize * (s.idx + 1) ≤ o.packetSize * o.bufNumElems :=
    Nat.mul_le_mul_left _ hroom
  rw [hplace] at hplaced
  rcases hplaced with ⟨-, s', rfl, hs, htotal, hn⟩ | ⟨hbig, -⟩
  · have htotal' : s'.totalPackets = s.totalPackets + 1 := htotal
    refine ⟨s', rfl, ?_, htotal'⟩
    exact
      { accounts := by
          rw [hs.idx, hidx]
          exact hmoved.takes hsize (takeInOrder_takes q _) (by rw [hidx]; exact Nat.lt_succ_self _)
            (by rw [hidx]; exact hroom) (fun _ => hidx) hs htotal hn
        noneHeld := hs.noneHeld ⟨h.noneHeld.1, h.noneHeld.2, h.noneHeld.3⟩
        fresh := fun hzero => absurd hzero (by omega)
        placed := fun _ => htaken.same hs
        seqnums := by
          rw [hs.stored, htotal', ← range_files, List.map_cons, ← h.seqnums, ← hq]
          rfl }
  · -- the bytes of the packets fit the buffer
    rw [hinc, calcBufsizeNooffset_eq] at hbig
    unfold uint at hbig
    omega

/-- A full buffer is handed over, and the next one taken. -/
theorem Sequenced.switch (h : Sequenced o f s) (hknown : o.datatype ≠ .unknown)
    (hpos : 0 < o.bufNumElems)
    (hend : s.idx = o.bufNumElems) (content : ℤ → Byte) (hs : SameResq s s')
    (htotal : s'.totalPackets = s.totalPackets) (hn : s'.nPackets = s.nPackets + o.bufNumElems) :
    ∃ s'', jumpToNextBuf o (some content) s' = .ok s'' ∧ Sequenced o f s'' ∧ s''.idx = 0 := by
  have hne : s.totalPackets ≠ 0 := by
    rw [h.total]
    omega
  have hplaced : Placed o f s' := (h.placed hne).same hs
  obtain ⟨s'', hjump, hj⟩ := jumpToNextBuf_spec hplaced.geo.jumpable content
  have hinc : s'.inc = calcBufsizeNooffset o := by
    rw [hs.inc, calcBufsizeNooffset_eq, h.accounts.inc, hend]
  have haccounts :=
    h.accounts.switched hknown hend h.noneHeld.before hs htotal hn hj
  rw [hend, Nat.sub_self] at haccounts
  refine ⟨s'', hjump, ?_, hj.idx⟩
  exact
    { accounts := by rw [hj.idx]; exact haccounts
      noneHeld := hj.full hinc
      fresh := fun hzero => absurd (htotal.symm.trans (hj.counts.1.symm.trans hzero)) hne
      placed := fun _ => hplaced.jump (hs.idx.trans hend) hj
      seqnums := by
        rw [hj.stored, hs.stored, hj.counts.1, htotal]
        exact h.seqnums }

/-- **A packet that is taken** is placed under the number that is read off it. -/
theorem step_taken (hd : o.datatype ≠ .unknown) (hsize : 0 < o.packetSize)
    (hroom : s.idx < o.bufNumElems) {received : ℤ} {bytes : Bytes} {metadata : ℤ × ℤ}
    (htaken : Taken o received metadata s)
    (h : step o (.run .receiving s) (.packet received bytes metadata free) = some c') :
    match getseq o.datatype ((recvPacket o.packetSize bytes s).mem.read s.buf) s.vdif
      s.currentSeq with
    | none => c' = .halted .sigfpe
    | some (q, v) => ∃ s₁, SameResq (recvPacket o.packetSize bytes s).copyMetadata s₁ ∧
        s₁.vdif = v ∧ s₁.totalPackets = s.totalPackets ∧
        c' = counted o (placePacket o q free s₁) := by
  obtain ⟨rfl, hbegun⟩ := htaken
  simp only [step, if_pos (le_refl (o.packetSize : ℤ)), Int.toNat_natCast] at h
  obtain rfl := Option.some.inj h
  obtain ⟨hsame, hvdif, htotal, -⟩ :=
    waitOnMetadata_same metadata (recvPacket o.packetSize bytes s)
  rw [← waitOnMetadata_recv metadata o.packetSize bytes] at hbegun
  unfold udpsHandleReceivedPacket handleWhole
  rw [if_neg (by omega), if_neg (by omega), if_neg (not_not.mpr rfl),
    if_pos (show uint (recvPacket o.packetSize bytes s).i < _ from hroom), if_neg hd]
  generalize waitOnMetadata metadata (recvPacket o.packetSize bytes s) = w at *
  obtain ⟨err, s₁⟩ := w
  obtain rfl : err = none := hbegun
  have hread : (recvPacket o.packetSize bytes s).mem.read s.buf = s₁.mem.read s₁.buf := by
    rw [hsame.mem, hsame.buf]
    rfl
  have hcurrent : s.currentSeq = s₁.currentSeq := hsame.currentSeq.symm
  have hvdif' : s.vdif = s₁.vdif := hvdif.symm
  rw [hread, hcurrent, hvdif']
  show match getseq o.datatype (s₁.mem.read s₁.buf) s₁.vdif s₁.currentSeq with
    | none => counted o (calcBufposGeneral o free s₁.copyMetadata) = _
    | some (q, v) => ∃ s₂, _ ∧ s₂.vdif = v ∧ _ ∧
        counted o (calcBufposGeneral o free s₁.copyMetadata) = counted o (placePacket o q free s₂)
  unfold calcBufposGeneral
  have hcopied : getseq o.datatype (s₁.copyMetadata.mem.read s₁.copyMetadata.buf)
      s₁.copyMetadata.vdif s₁.copyMetadata.currentSeq =
      getseq o.datatype (s₁.mem.read s₁.buf) s₁.vdif s₁.currentSeq := rfl
  rw [hcopied]
  cases getseq o.datatype (s₁.mem.read s₁.buf) s₁.vdif s₁.currentSeq with
  | none => rfl
  | some qv =>
      obtain ⟨q, v⟩ := qv
      refine ⟨{ s₁.copyMetadata with vdif := v }, { hsame with firstPacket := ?_ }, rfl, htotal,
        rfl⟩
      show s₁.firstPacket.orElse _ = _
      rw [hsame.firstPacket, hsame.mem, hsame.buf]
      rfl

/-- A packet that is counted was placed. -/
theorem placed_of_counted {r : Except Halt RecvState} {phase : Phase}
    (h : counted o r = .run phase s') :
    ∃ s₁, r = .ok s₁ ∧ phase = .switching ∧ SameResq s₁ s' ∧ s'.vdif = s₁.vdif ∧
      s'.totalPackets = s₁.totalPackets + 1 := by
  cases r with
  | error e => cases h
  | ok s₁ =>
      simp only [counted, countPacket, bind, Except.bind, pure, Except.pure] at h
      split at h
      · cases h
      next heq =>
        split at heq
        · cases heq
          cases h
          exact ⟨s₁, rfl, rfl, { SameResq.refl s₁ with }, rfl, rfl⟩
        · cases heq

/-- There is room for a packet that is taken, unless it ends the receiver. -/
theorem room_of_taken (hsize : 0 < o.packetSize) {received : ℤ} {bytes : Bytes}
    {metadata : ℤ × ℤ} {phase : Phase} (htaken : Taken o received metadata s)
    (h : step o (.run .receiving s) (.packet received bytes metadata free) =
      some (.run phase s')) : s.idx < o.bufNumElems := by
  obtain ⟨rfl, -⟩ := htaken
  by_contra hfull
  simp only [step, if_pos (le_refl (o.packetSize : ℤ)), Int.toNat_natCast] at h
  unfold udpsHandleReceivedPacket handleWhole at h
  rw [if_neg (by omega), if_neg (by omega), if_neg (not_not.mpr rfl),
    if_neg (show ¬ uint (recvPacket o.packetSize bytes s).i < _ from hfull)] at h
  cases h

/-- The run of a packet that is taken: its number is read off it, it is placed, and
counted. -/
structure TakenRun (o : Opt) (bytes : Bytes) (free : Option (ℤ → Byte)) (q : ℤ) (v : VdifSeq)
    (s s₁ s₂ s' : RecvState) : Prop where
  room : s.idx < o.bufNumElems
  number : getseq o.datatype ((recvPacket o.packetSize bytes s).mem.read s.buf) s.vdif
    s.currentSeq = some (q, v)
  same : SameResq (recvPacket o.packetSize bytes s).copyMetadata s₁
  vdif : s₁.vdif = v
  totalPackets : s₁.totalPackets = s.totalPackets
  placed : placePacket o q free s₁ = .ok s₂
  counted : SameResq s₂ s'
  vdif_counted : s'.vdif = s₂.vdif
  total_counted : s'.totalPackets = s.totalPackets + 1

theorem step_taken_run (hd : o.datatype ≠ .unknown) (hsize : 0 < o.packetSize)
    {received : ℤ} {bytes : Bytes} {metadata : ℤ × ℤ} {phase : Phase}
    (htaken : Taken o received metadata s)
    (h : step o (.run .receiving s) (.packet received bytes metadata free) =
      some (.run phase s')) : ∃ q v s₁ s₂, TakenRun o bytes free q v s s₁ s₂ s' := by
  have hroom := room_of_taken hsize htaken h
  have hstep := step_taken hd hsize hroom htaken h
  cases hseq : getseq o.datatype ((recvPacket o.packetSize bytes s).mem.read s.buf) s.vdif
      s.currentSeq with
  | none =>
      rw [hseq] at hstep
      cases hstep
  | some qv =>
      obtain ⟨q, v⟩ := qv
      rw [hseq] at hstep
      obtain ⟨s₁, hsame, hvdif, htotal, hcounted⟩ := hstep
      obtain ⟨s₂, hplace, -, hsame', hvdif', hmore⟩ := placed_of_counted hcounted.symm
      refine ⟨q, v, s₁, s₂, hroom, hseq, hsame, hvdif, htotal, hplace, hsame', hvdif', ?_⟩
      rw [hmore, (placePacket_frame hplace).totalPackets, htotal]

/-- One step stores the next packet, or none. -/
theorem Config.Sequenced.step (hd : o.datatype ≠ .unknown) (hpos : 0 < o.bufNumElems)
    (h : c.Sequenced o f) (hok : Consecutive o f c e) (hstep : step o c e = some c') :
    c'.Sequenced o f := by
  cases step_turn hstep with
  | room hne => exact ⟨h, lt_of_le_of_ne (Sequenced.accounts h).idx_le hne⟩
  | full hknown hfull hs htotal hn =>
      rename_i s s' free
      have hseq : Receiver.Sequenced o f s := h
      cases free with
      | none =>
          have hnone : s'.NoneHeld := hs.noneHeld hseq.noneHeld
          unfold jumpToNextBuf
          rw [releaseBefore_none hnone]
          rfl
      | some content =>
          obtain ⟨s'', hjump, hs'', hidx⟩ := hseq.switch hknown hpos hfull content hs htotal hn
          rw [hjump]
          exact ⟨hs'', by rw [hidx]; exact hpos⟩
  | fullUnknown hunknown hfull => exact absurd hunknown hd
  | skipped hle hphase hs htotal hn =>
      have hrecv := (h.1.recv h.2 (Int.toNat_le.mpr hle) _).same hs htotal hn
      rcases hphase with rfl | rfl <;> exact hrecv
  | assertI hroom => exact absurd h.2 hroom
  | sigfpe hknown hnumber =>
      rename_i s received bytes metadata free
      exfalso
      by_cases htaken : Taken o received metadata s
      · obtain ⟨hnext, -⟩ := hok htaken
        rw [hnumber] at hnext
        cases hnext
      · rcases step_not_taken hd htaken hstep with ⟨-, heq⟩ | ⟨phase, s', heq, -⟩ <;> cases heq
  | placed hknown hsize hroom hnumber hs htotal hn hplaced =>
      rename_i s s' bytes metadata free q
      obtain ⟨hnext, hlo, hmax⟩ := hok (taken_of_placed hd hroom hstep htotal hplaced)
      have hq : q = f + s.totalPackets := Option.some.inj (hnumber.symm.trans hnext)
      have hs' : Receiver.Sequenced o f s' :=
        ((h.1.recv h.2 le_rfl bytes).copyMetadata).same hs htotal hn
      have htotal' : s'.totalPackets = s.totalPackets := htotal
      obtain ⟨s'', rfl, hs'', -⟩ := hs'.take (by rw [hs.idx]; exact hroom) hsize
        (by rw [htotal', hq]) hlo (by rw [hq]; exact hmax) hplaced
      exact hs''
  | unnumbered hunknown => exact absurd hunknown hd
  | stop hs htotal hn =>
      rename_i phase s s'
      cases phase with
      | switching => exact Sequenced.same h hs htotal hn
      | receiving => exact ⟨h.1.same hs htotal hn, by rw [hs.idx]; exact h.2⟩
      | leaving => exact Sequenced.same h hs htotal hn
      | done => trivial
  | leave => exact h
  | close => trivial

theorem Sequenced.init (content : ℤ → Byte) (waitStart : Bool) :
    Sequenced o f (udpReceiver content waitStart) where
  accounts := .init content waitStart
  noneHeld := ⟨rfl, rfl, rfl⟩
  fresh _ := ⟨fresh_udpReceiver o content waitStart, fun _ hw => absurd hw List.not_mem_nil⟩
  placed hne := absurd rfl hne
  seqnums := rfl

/-- **Packets in order are stored**: what every run with consecutive numbers keeps. -/
theorem sequenced_of_reachable (hd : o.datatype ≠ .unknown) (hpos : 0 < o.bufNumElems)
    (h : (receiver o).ReachableUnder (Consecutive o f) c) : c.Sequenced o f := by
  refine h.invariant ?_ fun c e c' hc hok hstep => hc.step hd hpos hok hstep
  rintro c ⟨content, waitStart, rfl⟩
  exact Sequenced.init content waitStart

theorem leaveLoop_recording (s : RecvState) : SameRecording s (leaveLoop o s) := by
  unfold leaveLoop
  dsimp only
  split <;> split <;> exact ⟨rfl, rfl, rfl, rfl⟩

/-- Only the end of `udp_receiver` leads out of its loop. -/
theorem step_done (h : step o c e = some (.run .done s)) :
    (∃ s₀, c = .run .leaving s₀ ∧ s = leaveLoop o s₀) ∨
    ∃ s₀, c = .run .done s₀ ∧ SameRecording s₀ s := by
  generalize hc' : Config.run .done s = c' at h
  cases step_turn h with
  | room hne => cases hc'
  | full hknown hfull hs htotal hn =>
      rename_i s₀ s' free
      cases hr : jumpToNextBuf o free s' <;> rw [hr] at hc' <;> cases hc'
  | fullUnknown hunknown hfull =>
      rename_i s₀ free
      cases hr : handleBufferSwitch o free s₀ <;> rw [hr] at hc' <;> cases hc'
  | skipped hle hphase hs htotal hn =>
      cases hc'
      rcases hphase with h | h <;> cases h
  | assertI hroom => cases hc'
  | sigfpe hknown hnumber => cases hc'
  | placed hknown hsize hroom hnumber hs htotal hn hplaced =>
      rename_i s₀ s' bytes metadata free q
      cases hr : placePacket o q free s' with
      | error h' =>
          rw [hr] at hplaced
          cases hc'.trans hplaced
      | ok s₁ =>
          rw [hr] at hplaced
          rcases hplaced with ⟨-, s₂, heq, -⟩ | ⟨-, heq⟩ <;> cases hc'.trans heq
  | unnumbered hunknown hsize hroom hs htotal hn hplaced =>
      rcases hplaced with ⟨-, s₂, heq, -⟩ | ⟨-, heq⟩ <;> cases hc'.trans heq
  | stop hs htotal hn =>
      cases hc'
      exact Or.inr ⟨_, rfl, hs.stored, hs.mem, hs.firstPacket, htotal⟩
  | leave => cases hc'
  | close =>
      cases hc'
      exact Or.inl ⟨_, rfl, rfl⟩

/-- A receiver that is done has recorded what it had when it left its loop. -/
theorem recorded_of_done {ok : Config → Event → Prop}
    (h : (receiver o).ReachableUnder ok (.run .done s)) :
    ∃ s₀, (receiver o).ReachableUnder ok (.run .leaving s₀) ∧ SameRecording s₀ s := by
  generalize hc : Config.run .done s = c at h
  induction h generalizing s with
  | init hinit =>
      obtain ⟨content, waitStart, rfl⟩ := hinit
      cases hc
  | step hreach hok hstep ih =>
      subst hc
      rcases step_done hstep with ⟨s₀, rfl, rfl⟩ | ⟨s₀, rfl, hsame⟩
      · exact ⟨s₀, hreach, leaveLoop_recording s₀⟩
      · obtain ⟨s₁, hleaving, hrec⟩ := ih rfl
        exact ⟨s₁, hleaving, hsame.stored.trans hrec.stored, hsame.mem.trans hrec.mem,
          hsame.firstPacket.trans hrec.firstPacket, hsame.totalPackets.trans hrec.totalPackets⟩

/-! ## Where the packets are -/

/-- Packet `k` of the stream is in its slot, under its number. -/
theorem Sequenced.stored_at (h : Sequenced o f s) (hk : k < s.totalPackets) :
    ∃ st ∈ s.stored, st.At o f (k / o.bufNumElems) (k % o.bufNumElems) ∧
      st.seqnum = f + k ∧ s.mem.Holds st.ptr o.packetSize st.packet := by
  have hplaced := h.placed (by omega)
  have hmem : f + (k : ℤ) ∈ s.stored.map Stored.seqnum := by
    rw [h.seqnums]
    exact List.mem_map.mpr ⟨k, List.mem_reverse.mpr (List.mem_range.mpr hk), rfl⟩
  obtain ⟨st, hst, hseq⟩ := List.mem_map.mp hmem
  obtain ⟨st', hst', hptr, hseq', hholds⟩ := hplaced.kept st hst
  obtain ⟨k', j', hat⟩ := hplaced.geo.stored_at st' hst'
  refine ⟨st', hst', ?_, hseq'.trans hseq, by rwa [hptr]⟩
  have hnumber := hat.seqnum
  rw [hseq', hseq] at hnumber
  have hsum : k = j' + o.bufNumElems * k' := by
    rw [mul_comm]
    have hcast : (k : ℤ) = (j' + k' * o.bufNumElems : ℕ) := by
      push_cast
      omega
    exact Int.natCast_inj.mp hcast
  have hdiv : k / o.bufNumElems = k' := by
    rw [hsum, Nat.add_mul_div_left _ _ (by have := hat.lt; omega), Nat.div_eq_of_lt hat.lt,
      Nat.zero_add]
  have hmod : k % o.bufNumElems = j' := by
    rw [hsum, Nat.add_mul_mod_self_left, Nat.mod_eq_of_lt hat.lt]
  rw [hdiv, hmod]
  exact hat

end Sequenced

end VlbiStreamer.Receiver
