import VlbiStreamer.Receiver.VdifNumbers

/-!
# VDIF packets in order

The receiver of a VDIF stream in order, with the numbers that `getseq_vdif` gives the
packets.  `Following` is what is known of it as long as every packet has had the number that
follows: `resq_info` is `known` after so many packets, and every packet is stored.

Both ways of saying that nothing went wrong lead to it, the numbers that were recorded and
`Fits` for every packet, so that they are the same; `inSequence_iff` says so of every run.
-/

namespace VlbiStreamer.Receiver

open Library

/-- A packet is taken. -/
def TakenBy (o : Opt) : Config → Event → Prop
  | .run .receiving s, .packet received _ metadata _ => Taken o received metadata s
  | _, _ => False

/-- The runs whose packets are those of a VDIF stream. -/
def InVdif (o : Opt) (S : VdifStream) : Config → Event → Prop
  | .run .receiving s, .packet received bytes metadata _ =>
      Taken o received metadata s → S.IsPacket s.totalPackets ∧
        ∀ x < o.packetSize, bytes x = S.packet s.totalPackets x
  | _, _ => True

/-- The runs whose packets fit. -/
def FitsNext (o : Opt) (S : VdifStream) : Config → Event → Prop
  | .run .receiving s, .packet received _ metadata _ =>
      Taken o received metadata s → S.Fits s.totalPackets
  | _, _ => True

/-- The numbers of the packets are consecutive, and all are stored. -/
def Numbers (S : VdifStream) (s : RecvState) : Prop :=
  s.stored.map Stored.seqnum =
    (List.range s.totalPackets).reverse.map fun k : ℕ => (S.first : ℤ) + k

/-- The packets are stored in order: with consecutive numbers, and packet `k` in slot
`k mod N` of file `k div N`. -/
structure InSequence (o : Opt) (S : VdifStream) (s : RecvState) : Prop where
  numbers : Numbers S s
  slots : ∀ k < s.totalPackets,
    s.mem.Holds (slot o.packetSize (k / o.bufNumElems) (k % o.bufNumElems : ℕ)) o.packetSize
      (S.packet k)

/-- What is known of a receiver whose packets have all had the number that follows. -/
structure Following (o : Opt) (S : VdifStream) (s : RecvState) : Prop where
  fits : ∀ k < s.totalPackets, S.Fits k
  packets : ∀ k < s.totalPackets, S.IsPacket k
  vdif : s.vdif = S.known s.totalPackets
  bytes : ∀ st ∈ s.stored, ∀ k : ℕ, st.seqnum = S.first + k →
    ∀ x < o.packetSize, st.packet x = S.packet k x

/-- Nothing has gone wrong so far, by the numbers or by the packets. -/
def Unharmed (S : VdifStream) (s : RecvState) : Prop :=
  Numbers S s ∨ ∀ k < s.totalPackets, S.Fits k

/-- A receiver of a VDIF stream. -/
def Config.Following (o : Opt) (S : VdifStream) : Config → Prop
  | .run phase s => s.stored.length ≤ s.totalPackets ∧
      (Unharmed S s → Receiver.Following o S s ∧ (Config.run phase s).Sequenced o S.first)
  | .halted _ => True

/-! ## One step -/

section Step

variable {o : Opt} {S : VdifStream} {q d : ℤ} {s s' : RecvState} {free : Option (ℤ → Byte)}
  {c c' : Config} {e : Event} {phase phase' : Phase}

theorem SameStream.refl (s : RecvState) : SameStream s s := ⟨rfl, rfl, rfl⟩

theorem SameStream.trans {s'' : RecvState} (h : SameStream s s') (h' : SameStream s' s'') :
    SameStream s s'' :=
  ⟨h'.stored.trans h.stored, h'.vdif.trans h.vdif, h'.totalPackets.trans h.totalPackets⟩

theorem releaseBefore_stream (h : releaseBefore o s = .ok s') : SameStream s s' := by
  unfold releaseBefore at h
  split at h <;> cases h <;> exact ⟨rfl, rfl, rfl⟩

theorem releaseCurrent_stream : SameStream s (releaseCurrent o s) := by
  unfold releaseCurrent
  split <;> exact ⟨rfl, rfl, rfl⟩

/-- A jump takes no packet. -/
theorem jumpToNextBuf_stream (h : jumpToNextBuf o free s = .ok s') : SameStream s s' := by
  unfold jumpToNextBuf at h
  cases hrelease : releaseBefore o s.nextFile with
  | error e =>
      rw [hrelease] at h
      cases h
  | ok s₁ =>
      rw [hrelease] at h
      have hnext : SameStream s s.nextFile := ⟨rfl, rfl, rfl⟩
      have hs₁ : SameStream s s₁ := hnext.trans (releaseBefore_stream hrelease)
      cases free with
      | none => cases h
      | some content =>
          obtain rfl := Except.ok.inj h
          exact hs₁.trans (releaseCurrent_stream.trans ⟨rfl, rfl, rfl⟩)

/-- A step that takes no packet. -/
theorem step_stream (hd : o.datatype ≠ .unknown) (hnot : ¬ TakenBy o (.run phase s) e)
    (h : step o (.run phase s) e = some (.run phase' s')) : SameStream s s' := by
  cases e with
  | bufferSwitch free =>
      cases phase <;> try cases h
      simp only [step] at h
      split at h
      · unfold handleBufferSwitch at h
        split at h
        · change some (Config.ofExcept (.run .receiving) (jumpToNextBuf o free
            { s with nPackets := s.nPackets + o.bufNumElems })) = _ at h
          cases hjump : jumpToNextBuf o free { s with nPackets := s.nPackets + o.bufNumElems } with
          | error h' =>
              rw [hjump] at h
              cases h
          | ok s₁ =>
              rw [hjump] at h
              cases h
              have hcounted : SameStream s { s with nPackets := s.nPackets + o.bufNumElems } :=
                ⟨rfl, rfl, rfl⟩
              exact hcounted.trans (jumpToNextBuf_stream hjump)
        · cases h
          exact .refl s
      · cases h
  | packet received bytes metadata free =>
      cases phase <;> try cases h
      rcases step_not_taken hd hnot h with ⟨-, heq⟩ | ⟨phase₁, s₁, heq, hsame⟩
      · cases heq
      · cases heq
        exact hsame
  | stop =>
      cases phase <;>
        · cases h
          exact ⟨rfl, rfl, rfl⟩
  | leave =>
      cases phase <;> try cases h
      simp only [step] at h
      split at h
      · cases h
      · cases h
        exact .refl s
  | close =>
      cases phase <;> try cases h
      unfold leaveLoop
      dsimp only
      split <;> split <;> exact ⟨rfl, rfl, rfl⟩

/-- One packet more is stored, under the number it was given, or none. -/
structure StoresAtMost (q : ℤ) (s s' : RecvState) : Prop where
  vdif : s'.vdif = s.vdif
  stored : s'.stored = s.stored ∨ ∃ st, s'.stored = st :: s.stored ∧ st.seqnum = q

theorem freeBeforeIfReady_stream (h : freeBeforeIfReady o s = .ok s') : SameStream s s' := by
  unfold freeBeforeIfReady at h
  split at h
  · split at h <;> cases h <;> exact ⟨rfl, rfl, rfl⟩
  · cases h

theorem storeBefore_stores {p : Ptr} (h : storeBefore o q d p s = .ok s') :
    StoresAtMost q s s' := by
  unfold storeBefore at h
  split at h
  · cases h
  · have hready := freeBeforeIfReady_stream h
    exact ⟨hready.vdif, Or.inr ⟨_, hready.stored, rfl⟩⟩

theorem storeNext_stores (h : storeNext o q d free s = .ok s') : StoresAtMost q s s' := by
  cases hjump : jumpToNextBuf o free s with
  | error e =>
      rw [storeNext_error hjump] at h
      cases h
  | ok s₁ =>
      have hsame := jumpToNextBuf_stream hjump
      rw [storeNext_ok hjump] at h
      obtain rfl := Except.ok.inj h
      exact ⟨hsame.vdif, Or.inr ⟨_, congrArg _ hsame.stored, rfl⟩⟩

/-- **Placing a packet** stores it at most once. -/
theorem placePacket_stores (h : placePacket o q free s = .ok s') : StoresAtMost q s s' := by
  unfold placePacket at h
  dsimp only at h
  split at h
  · obtain rfl := Except.ok.inj h
    exact ⟨rfl, Or.inr ⟨_, rfl, rfl⟩⟩
  split at h
  · obtain rfl := Except.ok.inj h
    exact ⟨rfl, Or.inr ⟨_, rfl, rfl⟩⟩
  split at h
  · obtain rfl := Except.ok.inj h
    exact ⟨rfl, Or.inl rfl⟩
  split at h
  · split at h
    · split at h
      · obtain rfl := Except.ok.inj h
        exact ⟨rfl, Or.inl rfl⟩
      split at h
      · obtain rfl := Except.ok.inj h
        exact ⟨rfl, Or.inl rfl⟩
      · exact storeBefore_stores h
    · obtain rfl := Except.ok.inj h
      exact ⟨rfl, Or.inr ⟨_, rfl, rfl⟩⟩
  · split at h
    · split at h
      · obtain rfl := Except.ok.inj h
        exact ⟨rfl, Or.inl rfl⟩
      · exact storeNext_stores h
    · obtain rfl := Except.ok.inj h
      exact ⟨rfl, Or.inr ⟨_, rfl, rfl⟩⟩

end Step

/-! ## A packet more -/

section Follow

variable {o : Opt} {S : VdifStream} {q : ℤ} {v : VdifSeq} {s s' s₁ s₂ : RecvState}
  {free : Option (ℤ → Byte)} {bytes bs bs' : Bytes} {currentSeq : ℤ} {c c' : Config} {e : Event}
  {phase : Phase}

/-- The number of a packet is in its first two words. -/
theorem getseqVdif_congr {n : ℕ} (hn : 8 ≤ n) (h : ∀ x < n, bs x = bs' x) :
    getseqVdif bs v currentSeq = getseqVdif bs' v currentSeq := by
  have hsecond : secondFromVdif bs = secondFromVdif bs' := by
    unfold secondFromVdif
    rw [word32_congr (by omega) h]
  have hframe : framenumFromVdif bs = framenumFromVdif bs' := by
    unfold framenumFromVdif
    rw [word32be_congr (by omega) h]
  unfold getseqVdif
  rw [hsecond, hframe]

theorem Unharmed.of_same (hs : SameStream s s') (h : Unharmed S s') : Unharmed S s := by
  unfold Unharmed Numbers at *
  rw [hs.stored, hs.totalPackets] at h
  exact h

theorem Following.same (h : Following o S s) (hs : SameStream s s') : Following o S s' where
  fits := by rw [hs.totalPackets]; exact h.fits
  packets := by rw [hs.totalPackets]; exact h.packets
  vdif := by rw [hs.vdif, hs.totalPackets]; exact h.vdif
  bytes := by rw [hs.stored]; exact h.bytes

/-- With the next packet, all packets so far are those of the stream. -/
theorem Following.packets_le (h : Following o S s) (hpacket : S.IsPacket s.totalPackets) :
    ∀ j ≤ s.totalPackets, S.IsPacket j := by
  intro j hj
  rcases hj.lt_or_eq with hlt | rfl
  · exact h.packets j hlt
  · exact hpacket

/-- The number of the next packet, and whether it follows. -/
theorem Following.number (hd : o.datatype = .vdif) (hP : 8 ≤ o.packetSize)
    (h : Following o S s) (hseq : Sequenced o S.first s) (hpacket : S.IsPacket s.totalPackets)
    (hbytes : ∀ x < o.packetSize, bytes x = S.packet s.totalPackets x) :
    match getseq o.datatype ((recvPacket o.packetSize bytes s).mem.read s.buf) s.vdif
      s.currentSeq with
    | none => ¬ S.Fits s.totalPackets
    | some (q, v) => (q = S.first + s.totalPackets ↔ S.Fits s.totalPackets) ∧
        (S.Fits s.totalPackets → v = S.known (s.totalPackets + 1)) := by
  have hread : ∀ x < o.packetSize, (recvPacket o.packetSize bytes s).mem.read s.buf x =
      S.packet s.totalPackets x :=
    fun x hx => (Memory.read_write_self hx).trans (hbytes x hx)
  rw [hd]
  show match getseqVdif _ s.vdif s.currentSeq with
    | none => _
    | some (q, v) => _
  rw [getseqVdif_congr hP hread, h.vdif]
  refine VdifStream.getseqVdif_fits (h.packets_le hpacket) h.fits fun hne => ?_
  have hcurrent := hseq.currentSeq hne
  omega

/-- The next number is the one in order. -/
theorem Sequenced.inOrder {f : ℤ} (h : Sequenced o f s) (hq : q = f + s.totalPackets)
    (hlo : -2 ^ 63 ≤ f) (hmax : q < int64Max) : InOrder s q := by
  by_cases hzero : s.totalPackets = 0
  · have hfresh := (h.fresh hzero).1
    exact Or.inl ⟨hfresh.currentSeq, hfresh.seqstartCurrent⟩
  · have hcurrent := h.currentSeq hzero
    have hpos := Int.natCast_nonneg s.totalPackets
    unfold int64Max at hmax
    exact Or.inr (by rw [long_of_fits (by omega) (by omega)]; omega)

/-- **A packet of the stream** that has the number that follows, or that fits. -/
theorem Following.take (hd : o.datatype = .vdif) (hP : 8 ≤ o.packetSize)
    (h : Following o S s) (hseq : Sequenced o S.first s) (hpacket : S.IsPacket s.totalPackets)
    (hbytes : ∀ x < o.packetSize, bytes x = S.packet s.totalPackets x)
    (htakes : TakenRun o bytes free q v s s₁ s₂ s')
    (hor : q = S.first + s.totalPackets ∨ S.Fits s.totalPackets) :
    q = S.first + s.totalPackets ∧ Following o S s' := by
  have hnumber := h.number hd hP hseq hpacket hbytes
  rw [htakes.number] at hnumber
  have hq : q = S.first + s.totalPackets := hor.elim id hnumber.1.mpr
  have hfits := hnumber.1.mp hq
  refine ⟨hq, ?_⟩
  have hlt : S.first + s.totalPackets < 2 ^ 55 := VdifStream.number_lt (h.packets_le hpacket)
  have horder : InOrder s₁ q := by
    have hinOrder := hseq.inOrder hq (by omega) (by unfold int64Max; omega)
    unfold InOrder
    rw [htakes.same.currentSeq, htakes.same.seqstartCurrent]
    exact hinOrder
  obtain ⟨current, seqstart, hplace⟩ := placePacket_inOrder (o := o) free horder
  have hs₂ := Except.ok.inj (htakes.placed.symm.trans hplace)
  have hstored : s'.stored = ⟨s₁.buf, s₁.mem.read s₁.buf, q⟩ :: s.stored := by
    rw [htakes.counted.stored, hs₂]
    exact congrArg _ htakes.same.stored
  exact
    { fits := by
        rw [htakes.total_counted]
        intro k hk
        rcases (Nat.le_of_lt_succ hk).lt_or_eq with hlt | rfl
        · exact h.fits k hlt
        · exact hfits
      packets := by
        rw [htakes.total_counted]
        intro k hk
        rcases (Nat.le_of_lt_succ hk).lt_or_eq with hlt | rfl
        · exact h.packets k hlt
        · exact hpacket
      vdif := by
        rw [htakes.vdif_counted, (placePacket_stores htakes.placed).vdif, htakes.vdif,
          htakes.total_counted]
        exact hnumber.2 hfits
      bytes := by
        rw [hstored]
        intro st hst k hk x hx
        rcases List.mem_cons.mp hst with rfl | hst
        · obtain rfl : k = s.totalPackets := by
            have hnew : q = S.first + k := hk
            omega
          show s₁.mem.read s₁.buf x = _
          rw [htakes.same.mem, htakes.same.buf, ← hbytes x hx]
          exact Memory.read_write_self hx
        · exact h.bytes st hst k hk x hx }

/-- Where the packets fit, their numbers are consecutive. -/
theorem Following.consecutive (hd : o.datatype = .vdif) (hP : 8 ≤ o.packetSize)
    (h : Following o S s) (hseq : (Config.run phase s).Sequenced o S.first)
    (hok : InVdif o S (.run phase s) e) (hfits : FitsNext o S (.run phase s) e) :
    Consecutive o S.first (.run phase s) e := by
  unfold Consecutive
  split
  next s received bytes metadata free heq =>
    cases heq
    intro htaken
    obtain ⟨hpacket, hbytes⟩ := hok htaken
    have hnumber := h.number hd hP hseq.1 hpacket hbytes
    have hlt : S.first + s.totalPackets < 2 ^ 55 := VdifStream.number_lt (h.packets_le hpacket)
    refine ⟨?_, by omega, by unfold int64Max; omega⟩
    unfold numberOf
    cases hget : getseq o.datatype ((recvPacket o.packetSize bytes s).mem.read s.buf) s.vdif
        s.currentSeq with
    | none =>
        rw [hget] at hnumber
        exact absurd (hfits htaken) hnumber
    | some qv =>
        rw [hget] at hnumber
        exact congrArg some (hnumber.1.mpr (hfits htaken))
  next => trivial

end Follow

/-! ## The runs -/

section Runs

variable {o : Opt} {S : VdifStream} {s s' s₁ s₂ : RecvState} {q : ℤ} {v : VdifSeq}
  {free : Option (ℤ → Byte)} {bytes : Bytes} {c c' : Config} {e : Event} {phase : Phase}

theorem consecutive_of_not_taken {f : ℤ} (hnot : ¬ TakenBy o c e) : Consecutive o f c e := by
  unfold Consecutive
  split
  next => exact fun htaken => absurd htaken hnot
  next => trivial

theorem TakenRun.stored_cases (h : TakenRun o bytes free q v s s₁ s₂ s') :
    s'.stored = s.stored ∨ ∃ st, s'.stored = st :: s.stored ∧ st.seqnum = q := by
  have hstores := (placePacket_stores h.placed).stored
  rw [h.counted.stored]
  rwa [show s₁.stored = s.stored from h.same.stored] at hstores

/-- If nothing has gone wrong after a packet, its number followed, or it fits, and nothing
had gone wrong before. -/
theorem Unharmed.before (htakes : TakenRun o bytes free q v s s₁ s₂ s')
    (hlen : s.stored.length ≤ s.totalPackets) (h : Unharmed S s') :
    Unharmed S s ∧ (q = S.first + s.totalPackets ∨ S.Fits s.totalPackets) := by
  unfold Unharmed Numbers at h
  rw [htakes.total_counted] at h
  rcases h with hnumbers | hfits
  · rcases htakes.stored_cases with hsame | ⟨st, hcons, hseqnum⟩
    · -- a packet that was not stored is missing
      have hlength := congrArg List.length hnumbers
      rw [hsame, List.length_map, List.length_map, List.length_reverse, List.length_range]
        at hlength
      omega
    · rw [hcons, ← range_files, List.map_cons, List.map_cons, hseqnum] at hnumbers
      obtain ⟨hnext, hrest⟩ := List.cons.inj hnumbers
      exact ⟨Or.inl hrest, Or.inl hnext⟩
  · exact ⟨Or.inr fun k hk => hfits k (by omega), Or.inr (hfits _ (by omega))⟩

/-- One step, as long as nothing goes wrong. -/
theorem Config.Following.step (hd : o.datatype = .vdif) (hP : 8 ≤ o.packetSize)
    (hpos : 0 < o.bufNumElems) (h : c.Following o S) (hok : InVdif o S c e)
    (hstep : step o c e = some c') : c'.Following o S := by
  have hknown : o.datatype ≠ .unknown := by rw [hd]; decide
  cases c with
  | halted h => cases hstep
  | run phase s =>
  cases c' with
  | halted h => trivial
  | run phase' s' =>
  obtain ⟨hlen, hfollow⟩ := h
  by_cases ht : TakenBy o (.run phase s) e
  · cases e with
    | packet received bytes metadata free =>
        cases phase with
        | receiving =>
            obtain ⟨hpacket, hbytes⟩ := hok ht
            obtain ⟨q, v, s₁, s₂, htakes⟩ := step_taken_run hknown (by omega) ht hstep
            refine ⟨?_, fun hun => ?_⟩
            · rw [htakes.total_counted]
              rcases htakes.stored_cases with hsame | ⟨st, hcons, -⟩
              · rw [hsame]
                omega
              · rw [hcons, List.length_cons]
                omega
            · obtain ⟨hun', hor⟩ := Unharmed.before htakes hlen hun
              obtain ⟨hs, hseq⟩ := hfollow hun'
              obtain ⟨hq, hs'⟩ := hs.take hd hP hseq.1 hpacket hbytes htakes hor
              refine ⟨hs', hseq.step hknown hpos ?_ hstep⟩
              have hlt := VdifStream.number_lt (hs.packets_le hpacket)
              refine fun _ => ⟨?_, by omega, by unfold int64Max; omega⟩
              unfold numberOf
              rw [htakes.number, ← hq]
              rfl
        | switching => exact ht.elim
        | leaving => exact ht.elim
        | done => exact ht.elim
    | bufferSwitch free => cases phase <;> exact ht.elim
    | stop => cases phase <;> exact ht.elim
    | leave => cases phase <;> exact ht.elim
    | close => cases phase <;> exact ht.elim
  · have hsame := step_stream hknown ht hstep
    refine ⟨by rw [hsame.stored, hsame.totalPackets]; exact hlen, fun hun => ?_⟩
    obtain ⟨hs, hseq⟩ := hfollow (hun.of_same hsame)
    exact ⟨hs.same hsame, hseq.step hknown hpos (consecutive_of_not_taken ht) hstep⟩

theorem following_of_reachable (hd : o.datatype = .vdif) (hP : 8 ≤ o.packetSize)
    (hpos : 0 < o.bufNumElems) (h : (receiver o).ReachableUnder (InVdif o S) c) :
    c.Following o S := by
  refine h.invariant ?_ fun c e c' hc hok hstep => hc.step hd hP hpos hok hstep
  rintro c ⟨content, waitStart, rfl⟩
  refine ⟨le_rfl, fun _ => ⟨?_, Sequenced.init content waitStart⟩⟩
  exact ⟨fun k hk => absurd hk (Nat.not_lt_zero k), fun k hk => absurd hk (Nat.not_lt_zero k), rfl,
    fun st hst => absurd hst List.not_mem_nil⟩

/-- A receiver that has followed the stream has stored it in order. -/
theorem Following.inSequence (h : Following o S s) (hseq : Sequenced o S.first s) :
    InSequence o S s := by
  refine ⟨hseq.seqnums, fun k hk x hx => ?_⟩
  obtain ⟨st, hst, hat, hseqnum, hholds⟩ := hseq.stored_at hk
  rw [← hat.ptr, hholds x hx]
  exact h.bytes st hst k hseqnum x hx

theorem SameRecording.inSequence (hsame : SameRecording s s') :
    InSequence o S s' ↔ InSequence o S s := by
  constructor
  · rintro ⟨hnumbers, hslots⟩
    unfold Numbers at hnumbers
    rw [hsame.stored, hsame.totalPackets] at hnumbers
    rw [hsame.mem, hsame.totalPackets] at hslots
    exact ⟨hnumbers, hslots⟩
  · rintro ⟨hnumbers, hslots⟩
    unfold Numbers at hnumbers
    rw [← hsame.stored, ← hsame.totalPackets] at hnumbers
    rw [← hsame.mem, ← hsame.totalPackets] at hslots
    exact ⟨hnumbers, hslots⟩

/-- Under the condition on every packet, every packet so far fits. -/
theorem fits_of_reachable (hd : o.datatype = .vdif) (hP : 8 ≤ o.packetSize)
    (h : (receiver o).ReachableUnder (FitsNext o S) c) (hc : c = .run phase s) :
    ∀ k < s.totalPackets, S.Fits k := by
  have hknown : o.datatype ≠ .unknown := by rw [hd]; decide
  induction h generalizing phase s with
  | init hinit =>
      obtain ⟨content, waitStart, rfl⟩ := hinit
      cases hc
      exact fun k hk => absurd hk (Nat.not_lt_zero k)
  | step hreach hok hstep ih =>
      rename_i c₁ c₂ e
      subst hc
      cases c₁ with
      | halted h => cases hstep
      | run phase₁ s₁ =>
          by_cases ht : TakenBy o (.run phase₁ s₁) e
          · unfold TakenBy at ht
            split at ht
            next received bytes metadata free heq =>
              cases heq
              obtain ⟨q, v, s₃, s₄, htakes⟩ := step_taken_run hknown (by omega) ht hstep
              rw [htakes.total_counted]
              intro k hk
              rcases (Nat.le_of_lt_succ hk).lt_or_eq with hlt | rfl
              · exact ih rfl k hlt
              · exact hok ht
            next => exact ht.elim
          · rw [(step_stream hknown ht hstep).totalPackets]
            exact ih rfl

/-- **The numbers of a VDIF stream.**  The packets of a stream in order are stored in order
exactly as long as every packet fits; and as long as it does, only a missing buffer ends the
receiver. -/
theorem inSequence_iff (hd : o.datatype = .vdif) (hP : 8 ≤ o.packetSize)
    (hpos : 0 < o.bufNumElems) (S : VdifStream) :
    (∀ phase s, (receiver o).ReachableUnder (InVdif o S) (.run phase s) →
      (InSequence o S s ↔ ∀ k < s.totalPackets, S.Fits k)) ∧
    ∀ h, (receiver o).ReachableUnder (fun c e => InVdif o S c e ∧ FitsNext o S c e)
      (.halted h) → h = .threadExit := by
  have hknown : o.datatype ≠ .unknown := by rw [hd]; decide
  have hloop : ∀ phase s, phase ≠ .done →
      (receiver o).ReachableUnder (InVdif o S) (.run phase s) →
      (InSequence o S s ↔ ∀ k < s.totalPackets, S.Fits k) := by
    intro phase s hphase hrun
    obtain ⟨-, hfollow⟩ := following_of_reachable hd hP hpos hrun
    refine ⟨fun h => (hfollow (Or.inl h.numbers)).1.fits, fun hfits => ?_⟩
    obtain ⟨hs, hseq⟩ := hfollow (Or.inr hfits)
    cases phase with
    | switching => exact hs.inSequence hseq
    | receiving => exact hs.inSequence hseq.1
    | leaving => exact hs.inSequence hseq
    | done => exact absurd rfl hphase
  refine ⟨fun phase s hrun => ?_, fun h hrun => ?_⟩
  · by_cases hphase : phase = .done
    · subst hphase
      obtain ⟨s₀, hleaving, hsame⟩ := recorded_of_done hrun
      rw [hsame.inSequence, hsame.totalPackets]
      exact hloop .leaving s₀ (by decide) hleaving
    · exact hloop phase s hphase hrun
  · generalize hc : Config.halted h = c at hrun
    cases hrun with
    | init hinit =>
        obtain ⟨content, waitStart, rfl⟩ := hinit
        cases hc
    | step hreach hok hstep =>
        rename_i c₁ e
        subst hc
        cases c₁ with
        | halted h => cases hstep
        | run phase s =>
            -- up to the last step all packets were in order
            have hfits := fits_of_reachable hd hP (hreach.mono fun _ _ h => h.2) rfl
            obtain ⟨-, hfollow⟩ :=
              following_of_reachable hd hP hpos (hreach.mono fun _ _ h => h.1)
            obtain ⟨hs, hseq⟩ := hfollow (Or.inr hfits)
            exact hseq.step hknown hpos (hs.consecutive hd hP hseq hok.1 hok.2) hstep

end Runs

/-- VDIF packets of a bare header, four in a buffer. -/
def exampleVdifOpt : Opt where
  datatype := .vdif
  bufNumElems := 4
  packetSize := 16
  offset := 0
  lastPacket := 0
  bufNumElems_lt := exampleOpt.bufNumElems_lt
  bufsize_lt := by decide

/-- Four frames in a second. -/
def exampleVdif (start : ℕ) : VdifStream where
  rate := 4
  rate_pos := Nat.succ_pos 3
  start := start
  packet k := fun x =>
    if x = 3 then BitVec.ofNat 8 ((start + k) / 4)
    else if x = 7 then BitVec.ofNat 8 ((start + k) % 4) else 0

/-- The first two packets of a stream. -/
def firstTwo (S : VdifStream) : List Event :=
  [.bufferSwitch none, .packet 16 (S.packet 0) (0, 0) none, .bufferSwitch none,
    .packet 16 (S.packet 1) (0, 0) none]

theorem inVdif_firstTwo {S : VdifStream} (h0 : S.IsPacket 0) (h1 : S.IsPacket 1) :
    System.OkFrom (InVdif exampleVdifOpt S) (step exampleVdifOpt) exampleStart (firstTwo S) := by
  have hswitch : ∀ c, InVdif exampleVdifOpt S c (.bufferSwitch none) := by
    unfold InVdif
    rintro (⟨phase, s⟩ | h)
    · cases phase <;> trivial
    · trivial
  refine ⟨trivial, fun c₁ h₁ => ⟨?_, fun c₂ h₂ => ⟨hswitch c₂, fun c₃ h₃ =>
    ⟨?_, fun _ _ => trivial⟩⟩⟩⟩
  · obtain rfl := Option.some.inj h₁
    exact fun _ => ⟨h0, fun _ _ => rfl⟩
  · obtain rfl := Option.some.inj h₁
    obtain rfl := Option.some.inj h₂
    obtain rfl := Option.some.inj h₃
    exact fun _ => ⟨h1, fun _ _ => rfl⟩

/-- Frames 1 and 2 of a second. -/
theorem inSequence_iff_midSecond :
    ∃ s, System.runFrom (step exampleVdifOpt) exampleStart (firstTwo (exampleVdif 5)) =
        some (.run .switching s) ∧ InSequence exampleVdifOpt (exampleVdif 5) s := by
  have hstart : (receiver exampleVdifOpt).ReachableUnder (InVdif exampleVdifOpt (exampleVdif 5))
      exampleStart := .init ⟨_, _, rfl⟩
  obtain ⟨s, hrun, htotal⟩ : ∃ s, System.runFrom (step exampleVdifOpt) exampleStart
      (firstTwo (exampleVdif 5)) = some (.run .switching s) ∧ s.totalPackets = 2 :=
    ⟨_, rfl, rfl⟩
  have hreach := hstart.runFrom (inVdif_firstTwo ⟨by decide, by decide⟩
    ⟨by decide, by decide⟩) hrun
  refine ⟨s, hrun, ((inSequence_iff rfl (by decide) (by decide) (exampleVdif 5)).1
    .switching s hreach).mpr ?_⟩
  intro k hk
  obtain rfl | rfl : k = 0 ∨ k = 1 := by omega
  · exact VdifStream.fits_zero
  · exact (VdifStream.fits_iff_same_second (by decide) (by decide) (by decide)).mpr (by decide)

/-- **A stream that starts with the first frame of a second divides by zero.** -/
theorem vdif_divides_by_zero :
    ¬ ∀ (o : Opt) (S : VdifStream), o.datatype = .vdif → 8 ≤ o.packetSize →
      0 < o.bufNumElems →
      (∀ phase s, (receiver o).ReachableUnder (InVdif o S) (.run phase s) → InSequence o S s) ∧
      ¬ (receiver o).ReachableUnder (InVdif o S) (.halted .sigfpe) := by
  intro hall
  have hstart : (receiver exampleVdifOpt).ReachableUnder (InVdif exampleVdifOpt (exampleVdif 4))
      exampleStart := .init ⟨_, _, rfl⟩
  have hrun : System.runFrom (step exampleVdifOpt) exampleStart (firstTwo (exampleVdif 4)) =
      some (.halted .sigfpe) := rfl
  refine (hall exampleVdifOpt (exampleVdif 4) rfl (by decide) (by decide)).2
    (hstart.runFrom (inVdif_firstTwo ⟨by decide, by decide⟩ ⟨by decide, by decide⟩) hrun)

end VlbiStreamer.Receiver
