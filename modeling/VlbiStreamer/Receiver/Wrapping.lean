import VlbiStreamer.Receiver.Sequenced

/-!
# The wrap of the packet counter

The counter of a MARK5BNET packet is an unsigned word on the wire.  `getseq_mark5b_net`
reads it as an `int`, `calc_bufpos_general` compares it as a `long`, and `check_and_fill`
counts modulo `2 ^ 32`.  The three agree on a stream in order up to counter `2 ^ 31 - 1`;
the packet after it has a number `2 ^ 32` below the one that is due, and is dropped, like
those that follow it.

* `InStream` is a stream in order, with its counter on the wire.
* `Recorded` is what is to hold of its recording.
* `recorded_iff_beforeWrap` says of every run when it does.
-/

namespace VlbiStreamer.Receiver

open Library

/-- The runs in which packet `k` of the recording has counter `c₀ + k`. -/
def InStream (o : Opt) (c₀ : BitVec 32) : Config → Event → Prop
  | .run .receiving s, .packet received bytes metadata _ =>
      Taken o received metadata s → word32 bytes 4 = c₀ + BitVec.ofNat 32 s.totalPackets
  | _, _ => True

/-- The runs in which no packet has a counter after `2 ^ 31 - 1`, if the first has not. -/
def BeforeWrap (o : Opt) (c₀ : BitVec 32) : Config → Event → Prop
  | .run .receiving s, .packet received _ metadata _ =>
      Taken o received metadata s → c₀.toInt + s.totalPackets < 2 ^ 31
  | _, _ => True

/-- Every packet is stored, packet `k` in slot `k mod N` of file `k div N`, and
`check_and_fill` changes no file of the recording, with an index that has no more packets
than were received, or on a file that is full. -/
structure Recorded (o : Opt) (c₀ : BitVec 32) (s : RecvState) : Prop where
  stored : ∀ k < s.totalPackets, ∃ st ∈ s.stored,
    st.ptr = slot o.packetSize (k / o.bufNumElems) (k % o.bufNumElems : ℕ) ∧
    word32 st.packet 4 = c₀ + BitVec.ofNat 32 k ∧ s.mem.Holds st.ptr o.packetSize st.packet
  unfilled : ∀ file nPackets v currentSeq, file * o.bufNumElems ≤ s.totalPackets →
    nPackets ≤ s.totalPackets ∨ (file + 1) * o.bufNumElems ≤ s.totalPackets →
    checkAndFill o nPackets s.firstPacket v currentSeq s.mem (slot o.packetSize file 0) file =
      some s.mem

section Counter

variable {c₀ : BitVec 32} {w : BitVec 32} {k : ℕ}

/-- The counter as a signed number. -/
theorem counter_eq_iff : w = c₀ + BitVec.ofNat 32 k ↔ w.toInt = (c₀.toInt + k).bmod (2 ^ 32) := by
  have hcounter : c₀ + BitVec.ofNat 32 k = BitVec.ofInt 32 (c₀.toInt + k) := by
    rw [BitVec.ofInt_add, BitVec.ofInt_toInt, BitVec.ofInt_natCast]
  rw [hcounter, ← BitVec.toInt_inj, BitVec.toInt_ofInt]

/-- Before the wrap the signed number is counted up. -/
theorem counter_of_lt (hlt : c₀.toInt + k < 2 ^ 31) :
    w = c₀ + BitVec.ofNat 32 k ↔ w.toInt = c₀.toInt + k := by
  have hlo := c₀.le_toInt
  rw [counter_eq_iff, Int.bmod_eq_of_le (by omega) (by omega)]

end Counter

/-! ## Nothing to fill -/

section Fill

variable {o : Opt} {f currentSeq : ℤ} {m : Memory} {model first : Bytes} {v : VdifSeq}
  {i n file nPackets total : ℕ}

/-- Where every slot has the number that is counted up to it, the loop changes nothing. -/
theorem fillLoop_same (hd : o.datatype = .mark5bnet)
    (hmodel : getseqMark5bNet model = (f + i).bmod (2 ^ 32))
    (hslots : ∀ j < n, getseqMark5bNet (m.read (slot o.packetSize file (i + j : ℕ))) =
      (f + (i + j : ℕ)).bmod (2 ^ 32)) :
    fillLoop o currentSeq n m (slot o.packetSize file i) model v = some m := by
  induction n generalizing model i with
  | zero => rfl
  | succ n ih =>
      have hnext : getseqMark5bNet
          (setFramenumForMark5bNet model (getseqMark5bNet model + 1)) =
          (f + (i + 1 : ℕ)).bmod (2 ^ 32) := by
        rw [getseq_setFramenum_bmod, hmodel, Int.bmod_add_bmod, Nat.cast_succ, add_assoc]
      have hfirst := hslots 0 (Nat.succ_pos n)
      rw [Nat.add_zero, ← hmodel] at hfirst
      have hrest : ∀ j < n, getseqMark5bNet (m.read (slot o.packetSize file (i + 1 + j : ℕ))) =
          (f + (i + 1 + j : ℕ)).bmod (2 ^ 32) := by
        intro j hj
        rw [Nat.add_right_comm, Nat.add_assoc]
        exact hslots (j + 1) (by omega)
      rw [fillLoop_succ hd, slot_next, fillSlot, if_pos hfirst]
      exact ih hnext hrest

/-- The packets that `check_and_fill` goes over are of the recording. -/
theorem elements_received {j : ℕ} (hfile : file * o.bufNumElems ≤ total)
    (hn : nPackets ≤ total ∨ (file + 1) * o.bufNumElems ≤ total) (htotal : total < 2 ^ 63)
    (hj : j < (realNumberOfElements o nPackets file).toNat) :
    j < o.bufNumElems ∧ file * o.bufNumElems + j < total := by
  have hmul : (o.bufNumElems : ℤ) * file = (file * o.bufNumElems : ℕ) := by
    rw [mul_comm, Nat.cast_mul]
  unfold realNumberOfElements at hj
  rw [hmul] at hj
  rw [Nat.succ_mul] at hn
  generalize file * o.bufNumElems = before at hfile hn hj ⊢
  dsimp only at hj
  rcases hn with hn | hn
  · rw [long_of_fits (by omega) (by omega)] at hj
    split at hj <;> omega
  · have hlt : j < o.bufNumElems := by
      split at hj <;> omega
    omega

/-- `check_and_fill` changes nothing in a recording whose packets have their numbers. -/
theorem checkAndFill_same (hd : o.datatype = .mark5bnet) (htotal : total < 2 ^ 63)
    (hslots : ∀ k < total, getseqMark5bNet
      (m.read (slot o.packetSize (k / o.bufNumElems) (k % o.bufNumElems : ℕ))) =
      (getseqMark5bNet first + k).bmod (2 ^ 32))
    (hfile : file * o.bufNumElems ≤ total)
    (hn : nPackets ≤ total ∨ (file + 1) * o.bufNumElems ≤ total) :
    checkAndFill o nPackets (some first) v currentSeq m (slot o.packetSize file 0) file =
      some m := by
  unfold checkAndFill createInitialHeader
  rw [hd]
  have hmodel : getseqMark5bNet (setFramenumForMark5bNet first
      (getseqMark5bNet first + o.bufNumElems * file)) =
      (getseqMark5bNet first + o.bufNumElems * file + (0 : ℕ)).bmod (2 ^ 32) := by
    rw [getseq_setFramenum_bmod, Nat.cast_zero, add_zero]
  refine fillLoop_same hd hmodel fun j hj => ?_
  obtain ⟨hlt, hreceived⟩ := elements_received hfile hn htotal hj
  have hslot := hslots _ hreceived
  rw [Nat.mul_comm, Nat.mul_add_div (by omega), Nat.div_eq_of_lt hlt, Nat.add_zero,
    Nat.mul_add_mod, Nat.mod_eq_of_lt hlt] at hslot
  rw [Nat.zero_add, hslot]
  push_cast
  rw [add_assoc]

end Fill

/-! ## Before the wrap -/

section Before

variable {o : Opt} {c₀ : BitVec 32} {s s' : RecvState} {free : Option (ℤ → Byte)}
  {c c' : Config} {e : Event} {phase phase' : Phase}

/-- The number of a packet that was received. -/
theorem numberOf_mark5bnet (hd : o.datatype = .mark5bnet) (hP : 8 ≤ o.packetSize)
    (bytes : Bytes) : numberOf o s bytes = some (word32 bytes 4).toInt := by
  have hread : ∀ x < o.packetSize,
      (recvPacket o.packetSize bytes s).mem.read s.buf x = bytes x :=
    fun x hx => Memory.read_write_self hx
  unfold numberOf
  rw [hd]
  exact congrArg some (number_congr hP hread)

/-- Before the wrap the numbers are consecutive. -/
theorem InStream.consecutive (hd : o.datatype = .mark5bnet) (hP : 8 ≤ o.packetSize)
    (h : InStream o c₀ c e) (hlt : BeforeWrap o c₀ c e) : Consecutive o c₀.toInt c e := by
  unfold Consecutive
  split
  next s received bytes metadata free =>
    intro htaken
    have hbefore : c₀.toInt + s.totalPackets < 2 ^ 31 := hlt htaken
    have hlo := c₀.le_toInt
    refine ⟨?_, by omega, by unfold int64Max; omega⟩
    rw [numberOf_mark5bnet hd hP, (counter_of_lt hbefore).mp (h htaken)]
  next => trivial

/-- A run that has not come to the wrap has consecutive numbers. -/
theorem consecutive_of_inStream (hd : o.datatype = .mark5bnet) (hP : 8 ≤ o.packetSize)
    (h : (receiver o).ReachableUnder (InStream o c₀) c)
    (hc : c = .run phase s) (hle : c₀.toInt + s.totalPackets ≤ 2 ^ 31) :
    (receiver o).ReachableUnder (Consecutive o c₀.toInt) c := by
  have hknown : o.datatype ≠ .unknown := by rw [hd]; decide
  induction h generalizing phase s with
  | init hinit => exact .init hinit
  | step hreach hok hstep ih =>
      rename_i c₁ c₂ e
      subst hc
      cases c₁ with
      | halted h => cases hstep
      | run phase₁ s₁ =>
          have htotal := (step_grows hknown hstep).totalPackets
          have hrun := ih rfl (by omega)
          refine hrun.step (hok.consecutive hd hP ?_) hstep
          unfold BeforeWrap
          split
          next s₂ received bytes metadata free heq =>
            intro htaken
            cases heq
            obtain ⟨q, v, s₃, s₄, htakes⟩ := step_taken_run hknown (by omega) htaken hstep
            have hmore := htakes.total_counted
            omega
          next => trivial

end Before

/-! ## The recording -/

section Recorded

variable {o : Opt} {c₀ : BitVec 32} {s s' : RecvState} {phase : Phase} {h : Halt}

theorem SameRecording.recorded (hsame : SameRecording s s') :
    Recorded o c₀ s' ↔ Recorded o c₀ s := by
  constructor
  · rintro ⟨hstored, hunfilled⟩
    rw [hsame.stored, hsame.mem, hsame.totalPackets] at hstored
    rw [hsame.mem, hsame.firstPacket, hsame.totalPackets] at hunfilled
    exact ⟨hstored, hunfilled⟩
  · rintro ⟨hstored, hunfilled⟩
    rw [← hsame.stored, ← hsame.mem, ← hsame.totalPackets] at hstored
    rw [← hsame.mem, ← hsame.firstPacket, ← hsame.totalPackets] at hunfilled
    exact ⟨hstored, hunfilled⟩

/-- In its loop the receiver keeps the slots right. -/
theorem slotInv_of_reachable (hd : o.datatype = .mark5bnet) (hpos : 0 < o.bufNumElems)
    (hrun : (receiver o).Reachable (.run phase s)) (hphase : phase ≠ .done) : SlotInv o s := by
  have hknown : o.datatype ≠ .unknown := by rw [hd]; decide
  have hsat := (slotInv_loop hd hpos).of_reachable hknown
    (hrun.mono fun c e _ => onNumbers_true o c e)
  cases phase with
  | switching => exact hsat
  | receiving => exact hsat.1
  | leaving => exact hsat
  | done => exact absurd rfl hphase

/-- The first number of a receiver that has packets in order. -/
theorem Started.first_eq {f f' : ℤ} (hstarted : Started o f s) (hseq : Sequenced o f' s)
    (hne : s.totalPackets ≠ 0) : f = f' := by
  have hseqstart := hstarted.placed.geo.seqstart
  have hseqstart' := (hseq.placed hne).geo.seqstart
  omega

/-- Up to the wrap packets in order are recorded. -/
theorem Sequenced.recorded (hd : o.datatype = .mark5bnet) (hP : 8 ≤ o.packetSize)
    (hseq : Sequenced o c₀.toInt s) (hslot : SlotInv o s)
    (hle : c₀.toInt + s.totalPackets ≤ 2 ^ 31) : Recorded o c₀ s := by
  have hlo := c₀.le_toInt
  cases hslot with
  | fresh hf hnone hin =>
      have hzero : s.totalPackets = 0 := by
        by_contra hne
        exact absurd hf.currentSeq (hseq.placed hne).geo.current_lt.ne
      refine ⟨fun k hk => absurd hk (by omega), fun file nPackets v currentSeq _ _ => ?_⟩
      rw [hnone]
      rfl
  | started f hf =>
      have hne : s.totalPackets ≠ 0 := by
        intro hzero
        have hlt := hf.placed.geo.current_lt
        rw [((hseq.fresh hzero).1).currentSeq] at hlt
        exact lt_irrefl _ hlt
      obtain rfl := hf.first_eq hseq hne
      obtain ⟨first, hfirst, hnumber⟩ := hf.first
      refine ⟨fun k hk => ?_, fun file nPackets v currentSeq hfile hn => ?_⟩
      · obtain ⟨st, hst, hat, hseqnum, hholds⟩ := hseq.stored_at hk
        refine ⟨st, hst, hat.ptr, (counter_of_lt (by omega)).mpr ?_, hholds⟩
        rw [← hseqnum, ← hf.number hP st hst]
        rfl
      · rw [hfirst]
        refine checkAndFill_same hd (by omega) (fun k hk => ?_) hfile hn
        obtain ⟨st, hst, hat, hseqnum, -⟩ := hseq.stored_at hk
        rw [← hat.ptr, hf.numbered hP st hst, hseqnum, hnumber,
          Int.bmod_eq_of_le (by omega) (by omega)]

/-- The slot of a stored packet calls for its number. -/
theorem Started.seqnum_of_slot {f : ℤ} {st : Stored} {k j : ℕ} (hf : Started o f s)
    (hsize : 0 < o.packetSize) (hst : st ∈ s.stored) (hptr : st.ptr = slot o.packetSize k j) :
    st.seqnum = f + k * o.bufNumElems + j := by
  obtain ⟨k', j', hat⟩ := hf.placed.geo.stored_at st hst
  have hsame := hat.ptr.symm.trans hptr
  simp only [slot, Ptr.mk.injEq] at hsame
  obtain ⟨rfl, hoff⟩ := hsame
  rw [hat.seqnum, Int.eq_of_mul_eq_mul_right (by omega) hoff]

/-- A recording with all its packets has not come to the wrap. -/
theorem Recorded.before (hP : 8 ≤ o.packetSize) (hrec : Recorded o c₀ s)
    (hslot : SlotInv o s) : c₀.toInt + s.totalPackets ≤ 2 ^ 31 := by
  by_contra hnot
  have hhi := c₀.toInt_lt
  have hlo := c₀.le_toInt
  have hslots : ∀ k < s.totalPackets, ∃ st ∈ s.stored,
      st.ptr = slot o.packetSize (k / o.bufNumElems) (k % o.bufNumElems : ℕ) ∧
      (word32 st.packet 4).toInt = (c₀.toInt + k).bmod (2 ^ 32) := by
    intro k hk
    obtain ⟨st, hst, hptr, hcounter, -⟩ := hrec.stored k hk
    exact ⟨st, hst, hptr, counter_eq_iff.mp hcounter⟩
  cases hslot with
  | fresh hf hnone hin =>
      obtain ⟨st, hst, -⟩ := hslots 0 (by omega)
      rw [hf.stored] at hst
      exact absurd hst List.not_mem_nil
  | started f hf =>
      have hnumber : ∀ k < s.totalPackets, f + k = (c₀.toInt + k).bmod (2 ^ 32) := by
        intro k hk
        obtain ⟨st, hst, hptr, hcounter⟩ := hslots k hk
        have hseqnum := hf.seqnum_of_slot (by omega) hst hptr
        have hread : (word32 st.packet 4).toInt = st.seqnum := hf.number hP st hst
        have hdiv : (k : ℤ) =
            (k / o.bufNumElems : ℕ) * o.bufNumElems + (k % o.bufNumElems : ℕ) := by
          exact_mod_cast (Nat.div_add_mod' k o.bufNumElems).symm
        rw [← hcounter, hread, hseqnum, add_assoc, ← hdiv]
      -- the first packet gives the first number, and the one after the wrap has another
      have hfirst := hnumber 0 (by omega)
      have hwrap := hnumber (2 ^ 31 - c₀.toInt).toNat (by omega)
      rw [Int.toNat_of_nonneg (by omega)] at hwrap
      rw [Int.bmod_def] at hfirst hwrap
      omega

/-- **The wrap of the counter.**  The recording of a stream in order is complete, and left
alone by `check_and_fill`, exactly as long as no packet has come with a counter after
`2 ^ 31 - 1`; up to there only a missing buffer ends the receiver. -/
theorem recorded_iff_beforeWrap (hd : o.datatype = .mark5bnet) (hP : 8 ≤ o.packetSize)
    (hpos : 0 < o.bufNumElems) (c₀ : BitVec 32) :
    (∀ phase s, (receiver o).ReachableUnder (InStream o c₀) (.run phase s) →
      (Recorded o c₀ s ↔ c₀.toInt + s.totalPackets ≤ 2 ^ 31)) ∧
    ∀ h, (receiver o).ReachableUnder (fun c e => InStream o c₀ c e ∧ BeforeWrap o c₀ c e)
      (.halted h) → h = .threadExit := by
  have hknown : o.datatype ≠ .unknown := by rw [hd]; decide
  have hloop : ∀ phase s, phase ≠ .done →
      (receiver o).ReachableUnder (InStream o c₀) (.run phase s) →
      (Recorded o c₀ s ↔ c₀.toInt + s.totalPackets ≤ 2 ^ 31) := by
    intro phase s hphase hrun
    have hslot := slotInv_of_reachable hd hpos hrun.reachable hphase
    refine ⟨fun hrec => hrec.before hP hslot, fun hle => ?_⟩
    have hseq := sequenced_of_reachable hknown hpos
      (consecutive_of_inStream hd hP hrun rfl hle)
    cases phase with
    | switching => exact Sequenced.recorded hd hP hseq hslot hle
    | receiving => exact Sequenced.recorded hd hP hseq.1 hslot hle
    | leaving => exact Sequenced.recorded hd hP hseq hslot hle
    | done => exact absurd rfl hphase
  refine ⟨fun phase s hrun => ?_, fun h hrun => ?_⟩
  · by_cases hphase : phase = .done
    · subst hphase
      obtain ⟨s₀, hleaving, hsame⟩ := recorded_of_done hrun
      rw [hsame.recorded, hsame.totalPackets]
      exact hloop .leaving s₀ (by decide) hleaving
    · exact hloop phase s hphase hrun
  · have hconsecutive : (receiver o).ReachableUnder (Consecutive o c₀.toInt) (.halted h) :=
      hrun.mono fun c e hok => hok.1.consecutive hd hP hok.2
    exact sequenced_of_reachable hknown hpos hconsecutive

end Recorded

/-- The packets with counters `n` and `n + 1`. -/
def exampleTwo (n : ℤ) : List Event :=
  [.bufferSwitch none, receive n, .bufferSwitch none, receive (n + 1)]

theorem inStream_receive {c₀ : BitVec 32} {s : RecvState} {n : ℤ}
    (h : BitVec.ofInt 32 n = c₀ + BitVec.ofNat 32 s.totalPackets) :
    InStream exampleOpt c₀ (.run .receiving s) (receive n) := by
  intro _
  show word32 (setWord32 _ 4 _) 4 = _
  rw [word32_setWord32, h]

/-- Two packets in a row are in order. -/
theorem inStream_exampleTwo {c₀ : BitVec 32} {n : ℤ} (h : BitVec.ofInt 32 n = c₀) :
    System.OkFrom (InStream exampleOpt c₀) (step exampleOpt) exampleStart (exampleTwo n) := by
  have hswitch : ∀ c, InStream exampleOpt c₀ c (.bufferSwitch none) := by
    unfold InStream
    rintro (⟨phase, s⟩ | h)
    · cases phase <;> trivial
    · trivial
  refine ⟨trivial, fun c₁ h₁ => ⟨?_, fun c₂ h₂ => ⟨hswitch c₂, fun c₃ h₃ =>
    ⟨?_, fun _ _ => trivial⟩⟩⟩⟩
  · obtain rfl := Option.some.inj h₁
    refine inStream_receive ?_
    rw [h]
    exact (BitVec.add_zero c₀).symm
  · obtain rfl := Option.some.inj h₁
    obtain rfl := Option.some.inj h₂
    obtain rfl := Option.some.inj h₃
    refine inStream_receive ?_
    rw [← h, BitVec.ofInt_add]
    rfl

/-- Counters `0xffffffff` and `0`. -/
theorem recorded_iff_beforeWrap_zero :
    ∃ s, System.runFrom (step exampleOpt) exampleStart (exampleTwo (-1)) =
        some (.run .switching s) ∧ Recorded exampleOpt 0xffffffff s := by
  have hstart : (receiver exampleOpt).ReachableUnder (InStream exampleOpt 0xffffffff)
      exampleStart := .init ⟨_, _, rfl⟩
  obtain ⟨s, hrun, htotal⟩ : ∃ s, System.runFrom (step exampleOpt) exampleStart
      (exampleTwo (-1)) = some (.run .switching s) ∧ s.totalPackets = 2 := ⟨_, rfl, rfl⟩
  have hreach := hstart.runFrom (inStream_exampleTwo rfl) hrun
  refine ⟨s, hrun, ((recorded_iff_beforeWrap rfl (by decide) (by decide) 0xffffffff).1
    .switching s hreach).mpr ?_⟩
  rw [htotal]
  decide

/-- **The packet after counter `2 ^ 31 - 1` is not recorded.** -/
theorem wrap_not_recorded :
    ¬ ∀ (o : Opt) (c₀ : BitVec 32) (phase : Phase) (s : RecvState), o.datatype = .mark5bnet →
      8 ≤ o.packetSize → 0 < o.bufNumElems →
      (receiver o).ReachableUnder (InStream o c₀) (.run phase s) → Recorded o c₀ s := by
  intro hall
  have hstart : (receiver exampleOpt).ReachableUnder (InStream exampleOpt 0x7fffffff)
      exampleStart := .init ⟨_, _, rfl⟩
  obtain ⟨s, hrun, htotal, hptrs⟩ : ∃ s, System.runFrom (step exampleOpt) exampleStart
      (exampleTwo 0x7fffffff) = some (.run .switching s) ∧ s.totalPackets = 2 ∧
      s.stored.map Stored.ptr = [slot 24 0 0] := ⟨_, rfl, rfl, rfl⟩
  have hrec := hall exampleOpt 0x7fffffff .switching s rfl (by decide) (by decide)
    (hstart.runFrom (inStream_exampleTwo rfl) hrun)
  obtain ⟨st, hst, hptr, -⟩ := hrec.stored 1 (by omega)
  have hmem := List.mem_map_of_mem (f := Stored.ptr) hst
  rw [hptrs, hptr] at hmem
  exact absurd hmem (by decide)

end VlbiStreamer.Receiver
