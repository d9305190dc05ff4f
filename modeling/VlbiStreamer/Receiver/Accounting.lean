import VlbiStreamer.Receiver.Filling

/-!
# The packets of a recording

The length of a recording is kept twice: `n_packets` of the file index grows when a
buffer is switched and at the end, `total_packets` of the options with every packet
that is handled.  Neither is taken from the files: a buffer that
`calc_bufpos_general` closes early is not added to the first, and the second does
not count the slots that are left open, nor does it leave out the packets that are
dropped or stored a second time.

A packet may come late, as long as there is an open slot for it: then it is counted
for a slot that an earlier packet has left open.  `Accounts` keeps the number of open
slots of the two buffers, and `accounted_of_reachable` is about the runs that leave
none behind, where the two counts agree with the slots of the files.
-/

namespace VlbiStreamer.Receiver

open Library

/-- The packet slots of the files that were handed over: `buf_num_elems` for every
one closed before the last, and `i` for the last. -/
def slotsHandedOver (o : Opt) (s : RecvState) : ℕ :=
  (s.released.map fun r => if r.file = s.be then s.idx else o.bufNumElems).sum

/-- A packet in order: the first one, or the one after the last. -/
def InOrder (s : RecvState) (q : ℤ) : Prop :=
  (s.currentSeq = int64Max ∧ s.seqstartCurrent = int64Max) ∨ q = long (s.currentSeq + 1)

instance (s : RecvState) (q : ℤ) : Decidable (InOrder s q) :=
  inferInstanceAs (Decidable (_ ∨ _))

/-- A packet of one of the two buffers that takes a new slot or an open one. -/
inductive Fits (o : Opt) (s : RecvState) (q : ℤ) : Prop where
  | inOrder : InOrder s q → Fits o s q
  /-- Ahead in this buffer: the slots before it are left open. -/
  | ahead : 0 < long (q - s.currentSeq) → long (q - s.seqstartCurrent) < o.bufNumElems →
      s.idx + long (q - s.currentSeq) ≤ o.bufNumElems → Fits o s q
  /-- Late in this buffer, which has an open slot. -/
  | late : long (q - s.currentSeq) < 0 → 0 ≤ long (q - s.seqstartCurrent) →
      s.inc < o.packetSize * s.idx → Fits o s q
  /-- Late in the buffer that is held back, which has an open slot, and is handed over now
  only if it was the last one. -/
  | before (x : ℕ) : s.incBefore = some x → long (q - s.currentSeq) < 0 →
      -o.bufNumElems ≤ long (q - s.seqstartCurrent) → long (q - s.seqstartCurrent) < 0 →
      x < o.packetSize * o.bufNumElems → ReadyWhenFull o x → Fits o s q

instance (o : Opt) (s : RecvState) (q : ℤ) : Decidable (Fits o s q) :=
  decidable_of_iff (InOrder s q ∨
      (0 < long (q - s.currentSeq) ∧ long (q - s.seqstartCurrent) < o.bufNumElems ∧
        s.idx + long (q - s.currentSeq) ≤ o.bufNumElems) ∨
      (long (q - s.currentSeq) < 0 ∧ 0 ≤ long (q - s.seqstartCurrent) ∧
        s.inc < o.packetSize * s.idx) ∨
      ∃ x ∈ s.incBefore, long (q - s.currentSeq) < 0 ∧
        -o.bufNumElems ≤ long (q - s.seqstartCurrent) ∧ long (q - s.seqstartCurrent) < 0 ∧
        x < o.packetSize * o.bufNumElems ∧ ReadyWhenFull o x)
    ⟨fun h => h.elim .inOrder fun h => h.elim (fun h => .ahead h.1 h.2.1 h.2.2) fun h =>
        h.elim (fun h => .late h.1 h.2.1 h.2.2) fun ⟨x, hx, h⟩ =>
          .before x hx h.1 h.2.1 h.2.2.1 h.2.2.2.1 h.2.2.2.2,
      fun h => h.rec Or.inl (fun h₁ h₂ h₃ => .inr (.inl ⟨h₁, h₂, h₃⟩))
        (fun h₁ h₂ h₃ => .inr (.inr (.inl ⟨h₁, h₂, h₃⟩)))
        fun x hx h₁ h₂ h₃ h₄ h₅ => .inr (.inr (.inr ⟨x, hx, h₁, h₂, h₃, h₄, h₅⟩))⟩

/-- The runs in which every packet with a number fits, no buffer is given up with open
slots, and at the end none is open below `i`, which has to fit an `int`. -/
def Orderly (o : Opt) : Config → Event → Prop
  | .run .switching s, .bufferSwitch _ => s.idx = o.bufNumElems → s.before = none
  | .run .receiving s, .packet received bytes metadata _ =>
      o.datatype ≠ .unknown → Taken o received metadata s →
        ∀ q ∈ numberOf o s bytes, Fits o s q
  | .run .leaving s, .close =>
      s.idx < 2 ^ 31 ∧ s.inc = o.packetSize * s.idx ∧ s.before = none
  | _, _ => True

instance (o : Opt) (c : Config) (e : Event) : Decidable (Orderly o c e) := by
  unfold Orderly
  split <;> infer_instance

/-! ## The invariant -/

/-- There is no held-back buffer, or one with `d` open slots; the files before it are
handed over. -/
inductive HeldBack (o : Opt) (d : ℕ) (s : RecvState) : Prop where
  | alone : s.NoneHeld → d = 0 →
      s.released.map Released.file = (List.range s.cumul).reverse → HeldBack o d s
  | held (k c : ℕ) : o.datatype ≠ .unknown → 0 < o.packetSize →
      s.Held o k (o.packetSize * c) → c + d = o.bufNumElems →
      s.released.map Released.file = (List.range k).reverse → HeldBack o d s

/-- The counts of a receiver with `c` packets in its buffer, and `d` slots open in the one
that is held back. -/
structure Accounts (o : Opt) (c d : ℕ) (s : RecvState) : Prop where
  isInt : -2 ^ 31 ≤ s.i ∧ s.i < 2 ^ 31
  be : s.be = s.cumul
  bufstart : o.datatype ≠ .unknown → s.bufstart = slot o.packetSize s.cumul 0
  heldBack : HeldBack o d s
  inc : s.inc = o.packetSize * c
  size : s.idx ≠ 0 → 0 < o.packetSize
  le_idx : c ≤ s.idx
  unnumbered : o.datatype = .unknown → c = s.idx
  idx_le : s.idx ≤ o.bufNumElems
  nPackets : s.nPackets = o.bufNumElems * s.cumul
  total : s.totalPackets + (s.idx - c) + d = o.bufNumElems * s.cumul + s.idx

/-- In the loop the counts are those of the buffers so far; at the end they are
those of the files. -/
def Config.Accounts (o : Opt) : Config → Prop
  | .run .done s => s.nPackets = slotsHandedOver o s ∧ s.totalPackets = slotsHandedOver o s
  | .run _ s => ∃ c d, Receiver.Accounts o c d s
  | .halted _ => True

section Accounts

variable {o : Opt} {q : ℤ} {s s' s'' : RecvState} {free : Option (ℤ → Byte)} {c d k : ℕ}
  {a a' : Config} {e : Event}

/-- The held-back buffer and the files are left alone. -/
structure SameHeld (s s' : RecvState) : Prop where
  cumul : s'.cumul = s.cumul
  before : s'.before = s.before
  bufstartBefore : s'.bufstartBefore = s.bufstartBefore
  incBefore : s'.incBefore = s.incBefore
  released : s'.released = s.released

theorem HeldBack.same (h : HeldBack o d s) (hs : SameHeld s s') : HeldBack o d s' := by
  cases h with
  | alone hnone hd hfiles =>
      refine .alone ⟨hs.before.trans hnone.before, hs.bufstartBefore.trans hnone.bufstartBefore,
        hs.incBefore.trans hnone.incBefore⟩ hd ?_
      rw [hs.released, hs.cumul]
      exact hfiles
  | held k c hknown hpos hheld hsum hfiles =>
      refine .held k c hknown hpos ⟨hs.before.trans hheld.before,
        hs.bufstartBefore.trans hheld.bufstartBefore, hs.incBefore.trans hheld.incBefore,
        hs.cumul.trans hheld.cumul⟩ hsum ?_
      rw [hs.released]
      exact hfiles

/-- Without a held-back buffer no slot is open in one. -/
theorem HeldBack.of_before (h : HeldBack o d s) (hbefore : s.before = none) :
    s.NoneHeld ∧ d = 0 ∧ s.released.map Released.file = (List.range s.cumul).reverse := by
  cases h with
  | alone hnone hd hfiles => exact ⟨hnone, hd, hfiles⟩
  | held k c hknown hpos hheld =>
      rw [hheld.before] at hbefore
      cases hbefore

theorem Accounts.same (h : Accounts o c d s) (hs : SameResq s s')
    (htotal : s'.totalPackets = s.totalPackets) (hn : s'.nPackets = s.nPackets) :
    Accounts o c d s' where
  isInt := by rw [hs.i]; exact h.isInt
  be := by rw [hs.be, hs.cumul]; exact h.be
  bufstart hknown := by rw [hs.bufstart, hs.cumul]; exact h.bufstart hknown
  heldBack := h.heldBack.same
    ⟨hs.cumul, hs.before, hs.bufstartBefore, hs.incBefore, hs.released⟩
  inc := by rw [hs.inc]; exact h.inc
  size := by rw [hs.idx]; exact h.size
  le_idx := by rw [hs.idx]; exact h.le_idx
  unnumbered hunknown := by rw [hs.idx]; exact h.unnumbered hunknown
  idx_le := by rw [hs.idx]; exact h.idx_le
  nPackets := by rw [hn, hs.cumul]; exact h.nPackets
  total := by rw [htotal, hs.cumul, hs.idx]; exact h.total

theorem Accounts.recv (h : Accounts o c d s) (received : ℕ) (bytes : Bytes) :
    Accounts o c d (recvPacket received bytes s) :=
  { h with heldBack := h.heldBack.same ⟨rfl, rfl, rfl, rfl, rfl⟩ }

theorem Accounts.copyMetadata (h : Accounts o c d s) : Accounts o c d s.copyMetadata :=
  { h with heldBack := h.heldBack.same ⟨rfl, rfl, rfl, rfl, rfl⟩ }

/-- The numbers of the receiver are not counted. -/
theorem Accounts.moved (h : Accounts o c d s) (current seqstart : ℤ) :
    Accounts o c d { s with currentSeq := current, seqstartCurrent := seqstart } :=
  { h with heldBack := h.heldBack.same ⟨rfl, rfl, rfl, rfl, rfl⟩ }

/-- A packet more in the current buffer, which now goes up to `i`. -/
structure TakesOne (o : Opt) (s s' : RecvState) : Prop where
  isInt : -2 ^ 31 ≤ s'.i ∧ s'.i < 2 ^ 31
  be : s'.be = s.be
  bufstart : s'.bufstart = s.bufstart
  held : SameHeld s s'
  inc : s'.inc = ulong (s.inc + o.packetSize)
  nPackets : s'.nPackets = s.nPackets
  totalPackets : s'.totalPackets = s.totalPackets

theorem takeInOrder_takes (q : ℤ) (s : RecvState) : TakesOne o s (takeInOrder o q s) :=
  ⟨int_isInt _, rfl, rfl, ⟨rfl, rfl, rfl, rfl, rfl⟩, rfl, rfl, rfl⟩

/-- A packet more, and as many slots as there are for it, once `countPacket` has counted
it. -/
theorem Accounts.takes (h : Accounts o c d s) (hsize : 0 < o.packetSize)
    (ht : TakesOne o s s') (hopen : c < s'.idx) (hroom : s'.idx ≤ o.bufNumElems)
    (hnext : o.datatype = .unknown → s'.idx = s.idx + 1)
    (hs : SameResq s' s'') (htotal : s''.totalPackets = s'.totalPackets + 1)
    (hn : s''.nPackets = s'.nPackets) : Accounts o (c + 1) d s'' where
  isInt := by rw [hs.i]; exact ht.isInt
  be := by rw [hs.be, hs.cumul, ht.be, ht.held.cumul]; exact h.be
  bufstart hknown := by
    rw [hs.bufstart, hs.cumul, ht.bufstart, ht.held.cumul]
    exact h.bufstart hknown
  heldBack := (h.heldBack.same ht.held).same
    ⟨hs.cumul, hs.before, hs.bufstartBefore, hs.incBefore, hs.released⟩
  inc := by
    rw [hs.inc, ht.inc, h.inc]
    exact ulong_count (by omega)
  size _ := hsize
  le_idx := by rw [hs.idx]; exact hopen
  unnumbered hunknown := by rw [hs.idx, hnext hunknown, h.unnumbered hunknown]
  idx_le := by rw [hs.idx]; exact hroom
  nPackets := by rw [hn, hs.cumul, ht.nPackets, ht.held.cumul]; exact h.nPackets
  total := by
    have hcount := h.total
    have hbelow := h.le_idx
    rw [htotal, hs.cumul, hs.idx, ht.totalPackets, ht.held.cumul]
    omega

/-- `countPacket` after such a packet. -/
theorem Accounts.counted (h : Accounts o c d s) (hsize : 0 < o.packetSize)
    (ht : TakesOne o s s') (hopen : c < s'.idx) (hroom : s'.idx ≤ o.bufNumElems)
    (hnext : o.datatype = .unknown → s'.idx = s.idx + 1)
    (hplaced : placed o (.ok s') a) : a.Accounts o := by
  rcases hplaced with ⟨-, s'', rfl, hs, htotal, hn⟩ | ⟨-, rfl⟩
  · exact ⟨c + 1, d, h.takes hsize ht hopen hroom hnext hs htotal hn⟩
  · trivial

theorem range_files (n : ℕ) : n :: (List.range n).reverse = (List.range (n + 1)).reverse := by
  rw [List.range_succ, List.reverse_append]
  rfl

/-! ## The place of a packet -/

/-- What decides whether a packet fits. -/
theorem Fits.same (h : Fits o s q) {received : ℕ} {bytes : Bytes}
    (hs : SameResq (recvPacket received bytes s).copyMetadata s') : Fits o s' q := by
  have hcurrent : s'.currentSeq = s.currentSeq := hs.currentSeq
  have hseq : s'.seqstartCurrent = s.seqstartCurrent := hs.seqstartCurrent
  have hidx : s'.idx = s.idx := hs.idx
  have hinc : s'.inc = s.inc := hs.inc
  have hincBefore : s'.incBefore = s.incBefore := hs.incBefore
  cases h with
  | inOrder hin =>
      refine .inOrder ?_
      unfold InOrder at hin ⊢
      rw [hcurrent, hseq]
      exact hin
  | ahead hafter hin hend =>
      exact .ahead (by rwa [hcurrent]) (by rwa [hseq]) (by rwa [hcurrent, hidx])
  | late hbefore hin hopen =>
      exact .late (by rwa [hcurrent]) (by rwa [hseq]) (by rwa [hinc, hidx])
  | before x hx hbefore hin hbelow hopen hready =>
      exact .before x (by rwa [hincBefore]) (by rwa [hcurrent]) (by rwa [hseq]) (by rwa [hseq])
        hopen hready

/-- A packet in order fills the next slot. -/
theorem placePacket_inOrder (free : Option (ℤ → Byte)) (h : InOrder s q) :
    ∃ current seqstart,
    placePacket o q free s = .ok (takeInOrder o q
      { s with currentSeq := current, seqstartCurrent := seqstart }) := by
  unfold placePacket
  by_cases hfirst : s.currentSeq = int64Max ∧ s.seqstartCurrent = int64Max
  · exact ⟨q, q, if_pos hfirst⟩
  · have hnext := h.resolve_left hfirst
    rw [if_neg hfirst, if_pos hnext]
    exact ⟨_, _, rfl⟩

/-- The place of another packet goes by its differences. -/
theorem InOrder.apart (h : ¬ InOrder s q) (hne : long (q - s.currentSeq) ≠ 0) :
    ¬ (s.currentSeq = int64Max ∧ s.seqstartCurrent = int64Max) ∧
      q ≠ long (s.currentSeq + 1) ∧ q ≠ s.currentSeq := by
  obtain ⟨hstarted, hnext⟩ := not_or.mp h
  refine ⟨hstarted, hnext, ?_⟩
  rintro rfl
  rw [sub_self] at hne
  exact hne rfl

theorem placePacket_ahead (free : Option (ℤ → Byte)) (h : ¬ InOrder s q)
    (hafter : 0 < long (q - s.currentSeq))
    (hin : long (q - s.seqstartCurrent) < o.bufNumElems) :
    placePacket o q free s =
      .ok (storeAhead o q (long (q - s.seqstartCurrent)) (long (q - s.currentSeq)) s) := by
  obtain ⟨hstarted, hnext, hnew⟩ := InOrder.apart h hafter.ne'
  unfold placePacket
  rw [if_neg hstarted, if_neg hnext, if_neg hnew]
  exact (if_neg (not_lt.mpr hafter.le)).trans (if_neg (not_le.mpr hin))

theorem placePacket_late (free : Option (ℤ → Byte)) (h : ¬ InOrder s q)
    (hbefore : long (q - s.currentSeq) < 0) (hin : 0 ≤ long (q - s.seqstartCurrent)) :
    placePacket o q free s = .ok (storeBehind o q (long (q - s.seqstartCurrent)) s) := by
  obtain ⟨hstarted, hnext, hnew⟩ := InOrder.apart h hbefore.ne
  unfold placePacket
  rw [if_neg hstarted, if_neg hnext, if_neg hnew]
  exact (if_pos hbefore).trans (if_neg (not_lt.mpr hin))

theorem placePacket_before (free : Option (ℤ → Byte)) (h : ¬ InOrder s q) {before : Ptr}
    (hstart : s.bufstartBefore = some before) (hbefore : long (q - s.currentSeq) < 0)
    (hin : -o.bufNumElems ≤ long (q - s.seqstartCurrent))
    (hbelow : long (q - s.seqstartCurrent) < 0) :
    placePacket o q free s = storeBefore o q (long (q - s.seqstartCurrent)) before s := by
  obtain ⟨hstarted, hnext, hnew⟩ := InOrder.apart h hbefore.ne
  unfold placePacket
  rw [if_neg hstarted, if_neg hnext, if_neg hnew, hstart]
  exact (if_pos hbefore).trans ((if_pos hbelow).trans (if_neg (not_lt.mpr hin)))

/-- The current buffer and the counts are left alone. -/
structure SameCurrent (s s' : RecvState) : Prop where
  i : s'.i = s.i
  be : s'.be = s.be
  bufstart : s'.bufstart = s.bufstart
  inc : s'.inc = s.inc
  cumul : s'.cumul = s.cumul
  nPackets : s'.nPackets = s.nPackets
  totalPackets : s'.totalPackets = s.totalPackets

/-- A packet more and a slot less open in the held-back buffer. -/
theorem Accounts.fillsOpen (h : Accounts o c (d + 1) s) (hknown : o.datatype ≠ .unknown)
    (ht : SameCurrent s s') (hheldBack : HeldBack o d s') (hs : SameResq s' s'')
    (htotal : s''.totalPackets = s'.totalPackets + 1) (hn : s''.nPackets = s'.nPackets) :
    Accounts o c d s'' := by
  have hidx : s''.idx = s.idx := hs.idx.trans (congrArg uint ht.i)
  have hcount := h.total
  exact
    { isInt := by rw [hs.i, ht.i]; exact h.isInt
      be := by rw [hs.be, ht.be, hs.cumul, ht.cumul]; exact h.be
      bufstart := fun hknown => by
        rw [hs.bufstart, ht.bufstart, hs.cumul, ht.cumul]
        exact h.bufstart hknown
      heldBack := hheldBack.same
        ⟨hs.cumul, hs.before, hs.bufstartBefore, hs.incBefore, hs.released⟩
      inc := by rw [hs.inc, ht.inc]; exact h.inc
      size := by rw [hidx]; exact h.size
      le_idx := by rw [hidx]; exact h.le_idx
      unnumbered := fun hunknown => absurd hunknown hknown
      idx_le := by rw [hidx]; exact h.idx_le
      nPackets := by rw [hn, ht.nPackets, hs.cumul, ht.cumul]; exact h.nPackets
      total := by
        rw [htotal, ht.totalPackets, hs.cumul, ht.cumul, hidx]
        omega }

/-- A late packet of the held-back buffer fills one of its open slots. -/
theorem Accounts.before (h : Accounts o c d s) {x : ℕ} (hx : s.incBefore = some x)
    (hlt : x < o.packetSize * o.bufNumElems) (hready : ReadyWhenFull o x) (diff : ℤ) :
    ∃ before s₁ d', s.bufstartBefore = some before ∧
      storeBefore o q diff before s = .ok s₁ ∧
      ∀ s', SameResq s₁ s' → s'.totalPackets = s₁.totalPackets + 1 →
        s'.nPackets = s₁.nPackets → Accounts o c d' s' := by
  cases h.heldBack with
  | alone hnone =>
      rw [hnone.incBefore] at hx
      cases hx
  | held k c₁ hknown hpos hheld hsum hfiles =>
      obtain rfl : x = o.packetSize * c₁ := Option.some.inj (hx.symm.trans hheld.incBefore)
      have hless : c₁ < o.bufNumElems := Nat.lt_of_mul_lt_mul_left hlt
      obtain ⟨d, rfl⟩ : ∃ d', d = d' + 1 := ⟨d - 1, by omega⟩
      have hcount := ulong_count (o := o) hless
      have htest := storeBefore_test (q := q) hheld diff
      unfold ReadyWhenFull at hready
      rw [hcount] at htest hready
      have hbefore := hheld.putBefore (q := q) (slot o.packetSize k (o.bufNumElems + diff))
      rw [hcount] at hbefore
      revert htest
      generalize hr : storeBefore o q diff (slot o.packetSize k 0) s = r
      intro htest
      cases htest with
      | ready hnow =>
          -- it was the last open slot, and the buffer is handed over
          have hall := hready hnow
          rw [← Nat.mul_succ] at hall
          have hfull : o.bufNumElems ≤ c₁ + 1 := Nat.le_of_mul_le_mul_left hall hpos
          obtain rfl : d = 0 := by omega
          refine ⟨_, _, 0, hheld.bufstartBefore, hr, fun s' =>
            h.fillsOpen hknown ⟨rfl, rfl, rfl, rfl, rfl, rfl, rfl⟩ (.alone ⟨rfl, rfl, rfl⟩ rfl ?_)⟩
          show k :: s.released.map Released.file = (List.range s.cumul).reverse
          rw [hfiles, hheld.cumul, range_files]
      | notYet hnot =>
          exact ⟨_, _, d, hheld.bufstartBefore, hr, fun s' =>
            h.fillsOpen hknown ⟨rfl, rfl, rfl, rfl, rfl, rfl, rfl⟩
              (.held k (c₁ + 1) hknown hpos hbefore (by omega) hfiles)⟩

/-- **A packet that fits** keeps the counts right. -/
theorem Accounts.fits (h : Accounts o c d s) (hknown : o.datatype ≠ .unknown)
    (hsize : 0 < o.packetSize) (hroom : s.idx < o.bufNumElems) (hfits : Fits o s q)
    (hplaced : placed o (placePacket o q free s) a) : a.Accounts o := by
  have hnumbered : ∀ {n : ℕ}, o.datatype = .unknown → n = s.idx + 1 := fun hunknown =>
    absurd hunknown hknown
  have hle := h.le_idx
  by_cases horder : InOrder s q
  · obtain ⟨current, seqstart, hplace⟩ := placePacket_inOrder (o := o) free horder
    rw [hplace] at hplaced
    have hmoved := h.moved current seqstart
    have hidx := takeInOrder_idx (q := q)
      (s := { s with currentSeq := current, seqstartCurrent := seqstart }) hroom
    have hidx' : (takeInOrder o q { s with
        currentSeq := current, seqstartCurrent := seqstart }).idx = s.idx + 1 := hidx
    exact hmoved.counted hsize (takeInOrder_takes q _) (by omega) (by omega) hnumbered hplaced
  cases hfits with
  | inOrder hin => exact absurd hin horder
  | ahead hafter hin hend =>
      rw [placePacket_ahead free horder hafter hin] at hplaced
      have hN := o.bufNumElems_lt
      have hidx : ((storeAhead o q (long (q - s.seqstartCurrent)) (long (q - s.currentSeq)) s).idx
          : ℤ) = s.idx + long (q - s.currentSeq) :=
        uint_int_add (by omega) (show (s.idx : ℤ) + long (q - s.currentSeq) < 2 ^ 32 by omega)
      have ht : TakesOne o s
          (storeAhead o q (long (q - s.seqstartCurrent)) (long (q - s.currentSeq)) s) :=
        ⟨int_isInt _, rfl, rfl, ⟨rfl, rfl, rfl, rfl, rfl⟩, rfl, rfl, rfl⟩
      exact h.counted hsize ht (by omega) (by omega) hnumbered hplaced
  | late hbefore hin hopen =>
      rw [placePacket_late free horder hbefore hin] at hplaced
      rw [h.inc] at hopen
      have ht : TakesOne o s (storeBehind o q (long (q - s.seqstartCurrent)) s) :=
        ⟨h.isInt, rfl, rfl, ⟨rfl, rfl, rfl, rfl, rfl⟩, rfl, rfl, rfl⟩
      exact h.counted hsize ht (Nat.lt_of_mul_lt_mul_left hopen) h.idx_le hnumbered hplaced
  | before x hx hbefore hin hbelow hopen hready =>
      obtain ⟨start, s₁, d', hstart, hstore, hcounts⟩ :=
        h.before (q := q) hx hopen hready (long (q - s.seqstartCurrent))
      rw [placePacket_before free horder hstart hbefore hin hbelow, hstore] at hplaced
      rcases hplaced with ⟨-, s', rfl, hs, htotal, hn⟩ | ⟨-, rfl⟩
      · exact ⟨c, d', hcounts s' hs htotal hn⟩
      · trivial

/-! ## The switch and the end -/

/-- A switch hands the buffer over, or holds it back with its open slots. -/
theorem Accounts.switched {content : ℤ → Byte} (h : Accounts o c d s)
    (hknown : o.datatype ≠ .unknown) (hend : s.idx = o.bufNumElems) (hbefore : s.before = none)
    (hs : SameResq s s') (htotal : s'.totalPackets = s.totalPackets)
    (hn : s'.nPackets = s.nPackets + o.bufNumElems) (hj : Jumped o content s' s'') :
    Accounts o 0 (o.bufNumElems - c) s'' := by
  obtain ⟨hnone, rfl, hfiles⟩ := h.heldBack.of_before hbefore
  have hcount := h.total
  have hle := h.le_idx
  have hidx : s''.idx = 0 := hj.idx
  have hinc : s'.inc = o.packetSize * c := hs.inc.trans h.inc
  obtain ⟨old, hold, -, hreleased⟩ := hj.released
  rw [hold (hs.noneHeld hnone), List.append_nil, hs.released, hs.be, h.be] at hreleased
  exact
    { isInt := by rw [hj.i]; omega
      be := hj.be.trans hj.cumul.symm
      bufstart := fun _ => by rw [hj.bufstart, hj.cumul]
      heldBack := by
        by_cases hfull : s'.inc = calcBufsizeNooffset o
        · have hall : o.bufNumElems - c = 0 := by
            rcases Nat.eq_zero_or_pos o.bufNumElems with hzero | hpos
            · omega
            · have hsize := h.size (by omega)
              rw [hinc, calcBufsizeNooffset_eq] at hfull
              have hc := Nat.eq_of_mul_eq_mul_left hsize hfull
              omega
          refine .alone (hj.full hfull) hall ?_
          rw [hreleased, if_pos hfull, hj.cumul, hs.cumul, ← range_files, ← hfiles]
          rfl
        · have hpos : 0 < o.bufNumElems := by
            by_contra hzero
            apply hfull
            rw [hinc, calcBufsizeNooffset_eq]
            congr 1
            omega
          have hheld := hj.held hfull
          rw [hinc, hs.cumul] at hheld
          refine .held s.cumul c hknown (h.size (by omega)) hheld (by omega) ?_
          rw [hreleased, if_neg hfull]
          exact hfiles
      inc := hj.inc
      size := fun hne => absurd hidx hne
      le_idx := Nat.zero_le _
      unnumbered := fun _ => hidx.symm
      idx_le := by omega
      nPackets := by rw [hj.counts.2.1, hn, h.nPackets, hj.cumul, hs.cumul, Nat.mul_succ]
      total := by
        rw [hj.counts.1, htotal, hj.cumul, hs.cumul, Nat.mul_succ]
        omega }

/-- Without numbers every buffer is handed over. -/
theorem Accounts.switchedUnknown (h : Accounts o c d s) (hunknown : o.datatype = .unknown)
    (hend : s.idx = o.bufNumElems) (free : Option (ℤ → Byte)) :
    (Config.ofExcept (.run .receiving) (handleBufferSwitch o free s)).Accounts o := by
  unfold handleBufferSwitch
  rw [if_pos (show uint s.i = _ from hend), if_pos hunknown]
  cases free with
  | none => trivial
  | some content =>
      have hcount := h.total
      have hall := h.unnumbered hunknown
      cases h.heldBack with
      | held k c₁ hknown => exact absurd hunknown hknown
      | alone hnone hd hfiles =>
          refine ⟨0, 0, ?_⟩
          exact
            { isInt := by show -2 ^ 31 ≤ (0 : ℤ) ∧ (0 : ℤ) < 2 ^ 31; omega
              be := rfl
              bufstart := fun hknown => absurd hunknown hknown
              heldBack := .alone ⟨hnone.1, hnone.2, hnone.3⟩ rfl (by
                show s.be :: s.released.map Released.file = (List.range (s.cumul + 1)).reverse
                rw [hfiles, h.be, range_files])
              inc := rfl
              size := fun hne => absurd rfl hne
              le_idx := Nat.zero_le _
              unnumbered := fun _ => rfl
              idx_le := Nat.zero_le _
              nPackets := by
                show s.nPackets + o.bufNumElems = o.bufNumElems * (s.cumul + 1)
                rw [h.nPackets, Nat.mul_succ]
              total := by
                show s.totalPackets + (0 - 0) + 0 = o.bufNumElems * (s.cumul + 1) + 0
                rw [Nat.mul_succ]
                omega }

/-- The files before the current one have all their slots. -/
theorem slotsHandedOver_files (hbe : s.be = s.cumul)
    (hfiles : s.released.map Released.file = (List.range s.cumul).reverse) :
    slotsHandedOver o s = o.bufNumElems * s.cumul := by
  have hsum : slotsHandedOver o s = ((s.released.map Released.file).map fun k =>
      if k = s.be then s.idx else o.bufNumElems).sum := by
    unfold slotsHandedOver
    rw [List.map_map]
    rfl
  rw [hsum, hfiles, hbe]
  have hall : (List.range s.cumul).reverse.map
      (fun k => if k = s.cumul then s.idx else o.bufNumElems) =
      List.replicate s.cumul o.bufNumElems := by
    rw [List.eq_replicate_iff]
    refine ⟨by simp, ?_⟩
    intro n hn
    obtain ⟨k, hk, rfl⟩ := List.mem_map.mp hn
    rw [List.mem_reverse, List.mem_range] at hk
    exact if_neg hk.ne
  rw [hall, List.sum_replicate_nat, mul_comm]

/-- **The end of the receiver** counts the last buffer. -/
theorem Accounts.leave (h : Accounts o c d s) (hlt : s.idx < 2 ^ 31)
    (hall : s.inc = o.packetSize * s.idx) (hbefore : s.before = none) :
    (leaveLoop o s).nPackets = slotsHandedOver o (leaveLoop o s) ∧
    (leaveLoop o s).totalPackets = slotsHandedOver o (leaveLoop o s) := by
  obtain ⟨-, rfl, hfiles⟩ := h.heldBack.of_before hbefore
  have hslots := slotsHandedOver_files (o := o) h.be hfiles
  have hcount := h.total
  have hle := h.le_idx
  by_cases hinc : s.inc = 0
  · have hidx : s.idx = 0 := by
      by_contra hne
      have hpos := h.size hne
      rw [hall] at hinc
      rcases Nat.mul_eq_zero.mp hinc with hzero | hzero <;> omega
    rw [leaveLoop_empty hbefore hinc, hslots]
    exact ⟨h.nPackets, by omega⟩
  · have hi : ulong s.i = s.idx := by
      have hisInt := h.isInt
      unfold RecvState.idx uint at hlt ⊢
      unfold ulong
      omega
    have hc : c = s.idx := by
      have hsize : 0 < o.packetSize := by
        by_contra hzero
        rw [hall, Nat.eq_zero_of_not_pos hzero, Nat.zero_mul] at hinc
        exact hinc rfl
      exact Nat.eq_of_mul_eq_mul_left hsize (h.inc.symm.trans hall)
    rw [leaveLoop_last hbefore hinc]
    have hlast : slotsHandedOver o
        (({ s with nPackets := s.nPackets + ulong s.i, cumul := s.cumul + 1 } : RecvState).free
          s.be s.inc false) = s.idx + slotsHandedOver o s := by
      show (List.map _ (_ :: s.released)).sum = _
      rw [List.map_cons, List.sum_cons]
      congr 1
      exact if_pos rfl
    rw [hlast, hslots]
    constructor
    · show s.nPackets + ulong s.i = _
      rw [hi, h.nPackets, Nat.add_comm]
    · show s.totalPackets = _
      omega

/-! ## The runs -/

/-- One turn keeps the counts right. -/
theorem Accounts.turn (h : a.Accounts o) (hok : Orderly o a e) (hstep : step o a e = some a') :
    a'.Accounts o := by
  cases step_turn hstep with
  | room hne => exact h
  | full hknown hfull hs htotal hn =>
      rename_i s s' free
      obtain ⟨c, d, hs₀⟩ : ∃ c d, Receiver.Accounts o c d s := h
      have hbefore : s.before = none := hok hfull
      have hnone := (hs₀.heldBack.of_before hbefore).1
      have hjumpable : Jumpable o s' :=
        ⟨by rw [hs.be, hs.cumul]; exact hs₀.be,
          by rw [hs.bufstart, hs.cumul]; exact hs₀.bufstart hknown, Or.inl (hs.noneHeld hnone)⟩
      cases free with
      | none =>
          rw [jumpToNextBuf_none hjumpable]
          trivial
      | some content =>
          obtain ⟨s'', hjump, hj⟩ := jumpToNextBuf_spec hjumpable content
          rw [hjump]
          exact ⟨0, _, hs₀.switched hknown hfull hbefore hs htotal hn hj⟩
  | fullUnknown hunknown hfull =>
      rename_i s free
      obtain ⟨c, d, hs₀⟩ : ∃ c d, Receiver.Accounts o c d s := h
      exact hs₀.switchedUnknown hunknown hfull free
  | skipped hle hphase hs htotal hn =>
      obtain ⟨c, d, hs₀⟩ := h
      have hsame := (hs₀.recv _ _).same hs htotal hn
      rcases hphase with rfl | rfl <;> exact ⟨c, d, hsame⟩
  | assertI hroom => trivial
  | sigfpe hknown hnumber => trivial
  | placed hknown hsize hroom hnumber hs htotal hn hplaced =>
      rename_i s s' bytes metadata free q
      obtain ⟨c, d, hs₀⟩ : ∃ c d, Receiver.Accounts o c d s := h
      have htaken := taken_of_placed hknown hroom hstep htotal hplaced
      have hfits : Fits o s q := hok hknown htaken q hnumber
      have hs' : Receiver.Accounts o c d s' := (hs₀.recv _ _).copyMetadata.same hs htotal hn
      exact hs'.fits hknown hsize (hs.idx ▸ hroom) (hfits.same hs) hplaced
  | unnumbered hunknown hsize hroom hs htotal hn hplaced =>
      rename_i s s' bytes metadata free
      obtain ⟨c, d, hs₀⟩ : ∃ c d, Receiver.Accounts o c d s := h
      have hs' := (hs₀.recv _ _).same hs htotal hn
      have hroom' : s'.idx < o.bufNumElems := hs.idx ▸ hroom
      have hidx := takeInOrder_idx (q := 0) hroom'
      have hle := hs'.le_idx
      exact hs'.counted hsize (takeInOrder_takes 0 s') (by omega) (by omega) (fun _ => hidx)
        hplaced
  | stop hs htotal hn =>
      rename_i phase s s'
      cases phase with
      | done =>
          have hslots : slotsHandedOver o s' = slotsHandedOver o s := by
            unfold slotsHandedOver
            rw [hs.released, hs.be, hs.idx]
          show s'.nPackets = _ ∧ s'.totalPackets = _
          rw [hslots, hn, htotal]
          exact h
      | switching => exact ⟨_, _, h.choose_spec.choose_spec.same hs htotal hn⟩
      | receiving => exact ⟨_, _, h.choose_spec.choose_spec.same hs htotal hn⟩
      | leaving => exact ⟨_, _, h.choose_spec.choose_spec.same hs htotal hn⟩
  | leave => exact h
  | close =>
      obtain ⟨c, d, hs₀⟩ := h
      exact hs₀.leave hok.1 hok.2.1 hok.2.2

theorem Accounts.init (content : ℤ → Byte) (waitStart : Bool) :
    Accounts o 0 0 (udpReceiver content waitStart) where
  isInt := by show -2 ^ 31 ≤ (0 : ℤ) ∧ (0 : ℤ) < 2 ^ 31; omega
  be := rfl
  bufstart _ := slot_zero.symm
  heldBack := .alone ⟨rfl, rfl, rfl⟩ rfl rfl
  inc := rfl
  size := fun hne => absurd rfl hne
  le_idx := Nat.zero_le _
  unnumbered _ := rfl
  idx_le := Nat.zero_le _
  nPackets := rfl
  total := rfl

/-- **The packets are accounted for** at the end of every run whose late packets find open
slots and which leaves none behind: both counts are those of the slots that were handed
over. -/
theorem accounted_of_reachable (h : (receiver o).ReachableUnder (Orderly o) (.run .done s)) :
    s.nPackets = slotsHandedOver o s ∧ s.totalPackets = slotsHandedOver o s := by
  have hall : (Config.run .done s).Accounts o := by
    refine h.invariant ?_ fun c e c' hc hok hstep => Accounts.turn hc hok hstep
    rintro c ⟨content, waitStart, rfl⟩
    exact ⟨0, 0, Accounts.init content waitStart⟩
  exact hall

end Accounts

/-- The receiver is stopped and ends. -/
def ending : List Event := [.stop, .leave, .close]

/-- A turn of the loop with packet `n`. -/
def turn (n : ℤ) : List Event := [.bufferSwitch (some fun _ => 0), receive n]

/-- Packet `7` comes after `8` and `9`, when its buffer is held back. -/
def exampleHeldBack : List Event := [5, 6, 8, 9, 7].flatMap turn ++ ending

theorem accounted_of_reachable_heldBack :
    ∃ s, System.runFrom (step exampleOpt) exampleStart exampleHeldBack = some (.run .done s) ∧
      s.released.map Released.file = [1, 0] ∧ slotsHandedOver exampleOpt s = 5 ∧
      s.nPackets = slotsHandedOver exampleOpt s ∧
      s.totalPackets = slotsHandedOver exampleOpt s := by
  have hstart : (receiver exampleOpt).ReachableUnder (Orderly exampleOpt) exampleStart :=
    .init ⟨_, _, rfl⟩
  obtain ⟨s, hrun, hfiles, hslots⟩ : ∃ s,
      System.runFrom (step exampleOpt) exampleStart exampleHeldBack = some (.run .done s) ∧
      s.released.map Released.file = [1, 0] ∧ slotsHandedOver exampleOpt s = 5 :=
    ⟨_, rfl, rfl, rfl⟩
  have hok : System.OkFrom (Orderly exampleOpt) (step exampleOpt) exampleStart exampleHeldBack := by
    decide +kernel
  exact ⟨s, hrun, hfiles, hslots, accounted_of_reachable (hstart.runFrom hok hrun)⟩

/-- Packet `5`, and packet `10` of the next buffer. -/
def exampleEarlySwitch : List Event :=
  .bufferSwitch none :: receive 5 :: .bufferSwitch none :: receive 10 :: ending

/-- **An early switch is not counted.** -/
theorem early_switch_not_counted :
    ¬ ∀ (o : Opt) (s : RecvState), (receiver o).Reachable (.run .done s) →
      s.nPackets = slotsHandedOver o s ∧ s.totalPackets = slotsHandedOver o s := by
  intro hall
  have hstart : (receiver exampleOpt).Reachable exampleStart := .init ⟨_, _, rfl⟩
  obtain ⟨s, hrun, hne⟩ : ∃ s, System.runFrom (step exampleOpt) exampleStart
      exampleEarlySwitch = some (.run .done s) ∧
      s.nPackets ≠ slotsHandedOver exampleOpt s := ⟨_, rfl, by decide⟩
  exact hne (hall exampleOpt s (hstart.runFrom hrun)).1

end VlbiStreamer.Receiver
