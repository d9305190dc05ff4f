import Mathlib.Algebra.BigOperators.Group.Finset.Basic
import Mathlib.Algebra.Order.BigOperators.Group.Finset
import VlbiStreamer.Receiver.Counting
import VlbiStreamer.Receiver.Sequenced

/-!
# The number of missing packets

`missing` grows by one with every packet that `calc_bufpos_general` drops, and by the slots
that are left open when `jump_to_next_buf` gives up a held-back buffer; `udp_receiver` adds
nothing for the buffers that it closes at its end.  A packet that is dropped had its slot
in a file that was counted already, or will have it in one that will be, or has none, and
what is missing from a buffer is taken from its bytes, which a packet that comes a second
time counts again and `offset` makes too few.

* `holesHandedOver` is what is to be counted: the slots of the files handed over that never
  received their packet.
* `Regular` is the condition on the runs.
* `missing_exact` says that in such a run the two are the same, in every state.
-/

namespace VlbiStreamer.Receiver

open Library

/-- The slots of file `k`, below slot `n`, that no packet was stored in. -/
def holes (o : Opt) (l : List Stored) (k n : ℕ) : ℕ :=
  ((Finset.range n).filter fun j : ℕ => ∀ st ∈ l, st.ptr ≠ slot o.packetSize k j).card

/-- The files that were handed to the writer. -/
def filesHandedOver (s : RecvState) : Finset ℕ := (s.released.map Released.file).toFinset

/-- The slots of the files handed over, below `i` for the last one, that never received
their packet. -/
def holesHandedOver (o : Opt) (s : RecvState) : ℕ :=
  ∑ k ∈ filesHandedOver s, holes o s.stored k (if k = s.be then s.idx else o.bufNumElems)

/-- A packet that is within reach of the buffers and comes once.  Where packets are stripped,
the buffer that is held back is not given up for it, and is handed over with it only when it
is full. -/
structure Welcome (o : Opt) (s : RecvState) (q : ℤ) : Prop where
  reach : WithinReach s q
  once : ¬ Repeated s q
  notEarly : s.currentSeq ≠ int64Max →
    s.seqstartCurrent - (if s.before = none then 0 else o.bufNumElems) ≤ q
  notLate : s.currentSeq ≠ int64Max →
    q < s.seqstartCurrent + max o.bufNumElems (uint (o.bufNumElems * 2))
  givesUp : s.seqstartCurrent + o.bufNumElems ≤ q → o.offset = 0 ∨ s.before = none
  ready : q < s.seqstartCurrent → o.offset = 0 ∨ ∀ x ∈ s.incBefore, ReadyWhenFull o x

/-- The runs that count what is missing: every packet is welcome, where packets are stripped
no buffer that is held back is given up, and at the end no buffer is held back and the last
one has no holes below `i`. -/
def Regular (o : Opt) : Config → Event → Prop
  | .run .switching s, .bufferSwitch _ =>
      s.idx = o.bufNumElems → o.offset = 0 ∨ s.before = none
  | .run .receiving s, .packet received bytes metadata _ =>
      Taken o received metadata s → ∀ q ∈ numberOf o s bytes, Welcome o s q
  | .run .leaving s, .close => s.before = none ∧ s.inc = o.packetSize * s.idx
  | _, _ => True

/-! ## The holes of a file -/

section Holes

variable {o : Opt} {f q : ℤ} {l l' : List Stored} {packet : Bytes} {k k' n : ℕ}

/-- The other files have the same holes. -/
theorem StoresOne.holes_other (h : StoresOne o f q packet k l l') (hne : k' ≠ k) :
    holes o l' k' n = holes o l k' n := by
  obtain ⟨st, j, rfl, hat, -, -⟩ := h
  unfold holes
  congr 1
  refine Finset.filter_congr fun j' _ => ?_
  rw [List.forall_mem_cons, and_iff_right]
  rw [hat.ptr]
  intro heq
  exact hne (congrArg Ptr.block heq).symm

/-- A slot has received its packet, or is a hole. -/
theorem holes_add_card (hsize : 0 < o.packetSize) (hl : ∀ st ∈ l, ∃ k j, st.At o f k j)
    (hn : ∀ st ∈ l, ∀ j, st.At o f k j → j < n) :
    holes o l k n + (numbersIn l k).card = n := by
  have hnumbers : numbersIn l k = ((Finset.range n).filter fun j : ℕ =>
      ¬ ∀ st ∈ l, st.ptr ≠ slot o.packetSize k j).image
        fun j : ℕ => f + k * o.bufNumElems + (j : ℤ) := by
    ext q
    simp only [mem_numbersIn, Finset.mem_image, Finset.mem_filter, Finset.mem_range, not_forall,
      not_not]
    constructor
    · rintro ⟨st, hst, hk, rfl⟩
      obtain ⟨k', j, hat⟩ := hl st hst
      obtain rfl : k' = k := by rw [← hk, hat.ptr]; rfl
      exact ⟨j, ⟨hn st hst j hat, st, hst, hat.ptr⟩, hat.seqnum.symm⟩
    · rintro ⟨j, ⟨-, st, hst, hptr⟩, rfl⟩
      obtain ⟨k', j', hat⟩ := hl st hst
      have hsame := hat.ptr.symm.trans hptr
      simp only [slot, Ptr.mk.injEq] at hsame
      obtain ⟨rfl, hoff⟩ := hsame
      have hj : (j' : ℤ) = j := Int.eq_of_mul_eq_mul_right (by omega) hoff
      exact ⟨st, hst, by rw [hptr]; rfl, by rw [hat.seqnum, hj]⟩
  have hinj : Function.Injective fun j : ℕ => f + k * o.bufNumElems + (j : ℤ) :=
    fun j j' heq => by
      have hsum : f + k * o.bufNumElems + (j : ℤ) = f + k * o.bufNumElems + j' := heq
      omega
  rw [hnumbers, Finset.card_image_of_injective _ hinj, holes,
    Finset.card_filter_add_card_filter_not, Finset.card_range]

theorem holes_le (o : Opt) (l : List Stored) (k n : ℕ) : holes o l k n ≤ n := by
  refine (Finset.card_filter_le _ _).trans ?_
  rw [Finset.card_range]

end Holes

/-! ## What is counted -/

/-- `missing` is what is missing from the files handed over, which are from before the
current one and the one that is held back. -/
structure Tally (o : Opt) (s : RecvState) : Prop where
  missing : s.missing = ∑ k ∈ filesHandedOver s, holes o s.stored k o.bufNumElems
  files : ∀ k ∈ filesHandedOver s, k < s.cumul ∧ ∀ k' x, s.Held o k' x → k < k'

section Tally

variable {o : Opt} {f q : ℤ} {s s' : RecvState} {packet : Bytes} {content : ℤ → Byte}
  {k x received : ℕ} {bytes : Bytes}

theorem Tally.same (h : Tally o s) (hs : SameResq s s') : Tally o s' := by
  have hfiles : filesHandedOver s' = filesHandedOver s := by
    unfold filesHandedOver
    rw [hs.released]
  refine ⟨by rw [hs.missing, hfiles, hs.stored]; exact h.missing, fun k hk => ?_⟩
  rw [hfiles] at hk
  rw [hs.cumul]
  refine ⟨(h.files k hk).1, fun k' x hheld => (h.files k hk).2 k' x ?_⟩
  exact ⟨hs.before.symm.trans hheld.before, hs.bufstartBefore.symm.trans hheld.bufstartBefore,
    hs.incBefore.symm.trans hheld.incBefore, hs.cumul.symm.trans hheld.cumul⟩

theorem Tally.recv (h : Tally o s) : Tally o (recvPacket received bytes s) :=
  ⟨h.missing, fun k hk => ⟨(h.files k hk).1, fun k' x hh => (h.files k hk).2 k' x
    ⟨hh.1, hh.2, hh.3, hh.4⟩⟩⟩

theorem Tally.copyMetadata (h : Tally o s) : Tally o s.copyMetadata :=
  ⟨h.missing, fun k hk => ⟨(h.files k hk).1, fun k' x hh => (h.files k hk).2 k' x
    ⟨hh.1, hh.2, hh.3, hh.4⟩⟩⟩

/-- The holes of the files handed over, with a packet more in another file. -/
theorem StoresOne.holes_sum {l l' : List Stored} (h : StoresOne o f q packet k l l')
    {files : Finset ℕ} (hne : k ∉ files) :
    ∑ k' ∈ files, holes o l' k' o.bufNumElems = ∑ k' ∈ files, holes o l k' o.bufNumElems :=
  Finset.sum_congr rfl fun _ hk' => h.holes_other fun heq => hne (heq ▸ hk')

/-- A packet in the current buffer. -/
theorem Tally.adds (h : Tally o s) (hadds : Adds o f q packet s s') : Tally o s' := by
  have hfiles : filesHandedOver s' = filesHandedOver s := by
    unfold filesHandedOver
    rw [hadds.released]
  have hnot : s.cumul ∉ filesHandedOver s := fun hk => absurd (h.files _ hk).1 (lt_irrefl _)
  refine ⟨?_, fun k hk => ?_⟩
  · rw [hadds.missing, hfiles, hadds.stored.holes_sum hnot]
    exact h.missing
  · rw [hfiles] at hk
    rw [hadds.cumul]
    exact ⟨(h.files k hk).1, fun _ x hheld => (h.files k hk).2 _ x (hadds.held_iff.mp hheld)⟩

/-- A buffer with as many packets as slots has no holes. -/
theorem holes_of_full {l : List Stored} (hsize : 0 < o.packetSize)
    (hl : ∀ st ∈ l, ∃ k j, st.At o f k j) (hcard : o.bufNumElems ≤ (numbersIn l k).card) :
    holes o l k o.bufNumElems = 0 := by
  have hsum := holes_add_card (k := k) hsize hl fun _ _ _ hat => hat.lt
  omega

/-- A packet in the held-back buffer. -/
theorem Tally.addsBefore (h : Tally o s) (hcounts : Counts o f s) (hsize : 0 < o.packetSize)
    (hready : ReadyWhenFull o x) (hheld : s.Held o k x)
    (hadds : AddsBefore o f q packet k x s s') (hnew : q ∉ numbersIn s.stored k) :
    Tally o s' := by
  have hnot : k ∉ filesHandedOver s := fun hk => absurd ((h.files k hk).2 k x hheld) (lt_irrefl _)
  rcases hadds.handedOver with ⟨-, hstill, hreleased⟩ | ⟨hroom, hnone, hreleased⟩
  · have hfiles : filesHandedOver s' = filesHandedOver s := by
      unfold filesHandedOver
      rw [hreleased]
    refine ⟨?_, fun k' hk' => ?_⟩
    · rw [hadds.missing, hfiles, hadds.stored.holes_sum hnot]
      exact h.missing
    · rw [hfiles] at hk'
      rw [hadds.cumul]
      refine ⟨(h.files k' hk').1, fun k'' x' hheld' => ?_⟩
      obtain ⟨rfl, -⟩ := hstill.inj hheld'
      exact (h.files k' hk').2 k x hheld
  · -- the buffer is handed over: it has no holes
    have hfiles : filesHandedOver s' = insert k (filesHandedOver s) := by
      unfold filesHandedOver
      rw [hreleased, List.map_cons, List.toFinset_cons]
    have hfull : holes o s'.stored k o.bufNumElems = 0 :=
      holes_of_full hsize hadds.placed.geo.stored_at
        (hcounts.card_of_ready hsize hready hheld hadds hnew hroom)
    refine ⟨?_, fun k' hk' => ⟨?_, fun k'' x' hheld' => absurd hheld' hnone.not_held⟩⟩
    · rw [hadds.missing, hfiles, Finset.sum_insert hnot, hfull, zero_add,
        hadds.stored.holes_sum hnot]
      exact h.missing
    · rw [hfiles, Finset.mem_insert] at hk'
      rw [hadds.cumul]
      rcases hk' with rfl | hk'
      · rw [hheld.cumul]
        exact Nat.lt_succ_self k'
      · exact (h.files k' hk').1

/-- The slots of all the files so far can be counted by an `unsigned long`. -/
theorem Geo.holes_lt {l : List Stored} {files : Finset ℕ} (h : Geo o f s)
    (hfiles : ∀ k ∈ files, k < s.cumul) : ∑ k ∈ files, holes o l k o.bufNumElems < 2 ^ 64 := by
  have hcard : files.card ≤ s.cumul := by
    have hsubset : files ⊆ Finset.range s.cumul := fun k hk => Finset.mem_range.mpr (hfiles k hk)
    exact (Finset.card_le_card hsubset).trans (Finset.card_range _).le
  have hslots : ∑ k ∈ files, holes o l k o.bufNumElems ≤ s.cumul * o.bufNumElems :=
    (Finset.sum_le_card_nsmul _ _ _ fun k _ => holes_le o l k _).trans
      (Nat.mul_le_mul_right _ hcard)
  have hseq := h.seqstart
  have hcurrent := h.current
  have hlt := h.current_lt
  have hfirst := h.first_ge
  unfold int64Max at hlt
  rw [← Nat.cast_mul] at hseq
  omega

/-- A held-back buffer that is given up is counted. -/
theorem Tally.givenUp (h : Tally o s) (hplaced : Placed o f s) (hcounts : Counts o f s)
    (hsize : 0 < o.packetSize) (hgivesUp : o.offset = 0 ∨ s.before = none)
    (hj : Jumped o content s s') :
    ∃ files : Finset ℕ, (∀ k ∈ files, k < s.cumul) ∧
      s'.missing = ∑ k ∈ files, holes o s.stored k o.bufNumElems ∧
      filesHandedOver s' =
        if s.inc = calcBufsizeNooffset o then insert s.be files else files := by
  obtain ⟨old, hnone, hheld, hreleased⟩ := hj.released
  have hsplit : filesHandedOver s' = if s.inc = calcBufsizeNooffset o then
      insert s.be ((old.map Released.file).toFinset ∪ filesHandedOver s)
      else (old.map Released.file).toFinset ∪ filesHandedOver s := by
    unfold filesHandedOver
    rw [hreleased]
    split
    · rw [List.append_assoc, List.singleton_append, List.map_cons, List.toFinset_cons,
        List.map_append, List.toFinset_append]
    · rw [List.nil_append, List.map_append, List.toFinset_append]
  rcases hplaced.geo.before with hn | ⟨k, x, hh⟩
  · refine ⟨filesHandedOver s, fun k hk => (h.files k hk).1, ?_, ?_⟩
    · rw [hj.missing.1 hn]
      exact h.missing
    · rw [hsplit, hnone hn]
      rfl
  · have hoff : o.offset = 0 :=
      hgivesUp.resolve_right (by rw [hh.before]; exact Option.some_ne_none k)
    have hnot : k ∉ filesHandedOver s := fun hk => absurd ((h.files k hk).2 k x hh) (lt_irrefl _)
    have hfiles : ∀ k' ∈ insert k (filesHandedOver s), k' < s.cumul := by
      intro k' hk'
      rcases Finset.mem_insert.mp hk' with rfl | hk'
      · rw [hh.cumul]
        exact Nat.lt_succ_self k'
      · exact (h.files k' hk').1
    refine ⟨insert k (filesHandedOver s), hfiles, ?_, ?_⟩
    · have hlt := hplaced.geo.holes_lt (l := s.stored) hfiles
      have hholes := holes_add_card (k := k) hsize hplaced.geo.stored_at fun _ _ _ hat => hat.lt
      have hfits := o.bufsize_lt
      have hopen : ulong (calcBufsize o - x) = o.packetSize * holes o s.stored k o.bufNumElems := by
        have hsum : o.packetSize * holes o s.stored k o.bufNumElems + x =
            o.packetSize * o.bufNumElems := by
          rw [hcounts.incBefore k x hh, ← Nat.mul_add, hholes]
        rw [calcBufsize_eq hoff, ← hsum]
        rw [mul_comm, ← hsum] at hfits
        unfold ulong
        omega
      rw [Finset.sum_insert hnot] at hlt ⊢
      rw [hj.missing.2 k x hh, hopen, ← Int.natCast_ediv, Nat.mul_div_cancel_left _ hsize,
        h.missing]
      unfold ulong
      omega
    · rw [hsplit, hheld k x hh]
      rfl

/-- The jump to the next buffer. -/
theorem Tally.jumped (h : Tally o s) (hplaced : Placed o f s) (hcounts : Counts o f s)
    (hsize : 0 < o.packetSize) (hgivesUp : o.offset = 0 ∨ s.before = none)
    (hj : Jumped o content s s') : Tally o s' := by
  obtain ⟨files, hlt, hmissing, hfiles⟩ := h.givenUp hplaced hcounts hsize hgivesUp hj
  have hnot : s.be ∉ files := fun hk => absurd (hlt _ hk) (by rw [hplaced.geo.be]; omega)
  by_cases hfull : s.inc = calcBufsizeNooffset o
  · -- the current buffer is handed over: it has no holes
    have hnone := hj.full hfull
    rw [if_pos hfull] at hfiles
    have hcomplete : holes o s.stored s.be o.bufNumElems = 0 := by
      refine holes_of_full hsize hplaced.geo.stored_at ?_
      rw [hcounts.inc, calcBufsizeNooffset_eq] at hfull
      rw [hplaced.geo.be]
      exact (Nat.eq_of_mul_eq_mul_left hsize hfull).ge
    refine ⟨?_, fun k hk => ⟨?_, fun k' x hheld => absurd hheld hnone.not_held⟩⟩
    · rw [hmissing, hfiles, Finset.sum_insert hnot, hj.stored, hcomplete, zero_add]
    · rw [hfiles, Finset.mem_insert] at hk
      rw [hj.cumul]
      rcases hk with rfl | hk
      · rw [hplaced.geo.be]
        exact Nat.lt_succ_self _
      · exact (hlt k hk).trans (Nat.lt_succ_self _)
  · rw [if_neg hfull] at hfiles
    refine ⟨by rw [hmissing, hfiles, hj.stored], fun k hk => ?_⟩
    rw [hfiles] at hk
    rw [hj.cumul]
    refine ⟨(hlt k hk).trans (Nat.lt_succ_self _), fun k' x hheld => ?_⟩
    obtain ⟨rfl, -⟩ := (hj.held hfull).inj hheld
    exact hlt k hk

end Tally

/-! ## The runs -/

/-- A receiver that counts what is missing. -/
inductive TallyInv (o : Opt) (s : RecvState) : Prop where
  | slotless : Slotless o s → s.missing = 0 → TallyInv o s
  /-- It waits for its first packet. -/
  | fresh : 0 < o.bufNumElems → Fresh o s → s.AllInside o → s.missing = 0 → TallyInv o s
  /-- It has packets. -/
  | tallied (f : ℤ) : 0 < o.bufNumElems → 0 < o.packetSize → Placed o f s → Counts o f s →
      Tally o s → TallyInv o s

/-- Such a receiver in its loop, with room for a packet before `recv` if buffers have any,
and what it has counted when it is done. -/
def Config.Tallied (o : Opt) : Config → Prop
  | .run .switching s | .run .leaving s => TallyInv o s
  | .run .receiving s => TallyInv o s ∧ (0 < o.bufNumElems → s.idx < o.bufNumElems)
  | .run .done s => s.missing = holesHandedOver o s
  | .halted _ => True

section Runs

variable {o : Opt} {f q : ℤ} {s s' : RecvState} {free : Option (ℤ → Byte)} {received : ℕ}
  {bytes : Bytes} {c c' : Config} {e : Event} {phase : Phase}

theorem TallyInv.idx_le (h : TallyInv o s) : s.idx ≤ o.bufNumElems := by
  cases h with
  | slotless hnone hmissing =>
      rw [RecvState.idx, hnone.i]
      exact Nat.zero_le _
  | fresh hpos hf hin hmissing =>
      rw [RecvState.idx, hf.i]
      exact Nat.zero_le _
  | tallied f hpos hsize hplaced hcounts htally => exact hplaced.geo.idx_le

theorem TallyInv.same (h : TallyInv o s) (hs : SameResq s s') : TallyInv o s' := by
  cases h with
  | slotless hnone hmissing => exact .slotless (hnone.same hs) (hs.missing.trans hmissing)
  | fresh hpos hf hin hmissing =>
      exact .fresh hpos (hf.same hs) (hin.same hs) (hs.missing.trans hmissing)
  | tallied f hpos hsize hplaced hcounts htally =>
      exact .tallied f hpos hsize (hplaced.same hs) (hcounts.same hs) (htally.same hs)

theorem TallyInv.recv (h : TallyInv o s) (hroom : 0 < o.bufNumElems → s.idx < o.bufNumElems)
    (hle : received ≤ o.packetSize) : TallyInv o (recvPacket received bytes s) := by
  cases h with
  | slotless hnone hmissing =>
      exact .slotless ⟨hnone.zero, hnone.be, hnone.bufstart,
        ⟨hnone.noneHeld.1, hnone.noneHeld.2, hnone.noneHeld.3⟩, hnone.i, hnone.inc,
        hnone.stored⟩ hmissing
  | fresh hpos hf hin hmissing =>
      exact .fresh hpos (hf.recv received bytes) (inside_current hin (hroom hpos) hf.target)
        hmissing
  | tallied f hpos hsize hplaced hcounts htally =>
      exact .tallied f hpos hsize (hplaced.recv (hroom hpos) hle) hcounts.recv htally.recv

/-- The count is the number of holes. -/
theorem TallyInv.missing_eq (h : TallyInv o s) : s.missing = holesHandedOver o s := by
  unfold holesHandedOver
  cases h with
  | slotless hnone hmissing =>
      rw [hmissing]
      refine (Finset.sum_eq_zero fun k _ => ?_).symm
      refine Nat.le_zero.mp ((holes_le _ _ _ _).trans ?_)
      split
      · rw [RecvState.idx, hnone.i]
        exact le_rfl
      · exact hnone.zero.le
  | fresh hpos hf hin hmissing =>
      have hfiles : filesHandedOver s = ∅ := by
        unfold filesHandedOver
        rw [hf.released]
        rfl
      rw [hmissing, hfiles, Finset.sum_empty]
  | tallied f hpos hsize hplaced hcounts htally =>
      rw [htally.missing]
      refine Finset.sum_congr rfl fun k hk => ?_
      rw [if_neg]
      rw [hplaced.geo.be]
      exact (htally.files k hk).1.ne

/-- The end of the receiver, where the last buffer has no holes. -/
theorem TallyInv.leave (h : TallyInv o s) (hbefore : s.before = none)
    (hlast : s.inc = o.packetSize * s.idx) :
    (leaveLoop o s).missing = holesHandedOver o (leaveLoop o s) := by
  by_cases hinc : s.inc = 0
  · rw [leaveLoop_empty hbefore hinc]
    exact h.missing_eq
  · rw [leaveLoop_last hbefore hinc]
    cases h with
    | slotless hnone hmissing => exact absurd hnone.inc hinc
    | fresh hpos hf hin hmissing => exact absurd hf.inc hinc
    | tallied f hpos hsize hplaced hcounts htally =>
        have hnot : s.be ∉ filesHandedOver s := by
          rw [hplaced.geo.be]
          exact fun hk => absurd (htally.files _ hk).1 (lt_irrefl _)
        have hfiles : filesHandedOver (({ s with
            nPackets := s.nPackets + ulong s.i
            cumul := s.cumul + 1 } : RecvState).free s.be s.inc false) =
            insert s.be (filesHandedOver s) := List.toFinset_cons
        have hcomplete : holes o s.stored s.be s.idx = 0 := by
          have hbelow : ∀ st ∈ s.stored, ∀ j, st.At o f s.be j → j < s.idx := by
            intro st hst j hat
            obtain ⟨k', j', hat', -, hlt⟩ := hplaced.geo.stored st hst
            have hptr := hat.ptr.symm.trans hat'.ptr
            obtain rfl : s.be = k' := congrArg Ptr.block hptr
            have hj : j = j' := by
              have hseq := hat.seqnum.symm.trans hat'.seqnum
              omega
            rw [hj]
            exact hlt hplaced.geo.be
          have hsum := holes_add_card hsize hplaced.geo.stored_at hbelow
          rw [hcounts.inc] at hlast
          have hcard := Nat.eq_of_mul_eq_mul_left hsize hlast
          rw [← hplaced.geo.be] at hcard
          omega
        have hsum : ∑ k ∈ filesHandedOver s,
            holes o s.stored k (if k = s.be then s.idx else o.bufNumElems) =
            holesHandedOver o s := rfl
        unfold holesHandedOver
        rw [hfiles]
        show s.missing = ∑ k ∈ insert s.be (filesHandedOver s),
          holes o s.stored k (if k = s.be then s.idx else o.bufNumElems)
        rw [Finset.sum_insert hnot, if_pos rfl, hcomplete, zero_add, hsum]
        exact TallyInv.missing_eq (.tallied f hpos hsize hplaced hcounts htally)

/-- Receiving a packet does not make it less welcome. -/
theorem Arrived.welcome (ha : Arrived o s s' bytes q) (h : Welcome o s q) : Welcome o s' q where
  reach := ⟨h.reach.1, fun hne => ha.inReach (h.reach.2 (ha.same.currentSeq ▸ hne))⟩
  once hrep := h.once (ha.repeated hrep)
  notEarly := by
    rw [ha.same.currentSeq, ha.same.seqstartCurrent, ha.same.before]
    exact h.notEarly
  notLate := by
    rw [ha.same.currentSeq, ha.same.seqstartCurrent]
    exact h.notLate
  givesUp := by
    rw [ha.same.seqstartCurrent, ha.same.before]
    exact h.givesUp
  ready := by
    rw [ha.same.seqstartCurrent, ha.same.incBefore]
    exact h.ready

/-- The first packet: nothing is missing. -/
theorem Fresh.tally (h : Fresh o s) (hmissing : s.missing = 0) :
    Tally o (takeInOrder o q { s with currentSeq := q, seqstartCurrent := q }) := by
  have hfiles : filesHandedOver (takeInOrder o q
      { s with currentSeq := q, seqstartCurrent := q }) = ∅ := by
    show (s.released.map Released.file).toFinset = ∅
    rw [h.released]
    rfl
  refine ⟨?_, fun k hk => ?_⟩
  · rw [hfiles, Finset.sum_empty]
    exact hmissing
  · rw [hfiles] at hk
    exact absurd hk (Finset.notMem_empty k)

/-- **Placing a packet** that is welcome. -/
theorem Tally.placing (h : Tally o s) (hplaced : Placed o f s) (hcounts : Counts o f s)
    (hsize : 0 < o.packetSize) (hwelcome : Welcome o s q)
    (hready : q < s.seqstartCurrent → ∀ x ∈ s.incBefore, ReadyWhenFull o x)
    (hplacing : Placing o f q s s') : Tally o s' := by
  have hstarted : s.currentSeq ≠ int64Max := hplaced.geo.current_lt.ne
  have hcurrent := hplaced.geo.current
  have hidx := hplaced.geo.idx_le
  cases hplacing with
  | again hsame => exact h
  | tooEarly hbelow hnone =>
      have hearly := hwelcome.notEarly hstarted
      rcases hnone with hn | hfar
      · rw [if_pos hn.before] at hearly
        omega
      · split at hearly <;> omega
  | tooLate hgt hge hlate =>
      have hnotLate := hwelcome.notLate hstarted
      have hN := o.bufNumElems_lt
      unfold uint at hnotLate
      omega
  | here hge hbelow hne hadds hcurrent => exact h.adds hadds
  | before hheld hne hge hbelow hadds =>
      exact h.addsBefore hcounts hsize (hready hbelow _ hheld.incBefore) hheld hadds fun hmem =>
        hwelcome.once ⟨hne, Or.inr ⟨_, hheld.before, hmem⟩⟩
  | next hgt hge hbelow hj hadds hcurrent =>
      exact (h.jumped hplaced hcounts hsize (hwelcome.givesUp hge) hj).adds hadds

theorem TallyInv.place (h : TallyInv o s) (free : Option (ℤ → Byte)) (ha : Arrived o s s' bytes q)
    (hwelcome : Welcome o s q) :
    Outcome (TallyInv o) (fun _ => True) (placePacket o q free s') := by
  have hroom : s'.idx < o.bufNumElems := ha.same.idx ▸ ha.room
  have hwelcome' := ha.welcome hwelcome
  cases h with
  | slotless hnone => exact absurd ha.room (by rw [hnone.zero]; exact Nat.not_lt_zero _)
  | fresh hpos hf hin hmissing =>
      have hf' : Fresh o s' := (hf.recv _ _).copyMetadata.same ha.same
      have hin' : (recvPacket o.packetSize bytes s).copyMetadata.AllInside o :=
        inside_current hin ha.room hf.target
      have hlo : -2 ^ 63 ≤ q := ha.number_bounds.1
      rw [placePacket_fresh hf']
      exact .tallied q hpos ha.size
        (hf'.placed (hin'.same ha.same) hroom hlo hwelcome.reach.1)
        (hf'.counts hroom hlo hwelcome.reach.1) (hf'.tally (ha.same.missing.trans hmissing))
  | tallied f hpos hsize hplaced hcounts htally =>
      have hplaced' : Placed o f s' := (hplaced.recv ha.room le_rfl).copyMetadata.same ha.same
      have hcounts' : Counts o f s' := hcounts.recv.copyMetadata.same ha.same
      have htally' : Tally o s' := htally.recv.copyMetadata.same ha.same
      have hready : q < s'.seqstartCurrent → ∀ x ∈ s'.incBefore, ReadyWhenFull o x :=
        fun hbelow => (hwelcome'.ready hbelow).elim
          (fun hoff => hcounts'.readyWhenFull hplaced'.geo hoff) id
      have hreach := hwelcome'.reach.2 hplaced'.geo.current_lt.ne
      refine (placePacket_placing hplaced' hroom hreach).imp (fun s'' hp => ?_) fun _ _ => trivial
      exact .tallied f hpos hsize (hp.1.placed hplaced')
        (hcounts'.placing hplaced'.geo hready hsize hwelcome'.once hp.1)
        (htally'.placing hplaced' hcounts' hsize hwelcome' hready hp.1)

/-- The jump at the end of a buffer. -/
theorem TallyInv.jump (h : TallyInv o s) (free : Option (ℤ → Byte)) (hend : s.idx = o.bufNumElems)
    (hgivesUp : o.offset = 0 ∨ s.before = none) :
    Outcome (fun s' => TallyInv o s' ∧ (0 < o.bufNumElems → s'.idx < o.bufNumElems))
      (fun _ => True) (jumpToNextBuf o free s) := by
  cases h with
  | slotless hnone hmissing =>
      cases free with
      | none =>
          rw [jumpToNextBuf_none hnone.jumpable]
          trivial
      | some content =>
          obtain ⟨s', hjump, hj⟩ := jumpToNextBuf_spec hnone.jumpable content
          rw [hjump]
          exact ⟨.slotless (hnone.jump hj) ((hj.missing.1 hnone.noneHeld).trans hmissing),
            fun hpos => absurd hnone.zero hpos.ne'⟩
  | fresh hpos hf hin hmissing =>
      rw [RecvState.idx, hf.i] at hend
      exact absurd hend hpos.ne
  | tallied f hpos hsize hplaced hcounts htally =>
      cases free with
      | none =>
          rw [jumpToNextBuf_none hplaced.geo.jumpable]
          trivial
      | some content =>
          obtain ⟨s', hjump, hj⟩ := jumpToNextBuf_spec hplaced.geo.jumpable content
          rw [hjump]
          refine ⟨.tallied f hpos hsize (hplaced.jump hend hj)
            (hcounts.jumped hplaced.geo hsize hj)
            (htally.jumped hplaced hcounts hsize hgivesUp hj), fun _ => ?_⟩
          rw [hj.idx]
          exact hpos

/-- One step of such a run. -/
theorem Config.Tallied.step (hd : o.datatype ≠ .unknown) (h : c.Tallied o) (hok : Regular o c e)
    (hstep : step o c e = some c') : c'.Tallied o := by
  cases step_turn hstep with
  | room hne => exact ⟨h, fun _ => lt_of_le_of_ne (TallyInv.idx_le h) hne⟩
  | full hknown hfull hs htotal hn =>
      rename_i s s' free
      have hgivesUp : o.offset = 0 ∨ s'.before = none := by
        rw [hs.before]
        exact hok hfull
      have hjump := (TallyInv.same h hs).jump free (hs.idx.trans hfull) hgivesUp
      cases hr : jumpToNextBuf o free s' with
      | error h' => trivial
      | ok s'' =>
          rw [hr] at hjump
          exact hjump
  | fullUnknown hunknown hfull => exact absurd hunknown hd
  | skipped hle hphase hs htotal hn =>
      have hrecv := (h.1.recv h.2 (Int.toNat_le.mpr hle)).same hs
      rcases hphase with rfl | rfl <;> exact hrecv
  | assertI hroom => trivial
  | sigfpe hknown hnumber => trivial
  | unnumbered hunknown => exact absurd hunknown hd
  | placed hknown hsize hroom hnumber hs htotal hn hplaced =>
      rename_i s s' bytes metadata free q
      have hwelcome := hok (taken_of_placed hd hroom hstep htotal hplaced) q hnumber
      have hplace := h.1.place free ⟨hsize, hroom, hnumber, hs⟩ hwelcome
      cases hr : placePacket o q free s' with
      | error h' =>
          rw [hr] at hplaced
          rw [hplaced]
          trivial
      | ok s'' =>
          rw [hr] at hplaced hplace
          rcases hplaced with ⟨-, s₃, rfl, hs₃, -, -⟩ | ⟨-, rfl⟩
          · exact TallyInv.same hplace hs₃
          · trivial
  | stop hs htotal hn =>
      rename_i phase s s'
      cases phase with
      | switching => exact TallyInv.same h hs
      | receiving => exact ⟨h.1.same hs, hs.idx ▸ h.2⟩
      | leaving => exact TallyInv.same h hs
      | done =>
          have hsame : holesHandedOver o s' = holesHandedOver o s := by
            unfold holesHandedOver filesHandedOver
            rw [hs.released, hs.stored, hs.be, hs.idx]
          show s'.missing = _
          rw [hsame, hs.missing]
          exact h
  | leave => exact h
  | close => exact TallyInv.leave h hok.1 hok.2

/-- **The missing packets are counted** in every run that meets the condition: in every
state, `missing` is the number of slots of the files handed over that never received their
packet. -/
theorem missing_exact (hd : o.datatype ≠ .unknown)
    (h : (receiver o).ReachableUnder (Regular o) (.run phase s)) :
    s.missing = holesHandedOver o s := by
  have htallied : (Config.run phase s).Tallied o := by
    refine h.invariant ?_ fun c e c' hc hok hstep => hc.step hd hok hstep
    rintro c ⟨content, waitStart, rfl⟩
    rcases Nat.eq_zero_or_pos o.bufNumElems with hzero | hpos
    · have hfresh := fresh_udpReceiver o content waitStart
      exact .slotless ⟨hzero, rfl, hfresh.bufstart, hfresh.before, rfl, rfl, rfl⟩ rfl
    · exact .fresh hpos (fresh_udpReceiver o content waitStart)
        (fun _ hw => absurd hw List.not_mem_nil) rfl
  cases phase with
  | switching => exact TallyInv.missing_eq htallied
  | receiving => exact htallied.1.missing_eq
  | leaving => exact TallyInv.missing_eq htallied
  | done => exact htallied

end Runs

/-- Where packets are stripped, a buffer that is given up is never counted right. -/
theorem stripped_count_ne {o : Opt} {c : ℕ} (hoff : o.offset ≠ 0) (hle : o.offset ≤ o.packetSize)
    (hsize : 0 < o.packetSize) (hpos : 0 < o.bufNumElems) (hc : c ≤ o.bufNumElems) :
    ulong (calcBufsize o - (o.packetSize * c : ℕ)) / o.packetSize ≠ o.bufNumElems - c := by
  have hfits := o.bufsize_lt
  have hsplit : o.bufNumElems * (o.packetSize - o.offset) + o.bufNumElems * o.offset =
      o.bufNumElems * o.packetSize := by
    rw [← Nat.mul_add, Nat.sub_add_cancel hle]
  have hstripped : 0 < o.bufNumElems * o.offset := Nat.mul_pos hpos (Nat.pos_of_ne_zero hoff)
  have hbuf : calcBufsize o = o.bufNumElems * (o.packetSize - o.offset) := by
    unfold calcBufsize
    rw [← Nat.cast_sub hle, ← Nat.cast_mul]
    unfold ulong
    omega
  have hrest : o.packetSize * c + o.packetSize * (o.bufNumElems - c) =
      o.bufNumElems * o.packetSize := by
    rw [← Nat.mul_add, Nat.add_sub_cancel' hc, Nat.mul_comm]
  rw [hbuf]
  by_cases henough : o.packetSize * c ≤ o.bufNumElems * (o.packetSize - o.offset)
  · -- the slots of the bytes that are stripped are not counted
    refine Nat.ne_of_lt (Nat.div_lt_of_lt_mul ?_)
    unfold ulong
    omega
  · -- the difference is below zero
    have hc' : 0 < c := Nat.pos_of_ne_zero fun hzero => henough (by rw [hzero]; omega)
    have hle' : o.bufNumElems * o.packetSize ≤
        ulong ((o.bufNumElems * (o.packetSize - o.offset) : ℕ) - (o.packetSize * c : ℕ)) := by
      unfold ulong
      omega
    have hquotient := (Nat.le_div_iff_mul_le hsize).mpr hle'
    omega

/-- Where packets are not stripped, a buffer with holes may be given up. -/
theorem regular_bufferSwitch {o : Opt} (h : o.offset = 0) (c : Config)
    (free : Option (ℤ → Byte)) : Regular o c (.bufferSwitch free) := by
  cases c with
  | run phase s =>
      cases phase
      case switching => exact fun _ => Or.inl h
      all_goals exact trivial
  | halted h => exact trivial

/-- MARK5BNET packets of a bare header, two in a buffer. -/
def exampleTwoOpt : Opt where
  datatype := .mark5bnet
  bufNumElems := 2
  packetSize := 24
  offset := 0
  lastPacket := 0
  bufNumElems_lt := (by decide : 3 ≤ 2 ^ 32)
  bufsize_lt := by decide

/-- Packets `5` and `8`; packet `6`, and packet `7` of the next buffer, are lost. -/
theorem missing_exact_lost :
    ∃ s, System.runFrom (step exampleTwoOpt) exampleStart [.bufferSwitch none, receive 5,
        .bufferSwitch none, receive 8, .bufferSwitch (some fun _ => 0)] =
        some (.run .receiving s) ∧
      s.missing = 1 ∧ s.missing = holesHandedOver exampleTwoOpt s := by
  have hstart : (receiver exampleTwoOpt).ReachableUnder (Regular exampleTwoOpt) exampleStart :=
    .init ⟨_, _, rfl⟩
  obtain ⟨s₀, s₁, s, hrun₀, hrun₁, hrun₂, hrun, hread₀, hread₁, hfirst, hnone, hempty,
      hbefore, hbe, hstored, hstart₁, hseq, hone⟩ : ∃ s₀ s₁ s,
      System.runFrom (step exampleTwoOpt) exampleStart [.bufferSwitch none] =
        some (.run .receiving s₀) ∧
      System.runFrom (step exampleTwoOpt) (.run .receiving s₀) [receive 5, .bufferSwitch none] =
        some (.run .receiving s₁) ∧
      System.runFrom (step exampleTwoOpt) (.run .receiving s₁)
        [receive 8, .bufferSwitch (some fun _ => 0)] = some (.run .receiving s) ∧
      System.runFrom (step exampleTwoOpt) exampleStart [.bufferSwitch none, receive 5,
        .bufferSwitch none, receive 8, .bufferSwitch (some fun _ => 0)] =
          some (.run .receiving s) ∧
      numberOf exampleTwoOpt s₀ (setFramenumForMark5bNet (fun _ => 0) 5) = some 5 ∧
      numberOf exampleTwoOpt s₁ (setFramenumForMark5bNet (fun _ => 0) 8) = some 8 ∧
      s₀.currentSeq = int64Max ∧ s₀.before = none ∧ s₀.stored = [] ∧
      s₁.before = none ∧ s₁.be = 0 ∧ numbersIn s₁.stored 0 = {5} ∧
      s₁.seqstartCurrent = 5 ∧ s₁.currentSeq = 5 ∧ s.missing = 1 :=
    ⟨_, _, _, rfl, rfl, rfl, rfl, rfl, rfl, rfl, rfl, rfl, rfl, rfl, rfl, rfl, rfl, rfl⟩
  have hreach₀ : (receiver exampleTwoOpt).ReachableUnder (Regular exampleTwoOpt)
      (.run .receiving s₀) := by
    refine hstart.runFrom ?_ hrun₀
    exact ⟨regular_bufferSwitch rfl _ _, fun _ _ => trivial⟩
  have hok₀ : Regular exampleTwoOpt (.run .receiving s₀) (receive 5) := by
    -- it is the first packet
    rintro - q hq
    obtain rfl : 5 = q := Option.some.inj (hread₀.symm.trans hq)
    refine ⟨⟨by decide, fun hne => absurd hfirst hne⟩, ?_, fun hne => absurd hfirst hne,
      fun hne => absurd hfirst hne, fun _ => Or.inl rfl, fun _ => Or.inl rfl⟩
    rintro ⟨-, hmem | ⟨k, hk, -⟩⟩
    · rw [hempty] at hmem
      exact absurd hmem (Finset.notMem_empty _)
    · rw [hnone] at hk
      cases hk
  have hreach₁ : (receiver exampleTwoOpt).ReachableUnder (Regular exampleTwoOpt)
      (.run .receiving s₁) := by
    refine hreach₀.runFrom ?_ hrun₁
    exact ⟨hok₀, fun c _ => ⟨regular_bufferSwitch rfl c _, fun _ _ => trivial⟩⟩
  have hok₁ : Regular exampleTwoOpt (.run .receiving s₁) (receive 8) := by
    -- it is one of the next buffer
    rintro - q hq
    obtain rfl : 8 = q := Option.some.inj (hread₁.symm.trans hq)
    refine ⟨⟨by decide, fun _ => ?_⟩, ?_, fun _ => ?_, fun _ => ?_, fun _ => Or.inl rfl,
      fun _ => Or.inl rfl⟩
    · exact ⟨by decide, by rw [hstart₁]; decide, by rw [hstart₁]; decide,
        by rw [hseq]; decide, by rw [hseq]; decide⟩
    · rintro ⟨-, hmem | ⟨k, hk, -⟩⟩
      · rw [hbe, hstored] at hmem
        exact absurd hmem (by decide)
      · rw [hbefore] at hk
        cases hk
    · rw [hbefore, hstart₁]
      decide
    · rw [hstart₁]
      decide
  refine ⟨s, hrun, hone, missing_exact (by decide) (hreach₁.runFrom ?_ hrun₂)⟩
  exact ⟨hok₁, fun c _ => ⟨regular_bufferSwitch rfl c _, fun _ _ => trivial⟩⟩

/-- A slot below `n` that no packet was stored in is a hole. -/
theorem holes_pos {o : Opt} {l : List Stored} {k n j : ℕ} (hj : j < n)
    (h : slot o.packetSize k j ∉ l.map Stored.ptr) : 0 < holes o l k n := by
  refine Finset.card_pos.mpr ⟨j, Finset.mem_filter.mpr ⟨Finset.mem_range.mpr hj, ?_⟩⟩
  intro st hst heq
  exact h (List.mem_map.mpr ⟨st, hst, heq⟩)

/-- **The holes of the last buffers are not counted.**  Packets `5` and `7`, and then the
end: packet `6` is below `i`, and nothing is missing. -/
theorem missing_not_counted_at_end :
    ¬ ∀ (o : Opt) (s : RecvState), o.datatype ≠ .unknown →
      (receiver o).Reachable (.run .done s) → s.missing = holesHandedOver o s := by
  intro hall
  have hstart : (receiver exampleOpt).Reachable exampleStart := .init ⟨_, _, rfl⟩
  obtain ⟨s, hrun, hzero, hbe, hidx, hfiles, hptrs⟩ : ∃ s,
      System.runFrom (step exampleOpt) exampleStart
        [.bufferSwitch none, receive 5, .bufferSwitch none, receive 7, .stop, .leave, .close] =
          some (.run .done s) ∧
      s.missing = 0 ∧ s.be = 0 ∧ s.idx = 3 ∧ s.released.map Released.file = [0] ∧
      s.stored.map Stored.ptr = [slot 24 0 2, slot 24 0 0] :=
    ⟨_, rfl, rfl, rfl, rfl, rfl, rfl⟩
  have hhole : 0 < holes exampleOpt s.stored 0 3 := by
    refine holes_pos (show 1 < 3 by decide) ?_
    rw [hptrs]
    decide
  have hcount := hall exampleOpt s (by decide) (hstart.runFrom hrun)
  rw [hzero, holesHandedOver, filesHandedOver, hfiles, hbe, hidx] at hcount
  simp only [List.toFinset_cons, List.toFinset_nil, insert_empty_eq, Finset.sum_singleton,
    if_true] at hcount
  omega

end VlbiStreamer.Receiver
