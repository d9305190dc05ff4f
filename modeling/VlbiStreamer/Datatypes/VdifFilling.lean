import VlbiStreamer.Datatypes.CheckAndFill

/-!
# Filling a VDIF recording

`header_match` calls `getseq_vdif` on both headers, and the comma operator drops the
number of the first: what is compared with zero is the number of the model header, which
`increment_header` leaves as it is, the header of the first packet of the recording.

So the pass over a file does the same in every slot.  If the recording began with frame 0
of a second, or with a rate that was learned as zero, no header is ever replaced; otherwise
every header is, by the first one.  `leavesGood_iff` and `fillsVdif_iff` say what that
means for a recording without gaps and for one with a wrong header.
-/

namespace VlbiStreamer.Datatypes

open Library Receiver

/-- A header has the second and the frame number of a tick, `rate` frames in a second. -/
def HasStamp (rate t : ℕ) (header : Bytes) : Prop :=
  (word32be header 0).toNat % 2 ^ 30 = t / rate ∧ (word32be header 4).toNat % 2 ^ 24 = t % rate

/-- The stamp is in the first two words. -/
theorem HasStamp.congr {rate t : ℕ} {bs bs' : Bytes} (h : HasStamp rate t bs)
    (hsame : ∀ x < 8, bs x = bs' x) : HasStamp rate t bs' := by
  rw [HasStamp, ← word32be_congr (show 0 + 4 ≤ 8 by omega) hsame,
    ← word32be_congr (show 4 + 4 ≤ 8 by omega) hsame]
  exact h

/-- A VDIF recording whose resequencing information is known. -/
structure VdifRecording (o : Opt) where
  vdif : o.datatype = .vdif
  size_le : 16 ≤ o.packetSize
  /-- The frames in a second. -/
  rate : ℕ
  rate_pos : 0 < rate
  rate_le : rate ≤ 2 ^ 24
  /-- The tick of the first packet. -/
  start : ℕ
  first : Bytes
  first_stamp : HasStamp rate start first
  v : VdifSeq
  starting : v.startingSecond = secondFromVdif first
  known : v.packetsPerSecond ≠ -1

namespace VdifRecording

variable {o : Opt} (R : VdifRecording o) (fi : Option ℕ) (fileid : ℕ)

/-- How many packets of a file are gone over. -/
def packets (_ : VdifRecording o) : ℕ := (elementsToFill o fi fileid).toNat

/-- The tick of slot `j` of a file. -/
def tick (j : ℕ) : ℕ := R.start + fileid * o.bufNumElems + j

/-- The header that slot `j` should have. -/
def Expected (m : Memory) (buffer : Ptr) (j : ℕ) : Prop :=
  HasStamp R.rate (R.tick fileid j) (m.read (buffer.add (j * o.packetSize)))

/-- `check_and_fill` on a file. -/
def fill (currentSeq : ℤ) (m : Memory) (buffer : Ptr) : Option (Memory × Option ℤ) :=
  checkAndFillErrors o fi (some R.first) R.v currentSeq m buffer fileid

/-- A file without gaps is left alone, and no errors are counted. -/
def LeavesGood : Prop :=
  ∀ currentSeq m buffer, (∀ j < R.packets fi fileid, R.Expected fileid m buffer j) →
    R.fill fi fileid currentSeq m buffer = some (m, some 0)

/-- A slot with another header than the expected one gets that. -/
def ReplacesWrong : Prop :=
  ∀ currentSeq m buffer, ∀ j < R.packets fi fileid, ¬ R.Expected fileid m buffer j →
    ∃ m' errors, R.fill fi fileid currentSeq m buffer = some (m', some errors) ∧
      R.Expected fileid m' buffer j

/-- The seconds of a file fit in their field. -/
def Fits : Prop := ∀ j < R.packets fi fileid, R.tick fileid j / R.rate < 2 ^ 30

/-! ## What the comparison finds -/

section Match

variable {R fi fileid} {currentSeq errors : ℤ} {n : ℕ} {m : Memory} {buffer : Ptr}

theorem startingSecond_ne (R : VdifRecording o) : R.v.startingSecond ≠ -1 := by
  rw [R.starting, secondFromVdif]
  omega

theorem framenum_first (R : VdifRecording o) :
    framenumFromVdif R.first = (R.start % R.rate : ℕ) := by
  rw [framenumFromVdif, ← R.first_stamp.2]
  exact congrArg Nat.cast (toNat_and_mask (k := 24) _ (by omega))

/-- The comparison is with the first packet of the recording alone. -/
theorem headerMatch_first (R : VdifRecording o) (target : Bytes) :
    headerMatch o target R.first R.v currentSeq =
      if R.v.packetsPerSecond = 0 then
        if R.v.packetsecdif = 0 then none else some (0, R.v)
      else some (((R.start % R.rate : ℕ) : ℤ), R.v) := by
  have hframe : (R.start % R.rate : ℕ) < 2 ^ 24 := by
    rw [← R.first_stamp.2]
    omega
  unfold headerMatch
  rw [R.vdif]
  dsimp only
  rw [getseqVdif_of_known R.startingSecond_ne R.known]
  by_cases hrate : R.v.packetsPerSecond = 0
  · rw [if_pos hrate, if_pos hrate]
    by_cases hdif : R.v.packetsecdif = 0
    · rw [if_pos hdif, if_pos hdif]
      rfl
    · rw [if_neg hdif, if_neg hdif, Option.bind_eq_bind, Option.bind_some]
      show getseqVdif R.first R.v currentSeq = _
      rw [getseqVdif_of_known R.startingSecond_ne R.known, if_pos hrate, if_neg hdif, R.starting,
        sub_self, Int.zero_tdiv]
      rfl
  · rw [if_neg hrate, if_neg hrate, Option.bind_eq_bind, Option.bind_some]
    show getseqVdif R.first R.v currentSeq = _
    rw [getseqVdif_of_known R.startingSecond_ne R.known, if_neg hrate, R.starting, sub_self,
      zero_mul, zero_add, R.framenum_first,
      long_of_fits (by omega) (by omega)]

end Match

/-! ## What the pass does -/

section Pass

variable {R fi fileid} {currentSeq errors : ℤ} {n : ℕ} {m : Memory} {buffer : Ptr}

/-- Nothing is replaced. -/
theorem fillLoop_same (h : ∀ target, headerMatch o target R.first R.v currentSeq = some (0, R.v)) :
    fillLoopErrors o currentSeq n m buffer R.first R.v errors = some (m, errors) := by
  induction n generalizing buffer with
  | zero => rfl
  | succ n ih =>
      have hmodel : incrementHeader o.datatype R.first = R.first := by rw [R.vdif]; rfl
      rw [fillLoopErrors, h, hmodel]
      exact ih

/-- Every header is replaced. -/
theorem fillLoop_all {off : ℤ} (hoff : off ≠ 0)
    (h : ∀ target, headerMatch o target R.first R.v currentSeq = some (off, R.v)) (m : Memory)
    (buffer : Ptr) (k : ℕ) : ∃ m', fillLoopErrors o currentSeq n m buffer R.first R.v (int k) =
      some (m', int (k + n : ℕ)) := by
  induction n generalizing m buffer k with
  | zero => exact ⟨m, rfl⟩
  | succ n ih =>
      have hmodel : incrementHeader o.datatype R.first = R.first := by rw [R.vdif]; rfl
      have hint : int (int k + 1) = int (k + 1 : ℕ) := by
        unfold int
        omega
      have hstep := ih (m.write buffer o.datatype.hsize R.first) (buffer.add o.packetSize) (k + 1)
      rw [fillLoopErrors, h, hmodel]
      show ∃ m', (if _ ≠ _ then _ else _) = _
      rw [if_pos hoff, hint, Nat.add_comm n 1, ← Nat.add_assoc]
      exact hstep

/-- The pass over a file. -/
theorem fill_eq (R : VdifRecording o) (currentSeq : ℤ) (m : Memory) (buffer : Ptr) :
    R.fill fi fileid currentSeq m buffer =
      (fillLoopErrors o currentSeq (R.packets fi fileid) m buffer R.first R.v 0).map
        fun (m, errors) => (m, some errors) := by
  have hinitial : createInitialHeader o (some R.first) R.v fileid = some R.first := by
    unfold createInitialHeader
    rw [R.vdif]
    exact if_neg (not_or.mpr ⟨R.startingSecond_ne, R.known⟩)
  rw [fill, checkAndFillErrors, hinitial]
  rfl

/-- Without packets there is nothing to do. -/
theorem fill_of_packets_eq_zero (hn : R.packets fi fileid = 0) :
    R.fill fi fileid currentSeq m buffer = some (m, some 0) := by
  rw [fill_eq, hn]
  rfl

theorem packets_lt (R : VdifRecording o) (fi : Option ℕ) (fileid : ℕ) :
    R.packets fi fileid < 2 ^ 32 := by
  have hle := elementsToFill_le (o := o) fi fileid
  have hlt := o.bufNumElems_lt
  unfold packets
  omega

end Pass

/-! ## Files -/

section Files

variable {R fi fileid} {currentSeq : ℤ} {m : Memory} {buffer : Ptr} {s f : ℕ}

/-- A header of a second and a frame number. -/
def stampedHeader (s f : ℕ) : Bytes :=
  setWord32be (setWord32be (fun _ => 0) 0 (BitVec.ofNat 32 s)) 4 (BitVec.ofNat 32 f)

theorem stampedHeader_second (hs : s < 2 ^ 30) :
    (word32be (stampedHeader s f) 0).toNat % 2 ^ 30 = s := by
  rw [stampedHeader, word32be_setWord32be_of_disjoint (by omega), word32be_setWord32be,
    BitVec.toNat_ofNat]
  omega

theorem stampedHeader_framenum (hf : f < 2 ^ 24) :
    (word32be (stampedHeader s f) 4).toNat % 2 ^ 24 = f := by
  rw [stampedHeader, word32be_setWord32be, BitVec.toNat_ofNat]
  omega

theorem mod_rate_lt (R : VdifRecording o) (t : ℕ) : t % R.rate < 2 ^ 24 :=
  (Nat.mod_lt t R.rate_pos).trans_le R.rate_le

/-- There is a file without gaps. -/
theorem exists_good (hfits : R.Fits fi fileid) :
    ∃ m, ∀ j < R.packets fi fileid, R.Expected fileid m ⟨0, 0⟩ j := by
  -- slot by slot the header of its tick
  refine ⟨fun _ x => stampedHeader (R.tick fileid (x / o.packetSize).toNat / R.rate)
    (R.tick fileid (x / o.packetSize).toNat % R.rate) (x % o.packetSize).toNat, fun j hj => ?_⟩
  have hstamp : HasStamp R.rate (R.tick fileid j)
      (stampedHeader (R.tick fileid j / R.rate) (R.tick fileid j % R.rate)) :=
    ⟨stampedHeader_second (hfits j hj), stampedHeader_framenum (R.mod_rate_lt _)⟩
  refine hstamp.congr fun x hx => ?_
  have hsize := R.size_le
  have hoff : ((⟨0, 0⟩ : Ptr).add (j * o.packetSize)).off + x = x + o.packetSize * (j : ℤ) := by
    show (0 : ℤ) + j * o.packetSize + x = _
    rw [mul_comm]
    omega
  have hdiv : ((x : ℤ) + o.packetSize * (j : ℤ)) / o.packetSize = j := by
    rw [Int.add_mul_ediv_left _ _ (by omega), Int.ediv_eq_zero_of_lt (by omega) (by omega),
      zero_add]
  have hmod : ((x : ℤ) + o.packetSize * (j : ℤ)) % o.packetSize = x := by
    rw [Int.add_mul_emod_self_left, Int.emod_eq_of_lt (by omega) (by omega)]
  simp only [Memory.read, hoff, hdiv, hmod, Int.toNat_natCast]

/-- There is a file whose first header is wrong. -/
theorem exists_wrong (R : VdifRecording o) (fileid : ℕ) :
    ∃ m, ¬ R.Expected fileid m ⟨0, 0⟩ 0 := by
  have hlt := R.mod_rate_lt (R.tick fileid 0)
  -- another frame number
  refine ⟨fun _ x => stampedHeader 0 ((R.tick fileid 0 % R.rate + 1) % 2 ^ 24) x.toNat, ?_⟩
  intro hstamp
  have hsame : HasStamp R.rate (R.tick fileid 0)
      (stampedHeader 0 ((R.tick fileid 0 % R.rate + 1) % 2 ^ 24)) := by
    refine hstamp.congr fun x hx => ?_
    simp [Memory.read, Ptr.add]
  have hframe := hsame.2
  rw [stampedHeader_framenum (Nat.mod_lt _ (by omega))] at hframe
  omega

end Files

/-! ## When a file is filled right -/

/-- The comparison finds no header wrong. -/
def Silent : Prop :=
  R.v.packetsPerSecond = 0 ∧ R.v.packetsecdif ≠ 0 ∨
    R.v.packetsPerSecond ≠ 0 ∧ R.start % R.rate = 0

section Results

variable {R fi fileid}

theorem fill_of_silent (h : R.Silent) (currentSeq : ℤ) (m : Memory) (buffer : Ptr) :
    R.fill fi fileid currentSeq m buffer = some (m, some 0) := by
  have hmatch : ∀ target, headerMatch o target R.first R.v currentSeq = some (0, R.v) := by
    intro target
    rw [R.headerMatch_first]
    rcases h with ⟨hrate, hdif⟩ | ⟨hrate, hstart⟩
    · rw [if_pos hrate, if_neg hdif]
    · rw [if_neg hrate, hstart]
      rfl
  rw [fill_eq, fillLoop_same hmatch]
  rfl

/-- Otherwise the pass does not end, or counts every header as an error. -/
theorem fill_of_not_silent (h : ¬ R.Silent) (hn : 0 < R.packets fi fileid) (currentSeq : ℤ)
    (m : Memory) (buffer : Ptr) : R.fill fi fileid currentSeq m buffer ≠ some (m, some 0) := by
  obtain ⟨n, hn⟩ : ∃ n, R.packets fi fileid = n + 1 := ⟨_, (Nat.succ_pred_eq_of_pos hn).symm⟩
  have hlt := R.packets_lt fi fileid
  rw [fill_eq, hn]
  by_cases hrate : R.v.packetsPerSecond = 0
  · have hmatch : headerMatch o (m.read buffer) R.first R.v currentSeq = none := by
      rw [R.headerMatch_first, if_pos hrate, if_pos]
      exact not_not.mp fun hdif => h (Or.inl ⟨hrate, hdif⟩)
    rw [fillLoopErrors, hmatch]
    intro heq
    cases heq
  · have hmatch : ∀ target, headerMatch o target R.first R.v currentSeq =
        some (((R.start % R.rate : ℕ) : ℤ), R.v) := by
      intro target
      rw [R.headerMatch_first, if_neg hrate]
    have hoff : ((R.start % R.rate : ℕ) : ℤ) ≠ 0 :=
      Int.natCast_ne_zero.mpr fun hstart => h (Or.inr ⟨hrate, hstart⟩)
    obtain ⟨m', hloop⟩ := fillLoop_all (n := n + 1) hoff hmatch m buffer 0
    rw [show (0 : ℤ) = int (0 : ℕ) from rfl, hloop]
    intro heq
    have herrors := congrArg Prod.snd (Option.some.inj heq)
    have hzero : int (0 + (n + 1) : ℕ) = 0 := Option.some.inj herrors
    unfold int at hzero
    omega

/-- **A file without gaps** is left alone only of a recording that began with a second, or
whose rate was learned as zero. -/
theorem leavesGood_iff (hfits : R.Fits fi fileid) (hn : 0 < R.packets fi fileid) :
    R.LeavesGood fi fileid ↔ R.Silent := by
  constructor
  · intro hleaves
    obtain ⟨m, hgood⟩ := exists_good hfits
    by_contra hloud
    exact fill_of_not_silent hloud hn 0 m ⟨0, 0⟩ (hleaves 0 m ⟨0, 0⟩ hgood)
  · exact fun hsilent currentSeq m buffer _ => fill_of_silent hsilent currentSeq m buffer

/-- **What fails**: files without gaps are left alone and wrong headers are replaced only
where there are no packets at all. -/
theorem fillsVdif_iff (hfits : R.Fits fi fileid) :
    R.LeavesGood fi fileid ∧ R.ReplacesWrong fi fileid ↔ R.packets fi fileid = 0 := by
  constructor
  · rintro ⟨hleaves, hreplaces⟩
    by_contra hne
    have hn := Nat.pos_of_ne_zero hne
    have hsilent := (leavesGood_iff hfits hn).mp hleaves
    obtain ⟨m, hwrong⟩ := R.exists_wrong fileid
    obtain ⟨m', errors, hfill, hright⟩ := hreplaces 0 m ⟨0, 0⟩ 0 hn hwrong
    rw [fill_of_silent hsilent] at hfill
    -- nothing was replaced
    obtain rfl : m = m' := congrArg Prod.fst (Option.some.inj hfill)
    exact hwrong hright
  · intro hn
    refine ⟨fun _ _ _ _ => fill_of_packets_eq_zero hn, fun _ _ _ j hj => ?_⟩
    rw [hn] at hj
    exact absurd hj (Nat.not_lt_zero j)

end Results

/-- Two frames in a second, and two packets in a file. -/
def twoFrames : Opt where
  datatype := .vdif
  bufNumElems := 2
  packetSize := 16
  offset := 0
  lastPacket := 0
  bufNumElems_lt := by decide
  bufsize_lt := by decide

/-- A recording that begins in the middle of a second. -/
def midSecond : VdifRecording twoFrames where
  vdif := rfl
  size_le := le_rfl
  rate := 2
  rate_pos := by decide
  rate_le := by decide
  start := 1
  first := stampedHeader 0 1
  first_stamp := ⟨stampedHeader_second (by decide), stampedHeader_framenum (by decide)⟩
  v := ⟨secondFromVdif (stampedHeader 0 1), 2, 1⟩
  starting := rfl
  known := by decide

theorem midSecond_fits : midSecond.Fits none 0 := by
  intro j hj
  have hlt : j < 2 := hj
  show (1 + 0 * 2 + j) / 2 < 2 ^ 30
  omega

theorem fillsVdif_iff_midSecond :
    midSecond.LeavesGood none 0 ∧ midSecond.ReplacesWrong none 0 ↔ midSecond.packets none 0 = 0 :=
  fillsVdif_iff midSecond_fits

/-- Its first file is complete, and every header counts as an error. -/
theorem good_file_overwritten : ¬ ∀ (o : Opt) (R : VdifRecording o) (fi : Option ℕ) (fileid : ℕ),
    R.Fits fi fileid → R.LeavesGood fi fileid ∧ R.ReplacesWrong fi fileid := by
  intro hall
  have hleaves := (hall twoFrames midSecond none 0 midSecond_fits).1
  obtain ⟨m, hgood⟩ := exists_good midSecond_fits
  have hloud : ¬ midSecond.Silent := by
    rintro (⟨hrate, -⟩ | ⟨-, hstart⟩)
    · exact absurd hrate (by decide)
    · exact absurd hstart (by decide)
  exact fill_of_not_silent hloud (by decide) 0 m ⟨0, 0⟩ (hleaves 0 m ⟨0, 0⟩ hgood)

end VdifRecording

end VlbiStreamer.Datatypes
