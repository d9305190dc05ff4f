import VlbiStreamer.FuseIndex.Reading
import Mathlib.Data.Nat.Find

/-!
# What a read returns

A recording is the concatenation of its files, of which some may be absent.  A read should
put the bytes of the files that are present at their place in the buffer and leave the
places of the others alone.

`run_right` and `run_wrong` say what the threads of `vbs_read` read, by induction on the
files it goes over: all is well as long as no file is present behind an absent one, which
does not move the place in the buffer on.  `returnsSlice_iff` adds what `vbs_read` returns.
-/

namespace VlbiStreamer.FuseIndex

open Library Receiver

/-- An indexed recording: its files are full, but for the last. -/
structure IndexedRecording extends DataIndex where
  nFiles : ℕ
  filesize_pos : 0 < filesize
  filesize_lt : filesize < 2 ^ 64
  total_lt : nPackets * packetSize < 2 ^ 63
  total_le : nPackets * packetSize ≤ nFiles * filesize
  lt_total : nFiles * filesize < nPackets * packetSize + filesize

namespace IndexedRecording

variable (S : IndexedRecording)

/-- The length of the recording. -/
def total : ℕ := S.nPackets * S.packetSize

/-- A file is on a drive. -/
def Present (k : ℕ) : Prop := S.fileid k ≠ -1

instance : DecidablePred S.Present := fun _ => inferInstanceAs (Decidable (_ ≠ _))

/-- A file of a recording of these bytes. -/
def dataFile (data : Bytes) (k : ℕ) : DataFile where
  length := min S.filesize (S.total - k * S.filesize)
  bytes x := data (k * S.filesize + x)

/-- The files that are present are on their drives. -/
def OnDisk (data : Bytes) (disk : ℤ → ℕ → DataFile) : Prop :=
  ∀ k < S.nFiles, S.Present k → disk (S.fileid k) k = S.dataFile data k

/-- The part of the recording from `offset` on is in the buffer. -/
structure Slice (data : Bytes) (size offset : ℕ) (m : Memory) (buf : Ptr) (m' : Memory) :
    Prop where
  present : ∀ j < min size (S.total - offset), S.Present ((offset + j) / S.filesize) →
    m'.read buf j = data (offset + j)
  /-- The bytes of an absent file keep their place. -/
  absent : ∀ j < min size (S.total - offset), ¬ S.Present ((offset + j) / S.filesize) →
    m'.read buf j = m.read buf j
  outside : ∀ b x, b ≠ buf.block ∨ x < buf.off ∨ buf.off + size ≤ x → m' b x = m b x

/-- A read returns the slice, whatever the recording and the buffer hold. -/
def ReturnsSlice (size offset : ℕ) : Prop :=
  ∀ data disk m buf, S.OnDisk data disk → ∃ r, vbsRead S.toDataIndex 0 buf size offset = some r ∧
    r.retval = (min size (S.total - offset) : ℕ) ∧ (∀ k ∈ r.cells, k < S.nFiles) ∧
    (∃ m', Threads disk r.operators m m') ∧
    ∀ m', Threads disk r.operators m m' → S.Slice data size offset m buf m'

/-- The number of files that a read goes over. -/
def opened (size offset : ℕ) : ℕ :=
  size / S.filesize + (if S.filesize - offset % S.filesize < size % S.filesize then 1 else 0) + 1

/-- Of `n` files from `f` on, none is present behind an absent one. -/
def NoneBehindHole (f n : ℕ) : Prop :=
  ∀ i k, i < k → k < n → ¬ S.Present (f + i) → ¬ S.Present (f + k)

/-! ## The loop -/

section Loop

variable {S} {data : Bytes} {disk : ℤ → ℕ → DataFile} {n f size po : ℕ} {m : Memory} {p : Ptr}

/-- What is read when nothing is stripped. -/
def run (S : IndexedRecording) (disk : ℤ → ℕ → DataFile) (n f : ℕ) (p : Ptr) (size po : ℕ)
    (m : Memory) : Memory :=
  (readLoop S.toDataIndex 0 n f p size po).foldl (transfer disk) m

/-- How much is asked of a file. -/
def share (S : IndexedRecording) (size po : ℕ) : ℕ := min size (S.filesize - po)

theorem small_of_lt_total (h : f * S.filesize + po + size < S.total) : po + size < 2 ^ 63 := by
  have htotal := S.total_lt
  unfold total at h
  omega

/-- Absent files are passed over. -/
theorem run_skip {d : ℕ} (hd : d ≤ n) (h : ∀ i < d, ¬ S.Present (f + i)) :
    run S disk n f p size po m = run S disk (n - d) (f + d) p size po m := by
  induction d generalizing n f with
  | zero => rfl
  | succ d ih =>
      obtain ⟨n, rfl⟩ : ∃ n', n = n' + 1 := ⟨n - 1, by omega⟩
      have hfirst : S.fileid f = -1 := not_not.mp (h 0 (Nat.succ_pos d))
      have hrest := ih (n := n) (f := f + 1) (by omega) fun i hi => by
        have hi' := h (i + 1) (by omega)
        rwa [Nat.add_comm i 1, ← Nat.add_assoc] at hi'
      rw [Nat.add_assoc, Nat.add_comm 1 d] at hrest
      have hskip : readLoop S.toDataIndex 0 (n + 1) f p size po =
          readLoop S.toDataIndex 0 n (f + 1) p size po := if_pos hfirst
      rw [Nat.add_sub_add_right, ← hrest, run, hskip, run]

/-- A present file is read from, and the place in the buffer moves on. -/
theorem run_present (hpresent : S.Present f) (hpo : po < S.filesize) (hfits : po + size < 2 ^ 63) :
    run S disk (n + 1) f p size po m =
      run S disk n (f + 1) (p.add (S.share size po)) (size - S.share size po) 0
        (transfer disk m ⟨S.fileid f, f, p, po, S.share size po⟩) := by
  have hamount : (if ulong (po + size) > S.filesize then long (S.filesize - po) else long size) =
      S.share size po := by
    have hlt := S.filesize_lt
    unfold ulong long share
    split <;> omega
  have hsize : ulong (S.share size po) = S.share size po ∧
      ulong (size - S.share size po) = size - S.share size po := by
    unfold ulong share
    omega
  rw [run, readLoop, if_neg hpresent]
  show List.foldl _ _ (_ :: _) = _
  simp only [effectiveFilesize, gt_iff_lt, lt_irrefl, if_false] at hamount ⊢
  rw [hamount, hsize.1, hsize.2]
  rfl

/-- A thread writes at most what it is asked for. -/
theorem transfer_outside {ro : ReadOperator} {b : ℕ} {x : ℤ}
    (h : b ≠ ro.buf.block ∨ x < ro.buf.off ∨ ro.buf.off + ro.size ≤ x) :
    transfer disk m ro b x = m b x := if_neg (by omega)

/-- The threads stay in the part of the buffer that is still to be filled. -/
theorem run_outside (hpo : po < S.filesize) (hfits : po + size < 2 ^ 63) {b : ℕ} {x : ℤ}
    (h : b ≠ p.block ∨ x < p.off ∨ p.off + size ≤ x) : run S disk n f p size po m b x = m b x := by
  induction n generalizing f p size po m with
  | zero => rfl
  | succ n ih =>
      by_cases hpresent : S.Present f
      · have hle : S.share size po ≤ size := min_le_left _ _
        rw [run_present hpresent hpo hfits,
          ih S.filesize_pos (by omega) (by simp only [Ptr.add]; omega),
          transfer_outside (by dsimp only; omega)]
      · rw [run_skip (d := 1) (by omega) fun i hi => by rwa [Nat.lt_one_iff.mp hi]]
        exact ih hpo hfits h

/-- What a thread reads of a file of the recording. -/
theorem transfer_read (hdisk : S.OnDisk data disk) (hf : f < S.nFiles) (hpresent : S.Present f)
    {a x : ℕ} (hx : x < a) (hfile : po + x < min S.filesize (S.total - f * S.filesize)) :
    (transfer disk m ⟨S.fileid f, f, p, po, a⟩).read p x = data (f * S.filesize + po + x) := by
  rw [transfer, hdisk f hf hpresent, Int.toNat_natCast]
  show (m.write p (min a (min S.filesize (S.total - f * S.filesize) - po)) _).read p x = _
  rw [Memory.read_write_self (by omega)]
  show data (f * S.filesize + (po + x)) = _
  rw [Nat.add_assoc]

theorem read_add {a j : ℕ} : m.read (p.add a) j = m.read p (a + j) := by
  show m p.block (p.off + a + j) = m p.block (p.off + (a + j : ℕ))
  rw [Nat.cast_add, add_assoc]

theorem lt_nFiles (h : f * S.filesize < S.total) : f < S.nFiles :=
  Nat.lt_of_mul_lt_mul_right (h.trans_le S.total_le)

/-- The part of the buffer that the first thread fills. -/
theorem run_first (hdisk : S.OnDisk data disk) (hpresent : S.Present f) (hpo : po < S.filesize)
    (hsmall : po + size < 2 ^ 63) {j : ℕ} (hj : j < S.share size po)
    (hfile : f * S.filesize + po + j < S.total) :
    (run S disk (n + 1) f p size po m).read p j = data (f * S.filesize + po + j) := by
  have hshare : S.share size po ≤ S.filesize - po ∧ S.share size po ≤ size :=
    ⟨min_le_right _ _, min_le_left _ _⟩
  have hlater : ∀ m, (run S disk n (f + 1) (p.add (S.share size po))
      (size - S.share size po) 0 m).read p j = m.read p j := fun m =>
    run_outside S.filesize_pos (by omega) (Or.inr (Or.inl (by simp only [Ptr.add]; omega)))
  rw [run_present hpresent hpo hsmall, hlater]
  exact transfer_read hdisk (lt_nFiles (by omega)) hpresent hj (by omega)

/-- Nothing is read behind the end of a file. -/
theorem transfer_behind (hdisk : S.OnDisk data disk) (hf : f * S.filesize < S.total)
    (hpresent : S.Present f) (hend : S.total ≤ f * S.filesize + po) {a : ℕ} :
    transfer disk m ⟨S.fileid f, f, p, po, a⟩ = m := by
  rw [transfer, hdisk f (lt_nFiles hf) hpresent, Int.toNat_natCast]
  show m.write p (min a (min S.filesize (S.total - f * S.filesize) - po)) _ = m
  have hzero : min a (min S.filesize (S.total - f * S.filesize) - po) = 0 := by omega
  rw [hzero, write_zero]

/-- The part that is left to the others. -/
theorem run_rest (disk : ℤ → ℕ → DataFile) (n : ℕ) (m : Memory) (p : Ptr)
    (hpresent : S.Present f) (hpo : po < S.filesize) (hfits : po + size < 2 ^ 63) :
    ∃ m', (∀ j, m'.read (p.add (S.share size po)) j = m.read p (S.share size po + j)) ∧
      ∀ j, (run S disk (n + 1) f p size po m).read p (S.share size po + j) =
        (run S disk n (f + 1) (p.add (S.share size po)) (size - S.share size po) 0 m').read
          (p.add (S.share size po)) j := by
  refine ⟨transfer disk m ⟨S.fileid f, f, p, po, S.share size po⟩, fun j => ?_, fun j => ?_⟩
  · rw [← read_add]
    exact transfer_outside (Or.inr (Or.inr (by simp only [Ptr.add]; omega)))
  · rw [run_present hpresent hpo hfits, read_add]

theorem NoneBehindHole.tail (h : S.NoneBehindHole f (n + 1)) : S.NoneBehindHole (f + 1) n := by
  intro i k hik hk
  have hno := h (i + 1) (k + 1) (by omega) (by omega)
  rwa [Nat.add_comm i 1, ← Nat.add_assoc, Nat.add_comm k 1, ← Nat.add_assoc] at hno

/-- **A read without a hole**: the bytes of the files that are present are read, and the
places of the others are left alone. -/
theorem run_right (hdisk : S.OnDisk data disk) (hpo : po < S.filesize)
    (hin : f * S.filesize + po + size < S.total)
    (hfiles : f * S.filesize + po + size ≤ (f + n) * S.filesize) (hholes : S.NoneBehindHole f n)
    {j : ℕ} (hj : j < size) :
    (run S disk n f p size po m).read p j =
      if S.Present ((f * S.filesize + po + j) / S.filesize) then data (f * S.filesize + po + j)
      else m.read p j := by
  induction n generalizing f p size po m j with
  | zero =>
      rw [Nat.add_zero] at hfiles
      omega
  | succ n ih =>
      have hsmall := small_of_lt_total hin
      by_cases hpresent : S.Present f
      · rcases Nat.lt_or_ge j (S.share size po) with hlt | hge
        · have hshare : S.share size po ≤ S.filesize - po := min_le_right _ _
          have hindex : (f * S.filesize + po + j) / S.filesize = f :=
            Nat.div_eq_of_lt_le (by omega) (by rw [Nat.succ_mul]; omega)
          rw [run_first hdisk hpresent hpo hsmall hlt (by omega), hindex, if_pos hpresent]
        · -- the first file is read to its end
          obtain ⟨j, rfl⟩ := Nat.exists_eq_add_of_le hge
          have hshare : S.share size po = S.filesize - po := by
            unfold share at hj ⊢
            omega
          have hsucc : (f + 1) * S.filesize = f * S.filesize + S.filesize := Nat.succ_mul _ _
          have hplace : (f + 1) * S.filesize + 0 + j =
              f * S.filesize + po + (S.share size po + j) := by omega
          obtain ⟨m', hframe, hrun⟩ := run_rest disk n m p hpresent hpo hsmall
          rw [hrun, ← hframe, ← hplace]
          refine ih S.filesize_pos (by omega) ?_ hholes.tail (by omega)
          rw [Nat.add_right_comm f 1 n, Nat.add_assoc f n 1]
          omega
      · -- then none of the files is present
        have habsent : ∀ i < n + 1, ¬ S.Present (f + i) := by
          intro i hi
          rcases Nat.eq_zero_or_pos i with rfl | hpos
          · exact hpresent
          · exact hholes 0 i hpos hi hpresent
        rw [run_skip le_rfl habsent, Nat.sub_self, if_neg]
        · rfl
        · obtain ⟨i, hi⟩ : ∃ i, (f * S.filesize + po + j) / S.filesize = f + i :=
            Nat.exists_eq_add_of_le ((Nat.le_div_iff_mul_le S.filesize_pos).mpr (by omega))
          rw [hi]
          refine habsent i ?_
          have hlt : (f * S.filesize + po + j) / S.filesize < f + (n + 1) :=
            (Nat.div_lt_iff_lt_mul S.filesize_pos).mpr (by omega)
          omega

/-- **A read with a hole**, of a recording of ones into a buffer of zeros: a file behind the
hole is read into its place, or is not read at all. -/
theorem run_wrong (hdisk : S.OnDisk (fun _ => 1) disk) (hpo : po < S.filesize)
    (hin : f * S.filesize + po + size < S.total)
    (hlast : (f + n) * S.filesize ≤ f * S.filesize + po + size + S.filesize)
    (hstrict : po ≠ 0 → (f + n) * S.filesize < f * S.filesize + po + size + S.filesize)
    (hzero : ∀ j < size, m.read p j = 0) {i k : ℕ} (hik : i < k) (hk : k < n)
    (hhole : ¬ S.Present (f + i)) (hbehind : S.Present (f + k)) :
    ∃ j < size, (run S disk n f p size po m).read p j ≠
      if S.Present ((f * S.filesize + po + j) / S.filesize) then 1 else 0 := by
  induction n generalizing f p size po m i k with
  | zero => exact absurd hk (Nat.not_lt_zero k)
  | succ n ih =>
      have hsmall := small_of_lt_total hin
      have hsucc : (f + 1) * S.filesize = f * S.filesize + S.filesize := Nat.succ_mul _ _
      have hnext : (f + (n + 1)) * S.filesize = (f + n) * S.filesize + S.filesize :=
        Nat.succ_mul _ _
      have hfirst : (f + 1) * S.filesize ≤ (f + n) * S.filesize :=
        Nat.mul_le_mul_right _ (by omega)
      by_cases hpresent : S.Present f
      · -- the first file is read to its end
        obtain ⟨i, rfl⟩ : ∃ i', i = i' + 1 :=
          Nat.exists_eq_succ_of_ne_zero fun h => hhole (by rwa [h])
        obtain ⟨k, rfl⟩ : ∃ k', k = k' + 1 := ⟨k - 1, by omega⟩
        have hge : S.filesize - po ≤ size := by omega
        have hshare : S.share size po = S.filesize - po := min_eq_right hge
        obtain ⟨m', hframe, hrun⟩ := run_rest disk n m p hpresent hpo hsmall
        rw [← Nat.add_assoc, Nat.add_right_comm] at hhole hbehind
        rw [← Nat.add_assoc, Nat.add_right_comm] at hlast hstrict
        have hrest : ∃ j < size - S.share size po,
            (run S disk n (f + 1) (p.add (S.share size po)) (size - S.share size po) 0 m').read
              (p.add (S.share size po)) j ≠
              if S.Present (((f + 1) * S.filesize + 0 + j) / S.filesize) then 1 else 0 :=
          ih S.filesize_pos (by omega) (by omega) (fun h => absurd rfl h)
            (fun j hj => (hframe j).trans (hzero _ (by omega))) (by omega) (by omega) hhole hbehind
        obtain ⟨j, hj, hwrong⟩ := hrest
        have hplace : (f + 1) * S.filesize + 0 + j =
            f * S.filesize + po + (S.share size po + j) := by omega
        refine ⟨S.share size po + j, by omega, ?_⟩
        rw [hrun, ← hplace]
        exact hwrong
      · -- the first file that is present behind the hole
        have hexists : ∃ d, S.Present (f + d) := ⟨k, hbehind⟩
        obtain ⟨d, hd, hmin⟩ : ∃ d, S.Present (f + d) ∧ ∀ d' < d, ¬ S.Present (f + d') :=
          ⟨Nat.find hexists, Nat.find_spec hexists, fun _ => Nat.find_min hexists⟩
        have hpos : 0 < d := Nat.pos_of_ne_zero fun h => hpresent (by rwa [h] at hd)
        have hle : d ≤ k := Nat.le_of_not_lt fun h => hmin k h hbehind
        have hfd : (f + 1) * S.filesize ≤ (f + d) * S.filesize :=
          Nat.mul_le_mul_right _ (by omega)
        have hdn : (f + d) * S.filesize ≤ (f + n) * S.filesize :=
          Nat.mul_le_mul_right _ (by omega)
        rw [run_skip (by omega) hmin]
        rcases Nat.lt_or_ge ((f + d) * S.filesize + po) S.total with hread | hend
        · -- its bytes come to the place of the hole
          have hindex : (f * S.filesize + po + 0) / S.filesize = f :=
            Nat.div_eq_of_lt_le (by omega) (by omega)
          obtain ⟨n', hn'⟩ : ∃ n', n + 1 - d = n' + 1 := ⟨n - d, by omega⟩
          refine ⟨0, by omega, ?_⟩
          rw [hn', run_first hdisk hd hpo hsmall (by unfold share; omega) hread, hindex,
            if_neg hpresent]
          decide
        · -- it is the last and too short, and its place stays as it was
          have hdlast : n + 1 - d = 0 + 1 := by
            by_contra hne
            have hlt : (f + d + 1) * S.filesize ≤ (f + n) * S.filesize :=
              Nat.mul_le_mul_right _ (by omega)
            rw [Nat.succ_mul] at hlt
            omega
          have hne : po ≠ 0 := by omega
          have hstrict := hstrict hne
          have hindex : (f * S.filesize + po + ((f + d) * S.filesize - (f * S.filesize + po))) /
              S.filesize = f + d := by
            rw [Nat.add_sub_cancel' (by omega), Nat.mul_div_cancel _ S.filesize_pos]
          refine ⟨(f + d) * S.filesize - (f * S.filesize + po), by omega, ?_⟩
          rw [hdlast, run_present hd hpo hsmall, transfer_behind hdisk (by omega) hd hend, hindex,
            if_pos hd]
          show m.read p _ ≠ 1
          rw [hzero _ (by omega)]
          decide

end Loop

/-! ## The call -/

section Call

variable {S} {size offset : ℕ} {buf : Ptr} {r : Reading}

theorem sizeOfRec_eq : long (S.nPackets * (S.packetSize - (0 : ℕ))) = S.total := by
  have htotal := S.total_lt
  rw [Nat.cast_zero, sub_zero, ← Nat.cast_mul]
  exact long_of_fits (by omega) (by omega)

/-- A read that goes up to the end of the recording returns `EOF`. -/
theorem retval_of_end (hoffset : offset < S.total) (hfits : offset + size < 2 ^ 63)
    (hend : S.total ≤ offset + size) (h : vbsRead S.toDataIndex 0 buf size offset = some r) :
    r.retval = -1 := by
  have hsize : long size = size := long_of_fits (by omega) (by omega)
  have hsum : long (offset + size) = offset + size := long_of_fits (by omega) (by omega)
  have hlt : ¬ (offset : ℤ) ≥ S.total := by omega
  have hover : (offset + size : ℤ) ≥ S.total := by omega
  unfold vbsRead at h
  simp only [sizeOfRec_eq, hsize, hsum, hlt, hover, if_true, if_false] at h
  split at h
  · cases h
  · cases h
    rfl

/-- Another read. -/
theorem vbsRead_inside (hfits : offset + size < 2 ^ 63) (hin : offset + size < S.total) :
    vbsRead S.toDataIndex 0 buf size offset =
      let n := nFilesOpen S.toDataIndex 0 size (offset % S.filesize)
      if n ≤ 0 then none
      else some ⟨int size, readLoop S.toDataIndex 0 n.toNat (offset / S.filesize) buf size
        (offset % S.filesize), List.range' (offset / S.filesize) n.toNat⟩ := by
  have hsize : long size = size := long_of_fits (by omega) (by omega)
  have hsum : long (offset + size) = offset + size := long_of_fits (by omega) (by omega)
  have hne : S.filesize ≠ 0 := S.filesize_pos.ne'
  have hlt : ¬ (offset : ℤ) ≥ S.total := by omega
  have hover : ¬ (offset + size : ℤ) ≥ S.total := by omega
  unfold vbsRead
  simp only [sizeOfRec_eq, hsize, hsum, hlt, hover, if_false, effectiveFilesize, gt_iff_lt,
    lt_irrefl, hne, false_or]

/-- The divisions before the loop. -/
theorem nFilesOpen_eq (hsize : size < 2 ^ 31) :
    nFilesOpen S.toDataIndex 0 size (offset % S.filesize) = int (S.opened size offset) := by
  have hfs := S.filesize_lt
  have hpo := Nat.mod_lt offset S.filesize_pos
  have hr := Nat.mod_lt size S.filesize_pos
  have hsum := Nat.div_add_mod' size S.filesize
  have hle : size / S.filesize ≤ size := Nat.div_le_self _ _
  unfold nFilesOpen opened
  simp only [effectiveFilesize, gt_iff_lt, lt_irrefl, if_false]
  generalize size / S.filesize = q at *
  generalize size % S.filesize = r at *
  generalize offset % S.filesize = po at *
  have hint : int q = q := by
    unfold int
    omega
  have hdiff : (size - q * S.filesize : ℤ) = r := by
    rw [← hsum]
    push_cast
    omega
  have hulong : ulong (S.filesize - po) = S.filesize - po ∧ ulong r = r := by
    unfold ulong
    omega
  rw [hint, hdiff, hulong.1, hulong.2]
  split
  next hmore =>
    have hhalf : q * 2 ≤ q * S.filesize := Nat.mul_le_mul_left _ (by omega)
    have hnext : int (q + 1) = q + 1 := by
      unfold int
      omega
    rw [hnext]
    push_cast
    rfl
  next hmore => rfl

theorem opened_bounds (S : IndexedRecording) (size offset : ℕ) :
    offset + size ≤ (offset / S.filesize + S.opened size offset) * S.filesize ∧
    (offset / S.filesize + S.opened size offset) * S.filesize ≤ offset + size + S.filesize ∧
    (offset % S.filesize ≠ 0 → (offset / S.filesize + S.opened size offset) * S.filesize <
      offset + size + S.filesize) := by
  have hpos := S.filesize_pos
  have hpo := Nat.mod_lt offset hpos
  have hr := Nat.mod_lt size hpos
  have hoffset := Nat.div_add_mod' offset S.filesize
  have hsize := Nat.div_add_mod' size S.filesize
  unfold opened
  split
  · rw [Nat.add_mul, Nat.add_mul, Nat.add_mul, Nat.one_mul]
    omega
  · rw [Nat.add_mul, Nat.add_mul, Nat.add_mul, Nat.one_mul, Nat.zero_mul]
    omega

/-- A read whose size and number of files an `int` can hold. -/
theorem vbsRead_eq (hfits : offset + size < 2 ^ 63) (hin : offset + size < S.total)
    (hsize : size < 2 ^ 31) (hopened : S.opened size offset < 2 ^ 31) :
    vbsRead S.toDataIndex 0 buf size offset =
      some ⟨size, readLoop S.toDataIndex 0 (S.opened size offset) (offset / S.filesize) buf size
        (offset % S.filesize), List.range' (offset / S.filesize) (S.opened size offset)⟩ := by
  have hint : ∀ x : ℕ, x < 2 ^ 31 → int x = x := by
    intro x hx
    unfold int
    omega
  have hpos : ¬ ((S.opened size offset : ℕ) : ℤ) ≤ 0 :=
    not_le.mpr (Int.natCast_pos.mpr (Nat.succ_pos _))
  rw [vbsRead_inside hfits hin, nFilesOpen_eq hsize, hint _ hopened, hint _ hsize]
  exact if_neg hpos

/-- More files than an `int` counts leave no array for the threads. -/
theorem opened_lt (hfits : offset + size < 2 ^ 63) (hin : offset + size < S.total)
    (hsize : size < 2 ^ 31) (h : vbsRead S.toDataIndex 0 buf size offset = some r) :
    S.opened size offset < 2 ^ 31 := by
  rw [vbsRead_inside hfits hin, nFilesOpen_eq hsize] at h
  have hle : size / S.filesize ≤ size := Nat.div_le_self _ _
  have hopened : S.opened size offset ≤ size + 2 := by
    unfold opened
    split <;> omega
  by_contra hlt
  have hneg : int (S.opened size offset) ≤ 0 := by
    unfold int
    omega
  rw [if_pos hneg] at h
  cases h

end Call

/-! ## When the slice is returned -/

section Results

variable {S} {size offset : ℕ}

theorem onDisk_dataFile (data : Bytes) : S.OnDisk data fun _ => S.dataFile data :=
  fun _ _ _ => rfl

/-- **Reading the requested slice** goes right exactly if the read ends before the end of the
recording, an `int` can hold its size and its number of files, and no file is present behind
an absent one. -/
theorem returnsSlice_iff (hsize : 1 ≤ size) (hoffset : offset < S.total)
    (hfits : offset + size < 2 ^ 63) :
    S.ReturnsSlice size offset ↔
      offset + size < S.total ∧ size < 2 ^ 31 ∧ S.opened size offset < 2 ^ 31 ∧
        S.NoneBehindHole (offset / S.filesize) (S.opened size offset) := by
  have hplace : offset / S.filesize * S.filesize + offset % S.filesize = offset :=
    Nat.div_add_mod' offset S.filesize
  have hpo := Nat.mod_lt offset S.filesize_pos
  obtain ⟨hfiles, hlast, hstrict⟩ := S.opened_bounds size offset
  constructor
  · intro hslice
    -- ones are read into zeros
    obtain ⟨r, hr, hretval, -, -, hthreads⟩ := hslice (fun _ => 1) _ (fun _ _ => 0) ⟨0, 0⟩
      (onDisk_dataFile _)
    have hin : offset + size < S.total := by
      by_contra hend
      rw [retval_of_end hoffset hfits (by omega) hr] at hretval
      omega
    have hmin : min size (S.total - offset) = size := min_eq_left (by omega)
    have hsmall : size < 2 ^ 31 := by
      rw [vbsRead_inside hfits hin] at hr
      dsimp only at hr
      split at hr
      · cases hr
      · rw [← Option.some.inj hr, hmin] at hretval
        have hint : int size = size := hretval
        unfold int at hint
        omega
    have hopened := opened_lt hfits hin hsmall hr
    refine ⟨hin, hsmall, hopened, fun i k hik hk hhole hbehind => ?_⟩
    rw [vbsRead_eq hfits hin hsmall hopened] at hr
    cases hr
    have hwrong : ∃ j < size, (run S (fun _ => S.dataFile fun _ => 1) (S.opened size offset)
        (offset / S.filesize) ⟨0, 0⟩ size (offset % S.filesize) fun _ _ => 0).read ⟨0, 0⟩ j ≠
        if S.Present ((offset / S.filesize * S.filesize + offset % S.filesize + j) / S.filesize)
          then 1 else 0 :=
      run_wrong (onDisk_dataFile _) hpo (by omega) (by omega) (fun h => by have := hstrict h; omega)
        (fun _ _ => rfl) hik hk hhole hbehind
    obtain ⟨j, hj, hwrong⟩ := hwrong
    rw [hplace] at hwrong
    have hright := hthreads _ (threads_iff.mpr rfl)
    refine hwrong ?_
    split
    next hpresent => exact hright.present j (by omega) hpresent
    next habsent => exact hright.absent j (by omega) habsent
  · rintro ⟨hin, hsmall, hopened, hholes⟩ data disk m buf hdisk
    have hmin : min size (S.total - offset) = size := min_eq_left (by omega)
    have hsum : offset % S.filesize + size < 2 ^ 63 :=
      small_of_lt_total (S := S) (f := offset / S.filesize) (by omega)
    refine ⟨_, vbsRead_eq hfits hin hsmall hopened, ?_, ?_, ⟨_, threads_iff.mpr rfl⟩, ?_⟩
    · show (size : ℤ) = _
      rw [hmin]
    · intro k hk
      obtain ⟨-, hlt⟩ := List.mem_range'_1.mp hk
      have htotal := S.total_le
      have hbound : (offset / S.filesize + S.opened size offset) * S.filesize <
          (S.nFiles + 1) * S.filesize := by
        rw [Nat.succ_mul]
        unfold total at hin
        omega
      have hcount := Nat.lt_of_mul_lt_mul_right hbound
      omega
    · intro m' hm'
      rw [threads_iff.mp hm']
      have hread : ∀ j < size, (run S disk (S.opened size offset) (offset / S.filesize) buf size
          (offset % S.filesize) m).read buf j =
          if S.Present ((offset / S.filesize * S.filesize + offset % S.filesize + j) / S.filesize)
            then data (offset / S.filesize * S.filesize + offset % S.filesize + j)
            else m.read buf j := fun j hj =>
        run_right hdisk hpo (by omega) (by omega) hholes hj
      rw [hplace] at hread
      refine ⟨fun j hj hpresent => ?_, fun j hj habsent => ?_, fun b x hx => ?_⟩
      · exact (hread j (by omega)).trans (if_pos hpresent)
      · exact (hread j (by omega)).trans (if_neg habsent)
      · exact run_outside hpo hsum hx

end Results

/-- Two files of two packets. -/
def twoFiles : IndexedRecording where
  packetSize := 2
  filesize := 4
  nPackets := 4
  fileid _ := 0
  nFiles := 2
  filesize_pos := by decide
  filesize_lt := by decide
  total_lt := by decide
  total_le := by decide
  lt_total := by decide

theorem returnsSlice_iff_within : twoFiles.ReturnsSlice 4 1 ↔
    1 + 4 < twoFiles.total ∧ 4 < 2 ^ 31 ∧ twoFiles.opened 4 1 < 2 ^ 31 ∧
      twoFiles.NoneBehindHole (1 / twoFiles.filesize) (twoFiles.opened 4 1) :=
  returnsSlice_iff (by decide) (by decide) (by decide)

/-- The last byte is read, and `EOF` is returned. -/
theorem end_not_returned : ¬ ∀ (S : IndexedRecording) (size offset : ℕ), 1 ≤ size →
    offset < S.total → offset + size < 2 ^ 63 → S.ReturnsSlice size offset := by
  intro hall
  have hslice := hall twoFiles 1 7 (by decide) (by decide) (by decide)
  obtain ⟨r, hr, hretval, -⟩ :=
    hslice (fun _ => 0) _ (fun _ _ => 0) ⟨0, 0⟩ (onDisk_dataFile fun _ => 0)
  rw [retval_of_end (by decide) (by decide) (by decide) hr] at hretval
  exact absurd hretval (by decide)

end IndexedRecording

end VlbiStreamer.FuseIndex
