import Mathlib.Algebra.BigOperators.Group.Finset.Basic
import Mathlib.Order.Interval.Finset.Nat
import VlbiStreamer.Library.Looping
import VlbiStreamer.Sender.Accessors

/-!
# Skipping missing files

`skip_missing` moves a file counter over the files that are marked missing and counts their
packets.  It asks for the file behind the last one, too, and where it should take the
packets that are left it takes the files: a file counts for
`MIN(n_files - packets_loaded, buf_num_elems)` packets, whichever counter is moved.

* `SkipsExactly` is what the function is for, and what `start_loading` relies on.
* `skipsExactly_iff` says when that comes about: when it stops at a file that is there, and
  the number of files does not cut a skipped file short.
-/

namespace VlbiStreamer.Sender

open ActiveFileIndex Library

/-- The packet counter that goes with the target. -/
def Lors.counter (st : SenderTracking) : Lors → BitVec 64
  | .skipLoaded => st.packetsLoaded
  | .skipSent => st.packetsSent

/-- The tracking with `n` files and `packets` packets skipped. -/
def Lors.moved (n packets : ℕ) (st : SenderTracking) : Lors → SenderTracking
  | .skipLoaded =>
      { st with
        filesLoaded := st.filesLoaded + BitVec.ofNat 64 n
        packetsLoaded := st.packetsLoaded + BitVec.ofNat 64 packets }
  | .skipSent =>
      { st with
        filesSkipped := st.filesSkipped + BitVec.ofNat 64 n
        filesSent := st.filesSent + BitVec.ofNat 64 n
        packetsSent := st.packetsSent + BitVec.ofNat 64 packets }

namespace Sending

/-! ## What it is for -/

/-- `skip_missing`, test by test. -/
def skipTurn (s : Sending) : Turn Sending Sending :=
  match s.place with
  | .skipping lors => .again (s.skipTest lors)
  | _ => .stop s

section Specification

variable (s : Sending) (lors : Lors)

/-- The packets of file `k`. -/
def packetsOf (k : ℕ) : ℕ := min s.bufNumElems.toNat (s.fi.nPackets - k * s.bufNumElems.toNat)

/-- The index has `F` files with their cells and `T` packets, and
`(F - 1) * N < T ≤ F * N`. -/
structure Filed : Prop where
  cells : s.fi.nFiles ≤ s.fi.files.length
  above : s.fi.nFiles * s.bufNumElems.toNat < s.fi.nPackets + s.bufNumElems.toNat
  below : s.fi.nPackets ≤ s.fi.nFiles * s.bufNumElems.toNat
  word : s.fi.nPackets < 2 ^ 64

/-- `*target` -/
def targetFile : ℕ := (lors.target s.st).toNat

/-- `skip_missing` is entered.  The number of files may have grown since it was probed, and
the packet counter is at the packets of the files before the target. -/
structure Tracks : Prop where
  place : s.place = .skipping lors
  probed : s.st.nFilesProbed.toNat ≤ s.fi.nFiles
  target : s.targetFile lors ≤ s.st.nFilesProbed.toNat
  counter : (lors.counter s.st).toNat = ∑ k ∈ Finset.range (s.targetFile lors), s.packetsOf k

/-- The first file from the target on that is not missing, or `n_files_probed`. -/
structure Lands (i : ℕ) : Prop where
  above : s.targetFile lors ≤ i
  below : i ≤ s.st.nFilesProbed.toNat
  missing : ∀ j, s.targetFile lors ≤ j → j < i → s.fi.afiIsMissing j = some true
  first : i = s.st.nFilesProbed.toNat ∨ s.fi.afiIsMissing i = some false

/-- `start_loading` goes on with a file of the index, if it goes on, and not more packets
were loaded than there are. -/
structure LoadsInside : Prop where
  asks : ∃ new, s.startLoading.calls = new ++ s.calls ∧ ∀ c ∈ new, c.file < c.nFiles
  requests : s.startLoading.place = .requesting →
    s.startLoading.st.filesLoaded.toNat < s.startLoading.fi.nFiles
  packets : s.probed.st.packetsLoaded ≤ s.probed.st.nPacketsProbed

/-- `skip_missing` comes to where it should, counts the packets of the files on the way and
nothing else, and asks for files of the index only. -/
def SkipsExactly : Prop :=
  ∃ s' i, Ends skipTurn s s' ∧ s.Lands lors i ∧ s'.place = lors.after ∧
    s'.st = lors.moved (i - s.targetFile lors)
      (∑ k ∈ Finset.Ico (s.targetFile lors) i, s.packetsOf k) s.st ∧
    (∃ new, s'.calls = new ++ s.calls ∧ ∀ c ∈ new, c.file < c.nFiles) ∧
    (lors = .skipLoaded → s'.LoadsInside)

/-- The number of files does not cut short what is counted for files `t` to `i - 1`. -/
def CountsWhole (t i : ℕ) : Lors → Prop
  | .skipLoaded =>
      s.fi.nFiles / s.bufNumElems.toNat < t ∨ i ≤ s.fi.nFiles / s.bufNumElems.toNat
  | .skipSent =>
      t = i ∨ s.bufNumElems.toNat ≤ (BitVec.ofNat 64 s.fi.nFiles - s.st.packetsLoaded).toNat

/-! ## What it does -/

/-- What is counted for a file. -/
def nuf (loaded : BitVec 64) : BitVec 64 :=
  minU (BitVec.ofNat 64 s.fi.nFiles - loaded) (s.bufNumElems.setWidth 64)

/-- What is counted for the first `n` files. -/
def counted : ℕ → ℕ
  | 0 => 0
  | n + 1 => counted n + (s.nuf (lors.moved n (counted n) s.st).packetsLoaded).toNat

/-- `afi_is_missing` is called for `n` files from the target on. -/
def consulted (n : ℕ) : List AccessorCall :=
  (List.range n).reverse.map fun j => ⟨.isMissing, s.targetFile lors + j, s.fi.nFiles⟩

/-- The event with `n` files skipped. -/
def skippedTo (n : ℕ) : Sending :=
  { s with
    st := lors.moved n (s.counted lors n) s.st
    calls := s.consulted lors n ++ s.calls }

end Specification

section Skipping

variable {s s' r : Sending} {lors : Lors} {n i : ℕ}

theorem toNat_nuf (loaded : BitVec 64) : (s.nuf loaded).toNat =
    min (BitVec.ofNat 64 s.fi.nFiles - loaded).toNat s.bufNumElems.toNat := by
  unfold nuf
  rw [toNat_minU, BitVec.toNat_setWidth_of_le (by decide)]

theorem nuf_le (loaded : BitVec 64) : (s.nuf loaded).toNat ≤ s.bufNumElems.toNat := by
  rw [toNat_nuf]
  exact Nat.min_le_right _ _

@[simp] theorem moved_nFilesProbed (n packets : ℕ) (st : SenderTracking) :
    (lors.moved n packets st).nFilesProbed = st.nFilesProbed := by
  cases lors <;> rfl

@[simp] theorem moved_target (n packets : ℕ) (st : SenderTracking) :
    lors.target (lors.moved n packets st) = lors.target st + BitVec.ofNat 64 n := by
  cases lors <;> rfl

theorem moved_counter (n packets : ℕ) (st : SenderTracking) :
    lors.counter (lors.moved n packets st) = lors.counter st + BitVec.ofNat 64 packets := by
  cases lors <;> rfl

theorem moved_zero (st : SenderTracking) : lors.moved 0 0 st = st := by
  cases lors <;> simp [Lors.moved]

/-- One file more. -/
theorem skip_moved (n packets : ℕ) (nuf : BitVec 64) (st : SenderTracking) :
    lors.skip nuf (lors.moved n packets st) = lors.moved (n + 1) (packets + nuf.toNat) st := by
  have hfiles : BitVec.ofNat 64 (n + 1) = BitVec.ofNat 64 n + 1 := BitVec.ofNat_add n 1
  have hpackets : BitVec.ofNat 64 (packets + nuf.toNat) = BitVec.ofNat 64 packets + nuf := by
    rw [BitVec.ofNat_add, BitVec.ofNat_toNat, BitVec.setWidth_eq]
  cases lors <;>
    simp only [Lors.skip, Lors.moved, hfiles, hpackets, BitVec.add_assoc]

/-! ## Where the loop is after `n` files -/

/-- `n` missing files follow the target. -/
def MissingFrom (s : Sending) (lors : Lors) (n : ℕ) : Prop :=
  ∀ j < n, s.targetFile lors + j ≤ s.st.nFilesProbed.toNat ∧
    s.fi.afiIsMissing (s.targetFile lors + j) = some true

theorem skippedTo_zero : s.skippedTo lors 0 = s := by
  unfold skippedTo counted consulted
  rw [moved_zero]
  rfl

theorem consulted_succ (n : ℕ) : s.consulted lors (n + 1) =
    ⟨.isMissing, s.targetFile lors + n, s.fi.nFiles⟩ :: s.consulted lors n := by
  unfold consulted
  rw [List.range_succ, List.reverse_append, List.reverse_singleton, List.singleton_append,
    List.map_cons]

/-- The target of the next test. -/
theorem skippedTo_target (h : s.targetFile lors + n < 2 ^ 64) :
    (s.skippedTo lors n).targetFile lors = s.targetFile lors + n := by
  show (lors.target (lors.moved n _ s.st)).toNat = _
  rw [moved_target, BitVec.toNat_add, BitVec.toNat_ofNat, Nat.add_mod_mod]
  exact Nat.mod_eq_of_lt h

theorem skipTurn_skipping (hplace : s.place = .skipping lors) :
    skipTurn s = .again (s.skipTest lors) := by
  unfold skipTurn
  rw [hplace]

theorem ends_of_after (hplace : s.place = lors.after) : Ends skipTurn s s := by
  refine Ends.stop ?_
  unfold skipTurn
  rw [hplace]
  cases lors <;> rfl

/-- The test of a file that was probed. -/
theorem skipTest_eq (h : s.targetFile lors ≤ s.st.nFilesProbed.toNat) : s.skipTest lors =
    match s.fi.afiIsMissing (s.targetFile lors) with
    | none => (s.called .isMissing (s.targetFile lors)).abort
    | some true => { s.called .isMissing (s.targetFile lors) with
        st := lors.skip (s.nuf s.st.packetsLoaded) s.st }
    | some false => { s.called .isMissing (s.targetFile lors) with place := lors.after } :=
  if_pos h

/-- The test of a file that is missing. -/
theorem skipTest_skippedTo (hfile : s.targetFile lors + n ≤ s.st.nFilesProbed.toNat)
    (hmissing : s.fi.afiIsMissing (s.targetFile lors + n) = some true) :
    (s.skippedTo lors n).skipTest lors = s.skippedTo lors (n + 1) := by
  have hword := s.st.nFilesProbed.isLt
  have htarget : (s.skippedTo lors n).targetFile lors = s.targetFile lors + n :=
    skippedTo_target (by omega)
  have hprobed : (s.skippedTo lors n).st.nFilesProbed = s.st.nFilesProbed :=
    moved_nFilesProbed _ _ _
  have hcell : (s.skippedTo lors n).fi.afiIsMissing (s.targetFile lors + n) = some true :=
    hmissing
  rw [skipTest_eq (by rw [htarget, hprobed]; exact hfile), htarget, hcell]
  show ({ s with
    st := lors.skip (s.nuf (lors.moved n (s.counted lors n) s.st).packetsLoaded)
      (lors.moved n (s.counted lors n) s.st)
    calls := ⟨.isMissing, s.targetFile lors + n, s.fi.nFiles⟩ ::
      (s.consulted lors n ++ s.calls) } : Sending) = _
  rw [skip_moved, ← List.cons_append, ← consulted_succ]
  rfl

/-- **The loop gets over the missing files.** -/
theorem ends_skippedTo (hplace : s.place = .skipping lors) (h : s.MissingFrom lors n) :
    Ends skipTurn s r ↔ Ends skipTurn (s.skippedTo lors n) r := by
  have hturn : ∀ k < n, skipTurn (s.skippedTo lors k) = .again (s.skippedTo lors (k + 1)) := by
    intro k hk
    obtain ⟨hfile, hmissing⟩ := h k hk
    have hplace' : (s.skippedTo lors k).place = .skipping lors := hplace
    rw [skipTurn_skipping hplace', skipTest_skippedTo hfile hmissing]
  rw [← Ends.turns_iff hturn, skippedTo_zero]

/-- What was called stays called. -/
theorem ends_calls (h : Ends skipTurn s r) : ∃ new, r.calls = new ++ s.calls := by
  refine h.invariant (fun u => ∃ new, u.calls = new ++ s.calls)
    (fun u => ∃ new, u.calls = new ++ s.calls) ?_ ?_ ⟨[], rfl⟩
  · rintro u v ⟨new, hcalls⟩ hturn
    unfold skipTurn at hturn
    split at hturn
    · next lors' _ =>
        obtain rfl := Turn.again.inj hturn
        rw [skipTest_calls, hcalls]
        split
        · exact ⟨_ :: new, rfl⟩
        · exact ⟨new, rfl⟩
    · cases hturn
  · rintro u v ⟨new, hcalls⟩ hturn
    unfold skipTurn at hturn
    split at hturn
    · cases hturn
    · obtain rfl := Turn.stop.inj hturn
      exact ⟨new, hcalls⟩

/-! ## What it counts -/

theorem counted_le (s : Sending) (lors : Lors) (n : ℕ) :
    s.counted lors n ≤ n * s.bufNumElems.toNat := by
  induction n with
  | zero => exact Nat.zero_le _
  | succ n ih =>
      rw [counted, Nat.succ_mul]
      exact Nat.add_le_add ih (nuf_le _)

/-- All files are counted in full, or not. -/
theorem counted_eq_iff (n : ℕ) : s.counted lors n = n * s.bufNumElems.toNat ↔
    ∀ m < n, (s.nuf (lors.moved m (m * s.bufNumElems.toNat) s.st).packetsLoaded).toNat =
      s.bufNumElems.toNat := by
  induction n with
  | zero => simp [counted]
  | succ n ih =>
      have hle := s.counted_le lors n
      have hnuf := s.nuf_le (lors.moved n (s.counted lors n) s.st).packetsLoaded
      rw [counted, Nat.succ_mul]
      constructor
      · intro hsum m hm
        have hbefore : s.counted lors n = n * s.bufNumElems.toNat := by omega
        rcases Nat.lt_succ_iff_lt_or_eq.mp hm with hlt | rfl
        · exact ih.mp hbefore m hlt
        · rw [← hbefore]
          omega
      · intro hall
        have hbefore := ih.mpr fun m hm => hall m (Nat.lt_succ_of_lt hm)
        have hlast := hall n (Nat.lt_succ_self n)
        rw [← hbefore] at hlast
        omega

section Counting

variable (hf : s.Filed)
include hf

/-- A file before the last one is full. -/
theorem packetsOf_full {k : ℕ} (hk : k + 1 < s.fi.nFiles) :
    s.packetsOf k = s.bufNumElems.toNat := by
  have habove := hf.above
  have hle : (k + 2) * s.bufNumElems.toNat ≤ s.fi.nFiles * s.bufNumElems.toNat :=
    Nat.mul_le_mul_right _ hk
  have hsplit : (k + 2) * s.bufNumElems.toNat =
      k * s.bufNumElems.toNat + 2 * s.bufNumElems.toNat := Nat.add_mul _ _ _
  unfold packetsOf
  omega

/-- The packets of files that are not the last one. -/
theorem sum_packetsOf_Ico {t : ℕ} (hi : i < s.fi.nFiles) :
    ∑ k ∈ Finset.Ico t i, s.packetsOf k = (i - t) * s.bufNumElems.toNat := by
  have hfull : ∀ k ∈ Finset.Ico t i, s.packetsOf k = s.bufNumElems.toNat := fun k hk =>
    packetsOf_full hf (Nat.lt_of_le_of_lt (Finset.mem_Ico.mp hk).2 hi)
  rw [Finset.sum_const_nat hfull, Nat.card_Ico]

/-- They fit a word. -/
theorem files_word (hi : i < s.fi.nFiles) : i * s.bufNumElems.toNat < 2 ^ 64 := by
  have habove := hf.above
  have hword := hf.word
  have hle : (i + 1) * s.bufNumElems.toNat ≤ s.fi.nFiles * s.bufNumElems.toNat :=
    Nat.mul_le_mul_right _ hi
  rw [Nat.succ_mul] at hle
  omega

theorem nFiles_word : s.fi.nFiles < 2 ^ 64 := by
  have habove := hf.above
  have hbelow := hf.below
  have hword := hf.word
  rcases Nat.eq_zero_or_pos s.bufNumElems.toNat with hzero | hpos
  · rw [hzero] at habove hbelow
    omega
  · have hle : s.fi.nFiles * 1 ≤ s.fi.nFiles * s.bufNumElems.toNat := Nat.mul_le_mul_left _ hpos
    have hN := s.bufNumElems.isLt
    by_cases hone : s.bufNumElems.toNat = 1
    · omega
    · have htwo : s.fi.nFiles * 2 ≤ s.fi.nFiles * s.bufNumElems.toNat :=
        Nat.mul_le_mul_left _ (by omega)
      omega

end Counting

/-- Each file of the index has a cell. -/
theorem Filed.cell (hf : s.Filed) (hi : i < s.fi.nFiles) :
    s.fi.afiIsMissing i = some true ∨ s.fi.afiIsMissing i = some false := by
  have hlength : i < s.fi.files.length := Nat.lt_of_lt_of_le hi hf.cells
  have hcell : s.fi.files[i]? = some s.fi.files[i] := List.getElem?_eq_getElem hlength
  unfold FileIndex.afiIsMissing
  rw [if_pos (Nat.le_of_lt hi), hcell]
  cases hmissing : has s.fi.files[i].status fhMissing
  · exact Or.inr (congrArg some hmissing)
  · exact Or.inl (congrArg some hmissing)

/-- **A file is cut short exactly where the number of files falls into it.** -/
theorem Filed.nuf_eq_iff (hf : s.Filed) {j : ℕ} {loaded : BitVec 64} (hj : j + 1 < s.fi.nFiles)
    (hloaded : loaded.toNat = j * s.bufNumElems.toNat) :
    (s.nuf loaded).toNat = s.bufNumElems.toNat ↔
      s.fi.nFiles / s.bufNumElems.toNat ≠ j := by
  have hpos : 0 < s.bufNumElems.toNat := by
    have habove := hf.above
    have hbelow := hf.below
    refine Nat.pos_of_ne_zero fun hzero => ?_
    rw [hzero] at habove hbelow
    omega
  have hnext := files_word hf hj
  have hfiles := nFiles_word hf
  have hge : j ≤ s.fi.nFiles / s.bufNumElems.toNat ↔ j * s.bufNumElems.toNat ≤ s.fi.nFiles :=
    Nat.le_div_iff_mul_le hpos
  have hlt : s.fi.nFiles / s.bufNumElems.toNat < j + 1 ↔
      s.fi.nFiles < (j + 1) * s.bufNumElems.toNat := Nat.div_lt_iff_lt_mul hpos
  have hsub : (BitVec.ofNat 64 s.fi.nFiles - loaded).toNat =
      (2 ^ 64 - j * s.bufNumElems.toNat + s.fi.nFiles) % 2 ^ 64 := by
    rw [BitVec.toNat_sub, BitVec.toNat_ofNat, hloaded, Nat.add_mod_mod]
  rw [toNat_nuf, hsub]
  rw [Nat.succ_mul] at hnext hlt
  generalize j * s.bufNumElems.toNat = x at *
  generalize s.fi.nFiles / s.bufNumElems.toNat = quotient at *
  omega

/-- What it means for the skipped files to be counted in full. -/
theorem counted_whole_iff (hf : s.Filed) (ht : s.Tracks lors) (hle : s.targetFile lors ≤ i)
    (hi : i < s.fi.nFiles) :
    s.counted lors (i - s.targetFile lors) =
        (i - s.targetFile lors) * s.bufNumElems.toNat ↔
      s.CountsWhole (s.targetFile lors) i lors := by
  rw [counted_eq_iff]
  cases lors with
  | skipLoaded =>
      have hcounter := ht.counter
      rw [Finset.range_eq_Ico, sum_packetsOf_Ico hf (Nat.lt_of_le_of_lt hle hi)] at hcounter
      generalize s.targetFile .skipLoaded = t at *
      have hnuf : ∀ m < i - t, (s.nuf (Lors.skipLoaded.moved m (m * s.bufNumElems.toNat)
          s.st).packetsLoaded).toNat = s.bufNumElems.toNat ↔
          s.fi.nFiles / s.bufNumElems.toNat ≠ t + m := by
        intro m hm
        have hfile : t + m + 1 < s.fi.nFiles := by omega
        have hword := files_word hf (show t + m < s.fi.nFiles by omega)
        refine hf.nuf_eq_iff hfile ?_
        show (s.st.packetsLoaded + BitVec.ofNat 64 (m * s.bufNumElems.toNat)).toNat = _
        have hloaded : s.st.packetsLoaded.toNat = t * s.bufNumElems.toNat := hcounter
        rw [BitVec.toNat_add, BitVec.toNat_ofNat, hloaded, Nat.add_mod_mod, ← Nat.add_mul]
        exact Nat.mod_eq_of_lt hword
      show _ ↔ s.fi.nFiles / s.bufNumElems.toNat < t ∨ i ≤ s.fi.nFiles / s.bufNumElems.toNat
      constructor
      · intro hall
        by_contra hinside
        have hm : s.fi.nFiles / s.bufNumElems.toNat - t < i - t := by omega
        exact (hnuf _ hm).mp (hall _ hm) (by omega)
      · intro houtside m hm
        exact (hnuf m hm).mpr (by omega)
  | skipSent =>
      have hnuf : (s.nuf s.st.packetsLoaded).toNat = s.bufNumElems.toNat ↔
          s.bufNumElems.toNat ≤
            (BitVec.ofNat 64 s.fi.nFiles - s.st.packetsLoaded).toNat := by
        rw [toNat_nuf]
        exact min_eq_right_iff
      constructor
      · intro hall
        rcases Nat.eq_or_lt_of_le hle with heq | hlt
        · exact Or.inl heq
        · exact Or.inr (hnuf.mp (hall 0 (Nat.sub_pos_of_lt hlt)))
      · rintro (heq | hwhole) m hm
        · omega
        · exact hnuf.mpr hwhole

/-- `start_loading`, when the next file is one of the index. -/
theorem Filed.loadsInside (hf : s.Filed) (hfile : s.st.filesLoaded.toNat < s.fi.nFiles)
    (hloaded : s.st.packetsLoaded.toNat ≤ s.fi.nPackets) : s.LoadsInside where
  asks := by
    rw [startLoading_calls]
    split
    · exact ⟨[], rfl, fun c hc => absurd hc List.not_mem_nil⟩
    · exact ⟨[_], rfl, fun c hc => by rw [List.mem_singleton.mp hc]; exact hfile⟩
  requests _ := by
    unfold startLoading
    split
    · exact hfile
    · unfold answered
      split <;> exact hfile
  packets := by
    show s.st.packetsLoaded ≤ BitVec.ofNat 64 s.fi.nPackets
    rw [BitVec.le_def, BitVec.toNat_ofNat, Nat.mod_eq_of_lt hf.word]
    exact hloaded

/-- **The loop is at a file that is not missing**, or at the one behind the last. -/
theorem Lands.missingFrom (h : s.Lands lors i) : s.MissingFrom lors (i - s.targetFile lors) := by
  intro j hj
  have habove := h.above
  have hbelow := h.below
  exact ⟨by omega, h.missing _ (by omega) (by omega)⟩

/-- It asks for that file. -/
theorem Lands.consults (h : s.Lands lors i) (hplace : s.place = .skipping lors)
    (hends : Ends skipTurn s r) : ∃ new, r.calls =
      new ++ ⟨.isMissing, i, s.fi.nFiles⟩ :: s.consulted lors (i - s.targetFile lors) ++
        s.calls := by
  have habove := h.above
  have hbelow := h.below
  have hword := s.st.nFilesProbed.isLt
  rw [ends_skippedTo hplace h.missingFrom] at hends
  have hturn : skipTurn (s.skippedTo lors (i - s.targetFile lors)) =
      .again ((s.skippedTo lors (i - s.targetFile lors)).skipTest lors) := skipTurn_skipping hplace
  have htarget : (s.skippedTo lors (i - s.targetFile lors)).targetFile lors = i := by
    rw [skippedTo_target (by omega)]
    omega
  have htest : lors.target (s.skippedTo lors (i - s.targetFile lors)).st ≤
      (s.skippedTo lors (i - s.targetFile lors)).st.nFilesProbed := by
    show (s.skippedTo lors (i - s.targetFile lors)).targetFile lors ≤
      (lors.moved _ _ s.st).nFilesProbed.toNat
    rw [htarget, moved_nFilesProbed]
    exact hbelow
  obtain ⟨new, hcalls⟩ := ends_calls ((Ends.again_iff hturn).mp hends)
  refine ⟨new, ?_⟩
  rw [hcalls, skipTest_calls, if_pos htest]
  have hfile : (lors.target (s.skippedTo lors (i - s.targetFile lors)).st).toNat = i := htarget
  rw [hfile]
  simp only [skippedTo, List.append_assoc, List.cons_append]

/-- Where the loop ends at a file that is there. -/
theorem Lands.ends_present (h : s.Lands lors i) (hplace : s.place = .skipping lors)
    (hpresent : s.fi.afiIsMissing i = some false) :
    Ends skipTurn s { (s.skippedTo lors (i - s.targetFile lors)).called .isMissing i with
      place := lors.after } := by
  have habove := h.above
  have hbelow := h.below
  have hword := s.st.nFilesProbed.isLt
  rw [ends_skippedTo hplace h.missingFrom]
  have hturn : skipTurn (s.skippedTo lors (i - s.targetFile lors)) =
      .again ((s.skippedTo lors (i - s.targetFile lors)).skipTest lors) := skipTurn_skipping hplace
  have htarget : (s.skippedTo lors (i - s.targetFile lors)).targetFile lors = i := by
    rw [skippedTo_target (by omega)]
    omega
  have hprobed : (s.skippedTo lors (i - s.targetFile lors)).st.nFilesProbed =
    s.st.nFilesProbed := moved_nFilesProbed _ _ _
  have hcell : (s.skippedTo lors (i - s.targetFile lors)).fi.afiIsMissing i = some false :=
    hpresent
  have htest : (s.skippedTo lors (i - s.targetFile lors)).skipTest lors =
      { (s.skippedTo lors (i - s.targetFile lors)).called .isMissing i with
        place := lors.after } := by
    rw [skipTest_eq (by rw [htarget, hprobed]; exact hbelow), htarget, hcell]
  rw [Ends.again_iff hturn, htest]
  exact ends_of_after rfl

/-- A missing file with the number that was probed is skipped as well. -/
theorem Lands.ends_missing (h : s.Lands lors i) (hplace : s.place = .skipping lors)
    (hmissing : s.fi.afiIsMissing i = some true) (hfiles : s.fi.nFiles < 2 ^ 64)
    (hi : i < s.fi.nFiles) (hends : Ends skipTurn s r) :
    ∃ packets, r.st = lors.moved (i - s.targetFile lors + 1) packets s.st := by
  have habove := h.above
  have hbelow := h.below
  have hlast : i = s.st.nFilesProbed.toNat := by
    rcases h.first with hlast | hpresent
    · exact hlast
    · rw [hmissing] at hpresent
      cases hpresent
  have hall : s.MissingFrom lors (i - s.targetFile lors + 1) := by
    intro j hj
    rcases Nat.lt_succ_iff_lt_or_eq.mp hj with hlt | rfl
    · exact h.missingFrom j hlt
    · rw [Nat.add_sub_cancel' habove]
      exact ⟨hbelow, hmissing⟩
  rw [ends_skippedTo hplace hall] at hends
  have hplace' : (s.skippedTo lors (i - s.targetFile lors + 1)).place = .skipping lors := hplace
  have htarget : (s.skippedTo lors (i - s.targetFile lors + 1)).targetFile lors = i + 1 := by
    rw [skippedTo_target (by omega)]
    omega
  have hprobed : (s.skippedTo lors (i - s.targetFile lors + 1)).st.nFilesProbed =
    s.st.nFilesProbed := moved_nFilesProbed _ _ _
  have htest : (s.skippedTo lors (i - s.targetFile lors + 1)).skipTest lors =
      { s.skippedTo lors (i - s.targetFile lors + 1) with place := lors.after } := by
    refine if_neg fun hle => ?_
    have hle' : (s.skippedTo lors (i - s.targetFile lors + 1)).targetFile lors ≤
      (s.skippedTo lors (i - s.targetFile lors + 1)).st.nFilesProbed.toNat := hle
    rw [htarget, hprobed] at hle'
    omega
  rw [Ends.again_iff (skipTurn_skipping hplace'), htest] at hends
  obtain rfl := hends.unique (ends_of_after rfl)
  exact ⟨_, rfl⟩

/-- Behind the files that `start_loading` skips there is one to be loaded. -/
theorem Lands.loadsInside (h : s.Lands .skipLoaded i) (hf : s.Filed)
    (ht : s.Tracks .skipLoaded) (hi : i < s.fi.nFiles)
    (hcounted : s.counted .skipLoaded (i - s.targetFile .skipLoaded) =
      (i - s.targetFile .skipLoaded) * s.bufNumElems.toNat) :
    LoadsInside { (s.skippedTo .skipLoaded (i - s.targetFile .skipLoaded)).called .isMissing i
      with place := Lors.skipLoaded.after } := by
  have habove := h.above
  have hfiles := nFiles_word hf
  have hcounter : s.st.packetsLoaded.toNat =
      s.targetFile .skipLoaded * s.bufNumElems.toNat := by
    refine ht.counter.trans ?_
    rw [Finset.range_eq_Ico, sum_packetsOf_Ico hf (Nat.lt_of_le_of_lt habove hi), Nat.sub_zero]
  have hword := files_word hf hi
  have hle : i * s.bufNumElems.toNat ≤ s.fi.nPackets := by
    have hlast := hf.above
    have hle' : (i + 1) * s.bufNumElems.toNat ≤ s.fi.nFiles * s.bufNumElems.toNat :=
      Nat.mul_le_mul_right _ hi
    rw [Nat.succ_mul] at hle'
    omega
  refine Filed.loadsInside ⟨hf.cells, hf.above, hf.below, hf.word⟩ ?_ ?_
  · show (s.skippedTo .skipLoaded _).targetFile .skipLoaded < s.fi.nFiles
    rw [skippedTo_target (by omega)]
    omega
  · show (s.st.packetsLoaded + BitVec.ofNat 64 (s.counted .skipLoaded _)).toNat ≤ _
    rw [hcounted, BitVec.toNat_add, BitVec.toNat_ofNat, hcounter, Nat.add_mod_mod,
      ← Nat.add_mul, Nat.add_sub_cancel' habove, Nat.mod_eq_of_lt hword]
    exact hle

/-- **When missing files are skipped exactly.**  There is a file that is not missing before
the end of the index and not behind the number that was probed, and none of the skipped
ones is cut short. -/
theorem skipsExactly_iff (hf : s.Filed) (ht : s.Tracks lors) :
    s.SkipsExactly lors ↔ ∃ i, s.Lands lors i ∧ i < s.fi.nFiles ∧
      s.fi.afiIsMissing i = some false ∧ s.CountsWhole (s.targetFile lors) i lors := by
  have hfiles := nFiles_word hf
  constructor
  · rintro ⟨s', i, hends, hlands, -, hst, ⟨new, hcalls, hinside⟩, -⟩
    obtain ⟨new', hcalls'⟩ := hlands.consults ht.place hends
    have hi : i < s.fi.nFiles := by
      rw [hcalls'] at hcalls
      have hnew := List.append_cancel_right hcalls
      exact hinside ⟨.isMissing, i, s.fi.nFiles⟩ (by rw [← hnew]; simp)
    refine ⟨i, hlands, hi, ?_⟩
    rcases hf.cell hi with hmissing | hpresent
    · -- the target would be one further
      obtain ⟨packets, hst'⟩ := hlands.ends_missing ht.place hmissing hfiles hi hends
      have htarget := congrArg lors.target (hst'.symm.trans hst)
      rw [moved_target, moved_target, BitVec.add_right_inj] at htarget
      have hnumbers := congrArg BitVec.toNat htarget
      rw [BitVec.toNat_ofNat, BitVec.toNat_ofNat] at hnumbers
      omega
    · refine ⟨hpresent, (counted_whole_iff hf ht hlands.above hi).mp ?_⟩
      obtain rfl := hends.unique (hlands.ends_present ht.place hpresent)
      have hcounter := congrArg lors.counter hst
      have hsum := sum_packetsOf_Ico hf (t := s.targetFile lors) hi
      have hle := s.counted_le lors (i - s.targetFile lors)
      have hword := files_word hf hi
      have hmul : (i - s.targetFile lors) * s.bufNumElems.toNat ≤ i * s.bufNumElems.toNat :=
        Nat.mul_le_mul_right _ (Nat.sub_le _ _)
      change lors.counter (lors.moved _ _ s.st) = _ at hcounter
      rw [moved_counter, moved_counter, BitVec.add_right_inj, hsum] at hcounter
      have hnumbers := congrArg BitVec.toNat hcounter
      rw [BitVec.toNat_ofNat, BitVec.toNat_ofNat, Nat.mod_eq_of_lt (by omega),
        Nat.mod_eq_of_lt (by omega)] at hnumbers
      exact hnumbers
  · rintro ⟨i, hlands, hi, hpresent, hwhole⟩
    have hcounted := (counted_whole_iff hf ht hlands.above hi).mpr hwhole
    have hsum := sum_packetsOf_Ico hf (t := s.targetFile lors) hi
    refine ⟨_, i, hlands.ends_present ht.place hpresent, hlands, rfl, ?_, ?_, ?_⟩
    · show lors.moved _ _ s.st = _
      rw [hcounted, hsum]
    · refine ⟨⟨.isMissing, i, s.fi.nFiles⟩ :: s.consulted lors (i - s.targetFile lors), rfl, ?_⟩
      intro c hc
      rcases List.mem_cons.mp hc with rfl | hc
      · exact hi
      · obtain ⟨j, hj, rfl⟩ := List.mem_map.mp hc
        have hlt := List.mem_range.mp (List.mem_reverse.mp hj)
        show s.targetFile lors + j < s.fi.nFiles
        omega
    · rintro rfl
      exact hlands.loadsInside hf ht hi hcounted

end Skipping

/-! ## Three files -/

/-- Three files of at most four packets, ten in all; the files of `missing` are not there. -/
def threeFiles (missing : List ℕ) (lors : Lors) (st : SenderTracking) : Sending where
  fi :=
    { status := afiSend
      packetSize := 1024
      files := (List.range 3).map fun k =>
        ⟨0, if k ∈ missing then fhMissing else fhOndisk⟩
      nPackets := 10
      nFiles := 3
      allocatedFiles := 3 }
  bufNumElems := 4
  st := st
  place := .skipping lors
  inLoading := []
  calls := []

theorem threeFiles_filed (missing : List ℕ) (lors : Lors) (st : SenderTracking) :
    (threeFiles missing lors st).Filed where
  cells := (by decide : 3 ≤ 3)
  above := (by decide : 3 * 4 < 10 + 4)
  below := (by decide : 10 ≤ 3 * 4)
  word := (by decide : 10 < 2 ^ 64)

/-- The second file is missing when it is to be loaded. -/
def secondMissing : Sending :=
  threeFiles [1] .skipLoaded
    { noTracking with filesLoaded := 1, packetsLoaded := 4, nFilesProbed := 3 }

theorem skipsExactly_iff_secondMissing : secondMissing.SkipsExactly .skipLoaded := by
  have htracks : secondMissing.Tracks .skipLoaded :=
    ⟨rfl, by decide, by decide, by decide⟩
  refine (skipsExactly_iff (threeFiles_filed _ _ _) htracks).mpr ⟨2, ?_, by decide, rfl, ?_⟩
  · refine ⟨by decide, by decide, fun j hge hlt => ?_, Or.inr rfl⟩
    obtain rfl : j = 1 := Nat.le_antisymm (Nat.le_of_lt_succ hlt) hge
    rfl
  · exact Or.inl (by decide)

/-- The first file is missing when it is to be loaded. -/
def firstMissing : Sending :=
  threeFiles [0] .skipLoaded { noTracking with nFilesProbed := 3 }

/-- **The first file counts for three packets**, as many as there are files. -/
theorem firstMissing_not_exact :
    ¬ ∀ (s : Sending) (lors : Lors), s.Filed → s.Tracks lors → s.SkipsExactly lors := by
  intro hall
  have htracks : firstMissing.Tracks .skipLoaded := ⟨rfl, by decide, by decide, by decide⟩
  obtain ⟨s', i, hends, hlands, -, hst, -⟩ := hall _ _ (threeFiles_filed _ _ _) htracks
  -- the first file is skipped and the second one is there
  obtain ⟨r, hrun, hfiles, hpackets⟩ : ∃ r, runLoop skipTurn 3 firstMissing = some r ∧
      r.st.filesLoaded = 1 ∧ r.st.packetsLoaded = 3 := ⟨_, rfl, rfl, rfl⟩
  obtain rfl := hends.unique ⟨3, hrun⟩
  have hbelow : i ≤ 3 := hlands.below
  have hi : i = 1 := by
    have hmoved : s'.st.filesLoaded = BitVec.ofNat 64 i :=
      (congrArg Lors.skipLoaded.target hst).trans (BitVec.zero_add _)
    rw [hfiles] at hmoved
    have hnumbers := congrArg BitVec.toNat hmoved
    rw [BitVec.toNat_ofNat, Nat.mod_eq_of_lt (by omega)] at hnumbers
    exact hnumbers.symm
  subst hi
  have hfour : s'.st.packetsLoaded = 4 := congrArg Lors.skipLoaded.counter hst
  rw [hpackets] at hfour
  exact absurd hfour (by decide)

end Sending

end VlbiStreamer.Sender
