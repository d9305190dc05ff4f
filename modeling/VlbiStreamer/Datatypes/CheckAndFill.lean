import VlbiStreamer.Library.Fields
import VlbiStreamer.Library.Refilling
import VlbiStreamer.Receiver.Headers
import Mathlib.Data.Int.ModEq
import Mathlib.Data.Int.ConditionallyCompleteOrder
import Mathlib.Order.ConditionallyCompleteLattice.Basic

/-!
# Filling holes, with the count of errors

`check_and_fill` with a pointer for the count of errors, as the unit tests call it, and
with or without an index.  `checkAndFill_eq` says that without the count it is the
function that the writers call.

On UDPMON and MARK5BNET streams the pass over the slots is the general one of `Headers`:
the header that slot `j` should have is the model header after `j` increments, and a
header is wrong if its number is another.
-/

namespace VlbiStreamer.Datatypes

open Library Receiver

/-! ## The function -/

/-- How many packets `check_and_fill` goes over; without an index, the whole buffer. -/
def elementsToFill (o : Opt) (fi : Option ℕ) (fileid : ℤ) : ℤ :=
  match fi with
  | some nPackets => realNumberOfElements o nPackets fileid
  | none => o.bufNumElems

/-- The loop of `check_and_fill` with its `int errors`. -/
def fillLoopErrors (o : Opt) (currentSeq : ℤ) :
    ℕ → Memory → Ptr → Bytes → VdifSeq → ℤ → Option (Memory × ℤ)
  | 0, m, _, _, _, errors => some (m, errors)
  | n + 1, m, buffer, model, v, errors => do
      let (off, v) ← headerMatch o (m.read buffer) model v currentSeq
      if off ≠ 0 then
        fillLoopErrors o currentSeq n (m.write buffer o.datatype.hsize model)
          (buffer.add o.packetSize) (incrementHeader o.datatype model) v (int (errors + 1))
      else
        fillLoopErrors o currentSeq n m (buffer.add o.packetSize)
          (incrementHeader o.datatype model) v errors

/-- `check_and_fill(buffer, opt, fileid, expected_errors)`; without a model header it
returns an error and leaves `expected_errors` alone.  `none` is a division by zero. -/
def checkAndFillErrors (o : Opt) (fi : Option ℕ) (firstPacket : Option Bytes) (v : VdifSeq)
    (currentSeq : ℤ) (m : Memory) (buffer : Ptr) (fileid : ℤ) : Option (Memory × Option ℤ) :=
  match createInitialHeader o firstPacket v fileid with
  | none => some (m, none)
  | some model =>
      (fillLoopErrors o currentSeq (elementsToFill o fi fileid).toNat m buffer model v 0).map
        fun (m, errors) => (m, some errors)

section NoCount

variable {o : Opt} {currentSeq fileid : ℤ} {n : ℕ} {m : Memory} {buffer : Ptr}
  {model : Bytes} {firstPacket : Option Bytes} {v : VdifSeq}

theorem fillLoop_eq (errors : ℤ) : fillLoop o currentSeq n m buffer model v =
    (fillLoopErrors o currentSeq n m buffer model v errors).map Prod.fst := by
  induction n generalizing m buffer model v errors with
  | zero => rfl
  | succ n ih =>
      rw [fillLoop, fillLoopErrors]
      cases hmatch : headerMatch o (m.read buffer) model v currentSeq with
      | none => rfl
      | some r =>
          obtain ⟨off, v'⟩ := r
          simp only [Option.bind_eq_bind, Option.bind_some]
          split
          · exact ih _
          · exact ih _

/-- Without the count it is the function that the writers call. -/
theorem checkAndFill_eq (nPackets : ℕ) :
    checkAndFill o nPackets firstPacket v currentSeq m buffer fileid =
      (checkAndFillErrors o (some nPackets) firstPacket v currentSeq m buffer fileid).map
        Prod.fst := by
  unfold checkAndFill checkAndFillErrors
  cases createInitialHeader o firstPacket v fileid with
  | none => rfl
  | some model =>
      show fillLoop _ _ _ _ _ _ _ = Option.map _ (Option.map _ _)
      rw [Option.map_map, fillLoop_eq 0]
      rfl

end NoCount

/-! ## Numbered packets -/

/-- The number in a header, as it is on the wire. -/
def wireNumber (d : Datatype) (header : Bytes) : ℕ :=
  match d with
  | .udpmon => (getseqUdpmon header).toNat
  | .mark5bnet => (word32 header 4).toNat
  | .vdif | .mark5b | .unknown => 0

/-- The numbers are counted modulo this. -/
def modulus : Datatype → ℕ
  | .udpmon => 2 ^ 64
  | .mark5bnet => 2 ^ 32
  | .vdif | .mark5b | .unknown => 1

/-- The formats whose packets are counted on. -/
def Counted (d : Datatype) : Prop := d = .udpmon ∨ d = .mark5bnet

section Counted

variable {d : Datatype} {o : Opt} {bs bs' : Bytes} {v : VdifSeq}

theorem wireNumber_lt (hd : Counted d) (bs : Bytes) : wireNumber d bs < modulus d := by
  rcases hd with rfl | rfl
  · exact (getseqUdpmon bs).isLt
  · exact (word32 bs 4).isLt

/-- The number is in the header. -/
theorem wireNumber_congr (h : ∀ x < d.hsize, bs x = bs' x) :
    wireNumber d bs = wireNumber d bs' := by
  cases d with
  | udpmon =>
      show (word64be bs 0).toNat = (word64be bs' 0).toNat
      rw [word64be, word64be, word32be_congr (show 0 + 4 ≤ 8 by omega) h,
        word32be_congr (show 0 + 4 + 4 ≤ 8 by omega) h]
  | mark5bnet => exact congrArg BitVec.toNat (word32_congr (show 4 + 4 ≤ 24 by omega) h)
  | vdif => rfl
  | mark5b => rfl
  | unknown => rfl

theorem wireNumber_setUdpmon (n : ℤ) :
    (wireNumber .udpmon (setFramenumForUdpmon bs n) : ℤ) = n % 2 ^ 64 := by
  show ((word64be (setWord64be bs 0 _) 0).toNat : ℤ) = _
  rw [word64be_setWord64be, BitVec.toNat_ofInt]
  exact Int.toNat_of_nonneg (Int.emod_nonneg _ (by omega))

theorem wireNumber_setMark5bNet (n : ℤ) :
    (wireNumber .mark5bnet (setFramenumForMark5bNet bs n) : ℤ) = n % 2 ^ 32 := by
  show ((word32 (setWord32 bs 4 _) 4).toNat : ℤ) = _
  rw [word32_setWord32, BitVec.toNat_ofInt]
  exact Int.toNat_of_nonneg (Int.emod_nonneg _ (by omega))

/-- A signed number is the one on the wire, modulo the width. -/
theorem getseqUdpmon_modEq : (getseqUdpmon bs).toInt ≡ wireNumber .udpmon bs [ZMOD 2 ^ 64] := by
  rw [BitVec.toInt_eq_toNat_bmod]
  exact Int.bmod_emod

theorem getseqMark5bNet_modEq :
    getseqMark5bNet bs ≡ wireNumber .mark5bnet bs [ZMOD 2 ^ 32] := by
  rw [getseqMark5bNet, BitVec.toInt_eq_toNat_bmod]
  exact Int.bmod_emod

/-- `increment_header` counts on. -/
theorem wireNumber_increment (hd : Counted d) :
    (wireNumber d (incrementHeader d bs) : ℤ) = (wireNumber d bs + 1) % modulus d := by
  rcases hd with rfl | rfl
  · show (wireNumber .udpmon (setFramenumForUdpmon bs _) : ℤ) = _
    rw [wireNumber_setUdpmon]
    exact getseqUdpmon_modEq.add_right 1
  · show (wireNumber .mark5bnet (setFramenumForMark5bNet bs _) : ℤ) = _
    rw [wireNumber_setMark5bNet]
    exact getseqMark5bNet_modEq.add_right 1

theorem wireNumber_iterate (hd : Counted d) (j : ℕ) :
    (wireNumber d ((incrementHeader d)^[j] bs) : ℤ) = (wireNumber d bs + j) % modulus d := by
  induction j with
  | zero =>
      have hlt := wireNumber_lt hd bs
      rw [Function.iterate_zero, id, Nat.cast_zero, add_zero]
      exact (Int.emod_eq_of_lt (Int.natCast_nonneg _) (by omega)).symm
  | succ j ih =>
      rw [Function.iterate_succ_apply', wireNumber_increment hd, ih, Int.emod_add_emod,
        Nat.cast_succ, add_assoc]

/-- `create_initial_header` counts from the first packet of the recording. -/
theorem createInitialHeader_counted (hd : Counted o.datatype) (first : Bytes) (fileid : ℕ) :
    ∃ model, createInitialHeader o (some first) v fileid = some model ∧
      (wireNumber o.datatype model : ℤ) =
        (wireNumber o.datatype first + fileid * o.bufNumElems) % modulus o.datatype := by
  rw [mul_comm (fileid : ℤ)]
  unfold createInitialHeader
  rcases hd with hd | hd <;> rw [hd]
  · refine ⟨_, rfl, ?_⟩
    rw [wireNumber_setUdpmon]
    exact getseqUdpmon_modEq.add_right _
  · refine ⟨_, rfl, ?_⟩
    rw [wireNumber_setMark5bNet]
    exact getseqMark5bNet_modEq.add_right _

/-- `header_match` compares the numbers. -/
theorem headerMatch_counted (hd : Counted o.datatype) (target model : Bytes) (v : VdifSeq)
    (currentSeq : ℤ) : ∃ off, headerMatch o target model v currentSeq = some (off, v) ∧
      (off = 0 ↔ wireNumber o.datatype target = wireNumber o.datatype model) := by
  unfold headerMatch
  rcases hd with hd | hd <;> rw [hd]
  · refine ⟨_, rfl, ?_⟩
    rw [wireNumber, wireNumber, BitVec.toNat_inj, ← BitVec.toInt_zero, BitVec.toInt_inj, eq_comm,
      BitVec.eq_sub_iff_add_eq, BitVec.zero_add, eq_comm]
  · refine ⟨_, rfl, ?_⟩
    have htarget := getseqMark5bNet_bounds target
    have hmodel := getseqMark5bNet_bounds model
    rw [long_of_fits (by omega) (by omega), sub_eq_zero]
    exact BitVec.toInt_inj.trans BitVec.toNat_inj.symm

end Counted

/-! ## The pass over the slots -/

/-- The number that slot `j` of a file should have. -/
def expectedNumber (o : Opt) (first : Bytes) (fileid j : ℕ) : ℕ :=
  (wireNumber o.datatype first + fileid * o.bufNumElems + j) % modulus o.datatype

/-- The header of slot `j` of a buffer has another number than it should. -/
def IsHole (o : Opt) (first : Bytes) (fileid : ℕ) (m : Memory) (buffer : Ptr) (j : ℕ) : Prop :=
  wireNumber o.datatype (m.read (buffer.add (j * o.packetSize))) ≠ expectedNumber o first fileid j

instance (o : Opt) (first : Bytes) (fileid : ℕ) (m : Memory) (buffer : Ptr) :
    DecidablePred (IsHole o first fileid m buffer) :=
  fun _ => inferInstanceAs (Decidable (_ ≠ _))

/-- The first `n` slots of a buffer have been filled, and nothing else is touched. -/
structure Filled (o : Opt) (first : Bytes) (fileid n : ℕ) (m : Memory) (buffer : Ptr)
    (m' : Memory) (errors : ℤ) : Prop where
  numbered : ∀ j < n, ¬ IsHole o first fileid m' buffer j
  /-- A slot with its number is left alone. -/
  kept : ∀ j < n, ¬ IsHole o first fileid m buffer j → ∀ x < o.packetSize,
    m'.read (buffer.add (j * o.packetSize)) x = m.read (buffer.add (j * o.packetSize)) x
  /-- Only the header of a slot is written. -/
  headerOnly : ∀ j < n, ∀ x, o.datatype.hsize ≤ x → x < o.packetSize →
    m'.read (buffer.add (j * o.packetSize)) x = m.read (buffer.add (j * o.packetSize)) x
  /-- The slots that follow, and all that is outside the buffer. -/
  outside : ∀ b x, b ≠ buffer.block ∨ x < buffer.off ∨ buffer.off + n * o.packetSize ≤ x →
    m' b x = m b x
  errors : errors = Nat.count (IsHole o first fileid m buffer) n

section Pass

variable {o : Opt} {currentSeq errors : ℤ} {n j k fileid : ℕ} {m m' : Memory} {buffer : Ptr}
  {model first : Bytes} {v : VdifSeq} {fi : Option ℕ}

/-- The headers of the slots, counted up from a model. -/
def slotHeaders (o : Opt) (hP : o.datatype.hsize ≤ o.packetSize) (model : Bytes) : Headers where
  size := o.packetSize
  len := o.datatype.hsize
  len_le := hP
  header j := (incrementHeader o.datatype)^[j] model
  wrong j bs := wireNumber o.datatype bs ≠
    wireNumber o.datatype ((incrementHeader o.datatype)^[j] model)
  wrong_congr h := by rw [wireNumber_congr h]
  header_right j := decide_eq_false (not_not.mpr rfl)

/-- The loop is the pass over the slots, and its `int` counts the wrong ones. -/
theorem fillLoopErrors_eq (hd : Counted o.datatype) (hP : o.datatype.hsize ≤ o.packetSize)
    (hpos : 0 ≤ errors) (hlt : errors + n < 2 ^ 31) :
    fillLoopErrors o currentSeq n m buffer ((incrementHeader o.datatype)^[j] model) v errors =
      some (((slotHeaders o hP model).refill j n m buffer).1,
        errors + ((slotHeaders o hP model).refill j n m buffer).2) := by
  induction n generalizing j m buffer errors with
  | zero => exact congrArg some (Prod.ext rfl (add_zero errors).symm)
  | succ n ih =>
      obtain ⟨off, hmatch, hzero⟩ := headerMatch_counted hd (m.read buffer)
        ((incrementHeader o.datatype)^[j] model) v currentSeq
      have hwrong : (slotHeaders o hP model).wrong j (m.read buffer) = true ↔ off ≠ 0 := by
        rw [← not_iff_not, not_not, hzero, Bool.not_eq_true]
        exact decide_eq_false_iff_not.trans not_not
      rw [fillLoopErrors, hmatch, ← Function.iterate_succ_apply' (incrementHeader o.datatype)]
      show (if _ ≠ _ then _ else _) = _
      by_cases hoff : off = 0
      · have hmend : (slotHeaders o hP model).mend j m buffer = m :=
          if_neg fun h => hwrong.mp h hoff
        rw [if_neg (not_not.mpr hoff), ih hpos (by omega), Headers.refill, hmend,
          if_neg fun h => hwrong.mp h hoff]
        rfl
      · have hmend : (slotHeaders o hP model).mend j m buffer =
            m.write buffer o.datatype.hsize ((incrementHeader o.datatype)^[j] model) :=
          if_pos (hwrong.mpr hoff)
        have hint : int (errors + 1) = errors + 1 := by
          unfold int
          omega
        rw [if_pos hoff, hint, ih (by omega) (by push_cast at hlt; omega), Headers.refill, hmend,
          if_pos (hwrong.mpr hoff), Nat.cast_add, Nat.cast_one, add_right_comm, add_assoc]
        rfl

/-- Counted up from the first packet, the headers have the expected numbers. -/
theorem wrongAt_iff (hd : Counted o.datatype) (hP : o.datatype.hsize ≤ o.packetSize)
    (hmodel : (wireNumber o.datatype model : ℤ) =
      (wireNumber o.datatype first + fileid * o.bufNumElems) % modulus o.datatype) :
    (slotHeaders o hP model).WrongAt 0 m buffer j ↔ IsHole o first fileid m buffer j := by
  have hnumber : wireNumber o.datatype ((incrementHeader o.datatype)^[0 + j] model) =
      expectedNumber o first fileid j := by
    rw [← Int.natCast_inj, wireNumber_iterate hd, hmodel, Int.emod_add_emod, expectedNumber,
      Nat.zero_add]
    push_cast
    rfl
  rw [IsHole, ← hnumber]
  exact decide_eq_true_iff

/-- The pass fills exactly the holes. -/
theorem filled_of_refilled (hd : Counted o.datatype) {hP : o.datatype.hsize ≤ o.packetSize}
    (hmodel : (wireNumber o.datatype model : ℤ) =
      (wireNumber o.datatype first + fileid * o.bufNumElems) % modulus o.datatype)
    (h : (slotHeaders o hP model).Refilled 0 n m buffer m') :
    Filled o first fileid n m buffer m'
      (Nat.count ((slotHeaders o hP model).WrongAt 0 m buffer) n) := by
  refine ⟨fun j hj => ?_, fun j hj hright x hx => ?_, fun j hj x hlen hx => ?_, h.outside, ?_⟩
  · exact mt (wrongAt_iff hd hP hmodel).mpr (h.right hj)
  · have hslot := h.slot j hj x hx
    rwa [if_neg fun hw => hright ((wrongAt_iff hd hP hmodel).mp hw.1)] at hslot
  · have hslot := h.slot j hj x hx
    rwa [if_neg fun hw => absurd hw.2 (Nat.not_lt.mpr hlen)] at hslot
  · rw [Nat.cast_inj]
    exact le_antisymm (Nat.count_mono_left fun _ _ => (wrongAt_iff hd hP hmodel).mp)
      (Nat.count_mono_left fun _ _ => (wrongAt_iff hd hP hmodel).mpr)

theorem elementsToFill_le (fi : Option ℕ) (fileid : ℤ) :
    elementsToFill o fi fileid ≤ o.bufNumElems := by
  cases fi with
  | none => exact le_rfl
  | some nPackets =>
      show (if _ then _ else _) ≤ _
      split <;> omega

/-- The count of the index clips, as long as what is left can be counted by a `long`. -/
theorem elementsToFill_some {nPackets : ℕ}
    (hfits : (nPackets - fileid * o.bufNumElems : ℤ) ∈ Set.Ico (-2 ^ 63) (2 ^ 63)) :
    elementsToFill o (some nPackets) fileid =
      min (o.bufNumElems : ℤ) (nPackets - fileid * o.bufNumElems) := by
  rw [elementsToFill, realNumberOfElements, mul_comm (o.bufNumElems : ℤ),
    long_of_fits hfits.1 hfits.2]
  split <;> omega

/-- `check_and_fill` is the pass over the slots. -/
theorem checkAndFillErrors_eq (hd : Counted o.datatype) (hP : o.datatype.hsize ≤ o.packetSize)
    (hN : o.bufNumElems < 2 ^ 31) (fi : Option ℕ) (first : Bytes) (v : VdifSeq) (currentSeq : ℤ)
    (buffer : Ptr) (fileid : ℕ) :
    ∃ model, (wireNumber o.datatype model : ℤ) =
        (wireNumber o.datatype first + fileid * o.bufNumElems) % modulus o.datatype ∧
      ∀ m, checkAndFillErrors o fi (some first) v currentSeq m buffer fileid =
        let r := (slotHeaders o hP model).refill 0 (elementsToFill o fi fileid).toNat m buffer
        some (r.1, some (r.2 : ℤ)) := by
  obtain ⟨model, hinitial, hmodel⟩ := createInitialHeader_counted (v := v) hd first fileid
  refine ⟨model, hmodel, fun m => ?_⟩
  have hle := elementsToFill_le (o := o) fi fileid
  have hloop : fillLoopErrors o currentSeq (elementsToFill o fi fileid).toNat m buffer model v 0 =
      _ := fillLoopErrors_eq (j := 0) hd hP le_rfl (by omega)
  rw [zero_add] at hloop
  rw [checkAndFillErrors, hinitial]
  exact congrArg (Option.map _) hloop

/-- **Filling is exact and idempotent**: the slots that the index leaves get the numbers
counted from the first packet, what was right and what is no header stays, the errors are
the holes, and a second call finds none. -/
theorem checkAndFill_exact (hd : Counted o.datatype) (hP : o.datatype.hsize ≤ o.packetSize)
    (hN : o.bufNumElems < 2 ^ 31) (fi : Option ℕ) (first : Bytes) (v : VdifSeq) (currentSeq : ℤ)
    (m : Memory) (buffer : Ptr) (fileid : ℕ) :
    (∃ m' errors,
      checkAndFillErrors o fi (some first) v currentSeq m buffer fileid = some (m', some errors) ∧
      Filled o first fileid (elementsToFill o fi fileid).toNat m buffer m' errors ∧
      checkAndFillErrors o fi (some first) v currentSeq m' buffer fileid = some (m', some 0)) ∧
    (fi = none → elementsToFill o fi fileid = o.bufNumElems) ∧
    ∀ nPackets, fi = some nPackets →
      (nPackets - fileid * o.bufNumElems : ℤ) ∈ Set.Ico (-2 ^ 63) (2 ^ 63) →
      elementsToFill o fi fileid =
        min (o.bufNumElems : ℤ) (nPackets - fileid * o.bufNumElems) := by
  refine ⟨?_, ?_, ?_⟩
  · obtain ⟨model, hmodel, hcall⟩ :=
      checkAndFillErrors_eq hd hP hN fi first v currentSeq buffer fileid
    refine ⟨_, _, hcall m, ?_, ?_⟩
    · rw [Headers.refill_count]
      exact filled_of_refilled hd hmodel Headers.refilled
    · rw [hcall, Headers.refill_again]
      rfl
  · rintro rfl
    rfl
  · rintro nPackets rfl hfits
    exact elementsToFill_some hfits

end Pass

/-- UDPMON packets of a bare header, four in a buffer. -/
def fourPackets : Opt where
  datatype := .udpmon
  bufNumElems := 4
  packetSize := 8
  offset := 0
  lastPacket := 0
  bufNumElems_lt := by decide
  bufsize_lt := by decide

/-- Of two packets that the index has in the first file, one is a hole. -/
theorem checkAndFill_exact_hole :
    ∃ m' errors,
      checkAndFillErrors fourPackets (some 2) (some fun _ => 0) VdifSeq.initial 0 (fun _ _ => 0)
        ⟨0, 0⟩ (0 : ℕ) = some (m', some errors) ∧
      Filled fourPackets (fun _ => 0) 0 (elementsToFill fourPackets (some 2) (0 : ℕ)).toNat
        (fun _ _ => 0) ⟨0, 0⟩ m' errors ∧
      checkAndFillErrors fourPackets (some 2) (some fun _ => 0) VdifSeq.initial 0 m' ⟨0, 0⟩
        (0 : ℕ) = some (m', some 0) :=
  (checkAndFill_exact (Or.inl rfl) (by decide) (by decide) (some 2) (fun _ => 0) VdifSeq.initial 0
    (fun _ _ => 0) ⟨0, 0⟩ 0).1

end VlbiStreamer.Datatypes
