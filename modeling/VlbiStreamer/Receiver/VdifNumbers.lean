import Mathlib.Tactic.Linarith
import VlbiStreamer.Datatypes.VdifFilling
import VlbiStreamer.Receiver.Sequenced

/-!
# The numbers of VDIF packets

`getseq_vdif` numbers a packet by its second and frame, and learns the frames in a second
on the way: it takes the number of the packet before for it when the second is not that
number.  That is a comparison of a second with a packet number, not with the second before,
and the seconds are read in another byte order than the one they have on the wire.

* `VdifStream` is a stream in order, `rate` frames in every second.
* `Fits` is what packet `k` and the ones the rate is learned from have to satisfy for
  packet `k` to get the number that follows; `getseqVdif_fits` is the step from one packet
  to the next.
* `inSequence_iff` says of every run when the packets are stored in order.
-/

namespace VlbiStreamer.Receiver

open Library Datatypes

/-- A VDIF stream in order: packet `k` is the one of tick `start + k`. -/
structure VdifStream where
  /-- The frames in a second. -/
  rate : ℕ
  rate_pos : 0 < rate
  start : ℕ
  packet : ℕ → Bytes

namespace VdifStream

variable (S : VdifStream)

/-- Packet `k` has the second and the frame number of its tick. -/
def IsPacket (k : ℕ) : Prop := HasStamp S.rate (S.start + k) (S.packet k)

/-- The frame number of the first packet. -/
def first : ℕ := S.start % S.rate

/-- The second of packet `k`, as `getseq_vdif` reads it. -/
def second (k : ℕ) : ℤ := secondFromVdif (S.packet k)

/-- The packet at which `packets_per_second` is set: the first whose second is not the
number of the packet before. -/
def learnt : ℕ := if S.second 1 = S.first then 2 else 1

/-- What is taken for the frames in a second: the number of the packet before. -/
def learntRate : ℤ := S.first + S.learnt - 1

/-- `getseq_vdif` gives packet `k` the number that follows. -/
def Fits (k : ℕ) : Prop :=
  if k = 0 then True
  else if k < S.learnt then (S.start + k) % S.rate = S.first + k
  else if S.learntRate = 0 then
    S.second S.learnt ≠ S.second 0 ∧
      (S.second k - S.second 0).tdiv (S.second S.learnt - S.second 0) = k
  else
    S.learntRate * (S.second k - S.second 0) =
      S.rate * (((S.start + k) / S.rate : ℕ) - (S.start / S.rate : ℕ))

/-- What `resq_info` knows once the rate is set. -/
def rated : VdifSeq := ⟨S.second 0, S.learntRate, S.second S.learnt - S.second 0⟩

/-- What `resq_info` knows after `k` packets that fit. -/
def known (k : ℕ) : VdifSeq :=
  if k = 0 then .initial
  else if k ≤ S.learnt then ⟨S.second 0, -1, 0⟩
  else S.rated

/-! ## The number of a packet -/

section Number

variable {S} {k : ℕ} {currentSeq : ℤ}

theorem second_bounds (k : ℕ) : 0 ≤ S.second k ∧ S.second k < 2 ^ 30 := by
  have hmask : secondFromVdif (S.packet k) = ((word32 (S.packet k) 0).toNat % 2 ^ 30 : ℕ) :=
    congrArg Nat.cast (toNat_and_mask (k := 30) _ (by omega))
  unfold second
  omega

theorem IsPacket.framenum (h : S.IsPacket k) :
    framenumFromVdif (S.packet k) = ((S.start + k) % S.rate : ℕ) := by
  rw [framenumFromVdif, ← h.2]
  exact congrArg Nat.cast (toNat_and_mask (k := 24) _ (by omega))

theorem IsPacket.frame_lt (h : S.IsPacket k) : (S.start + k) % S.rate < 2 ^ 24 := by
  rw [← h.2]
  exact Nat.mod_lt _ (by omega)

theorem IsPacket.first_lt (h : S.IsPacket 0) : S.first < 2 ^ 24 := h.frame_lt

/-- The highest byte of the second on the wire is the lowest of the one that is read. -/
theorem second_emod_byte (header : Bytes) :
    secondFromVdif header % 64 = ((word32be header 0).toNat % 2 ^ 30 / 2 ^ 24 : ℕ) := by
  have hread : secondFromVdif header = ((word32 header 0).toNat % 2 ^ 30 : ℕ) :=
    congrArg Nat.cast (toNat_and_mask (k := 30) _ (by omega))
  have hbytes : ∀ x, (header x).toNat < 2 ^ 8 := fun x => (header x).isLt
  have h0 := hbytes 0
  have h1 := hbytes (0 + 1)
  have h2 := hbytes (0 + 2)
  have h3 := hbytes (0 + 3)
  have hlow : (word32 header 0).toNat % 2 ^ 30 % 64 = (header 0).toNat % 64 := by
    rw [Nat.mod_mod_of_dvd _ (show 64 ∣ 2 ^ 30 by decide), toNat_word32]
    omega
  have hhigh : (word32be header 0).toNat % 2 ^ 30 / 2 ^ 24 = (header 0).toNat % 64 := by
    rw [show 2 ^ 30 = 2 ^ 24 * 64 from rfl, Nat.mod_mul_right_div_self, toNat_word32be]
    omega
  rw [hread, hhigh]
  exact_mod_cast hlow

/-- In one second, the second that is read has one value modulo `64`. -/
theorem second_emod {j : ℕ} (hj : S.IsPacket j) (hk : S.IsPacket k)
    (hsame : (S.start + j) / S.rate = (S.start + k) / S.rate) :
    S.second j % 64 = S.second k % 64 := by
  rw [second, second, second_emod_byte, second_emod_byte, hj.1, hk.1, hsame]

/-- The ticks in seconds and frames. -/
theorem tick_eq (k : ℕ) : (S.first : ℤ) + k =
    S.rate * (((S.start + k) / S.rate : ℕ) - (S.start / S.rate : ℕ)) +
      ((S.start + k) % S.rate : ℕ) := by
  have hk := Nat.div_add_mod (S.start + k) S.rate
  have hstart := Nat.div_add_mod S.start S.rate
  rw [mul_sub, ← Nat.cast_mul, ← Nat.cast_mul]
  unfold first
  omega

theorem learnt_eq :
    S.learnt = 1 ∧ S.second 1 ≠ S.first ∨ S.learnt = 2 ∧ S.second 1 = S.first := by
  unfold learnt
  split
  next h => exact Or.inr ⟨rfl, h⟩
  next h => exact Or.inl ⟨rfl, h⟩

theorem fits_zero : S.Fits 0 := by
  unfold Fits
  rw [if_pos rfl]
  trivial

theorem known_of_le (hpos : k ≠ 0) (hle : k ≤ S.learnt) : S.known k = ⟨S.second 0, -1, 0⟩ := by
  unfold known
  rw [if_neg hpos, if_pos hle]

theorem known_of_lt (hlt : S.learnt < k) : S.known k = S.rated := by
  unfold known
  rw [if_neg (by omega), if_neg (by omega)]

/-- The number of a packet once the rate is set. -/
theorem getseqVdif_rated (h0 : S.IsPacket 0) (hk : S.IsPacket k) (hlearnt : S.learnt ≤ k) :
    match getseqVdif (S.packet k) S.rated currentSeq with
    | none => ¬ S.Fits k
    | some (q, v) => (q = S.first + k ↔ S.Fits k) ∧ (S.Fits k → v = S.known (k + 1)) := by
  have hpos : k ≠ 0 := by
    rcases learnt_eq (S := S) with ⟨h, -⟩ | ⟨h, -⟩ <;> omega
  have hrate : -1 < S.learntRate ∧ S.learntRate < 2 ^ 25 := by
    have hfirst := h0.first_lt
    unfold learntRate
    rcases learnt_eq (S := S) with ⟨h, -⟩ | ⟨h, -⟩ <;> omega
  have hfits : S.Fits k ↔ if S.learntRate = 0 then
      S.second S.learnt ≠ S.second 0 ∧
        (S.second k - S.second 0).tdiv (S.second S.learnt - S.second 0) = k
      else S.learntRate * (S.second k - S.second 0) =
        S.rate * (((S.start + k) / S.rate : ℕ) - (S.start / S.rate : ℕ)) := by
    unfold Fits
    rw [if_neg hpos, if_neg (by omega)]
  have hsecond := second_bounds (S := S) k
  have hsecond0 := second_bounds (S := S) 0
  rw [getseqVdif_of_known (show S.second 0 ≠ -1 by omega) (show S.learntRate ≠ -1 by omega), hfits]
  show match if S.learntRate = 0 then
      if S.second S.learnt - S.second 0 = 0 then none
      else some (long ((S.second k - S.second 0).tdiv (S.second S.learnt - S.second 0)), S.rated)
      else some (long ((S.second k - S.second 0) * S.learntRate + framenumFromVdif (S.packet k)),
        S.rated) with
    | none => _
    | some (q, v) => _
  by_cases hzero : S.learntRate = 0
  · rw [if_pos hzero, if_pos hzero]
    by_cases hdif : S.second S.learnt - S.second 0 = 0
    · rw [if_pos hdif]
      exact fun h => h.1 (sub_eq_zero.mp hdif)
    · have hle := Int.natAbs_tdiv_le_natAbs (S.second k - S.second 0)
        (S.second S.learnt - S.second 0)
      have hfirst : S.first = 0 := by
        unfold learntRate at hzero
        rcases learnt_eq (S := S) with ⟨h, -⟩ | ⟨h, -⟩ <;> omega
      rw [if_neg hdif]
      refine ⟨?_, fun _ => (known_of_lt (by omega)).symm⟩
      rw [long_of_fits (by omega) (by omega), hfirst, Nat.cast_zero, zero_add]
      exact ⟨fun h => ⟨fun heq => hdif (sub_eq_zero.mpr heq), h⟩, fun h => h.2⟩
  · have hframe := hk.frame_lt
    have hlo : -(2 ^ 30 * 2 ^ 25) ≤ (S.second k - S.second 0) * S.learntRate := by
      nlinarith only [hsecond.1, hsecond0.2, hrate.1, hrate.2]
    have hhi : (S.second k - S.second 0) * S.learntRate ≤ 2 ^ 30 * 2 ^ 25 := by
      nlinarith only [hsecond.2, hsecond0.1, hrate.1, hrate.2]
    rw [if_neg hzero, if_neg hzero]
    refine ⟨?_, fun _ => (known_of_lt (by omega)).symm⟩
    rw [hk.framenum, long_of_fits (by omega) (by omega), tick_eq, add_left_inj, mul_comm]

/-- A packet whose second is the number of the packet before gets its frame number. -/
theorem getseqVdif_learning (hk : S.IsPacket k) (hsecond : S.second k = currentSeq) :
    getseqVdif (S.packet k) ⟨S.second 0, -1, 0⟩ currentSeq =
      some ((((S.start + k) % S.rate : ℕ) : ℤ), ⟨S.second 0, -1, 0⟩) := by
  have hne : S.second 0 ≠ -1 := by
    have := second_bounds (S := S) 0
    omega
  have heq : secondFromVdif (S.packet k) = currentSeq := hsecond
  unfold getseqVdif
  simp only [hne, if_false, heq, and_self, if_true, hk.framenum]

/-- A packet whose frame number is `k` more than the first is of the same second. -/
theorem same_second (h : (S.start + k) % S.rate = S.first + k) :
    (S.start + k) / S.rate = S.start / S.rate := by
  have hk := Nat.div_add_mod (S.start + k) S.rate
  have hstart := Nat.div_add_mod S.start S.rate
  unfold first at h
  exact Nat.eq_of_mul_eq_mul_left S.rate_pos (by omega)

/-- The seconds and frames of the packets fit in their fields, and so do their numbers in a
`long`. -/
theorem number_lt (hpackets : ∀ j ≤ k, S.IsPacket j) : S.first + k < 2 ^ 55 := by
  have hk := hpackets k le_rfl
  have hframe := hk.frame_lt
  by_cases hsame : (S.start + k) % S.rate = S.first + k
  · omega
  · -- the last frame of the first second was received
    have hfirst : S.first < S.rate := Nat.mod_lt _ S.rate_pos
    have hstart : ∀ j, S.start + j = S.first + j + S.rate * (S.start / S.rate) := by
      intro j
      have := Nat.div_add_mod S.start S.rate
      unfold first
      omega
    have hend : S.rate ≤ S.first + k := by
      by_contra hlt
      rw [hstart, Nat.add_mul_mod_self_left, Nat.mod_eq_of_lt (by omega)] at hsame
      exact hsame rfl
    have hlast := (hpackets (S.rate - 1 - S.first) (by omega)).frame_lt
    rw [hstart, Nat.add_mul_mod_self_left, Nat.mod_eq_of_lt (by omega)] at hlast
    have hseconds : (S.start + k) / S.rate < 2 ^ 30 := by
      rw [← hk.1]
      exact Nat.mod_lt _ (by omega)
    calc S.first + k ≤ S.start + k := Nat.add_le_add_right (Nat.mod_le _ _) _
      _ = S.rate * ((S.start + k) / S.rate) + (S.start + k) % S.rate :=
        (Nat.div_add_mod _ _).symm
      _ ≤ 2 ^ 24 * 2 ^ 30 + (S.start + k) % S.rate :=
        Nat.add_le_add_right (Nat.mul_le_mul (by omega) hseconds.le) _
      _ < 2 ^ 55 := by omega

/-- If the rate is not learned with the second packet, it is with the third: its second is
not the number of the second packet, or it does not fit. -/
theorem not_learning_twice (hpackets : ∀ j ≤ 2, S.IsPacket j) (hlearnt : S.learnt = 2)
    (hone : S.Fits 1) (htwo : S.second 2 = S.first + 1) :
    (S.start + 2) % S.rate ≠ S.first + 2 ∧ ¬ S.Fits 2 := by
  have hsecond : S.second 1 = S.first := by
    rcases learnt_eq (S := S) with ⟨h, -⟩ | ⟨-, h⟩
    · omega
    · exact h
  have hframe : (S.start + 1) % S.rate = S.first + 1 := by
    unfold Fits at hone
    rwa [if_neg Nat.one_ne_zero, if_pos (by omega)] at hone
  have hdiffer : (S.start + 2) % S.rate ≠ S.first + 2 := by
    -- in one second, the seconds that are read differ by a multiple of 64
    intro hsame
    have hemod := second_emod (hpackets 1 (by omega)) (hpackets 2 le_rfl)
      ((same_second hframe).trans (same_second hsame).symm)
    omega
  refine ⟨hdiffer, fun hfits => ?_⟩
  have hrate : S.learntRate = S.first + 1 := by
    unfold learntRate
    omega
  unfold Fits at hfits
  rw [if_neg (by omega), if_neg (by omega), if_neg (by omega), hrate, htwo] at hfits
  -- the third packet is the first of the next second
  have hone' := Nat.div_add_mod (S.start + 1) S.rate
  rw [same_second hframe, hframe] at hone'
  have hlt : S.first + 1 < S.rate := hframe ▸ Nat.mod_lt _ S.rate_pos
  have hstart : S.start + 2 = (S.first + 2) + S.rate * (S.start / S.rate) := by omega
  have hend : S.rate = S.first + 2 := by
    by_contra hne
    rw [hstart, Nat.add_mul_mod_self_left, Nat.mod_eq_of_lt (by omega)] at hdiffer
    exact hdiffer rfl
  have hnext : (S.start + 2) / S.rate = S.start / S.rate + 1 := by
    rw [hstart, Nat.add_mul_div_left _ _ S.rate_pos, ← hend, Nat.div_self S.rate_pos, add_comm]
  rw [hnext, hend] at hfits
  push_cast at hfits
  have hproduct : ((S.first : ℤ) + 1) * (S.first - S.second 0) = 1 := by
    linarith only [hfits]
  have hzero : (S.first : ℤ) + 1 = 1 := Int.eq_one_of_mul_eq_one_right (by omega) hproduct
  rw [hzero, one_mul] at hproduct
  have := second_bounds (S := S) 0
  omega

/-- **The number of the next packet.** -/
theorem getseqVdif_fits (hpackets : ∀ j ≤ k, S.IsPacket j) (hfits : ∀ j < k, S.Fits j)
    (hcurrent : k ≠ 0 → currentSeq = S.first + k - 1) :
    match getseqVdif (S.packet k) (S.known k) currentSeq with
    | none => ¬ S.Fits k
    | some (q, v) => (q = S.first + k ↔ S.Fits k) ∧ (S.Fits k → v = S.known (k + 1)) := by
  rcases Nat.eq_zero_or_pos k with rfl | hpos
  · have hstarted : getseqVdif (S.packet 0) (S.known 0) currentSeq =
        some ((S.first : ℤ), ⟨S.second 0, -1, 0⟩) := by
      unfold getseqVdif
      rw [if_pos (show (S.known 0).startingSecond = -1 from rfl),
        (hpackets 0 le_rfl).framenum]
      rfl
    rw [hstarted]
    refine ⟨⟨fun _ => fits_zero, fun _ => (add_zero _).symm⟩, fun _ => ?_⟩
    refine (known_of_le Nat.one_ne_zero ?_).symm
    rcases learnt_eq (S := S) with ⟨h, -⟩ | ⟨h, -⟩ <;> omega
  have hk : S.IsPacket k := hpackets k le_rfl
  have hcur := hcurrent hpos.ne'
  rcases lt_trichotomy k S.learnt with hlt | heq | hgt
  · -- the rate is not learned yet
    obtain ⟨hlearnt, hsecond⟩ : S.learnt = 2 ∧ S.second 1 = S.first := by
      rcases learnt_eq (S := S) with ⟨h, -⟩ | h
      · omega
      · exact h
    obtain rfl : k = 1 := by omega
    have hfits : S.Fits 1 ↔ (S.start + 1) % S.rate = S.first + 1 := by
      unfold Fits
      rw [if_neg Nat.one_ne_zero, if_pos hlt]
    rw [known_of_le Nat.one_ne_zero hlt.le, getseqVdif_learning hk (hsecond.trans (by omega)),
      hfits]
    refine ⟨by norm_cast, fun _ => (known_of_le (by omega) (by omega)).symm⟩
  · rw [known_of_le hpos.ne' heq.le]
    by_cases hsecond : S.second k = currentSeq
    · obtain ⟨hlearnt, -⟩ : S.learnt = 2 ∧ S.second 1 = S.first := by
        rcases learnt_eq (S := S) with ⟨h, hne⟩ | h
        · obtain rfl : k = 1 := by omega
          exact absurd (hsecond.trans (by omega)) hne
        · exact h
      obtain rfl : k = 2 := by omega
      obtain ⟨hframe, hnot⟩ := not_learning_twice hpackets hlearnt (hfits 1 (by omega))
        (hsecond.trans (by omega))
      rw [getseqVdif_learning hk hsecond]
      exact ⟨iff_of_false (by norm_cast) hnot, fun h => absurd h hnot⟩
    · have hcurrentRate : currentSeq = S.learntRate := by
        unfold learntRate
        omega
      have hfirst := (hpackets 0 (by omega)).first_lt
      have hle : S.learnt ≤ 2 := by
        rcases learnt_eq (S := S) with ⟨h, -⟩ | ⟨h, -⟩ <;> omega
      have hint : int currentSeq = S.learntRate := by
        rw [← hcurrentRate]
        unfold int
        omega
      have hsecondk := second_bounds (S := S) k
      have hsecond0 := second_bounds (S := S) 0
      have hdif : int (S.second k - S.second 0) = S.second S.learnt - S.second 0 := by
        rw [← heq]
        unfold int
        omega
      rw [getseqVdif_learn (show S.second 0 ≠ -1 by omega) rfl hsecond (by omega)]
      show match getseqVdif (S.packet k)
          ⟨S.second 0, int currentSeq, int (S.second k - S.second 0)⟩ currentSeq with
        | none => _
        | some (q, v) => _
      rw [hint, hdif]
      exact getseqVdif_rated (hpackets 0 (by omega)) hk heq.ge
  · rw [known_of_lt hgt]
    exact getseqVdif_rated (hpackets 0 (by omega)) hk hgt.le

/-! ## Ordinary streams -/

/-- A stream that starts with the first frame of a second divides by zero at its second
packet, if that has the same second and the second is not zero. -/
theorem not_fits_of_frame_zero (hzero : S.first = 0) (hsame : S.second 1 = S.second 0)
    (hne : S.second 0 ≠ 0) : ¬ S.Fits 1 := by
  have hlearnt : S.learnt = 1 := by
    unfold learnt
    rw [if_neg (by omega)]
  have hrate : S.learntRate = 0 := by
    unfold learntRate
    omega
  unfold Fits
  rw [if_neg Nat.one_ne_zero, if_neg (by omega), if_pos hrate, hlearnt]
  exact fun h => h.1 hsame

/-- A stream that starts with a later frame fits up to the end of the second, if the second
of its packets is not the number of the first. -/
theorem fits_iff_same_second (hfirst : S.first ≠ 0) (hsame : S.second k = S.second 0)
    (hne : S.second 1 ≠ S.first) : S.Fits k ↔ (S.start + k) / S.rate = S.start / S.rate := by
  rcases Nat.eq_zero_or_pos k with rfl | hpos
  · exact iff_of_true fits_zero rfl
  have hlearnt : S.learnt = 1 := if_neg hne
  have hrate : S.learntRate ≠ 0 := by
    unfold learntRate
    omega
  unfold Fits
  rw [if_neg hpos.ne', if_neg (by omega), if_neg hrate, hsame, sub_self, mul_zero, eq_comm,
    mul_eq_zero, sub_eq_zero, Nat.cast_inj]
  exact or_iff_right (by have := S.rate_pos; omega)

end Number

end VdifStream

end VlbiStreamer.Receiver
