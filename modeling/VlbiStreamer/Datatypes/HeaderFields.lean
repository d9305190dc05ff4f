import VlbiStreamer.Library.Fields
import VlbiStreamer.Receiver.Headers

/-!
# Writing and reading the fields of a header

`datatypes_common.h` has a macro that writes the frame number of every format, and
one for the seconds of VDIF; the readers are macros of their own.  A field has the
bits that its format gives it.

* UDPMON is written and read in network order.
* A MARK5BNET counter is read as an `int`.
* The MARK5B number is written into the word before the one it is read from.
* VDIF words are written in the order of the machine.  The frame number is read in
  network order, the seconds by `SECOND_FROM_VDIF` in the one and by
  `GET_VDIF_SECONDS` in the other.

`agrees_iff` says of each field when what is written is read back with the rest of
the header unchanged.
-/

namespace VlbiStreamer.Datatypes

open Library Receiver

/-! ## The macros -/

/-- `get_mask(start, end)` -/
def getMask (start last : ℕ) : BitVec 32 :=
  (List.range' start (last + 1 - start)).foldl (fun mask i => mask ||| 1 <<< i) 0

/-- `SET_FRAMENUM_FOR_VDIF` -/
def setFramenumForVdif (target : Bytes) (framenum : ℤ) : Bytes :=
  setWord32 target 4 (BitVec.ofInt 32 framenum &&& 0x00ffffff)

/-- `SET_SECOND_FOR_VDIF` -/
def setSecondForVdif (target : Bytes) (second : ℤ) : Bytes :=
  setWord32 target 0 (BitVec.ofInt 32 second &&& 0x3fffffff)

/-- `SET_FRAMENUM_FOR_MARK5B` -/
def setFramenumForMark5b (target : Bytes) (framenum : ℤ) : Bytes :=
  setWord32 target 0 (BitVec.ofInt 32 framenum &&& getMask 0 14)

/-- `GET_VDIF_SECONDS` -/
def getVdifSeconds (buf : Bytes) : BitVec 32 := 0x3fffffff &&& word32be buf 0

/-- `FRAMENUM_FROM_MARK5B` -/
def framenumFromMark5b (buf : Bytes) : BitVec 32 := word32 buf 4 &&& 0x00007fff

/-! ## The fields -/

/-- The fields that are written. -/
inductive HeaderField where
  | vdifFramenum
  | vdifSecond
  | mark5bFramenum
  | udpmonCount
  | mark5bnetCount
  deriving DecidableEq, Repr

namespace HeaderField

/-- The macro that writes a field. -/
def set : HeaderField → Bytes → ℤ → Bytes
  | vdifFramenum => setFramenumForVdif
  | vdifSecond => setSecondForVdif
  | mark5bFramenum => setFramenumForMark5b
  | udpmonCount => setFramenumForUdpmon
  | mark5bnetCount => setFramenumForMark5bNet

/-- What reads it. -/
def readers : HeaderField → List (Bytes → ℤ)
  | vdifFramenum => [framenumFromVdif]
  | vdifSecond => [secondFromVdif, fun h => (getVdifSeconds h).toNat]
  | mark5bFramenum => [fun h => (framenumFromMark5b h).toNat]
  | udpmonCount => [fun h => (getseqUdpmon h).toNat]
  | mark5bnetCount => [getseqMark5bNet]

/-- How many bits it has. -/
def width : HeaderField → ℕ
  | vdifFramenum => 24
  | vdifSecond => 30
  | mark5bFramenum => 15
  | udpmonCount => 64
  | mark5bnetCount => 32

/-- Its bits in the header. -/
def bits : HeaderField → FieldBits
  | vdifFramenum => fun x _ => 5 ≤ x ∧ x < 8
  | vdifSecond => fun x b => x < 4 ∧ (x = 0 → b < 6)
  | mark5bFramenum => fun x b => 4 ≤ x ∧ x < 6 ∧ (x = 5 → b < 7)
  | udpmonCount => fun x _ => x < 8
  | mark5bnetCount => fun x _ => 4 ≤ x ∧ x < 8

/-- The number that is written is read back, and the rest of the header is as it was. -/
def Agrees (F : HeaderField) (h : Bytes) (n : ℤ) : Prop :=
  (∀ r ∈ F.readers, r (F.set h n) = n % 2 ^ F.width) ∧ SameOutside F.bits h (F.set h n)

/-- Numbers and headers for which the macros agree. -/
def Fits (F : HeaderField) (h : Bytes) (n : ℤ) : Prop :=
  match F with
  | vdifFramenum =>
      -- bytes `b`, `b` and `0`, and none above them in the word
      (∃ b : ℕ, b < 2 ^ 8 ∧ n % 2 ^ 24 = 2 ^ 16 * b + 2 ^ 8 * b) ∧ h 4 = 0
  | vdifSecond =>
      -- a palindrome of bytes, and neither flag
      (∃ a b : ℕ, a < 2 ^ 6 ∧ b < 2 ^ 8 ∧
        n % 2 ^ 30 = 2 ^ 24 * a + 2 ^ 16 * b + 2 ^ 8 * b + a) ∧
        (h 0).toNat < 2 ^ 6
  | mark5bFramenum =>
      -- the header has the number already, and the sync word is the number
      (framenumFromMark5b h).toNat = n % 2 ^ 15 ∧ (word32 h 0).toNat = n % 2 ^ 15
  | udpmonCount => True
  | mark5bnetCount => n % 2 ^ 32 < 2 ^ 31

section Agreement

variable {h : Bytes} {n : ℤ}

/-- The low bits of a number that is stored. -/
theorem toNat_ofInt_and_mask {k : ℕ} (hk : k ≤ 32) :
    ((BitVec.ofInt 32 n &&& mask 32 0 k).toNat : ℤ) = n % 2 ^ k := by
  have hdvd : (2 : ℤ) ^ k ∣ 2 ^ 32 := pow_dvd_pow 2 hk
  rw [toNat_and_mask _ hk, BitVec.toNat_ofInt]
  push_cast
  rw [Int.toNat_of_nonneg (Int.emod_nonneg _ (by omega))]
  exact Int.emod_emod_of_dvd n hdvd

theorem udpmonCount_agrees : udpmonCount.Agrees h n := by
  refine ⟨?_, SameOutside.of_bytes ?_⟩
  · intro r hr
    obtain rfl := List.mem_singleton.mp hr
    show ((word64be (setWord64be h 0 _) 0).toNat : ℤ) = n % 2 ^ 64
    rw [word64be_setWord64be, BitVec.toNat_ofInt]
    exact Int.toNat_of_nonneg (Int.emod_nonneg _ (by omega))
  · rintro x ⟨b, hx⟩
    exact setWord64be_of_outside (by simp only [bits] at hx; omega)

theorem mark5bnetCount_agrees_iff : mark5bnetCount.Agrees h n ↔ n % 2 ^ 32 < 2 ^ 31 := by
  have hread : getseqMark5bNet (setFramenumForMark5bNet h n) = n % 2 ^ 32 ↔
      n % 2 ^ 32 < 2 ^ 31 := by
    rw [getseq_setFramenum_bmod, Int.bmod_def]
    omega
  refine ⟨fun hag => hread.mp (hag.1 _ (List.mem_singleton_self _)), fun hlt => ⟨?_, ?_⟩⟩
  · intro r hr
    obtain rfl := List.mem_singleton.mp hr
    exact hread.mpr hlt
  · refine SameOutside.of_bytes ?_
    rintro x ⟨b, hx⟩
    exact setWord32_of_outside (by simp only [bits] at hx; omega)

theorem framenumFromMark5b_toNat : (framenumFromMark5b h).toNat = (word32 h 4).toNat % 2 ^ 15 :=
  toNat_and_mask (k := 15) (word32 h 4) (by omega)

/-- A MARK5B number goes into the sync word. -/
theorem mark5bFramenum_agrees_iff : mark5bFramenum.Agrees h n ↔
    (framenumFromMark5b h).toNat = n % 2 ^ 15 ∧ (word32 h 0).toNat = n % 2 ^ 15 := by
  have hword : (word32 (setFramenumForMark5b h n) 0).toNat = n % 2 ^ 15 := by
    rw [setFramenumForMark5b, word32_setWord32]
    exact toNat_ofInt_and_mask (k := 15) (by omega)
  have hread : framenumFromMark5b (setFramenumForMark5b h n) = framenumFromMark5b h := by
    unfold framenumFromMark5b word32 setFramenumForMark5b
    rw [setWord32_of_outside (by omega), setWord32_of_outside (by omega),
      setWord32_of_outside (by omega), setWord32_of_outside (by omega)]
  have hafter : ∀ x, 4 ≤ x → setFramenumForMark5b h n x = h x := fun x hx =>
    setWord32_of_outside (by omega)
  constructor
  · rintro ⟨hreads, hsame⟩
    have hfirst : ∀ x < 4, setFramenumForMark5b h n x = h x := fun x hx =>
      hsame.byte fun b _ => by simp only [bits]; omega
    refine ⟨?_, ?_⟩
    · rw [← hread]
      exact hreads _ (List.mem_singleton_self _)
    · rw [← word32_congr (o := 0) le_rfl hfirst]
      exact hword
  · rintro ⟨hnumber, hsync⟩
    refine ⟨?_, SameOutside.of_bytes ?_⟩
    · intro r hr
      obtain rfl := List.mem_singleton.mp hr
      show ((framenumFromMark5b (setFramenumForMark5b h n)).toNat : ℤ) = _
      rw [hread]
      exact hnumber
    · -- storing the word that is there changes nothing
      have heq : word32 (setFramenumForMark5b h n) 0 = word32 h 0 :=
        BitVec.eq_of_toNat_eq (Int.natCast_inj.mp (hword.trans hsync.symm))
      intro x _
      rcases Nat.lt_or_ge x 4 with hx | hx
      · rw [← Nat.zero_add x]
        exact word32_eq_iff.mp heq x hx
      · exact hafter x hx

/-- The frame number is written in one order and read in the other. -/
theorem vdifFramenum_agrees_iff : vdifFramenum.Agrees h n ↔
    (∃ b : ℕ, b < 2 ^ 8 ∧ n % 2 ^ 24 = 2 ^ 16 * b + 2 ^ 8 * b) ∧ h 4 = 0 := by
  have hstored : ((BitVec.ofInt 32 n &&& 0x00ffffff).toNat : ℤ) = n % 2 ^ 24 :=
    toNat_ofInt_and_mask (k := 24) (by omega)
  obtain ⟨a, b, c, d, hdigits⟩ := exists_digits (BitVec.ofInt 32 n &&& 0x00ffffff).isLt
  have hsum := hdigits.sum
  have ha := hdigits.lt₀
  have hb := hdigits.lt₁
  have hc := hdigits.lt₂
  have hd : d = 0 := by omega
  have hread : framenumFromVdif (setFramenumForVdif h n) = 2 ^ 16 * b + 2 ^ 8 * c + d := by
    have hmask : (word32be (setFramenumForVdif h n) 4 &&& 0x00ffffff).toNat =
        (word32be (setFramenumForVdif h n) 4).toNat % 2 ^ 24 :=
      toNat_and_mask (k := 24) _ (by omega)
    rw [framenumFromVdif, hmask, setFramenumForVdif, toNat_word32be_setWord32 hdigits]
    omega
  have hbyte : (setFramenumForVdif h n 4).toNat = a := by
    have hfirst : (setFramenumForVdif h n 4).toNat = _ := setWord32_byte (k := 0) (by omega)
    rw [hfirst, hsum]
    omega
  constructor
  · rintro ⟨hreads, hsame⟩
    have hnumber : framenumFromVdif (setFramenumForVdif h n) = n % 2 ^ 24 :=
      hreads _ (List.mem_singleton_self _)
    have hfour : setFramenumForVdif h n 4 = h 4 := hsame.byte fun b _ => by simp only [bits]; omega
    rw [hread] at hnumber
    have hzero : a = 0 := by omega
    refine ⟨⟨b, hb, by omega⟩, ?_⟩
    apply BitVec.eq_of_toNat_eq
    rw [← hfour, hbyte, hzero]
    rfl
  · rintro ⟨⟨b', hb', hn⟩, hfour⟩
    have hzero : a = 0 := by omega
    refine ⟨?_, SameOutside.of_bytes ?_⟩
    · intro r hr
      obtain rfl := List.mem_singleton.mp hr
      show framenumFromVdif (setFramenumForVdif h n) = n % 2 ^ 24
      rw [hread]
      omega
    · rintro x ⟨b, hx⟩
      by_cases heq : x = 4
      · subst heq
        apply BitVec.eq_of_toNat_eq
        show (setFramenumForVdif h n 4).toNat = _
        rw [hbyte, hfour, hzero]
        rfl
      · exact setWord32_of_outside (by simp only [bits] at hx; omega)

/-- The seconds are written in the order in which `SECOND_FROM_VDIF` reads them. -/
theorem secondFromVdif_setSecondForVdif :
    secondFromVdif (setSecondForVdif h n) = n % 2 ^ 30 := by
  have hstored : ((BitVec.ofInt 32 n &&& 0x3fffffff).toNat : ℤ) = n % 2 ^ 30 :=
    toNat_ofInt_and_mask (k := 30) (by omega)
  have hmask : (word32 (setSecondForVdif h n) 0 &&& 0x3fffffff).toNat =
      (word32 (setSecondForVdif h n) 0).toNat % 2 ^ 30 :=
    toNat_and_mask (k := 30) _ (by omega)
  rw [secondFromVdif, hmask, setSecondForVdif, word32_setWord32]
  omega

/-- Four bytes that make the same number in both orders. -/
theorem palindrome {a b c d : ℕ} (ha : a < 2 ^ 8) (hd : d < 2 ^ 6)
    (h : 2 ^ 24 * (a % 2 ^ 6) + 2 ^ 16 * b + 2 ^ 8 * c + d =
      a + 2 ^ 8 * b + 2 ^ 16 * c + 2 ^ 24 * d) : a = d ∧ b = c := by
  have hlow : a = d := by omega
  subst hlow
  exact ⟨rfl, by omega⟩

/-- `GET_VDIF_SECONDS` reads them in the other. -/
theorem vdifSecond_agrees_iff : vdifSecond.Agrees h n ↔
    (∃ a b : ℕ, a < 2 ^ 6 ∧ b < 2 ^ 8 ∧
      n % 2 ^ 30 = 2 ^ 24 * a + 2 ^ 16 * b + 2 ^ 8 * b + a) ∧ (h 0).toNat < 2 ^ 6 := by
  have hstored : ((BitVec.ofInt 32 n &&& 0x3fffffff).toNat : ℤ) = n % 2 ^ 30 :=
    toNat_ofInt_and_mask (k := 30) (by omega)
  obtain ⟨a, b, c, d, hdigits⟩ := exists_digits (BitVec.ofInt 32 n &&& 0x3fffffff).isLt
  have hsum := hdigits.sum
  have ha := hdigits.lt₀
  have hb := hdigits.lt₁
  have hc := hdigits.lt₂
  have hd : d < 2 ^ 6 := by omega
  have hread : (getVdifSeconds (setSecondForVdif h n)).toNat =
      2 ^ 24 * (a % 2 ^ 6) + 2 ^ 16 * b + 2 ^ 8 * c + d := by
    have hmask : (word32be (setSecondForVdif h n) 0 &&& 0x3fffffff).toNat =
        (word32be (setSecondForVdif h n) 0).toNat % 2 ^ 30 :=
      toNat_and_mask (k := 30) _ (by omega)
    rw [getVdifSeconds, BitVec.and_comm, hmask, setSecondForVdif, toNat_word32be_setWord32 hdigits]
    omega
  have hbyte : (setSecondForVdif h n 0).toNat = a := by
    have hfirst : (setSecondForVdif h n 0).toNat = _ := setWord32_byte (k := 0) (by omega)
    rw [hfirst, hsum]
    omega
  constructor
  · rintro ⟨hreads, hsame⟩
    have hnumber : ((getVdifSeconds (setSecondForVdif h n)).toNat : ℤ) = n % 2 ^ 30 :=
      hreads (fun h => (getVdifSeconds h).toNat) (by simp [readers])
    rw [hread, ← hstored, hsum, Int.natCast_inj] at hnumber
    obtain ⟨rfl, rfl⟩ := palindrome ha hd hnumber
    refine ⟨⟨a, b, hd, hb, by omega⟩, ?_⟩
    -- neither flag is written, and neither is changed
    rw [toNat_lt_two_pow_iff]
    intro i hi
    have hflag : (setSecondForVdif h n 0).getLsbD i = (h 0).getLsbD i :=
      hsame 0 i fun hin => absurd (hin.2 rfl) (by omega)
    rw [← hflag]
    exact (toNat_lt_two_pow_iff _).mp (hbyte ▸ hd) i hi
  · rintro ⟨⟨a', b', ha', hb', hn⟩, hflags⟩
    have hpalindrome : Digits (BitVec.ofInt 32 n &&& 0x3fffffff).toNat a' b' b' a' :=
      ⟨by omega, by omega, hb', hb', by omega⟩
    obtain ⟨hlow, hmid, hmid', hhigh⟩ := hdigits.unique hpalindrome
    have hsix : (setSecondForVdif h n 0).toNat < 2 ^ 6 := by rwa [hbyte, hlow]
    refine ⟨?_, ?_⟩
    · intro r hr
      rw [readers, List.mem_cons, List.mem_singleton] at hr
      rcases hr with rfl | rfl
      · exact secondFromVdif_setSecondForVdif
      · show ((getVdifSeconds (setSecondForVdif h n)).toNat : ℤ) = n % 2 ^ 30
        rw [hread, hlow, hmid, hmid', hhigh, Nat.mod_eq_of_lt ha', hn]
        push_cast
        rfl
    · intro x i hx
      by_cases hfirst : x = 0
      · subst hfirst
        have hi : 6 ≤ i := by
          by_contra hlt
          exact hx ⟨by omega, fun _ => by omega⟩
        rw [(toNat_lt_two_pow_iff _).mp hflags i hi]
        exact (toNat_lt_two_pow_iff _).mp hsix i hi
      · have hout : setSecondForVdif h n x = h x :=
          setWord32_of_outside (by simp only [bits] at hx; omega)
        show (setSecondForVdif h n x).getLsbD i = _
        rw [hout]

end Agreement

/-- **The macros agree** exactly where a header and a number fit. -/
theorem agrees_iff_fits (F : HeaderField) (h : Bytes) (n : ℤ) : F.Agrees h n ↔ F.Fits h n := by
  cases F with
  | vdifFramenum => exact vdifFramenum_agrees_iff
  | vdifSecond => exact vdifSecond_agrees_iff
  | mark5bFramenum => exact mark5bFramenum_agrees_iff
  | udpmonCount => exact iff_of_true udpmonCount_agrees trivial
  | mark5bnetCount => exact mark5bnetCount_agrees_iff

/-- **VDIF frame `1` reads as frame `0`.** -/
theorem one_read_otherwise : ¬ ∀ (F : HeaderField) (h : Bytes) (n : ℤ), F.Agrees h n := by
  intro hall
  have hread : framenumFromVdif (setFramenumForVdif (fun _ => 0) 1) = 1 % 2 ^ 24 :=
    (hall .vdifFramenum (fun _ => 0) 1).1 _ (List.mem_singleton_self _)
  exact absurd hread (by decide)

end HeaderField

end VlbiStreamer.Datatypes
