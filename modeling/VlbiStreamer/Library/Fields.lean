import VlbiStreamer.Library.Memory

/-!
# Bit fields

A header packs its fields into words, and a program gets at them with masks, shifts
and loads and stores of whole words in one of the two byte orders.

* `mask` selects the bits of a field; a masked and shifted word is the extracted
  field.
* A word is the sum of its bytes, so that what is written in one order and read in
  the other is arithmetic.
* `SameOutside` says of two records that they differ in the bits of one field only.
-/

namespace VlbiStreamer.Library

/-! ## Masks -/

section Masks

variable {w j k i : ℕ}

/-- The mask of the `k` bits from `j` on. -/
def mask (w j k : ℕ) : BitVec w := (BitVec.allOnes k).setWidth w <<< j

theorem getLsbD_mask :
    (mask w j k).getLsbD i = decide (i < w ∧ j ≤ i ∧ i < j + k) := by
  rw [mask, BitVec.getLsbD_shiftLeft, BitVec.getLsbD_setWidth, BitVec.getLsbD_allOnes]
  grind

/-- A masked and shifted word is the field. -/
theorem and_mask_ushiftRight (x : BitVec w) :
    (x &&& mask w j k) >>> j = (x.extractLsb' j k).setWidth w := by
  ext i hi
  rw [← BitVec.getLsbD_eq_getElem, ← BitVec.getLsbD_eq_getElem, BitVec.getLsbD_ushiftRight,
    BitVec.getLsbD_and, getLsbD_mask, BitVec.getLsbD_setWidth, BitVec.getLsbD_extractLsb']
  grind

/-- A masked and shifted word is a number of so many bits. -/
theorem toNat_and_mask_ushiftRight (x : BitVec w) (hfit : k ≤ w) :
    ((x &&& mask w j k) >>> j).toNat = (x.extractLsb' j k).toNat := by
  rw [and_mask_ushiftRight, BitVec.toNat_setWidth]
  exact Nat.mod_eq_of_lt ((BitVec.isLt _).trans_le (Nat.pow_le_pow_right (by omega) hfit))

/-- The high bits of a word need no mask. -/
theorem ushiftRight_eq_field (x : BitVec w) (hhigh : j + k = w) :
    x >>> j = (x.extractLsb' j k).setWidth w := by
  ext i hi
  rw [← BitVec.getLsbD_eq_getElem, ← BitVec.getLsbD_eq_getElem, BitVec.getLsbD_ushiftRight,
    BitVec.getLsbD_setWidth, BitVec.getLsbD_extractLsb']
  grind

/-- The low bits of a word are a remainder. -/
theorem toNat_and_mask (x : BitVec w) (hfit : k ≤ w) :
    (x &&& mask w 0 k).toNat = x.toNat % 2 ^ k := by
  have hfield := toNat_and_mask_ushiftRight (j := 0) x hfit
  rwa [BitVec.ushiftRight_zero, BitVec.extractLsb'_toNat, Nat.shiftRight_zero] at hfield

/-- A word without high bits is a small number. -/
theorem toNat_lt_two_pow_iff (x : BitVec w) :
    x.toNat < 2 ^ k ↔ ∀ i, k ≤ i → x.getLsbD i = false := by
  constructor
  · intro hlt i hi
    exact Nat.testBit_lt_two_pow (hlt.trans_le (Nat.pow_le_pow_right (by omega) hi))
  · exact fun h => Nat.lt_pow_two_of_testBit _ h

end Masks

/-! ## Words and their bytes -/

section Words

variable {bs : Bytes} {o o' k x : ℕ}

theorem toNat_append {n m : ℕ} (x : BitVec n) (y : BitVec m) :
    (x ++ y).toNat = 2 ^ m * x.toNat + y.toNat := by
  rw [BitVec.toNat_append, Nat.shiftLeft_eq, Nat.mul_comm, Nat.two_pow_add_eq_or_of_lt y.isLt]

theorem toNat_word32 : (word32 bs o).toNat =
    (bs o).toNat + 2 ^ 8 * (bs (o + 1)).toNat + 2 ^ 16 * (bs (o + 2)).toNat +
      2 ^ 24 * (bs (o + 3)).toNat := by
  rw [word32, toNat_append, toNat_append, toNat_append]
  omega

theorem toNat_word32be : (word32be bs o).toNat =
    2 ^ 24 * (bs o).toNat + 2 ^ 16 * (bs (o + 1)).toNat + 2 ^ 8 * (bs (o + 2)).toNat +
      (bs (o + 3)).toNat := by
  rw [word32be, toNat_append, toNat_append, toNat_append]
  omega

/-- A word depends on its bytes only. -/
theorem word32be_congr {bs' : Bytes} {n : ℕ} (hn : o + 4 ≤ n) (h : ∀ x < n, bs x = bs' x) :
    word32be bs o = word32be bs' o := by
  unfold word32be
  rw [h o (by omega), h (o + 1) (by omega), h (o + 2) (by omega), h (o + 3) (by omega)]

/-- Words are the same when their bytes are. -/
theorem word32_eq_iff {bs' : Bytes} :
    word32 bs o = word32 bs' o' ↔ ∀ k < 4, bs (o + k) = bs' (o' + k) := by
  constructor
  · intro heq
    have hsum := congrArg BitVec.toNat heq
    rw [toNat_word32, toNat_word32] at hsum
    have hlt : ∀ b : Byte, b.toNat < 2 ^ 8 := fun b => b.isLt
    have h₀ := hlt (bs o)
    have h₁ := hlt (bs (o + 1))
    have h₂ := hlt (bs (o + 2))
    have h₀' := hlt (bs' o')
    have h₁' := hlt (bs' (o' + 1))
    have h₂' := hlt (bs' (o' + 2))
    intro k hk
    apply BitVec.eq_of_toNat_eq
    obtain rfl | rfl | rfl | rfl : k = 0 ∨ k = 1 ∨ k = 2 ∨ k = 3 := by omega
    · show (bs o).toNat = (bs' o').toNat
      omega
    all_goals omega
  · intro h
    unfold word32
    rw [h 1 (by omega), h 2 (by omega), h 3 (by omega), show bs o = bs' o' from h 0 (by omega)]

/-- A byte of a stored word. -/
theorem setWord32_byte {w : BitVec 32} (hk : k < 4) :
    (setWord32 bs o w (o + k)).toNat = w.toNat / 2 ^ (8 * k) % 2 ^ 8 := by
  rw [setWord32, if_pos ⟨by omega, by omega⟩, BitVec.extractLsb'_toNat, Nat.shiftRight_eq_div_pow,
    Nat.add_sub_cancel_left]

/-- The bytes of a word. -/
structure Digits (m a b c d : ℕ) : Prop where
  sum : m = a + 2 ^ 8 * b + 2 ^ 16 * c + 2 ^ 24 * d
  lt₀ : a < 2 ^ 8
  lt₁ : b < 2 ^ 8
  lt₂ : c < 2 ^ 8
  lt₃ : d < 2 ^ 8

theorem exists_digits {m : ℕ} (h : m < 2 ^ 32) : ∃ a b c d, Digits m a b c d := by
  have h₁ := Nat.div_add_mod m (2 ^ 8)
  have h₂ := Nat.div_add_mod (m / 2 ^ 8) (2 ^ 8)
  have h₃ := Nat.div_add_mod (m / 2 ^ 8 / 2 ^ 8) (2 ^ 8)
  refine ⟨m % 2 ^ 8, m / 2 ^ 8 % 2 ^ 8, m / 2 ^ 8 / 2 ^ 8 % 2 ^ 8, m / 2 ^ 8 / 2 ^ 8 / 2 ^ 8,
    ⟨?_, ?_, ?_, ?_, ?_⟩⟩ <;> omega

theorem Digits.unique {m a b c d a' b' c' d' : ℕ} (h : Digits m a b c d)
    (h' : Digits m a' b' c' d') : a = a' ∧ b = b' ∧ c = c' ∧ d = d' := by
  have hsum := h.sum.symm.trans h'.sum
  have h₀ := h.lt₀
  have h₁ := h.lt₁
  have h₂ := h.lt₂
  have h₀' := h'.lt₀
  have h₁' := h'.lt₁
  have h₂' := h'.lt₂
  omega

/-- A word that is stored in one order and read in the other. -/
theorem toNat_word32be_setWord32 {w : BitVec 32} {a b c d : ℕ} (h : Digits w.toNat a b c d) :
    (word32be (setWord32 bs o w) o).toNat = 2 ^ 24 * a + 2 ^ 16 * b + 2 ^ 8 * c + d := by
  have hfirst : (setWord32 bs o w o).toNat = w.toNat / 2 ^ (8 * 0) % 2 ^ 8 :=
    setWord32_byte (k := 0) (by omega)
  have h₀ := h.lt₀
  have h₁ := h.lt₁
  have h₂ := h.lt₂
  have h₃ := h.lt₃
  rw [toNat_word32be, hfirst, setWord32_byte (by omega), setWord32_byte (by omega),
    setWord32_byte (by omega), h.sum]
  omega

theorem setWord32_of_outside {w : BitVec 32} (h : x < o ∨ o + 4 ≤ x) :
    setWord32 bs o w x = bs x := if_neg (by omega)

theorem setWord64be_of_outside {w : BitVec 64} (h : x < o ∨ o + 8 ≤ x) :
    setWord64be bs o w x = bs x := if_neg (by omega)

/-- A word of eight bytes that is stored is read back. -/
theorem word64be_setWord64be (bs : Bytes) (o : ℕ) (w : BitVec 64) :
    word64be (setWord64be bs o w) o = w := by
  have hbyte : ∀ k < 8, setWord64be bs o w (o + k) = w.extractLsb' (56 - 8 * k) 8 := by
    intro k hk
    rw [setWord64be, if_pos ⟨by omega, by omega⟩, Nat.add_sub_cancel_left]
  have hfirst := hbyte 0 (by omega)
  rw [Nat.add_zero] at hfirst
  unfold word64be word32be
  rw [Nat.add_assoc o 4 1, Nat.add_assoc o 4 2, Nat.add_assoc o 4 3, hbyte 7 (by omega),
    hbyte 6 (by omega), hbyte 5 (by omega), hbyte 4 (by omega), hbyte 3 (by omega),
    hbyte 2 (by omega), hbyte 1 (by omega), hfirst]
  ext k hk
  simp only [BitVec.getElem_append, BitVec.getElem_extractLsb']
  grind

/-- Store a big-endian word of four bytes. -/
def setWord32be (bs : Bytes) (o : ℕ) (w : BitVec 32) : Bytes := fun x =>
  if o ≤ x ∧ x < o + 4 then w.extractLsb' (24 - 8 * (x - o)) 8 else bs x

theorem setWord32be_of_outside {w : BitVec 32} (h : x < o ∨ o + 4 ≤ x) :
    setWord32be bs o w x = bs x := if_neg (by omega)

@[simp] theorem word32be_setWord32be (bs : Bytes) (o : ℕ) (w : BitVec 32) :
    word32be (setWord32be bs o w) o = w := by
  have hbyte : ∀ k < 4, setWord32be bs o w (o + k) = w.extractLsb' (24 - 8 * k) 8 := by
    intro k hk
    rw [setWord32be, if_pos ⟨by omega, by omega⟩, Nat.add_sub_cancel_left]
  have hfirst := hbyte 0 (by omega)
  rw [Nat.add_zero] at hfirst
  unfold word32be
  rw [hbyte 3 (by omega), hbyte 2 (by omega), hbyte 1 (by omega), hfirst]
  ext k hk
  simp only [BitVec.getElem_append, BitVec.getElem_extractLsb']
  grind

/-- A word elsewhere is the same. -/
theorem word32be_setWord32be_of_disjoint {w : BitVec 32} (h : o' + 4 ≤ o ∨ o + 4 ≤ o') :
    word32be (setWord32be bs o w) o' = word32be bs o' := by
  unfold word32be
  rw [setWord32be_of_outside (by omega), setWord32be_of_outside (by omega),
    setWord32be_of_outside (by omega), setWord32be_of_outside (by omega)]

end Words

/-! ## Fields of a record -/

/-- The bits of a field: byte `x` and bit `b` of it. -/
abbrev FieldBits := ℕ → ℕ → Prop

/-- Two records are the same outside a field. -/
def SameOutside (F : FieldBits) (bs bs' : Bytes) : Prop :=
  ∀ x b, ¬ F x b → (bs' x).getLsbD b = (bs x).getLsbD b

section SameOutside

variable {F : FieldBits} {bs bs' : Bytes} {o : ℕ}

/-- Whole bytes that are not in the field are the same. -/
theorem SameOutside.byte (h : SameOutside F bs bs') {x : ℕ} (hx : ∀ b < 8, ¬ F x b) :
    bs' x = bs x := by
  ext b hb
  rw [← BitVec.getLsbD_eq_getElem, ← BitVec.getLsbD_eq_getElem]
  exact h x b (hx b hb)

/-- A record whose other bytes are the same. -/
theorem SameOutside.of_bytes (h : ∀ x, (∃ b, ¬ F x b) → bs' x = bs x) :
    SameOutside F bs bs' := by
  intro x b hb
  rw [h x ⟨b, hb⟩]

end SameOutside

end VlbiStreamer.Library
