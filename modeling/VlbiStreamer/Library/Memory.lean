import Mathlib.Data.List.Basic
import Mathlib.Algebra.Order.Ring.Int

/-!
# Blocks of bytes and their slots

A `Memory` is a family of blocks, each a function from offsets to bytes, and a
`Ptr` is an offset in one of them; a program can form any pointer, inside its
blocks or not.  Records of one size lie in the *slots* of a block, and the lemmas
here are about them: what is written within one slot leaves the others alone.

Words are read from bytes in either order.
-/

namespace VlbiStreamer.Library

/-- A byte. -/
abbrev Byte := BitVec 8

/-- Bytes by their number; how many count is said where they are used. -/
abbrev Bytes := ℕ → Byte

/-- Blocks of bytes. -/
abbrev Memory := ℕ → ℤ → Byte

/-- An offset in a block. -/
structure Ptr where
  block : ℕ
  off : ℤ
  deriving DecidableEq

/-- Pointer arithmetic stays in the block. -/
def Ptr.add (p : Ptr) (d : ℤ) : Ptr := ⟨p.block, p.off + d⟩

namespace Memory

/-- The bytes from a pointer on. -/
def read (m : Memory) (p : Ptr) : Bytes := fun x => m p.block (p.off + x)

/-- Write `n` bytes. -/
def write (m : Memory) (p : Ptr) (n : ℕ) (bs : Bytes) : Memory := fun b o =>
  if b = p.block ∧ p.off ≤ o ∧ o < p.off + n then bs (o - p.off).toNat else m b o

/-- `memcpy(dst, src, n)` -/
def copy (m : Memory) (dst src : Ptr) (n : ℕ) : Memory := m.write dst n (m.read src)

/-- A block comes with new content. -/
def replace (m : Memory) (block : ℕ) (content : ℤ → Byte) : Memory :=
  Function.update m block content

/-- The `n` bytes at a pointer. -/
def Holds (m : Memory) (p : Ptr) (n : ℕ) (bs : Bytes) : Prop := ∀ x < n, m.read p x = bs x

end Memory

/-- Slot `j` of a block of records of `size` bytes. -/
def slot (size block : ℕ) (j : ℤ) : Ptr := ⟨block, j * size⟩

section Slots

variable {size block block' n x y : ℕ} {j j' : ℤ} {m : Memory} {p : Ptr} {bs bs' : Bytes}

theorem slot_add (d : ℤ) : (slot size block j).add (d * size) = slot size block (j + d) := by
  simp only [slot, Ptr.add, Int.add_mul]

/-- The next slot. -/
theorem slot_next : (slot size block j).add size = slot size block (j + 1) := by
  simp only [slot, Ptr.add, Int.add_mul, Int.one_mul]

theorem slot_zero : slot size block 0 = ⟨block, 0⟩ := by
  simp [slot]

/-- An offset lies in one slot. -/
theorem slot_unique (hx : x < size) (hy : y < size)
    (h : j * size + x = j' * size + y) : j = j' := by
  have hsize : (size : ℤ) ≠ 0 := by omega
  have hdiv : ∀ {k : ℤ} {z : ℕ}, z < size → (k * size + z) / size = k := by
    intro k z hz
    rw [Int.add_comm, Int.add_mul_ediv_right _ _ hsize,
      Int.ediv_eq_zero_of_lt (by omega) (by omega), zero_add]
  calc j = (j * size + x) / size := (hdiv hx).symm
    _ = (j' * size + y) / size := by rw [h]
    _ = j' := hdiv hy

namespace Memory

theorem read_write_self (hx : x < n) : (m.write p n bs).read p x = bs x := by
  have hin : p.block = p.block ∧ p.off ≤ p.off + x ∧ p.off + (x : ℤ) < p.off + n :=
    ⟨rfl, by omega, by omega⟩
  show (if _ then _ else _) = _
  rw [if_pos hin]
  congr 1
  omega

/-- Writing within a slot leaves the other slots alone. -/
theorem read_write_slot (hn : n ≤ size) (hx : x < size)
    (hne : block = block' → j ≠ j') :
    (m.write (slot size block j) n bs).read (slot size block' j') x =
      m.read (slot size block' j') x := by
  refine if_neg ?_
  rintro ⟨hblock, hle, hlt⟩
  simp only [slot] at hblock hle hlt
  refine hne hblock.symm ?_
  -- the byte would lie in both slots
  have hy : (j' * size + x - j * size).toNat < size := by omega
  exact slot_unique hy hx (by omega)

theorem Holds.read_self : m.Holds p n (m.read p) := fun _ _ => rfl

theorem Holds.write_slot (h : m.Holds (slot size block' j') size bs') (hn : n ≤ size)
    (hne : block = block' → j ≠ j') :
    (m.write (slot size block j) n bs).Holds (slot size block' j') size bs' :=
  fun x hx => (read_write_slot hn hx hne).trans (h x hx)

theorem read_replace {content : ℤ → Byte} (hne : p.block ≠ block) :
    (m.replace block content).read p = m.read p := by
  have hsame : (m.replace block content) p.block = m p.block :=
    Function.update_of_ne hne _ _
  funext x
  show (m.replace block content) p.block _ = _
  rw [hsame]
  rfl

theorem Holds.replace (h : m.Holds p n bs) {content : ℤ → Byte} (hne : p.block ≠ block) :
    (m.replace block content).Holds p n bs := by
  intro x hx
  rw [read_replace hne]
  exact h x hx

end Memory

end Slots

/-! ## Words -/

/-- A little-endian word of four bytes. -/
def word32 (bs : Bytes) (o : ℕ) : BitVec 32 :=
  bs (o + 3) ++ bs (o + 2) ++ bs (o + 1) ++ bs o

/-- A big-endian word of four bytes. -/
def word32be (bs : Bytes) (o : ℕ) : BitVec 32 :=
  bs o ++ bs (o + 1) ++ bs (o + 2) ++ bs (o + 3)

/-- A big-endian word of eight bytes. -/
def word64be (bs : Bytes) (o : ℕ) : BitVec 64 := word32be bs o ++ word32be bs (o + 4)

/-- Store a little-endian word of four bytes. -/
def setWord32 (bs : Bytes) (o : ℕ) (w : BitVec 32) : Bytes := fun x =>
  if o ≤ x ∧ x < o + 4 then w.extractLsb' (8 * (x - o)) 8 else bs x

/-- Store a big-endian word of eight bytes. -/
def setWord64be (bs : Bytes) (o : ℕ) (w : BitVec 64) : Bytes := fun x =>
  if o ≤ x ∧ x < o + 8 then w.extractLsb' (56 - 8 * (x - o)) 8 else bs x

/-- A word that is stored is read back. -/
theorem word32_setWord32 (bs : Bytes) (o : ℕ) (w : BitVec 32) :
    word32 (setWord32 bs o w) o = w := by
  have hbyte : ∀ k < 4, setWord32 bs o w (o + k) = w.extractLsb' (8 * k) 8 := by
    intro k hk
    rw [setWord32, if_pos ⟨by omega, by omega⟩]
    congr 2
    omega
  have hfirst := hbyte 0 (by omega)
  rw [Nat.add_zero] at hfirst
  unfold word32
  rw [hbyte 3 (by omega), hbyte 2 (by omega), hbyte 1 (by omega), hfirst]
  ext k hk
  simp only [BitVec.getElem_append, BitVec.getElem_extractLsb']
  grind

/-- A word depends on its bytes only. -/
theorem word32_congr {bs bs' : Bytes} {o n : ℕ} (hn : o + 4 ≤ n)
    (h : ∀ x < n, bs x = bs' x) : word32 bs o = word32 bs' o := by
  unfold word32
  rw [h o (by omega), h (o + 1) (by omega), h (o + 2) (by omega), h (o + 3) (by omega)]

end VlbiStreamer.Library
