import Mathlib.Data.List.Basic
import VlbiStreamer.Library.Looping

/-!
# Blocks of memory that grow

A block as `malloc` gives it, by its cells; a cell that was never written is `none`.
`realloc` keeps the cells there is room for, and the new ones are unwritten.

A capacity that is doubled until it is large enough is `doubled`; `doubled_spec` says that it
is found, unless the capacity is zero.
-/

namespace VlbiStreamer.Library

universe u

/-- The cells of a block. -/
abbrev Block (α : Type u) := List (Option α)

namespace Block

variable {α : Type u} {b : Block α} {i k n : ℕ} {a : α}

/-- `n` cells that were all set to `a`. -/
def filled (n : ℕ) (a : α) : Block α := List.replicate n (some a)

/-- `realloc` to `n` cells. -/
def realloc (b : Block α) (n : ℕ) : Block α := b.take n ++ List.replicate (n - b.length) none

/-- Write a cell; there is none behind the end. -/
def store (b : Block α) (i : ℕ) (a : α) : Option (Block α) :=
  if i < b.length then some (b.set i (some a)) else none

@[simp] theorem length_filled : (filled n a).length = n := List.length_replicate

@[simp] theorem length_realloc : (b.realloc n).length = n := by
  rw [realloc, List.length_append, List.length_take, List.length_replicate]
  omega

theorem getElem?_filled (h : k < n) : (filled n a)[k]? = some (some a) := by
  rw [filled, List.getElem?_replicate, if_pos h]

/-- A cell that the block had and has. -/
theorem getElem?_realloc (h : k < b.length) (hn : k < n) : (b.realloc n)[k]? = b[k]? := by
  rw [realloc, List.getElem?_append_left (by rw [List.length_take]; omega),
    List.getElem?_take_of_lt hn]

theorem store_of_lt (h : i < b.length) : b.store i a = some (b.set i (some a)) := if_pos h

theorem getElem?_set_ne (h : k ≠ i) : (b.set i (some a))[k]? = b[k]? :=
  List.getElem?_set_ne h.symm

end Block

/-! ## Doubling -/

/-- A turn of `while(wanted >= capacity) capacity = capacity << 1`. -/
def doublingTurn (wanted capacity : ℕ) : Turn ℕ ℕ :=
  if capacity ≤ wanted then .again (capacity <<< 1) else .stop capacity

/-- The capacity behind the loop; a capacity of zero stays zero. -/
def doubled (wanted capacity : ℕ) : Option ℕ :=
  runLoop (doublingTurn wanted) (wanted + 2) capacity

theorem doubling_of_fuel (wanted fuel capacity : ℕ) (hpos : 0 < capacity)
    (hfuel : wanted < capacity + fuel) :
    ∃ r, runLoop (doublingTurn wanted) (fuel + 1) capacity = some r ∧ wanted < r ∧
      capacity ≤ r := by
  induction fuel generalizing capacity with
  | zero =>
      have hstop : doublingTurn wanted capacity = .stop capacity := if_neg (by omega)
      exact ⟨capacity, runLoop_stop hstop 0, by omega, Nat.le_refl capacity⟩
  | succ fuel ih =>
      by_cases hle : capacity ≤ wanted
      · have hagain : doublingTurn wanted capacity = .again (capacity <<< 1) := if_pos hle
        have htwice : capacity <<< 1 = 2 * capacity := by
          rw [Nat.shiftLeft_eq, Nat.pow_one, Nat.mul_comm]
        obtain ⟨r, hr, hlt, hge⟩ := ih (capacity <<< 1) (by omega) (by omega)
        exact ⟨r, (runLoop_again hagain (fuel + 1)).trans hr, hlt, by omega⟩
      · have hstop : doublingTurn wanted capacity = .stop capacity := if_neg hle
        exact ⟨capacity, runLoop_stop hstop (fuel + 1), by omega, Nat.le_refl capacity⟩

/-- **Doubling ends** with enough room. -/
theorem doubled_spec (wanted capacity : ℕ) (hpos : 0 < capacity) :
    ∃ r, doubled wanted capacity = some r ∧ wanted < r ∧ capacity ≤ r :=
  doubling_of_fuel wanted (wanted + 1) capacity hpos (by omega)

end VlbiStreamer.Library
