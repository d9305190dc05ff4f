import Mathlib.Data.List.Range

/-!
# Stretches of a file

A file is a partial function from positions to what is there.  `overwrite` puts a list into
it, and `Holds` says that a list is found from a position on.  What is written may be put
together from blocks of one length.
-/

namespace VlbiStreamer.Library

universe u

variable {α : Type u} {f : ℕ → Option α} {l l' : List α} {pos pos' x : ℕ}

/-! ## Blocks -/

theorem length_flatMap_range {block : ℕ → List α} {size : ℕ} (h : ∀ i, (block i).length = size)
    (n : ℕ) : ((List.range n).flatMap block).length = n * size := by
  induction n with
  | zero => exact (Nat.zero_mul _).symm
  | succ n ih =>
      rw [List.range_succ, List.flatMap_append, List.length_append, ih, Nat.succ_mul,
        List.flatMap_singleton, h]

/-- The first `n` blocks are followed by the others. -/
theorem flatMap_range_add (block : ℕ → List α) (n m : ℕ) :
    (List.range (n + m)).flatMap block =
      (List.range n).flatMap block ++ (List.range m).flatMap fun i => block (n + i) := by
  rw [List.range_add, List.flatMap_append, List.flatMap_map]

/-! ## Files -/

/-- `l` is written from the position `pos` on. -/
def overwrite (f : ℕ → Option α) (pos : ℕ) (l : List α) (x : ℕ) : Option α :=
  if pos ≤ x ∧ x < pos + l.length then l[x - pos]? else f x

/-- `l` is found from the position `pos` on. -/
def Holds (f : ℕ → Option α) (pos : ℕ) (l : List α) : Prop :=
  ∀ i < l.length, f (pos + i) = l[i]?

theorem overwrite_of_lt (h : x < pos) : overwrite f pos l x = f x :=
  if_neg fun hx => Nat.not_lt.mpr hx.1 h

theorem overwrite_of_le (h : pos + l.length ≤ x) : overwrite f pos l x = f x :=
  if_neg fun hx => Nat.not_lt.mpr h hx.2

/-- What is found at a position was there or is of the list. -/
theorem overwrite_some {a : α} (h : overwrite f pos l x = some a) :
    f x = some a ∨ ∃ i, x = pos + i ∧ l[i]? = some a := by
  unfold overwrite at h
  split at h
  next hx => exact .inr ⟨x - pos, by omega, h⟩
  · exact .inl h

@[simp] theorem overwrite_nil : overwrite f pos [] = f := by
  funext x
  exact if_neg fun hx => by simp at hx; omega

namespace Holds

theorem nil : Holds f pos [] := fun _ hi => absurd hi (Nat.not_lt_zero _)

theorem append (h : Holds f pos l) (h' : Holds f (pos + l.length) l') :
    Holds f pos (l ++ l') := by
  intro i hi
  rcases Nat.lt_or_ge i l.length with hlt | hge
  · rw [List.getElem?_append_left hlt]
    exact h i hlt
  · rw [List.length_append] at hi
    rw [List.getElem?_append_right hge, ← h' (i - l.length) (by omega)]
    congr 1
    omega

theorem overwrite_self : Holds (overwrite f pos l) pos l := by
  intro i hi
  rw [overwrite, if_pos ⟨Nat.le_add_right _ _, by omega⟩, Nat.add_sub_cancel_left]

/-- What is written beside a stretch leaves it alone. -/
theorem overwrite (h : Holds f pos l)
    (hbeside : pos' + l'.length ≤ pos ∨ pos + l.length ≤ pos') :
    Holds (overwrite f pos' l') pos l := by
  intro i hi
  rcases hbeside with hbefore | hafter
  · rw [overwrite_of_le (by omega)]
    exact h i hi
  · rw [overwrite_of_lt (by omega)]
    exact h i hi

end Holds

end VlbiStreamer.Library
