import Mathlib.Algebra.BigOperators.Fin
import Mathlib.Algebra.Order.BigOperators.Group.Finset

/-!
# Counting parties

Finitely many parties each have a state, and one of them changes its own at a time.
A sum over the parties changes by what the one that moves contributes
(`sum_update_add`).  `turnout p` is how many of them meet `p`, as a counter that each
raises once would have it; it is full when all do (`turnout_lt_iff`).
-/

namespace VlbiStreamer.Library

universe u v

variable {ι : Type u} [Fintype ι] {α : ι → Type v}

/-- One party changes its contribution. -/
theorem sum_update_add [DecidableEq ι] (g : ∀ i, α i → ℕ) (f : ∀ i, α i) (t : ι) (y : α t) :
    ∑ i, g i (Function.update f t y i) + g t (f t) = ∑ i, g i (f i) + g t y := by
  have hupdate : (fun i => g i (Function.update f t y i)) =
      Function.update (fun i => g i (f i)) t (g t y) := by
    funext i
    exact Function.apply_update g f t y i
  rw [hupdate, Finset.sum_update_of_mem (Finset.mem_univ t),
    ← Finset.add_sum_erase _ _ (Finset.mem_univ t), Finset.sdiff_singleton_eq_erase]
  omega

/-- One party changes and contributes what it did. -/
theorem sum_update_eq [DecidableEq ι] {g : ∀ i, α i → ℕ} {f : ∀ i, α i} {t : ι} {y : α t}
    (h : g t y = g t (f t)) : ∑ i, g i (Function.update f t y i) = ∑ i, g i (f i) := by
  have hsum := sum_update_add g f t y
  omega

/-- One party changes and contributes less. -/
theorem sum_update_lt [DecidableEq ι] {g : ∀ i, α i → ℕ} {f : ∀ i, α i} {t : ι} {y : α t}
    (h : g t y < g t (f t)) : ∑ i, g i (Function.update f t y i) < ∑ i, g i (f i) := by
  have hsum := sum_update_add g f t y
  omega

/-- The parties that meet `p`. -/
def turnout (p : ι → Bool) : ℕ := ∑ i, (p i).toNat

theorem turnout_lt_iff {p : ι → Bool} : turnout p < Fintype.card ι ↔ ∃ i, p i = false := by
  have hcard : ∑ _i : ι, 1 = Fintype.card ι := by simp
  constructor
  · intro hlt
    by_contra hall
    have hall' : ∀ i, p i = true := fun i => by
      simpa using not_exists.mp hall i
    simp only [turnout, hall', Bool.toNat_true, hcard] at hlt
    exact Nat.lt_irrefl _ hlt
  · rintro ⟨i, hi⟩
    rw [turnout, ← hcard]
    refine Finset.sum_lt_sum (fun j _ => Bool.toNat_le (p j)) ⟨i, Finset.mem_univ i, ?_⟩
    rw [hi]
    exact Nat.zero_lt_one

theorem turnout_eq_zero {p : ι → Bool} (h : ∀ i, p i = false) : turnout p = 0 := by
  simp [turnout, h]

end VlbiStreamer.Library
