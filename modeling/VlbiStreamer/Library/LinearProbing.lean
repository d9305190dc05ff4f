import Mathlib.Algebra.Order.Ring.Int
import Mathlib.Data.Fin.Basic
import Mathlib.Data.Finset.Card
import Mathlib.Data.Fintype.Card
import Mathlib.Logic.Function.Basic
import Mathlib.Order.WellFounded

/-!
# Linear probing

A table of `n` slots holds keys.  A key is looked for from its home slot on, up
and around the end of the table, until a free slot or the key itself is met.

* `StopsAt t k a i` says that the walk for `k` from slot `a` ends at slot `i`.
* `Probed home t` is the invariant: no key is stored twice, and the slots
  between a stored key and its home are all occupied.
* `Probed.insert` puts a key where its walk ends.  `Probed.erase` frees a slot
  that no walk to another stored key passes (`Spares`); there are no markers for
  deleted slots, and `stopsAt_erase_iff` says that the condition is exact.
-/

namespace VlbiStreamer.Library.LinearProbing

universe u

variable {n : ℕ} {κ : Type u}

/-- How many slots the walk from `a` passes before it comes to `b`. -/
def steps (a b : Fin n) : ℕ := if a ≤ b then b.val - a.val else n - a.val + b.val

@[simp] theorem steps_self (a : Fin n) : steps a a = 0 := by
  simp [steps]

/-- The walk comes to different slots after different numbers of steps. -/
theorem eq_of_steps_eq {a b c : Fin n} (h : steps a b = steps a c) : b = c := by
  apply Fin.ext
  unfold steps at h
  split at h <;> split at h <;> rename_i hb hc <;> simp only [Fin.le_def] at hb hc <;> omega

/-- The slot the walk starts at is the only one it comes to at once. -/
theorem eq_of_steps_eq_zero {a b : Fin n} (h : steps a b = 0) : b = a :=
  eq_of_steps_eq (a := a) (by rw [h, steps_self])

/-- The walk for `k` from slot `a` ends at slot `i`. -/
structure StopsAt (t : Fin n → Option κ) (k : κ) (a i : Fin n) : Prop where
  /-- The last slot is free or has the key. -/
  stops : t i = none ∨ t i = some k
  /-- The slots before it are occupied by other keys. -/
  passes : ∀ j, steps a j < steps a i → t j ≠ none ∧ t j ≠ some k

namespace StopsAt

variable {t : Fin n → Option κ} {k : κ} {a i j : Fin n}

/-- A walk ends at one slot. -/
theorem unique (hi : StopsAt t k a i) (hj : StopsAt t k a j) : i = j := by
  rcases Nat.lt_trichotomy (steps a i) (steps a j) with hlt | heq | hgt
  · obtain ⟨hfree, hkey⟩ := hj.passes i hlt
    exact (hi.stops.elim hfree hkey).elim
  · exact eq_of_steps_eq heq
  · obtain ⟨hfree, hkey⟩ := hi.passes j hgt
    exact (hj.stops.elim hfree hkey).elim

/-- A walk over a table that is not full of other keys ends. -/
theorem exists_of_stop (h : t i = none ∨ t i = some k) : ∃ j, StopsAt t k a j := by
  obtain ⟨j, hstop, hmin⟩ :=
    (measure (steps a)).wf.has_min {j | t j = none ∨ t j = some k} ⟨i, h⟩
  refine ⟨j, hstop, fun b hb => ⟨fun hfree => ?_, fun hkey => ?_⟩⟩
  · exact hmin b (.inl hfree) hb
  · exact hmin b (.inr hkey) hb

/-- A walk from a free slot ends there. -/
theorem of_free (h : t a = none) : StopsAt t k a a :=
  ⟨.inl h, fun j hj => by simp at hj⟩

end StopsAt

/-- The keys are where their walks end: none is stored twice, and every slot
from the home of a stored key up to the key is occupied. -/
structure Probed (home : κ → Fin n) (t : Fin n → Option κ) : Prop where
  distinct : ∀ i j k, t i = some k → t j = some k → i = j
  reached : ∀ i k, t i = some k → ∀ j, steps (home k) j < steps (home k) i → t j ≠ none

/-- No walk to another stored key passes slot `i`. -/
def Spares (home : κ → Fin n) (t : Fin n → Option κ) (i : Fin n) : Prop :=
  ∀ j k, t j = some k → j ≠ i → steps (home k) j ≤ steps (home k) i

namespace Probed

variable {home : κ → Fin n} {t : Fin n → Option κ} {k : κ} {i j : Fin n}

theorem empty (home : κ → Fin n) : Probed home fun _ => none :=
  ⟨fun _ _ _ h => by simp at h, fun _ _ h => by simp at h⟩

/-- A stored key is found. -/
theorem stopsAt (h : Probed home t) (hi : t i = some k) : StopsAt t k (home k) i := by
  refine ⟨.inr hi, fun j hj => ⟨h.reached i k hi j hj, fun hkey => ?_⟩⟩
  obtain rfl := h.distinct i j k hi hkey
  exact lt_irrefl _ hj

/-- The key of a walk that ends at a free slot is not stored. -/
theorem absent (h : Probed home t) (hs : StopsAt t k (home k) i) (hfree : t i = none)
    (j : Fin n) : t j ≠ some k := by
  intro hj
  obtain rfl := hs.unique (h.stopsAt hj)
  simp [hfree] at hj

/-- A key may be put where its walk ends. -/
theorem insert (h : Probed home t) (hs : StopsAt t k (home k) i) (hfree : t i = none) :
    Probed home (Function.update t i (some k)) := by
  constructor
  · intro a b l ha hb
    rw [Function.update_apply] at ha hb
    split at ha <;> split at hb
    · simp_all
    · obtain rfl := Option.some.inj ha
      exact absurd hb (h.absent hs hfree b)
    · obtain rfl := Option.some.inj hb
      exact absurd ha (h.absent hs hfree a)
    · exact h.distinct a b l ha hb
  · intro a l ha j hj
    rw [Function.update_apply] at ha ⊢
    split
    · simp
    · split at ha
      next heq =>
        obtain rfl := Option.some.inj ha
        exact (hs.passes j (heq ▸ hj)).1
      next => exact h.reached a l ha j hj

theorem update_none_eq_some {a : Fin n} (ha : Function.update t i none a = some k) :
    a ≠ i ∧ t a = some k := by
  rw [Function.update_apply] at ha
  split at ha
  · cases ha
  · exact ⟨‹_›, ha⟩

/-- A slot may be freed that no walk to another stored key passes. -/
theorem erase (h : Probed home t) (hs : Spares home t i) :
    Probed home (Function.update t i none) := by
  constructor
  · intro a b l ha hb
    exact h.distinct a b l (update_none_eq_some ha).2 (update_none_eq_some hb).2
  · intro a l ha j hj
    obtain ⟨hne, hold⟩ := update_none_eq_some ha
    have hji : j ≠ i := fun heq => not_lt.mpr (hs a l hold hne) (heq ▸ hj)
    rw [Function.update_of_ne hji]
    exact h.reached a l hold j hj

/-- A key put where its walk ended may be taken away again. -/
theorem spares_insert (h : Probed home t) (hfree : t i = none) :
    Spares home (Function.update t i (some k)) i := by
  intro j l hj hne
  rw [Function.update_of_ne hne] at hj
  exact not_lt.mp fun hlt => h.reached j l hj i hlt hfree

/-- A key is still found after slot `i` was freed exactly if its walk does not
pass that slot. -/
theorem stopsAt_erase_iff (h : Probed home t) (hj : t j = some k) (hne : j ≠ i) :
    StopsAt (Function.update t i none) k (home k) j ↔ steps (home k) j ≤ steps (home k) i := by
  constructor
  · intro hs
    refine not_lt.mp fun hlt => (hs.passes i hlt).1 ?_
    rw [Function.update_self]
  · intro hle
    refine ⟨.inr (by rwa [Function.update_of_ne hne]), fun b hb => ?_⟩
    have hbi : b ≠ i := fun heq => not_lt.mpr hle (heq ▸ hb)
    rw [Function.update_of_ne hbi]
    exact (h.stopsAt hj).passes b hb

end Probed

/-- A table whose keys are fewer than its slots has a free slot. -/
theorem exists_free {t : Fin n → Option κ} {keys : Finset κ}
    (hdistinct : ∀ i j k, t i = some k → t j = some k → i = j)
    (hkeys : ∀ i k, t i = some k → k ∈ keys) (hcard : keys.card < n) : ∃ i, t i = none := by
  by_contra hfull
  push Not at hfull
  obtain ⟨key, hkey⟩ : ∃ key : Fin n → κ, ∀ i, t i = some (key i) :=
    ⟨fun i => (t i).get (Option.isSome_iff_ne_none.mpr (hfull i)), fun i => by simp⟩
  have hinj : Function.Injective key := fun i j heq =>
    hdistinct i j (key j) (heq ▸ hkey i) (hkey j)
  have hle : (Finset.univ : Finset (Fin n)).card ≤ keys.card :=
    Finset.card_le_card_of_injOn key (fun i _ => hkeys i _ (hkey i)) hinj.injOn
  rw [Finset.card_fin] at hle
  omega

end VlbiStreamer.Library.LinearProbing
