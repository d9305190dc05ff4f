import Mathlib.Algebra.Order.Ring.Int
import Mathlib.Data.List.Range

/-!
# Gather lists

A gather list names stretches of memory that are transferred one after the other.
`Chained` says that each begins where the one before it ends: such a list is one
stretch, cut into pieces (`Chained.gather_eq`).
-/

namespace VlbiStreamer.Library

/-- `struct iovec` -/
structure Iovec where
  iovBase : ℕ
  iovLen : ℕ
  deriving DecidableEq, Repr

namespace Iovec

/-- The addresses, in the order of the transfer. -/
def gather (vs : List Iovec) : List ℕ := vs.flatMap fun v => List.range' v.iovBase v.iovLen

/-- Number of bytes. -/
def total (vs : List Iovec) : ℕ := (vs.map iovLen).sum

/-- The first stretch begins at `a`, and each where the one before it ends. -/
def Chained : ℕ → List Iovec → Prop
  | _, [] => True
  | a, v :: vs => v.iovBase = a ∧ Chained (a + v.iovLen) vs

variable {a : ℕ} {v : Iovec} {vs ws : List Iovec}

@[simp] theorem total_nil : total [] = 0 := rfl

@[simp] theorem total_cons : total (v :: vs) = v.iovLen + total vs := rfl

@[simp] theorem total_append : total (vs ++ ws) = total vs + total ws := by
  simp [total]

theorem Chained.append (h : Chained a vs) (h' : Chained (a + total vs) ws) :
    Chained a (vs ++ ws) := by
  induction vs generalizing a with
  | nil => exact h'
  | cons v vs ih =>
      refine ⟨h.1, ih h.2 ?_⟩
      rwa [total_cons, ← Nat.add_assoc] at h'

/-- **A chained list is one stretch.** -/
theorem Chained.gather_eq (h : Chained a vs) : gather vs = List.range' a (total vs) := by
  induction vs generalizing a with
  | nil => rfl
  | cons v vs ih =>
      obtain ⟨rfl, hrest⟩ := h
      rw [total_cons, ← List.range'_append_1, ← ih hrest]
      rfl

/-- What is transferred of a chained list begins at its start. -/
theorem Chained.take_gather {n : ℕ} (h : Chained a vs) (hn : n ≤ total vs) :
    (gather vs).take n = List.range' a n := by
  rw [h.gather_eq, List.take_range'_of_length_ge hn]

theorem Chained.inside (h : Chained a vs) (hv : v ∈ vs) :
    a ≤ v.iovBase ∧ v.iovBase + v.iovLen ≤ a + total vs := by
  induction vs generalizing a with
  | nil => cases hv
  | cons w vs ih =>
      obtain ⟨rfl, hrest⟩ := h
      rw [total_cons]
      obtain rfl | hv := List.mem_cons.mp hv
      · omega
      · have := ih hrest hv
        omega

end Iovec

end VlbiStreamer.Library
