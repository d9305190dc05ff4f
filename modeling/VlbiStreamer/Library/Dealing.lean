import Mathlib.Algebra.BigOperators.Fin
import Mathlib.Data.List.Range
import Mathlib.Data.Nat.ModEq

/-!
# Dealing items in turns

The items `0, 1, 2, …` are dealt to `S` parties in turns: item `g` goes to party
`g % S`.  `turns S t n` are the items of party `t` among the first `n`.

A window of `n` items that starts at item `a` gives party `t` the places
`window S a t n`.  They form an arithmetic progression (`window_eq_map`), windows
that follow one another add up to the whole deal (`flatMap_windows`), and every
place of a window goes to one party (`sum_window_length`).
-/

namespace VlbiStreamer.Library

/-- The items of party `t` among the first `n`. -/
def turns (S t n : ℕ) : List ℕ := (List.range n).filter fun g => g % S = t

/-- The places of party `t` in a window of `n` items from item `a` on. -/
def window (S a t n : ℕ) : List ℕ := (List.range n).filter fun j => (a + j) % S = t

variable {S a b t n m : ℕ}

@[simp] theorem mem_turns {g : ℕ} : g ∈ turns S t n ↔ g < n ∧ g % S = t := by
  simp [turns]

@[simp] theorem mem_window {j : ℕ} : j ∈ window S a t n ↔ j < n ∧ (a + j) % S = t := by
  simp [window]

theorem window_zero_length : window S a t 0 = [] := rfl

/-- A window depends on its start only modulo the number of parties. -/
theorem window_congr (h : a % S = b % S) : window S a t n = window S b t n := by
  unfold window
  refine List.filter_congr fun j _ => ?_
  rw [Nat.add_mod a, h, ← Nat.add_mod]

/-- The items before a window and those in it. -/
theorem turns_add : turns S t (a + n) = turns S t a ++ (window S a t n).map (a + ·) := by
  unfold turns window
  rw [List.range_add, List.filter_append, List.filter_map]
  rfl

/-- Windows of `n` items, one after the other, deal the first `K * n` items or as many as
there are. -/
theorem flatMap_windows (S t n total K : ℕ) :
    ((List.range K).flatMap fun k =>
      (window S (k * n) t (min n (total - k * n))).map (k * n + ·)) =
      turns S t (min total (K * n)) := by
  induction K with
  | zero => simp [turns]
  | succ K ih =>
      rw [List.range_succ, List.flatMap_append, ih, List.flatMap_singleton]
      rcases Nat.lt_or_ge total (K * n) with hlt | hle
      · have hnone : min n (total - K * n) = 0 := by omega
        have hsame : min total ((K + 1) * n) = min total (K * n) := by
          rw [Nat.succ_mul]
          omega
        rw [hnone, hsame, window_zero_length, List.map_nil, List.append_nil]
      · have hmore : min total ((K + 1) * n) = K * n + min n (total - K * n) := by
          rw [Nat.succ_mul]
          omega
        rw [Nat.min_eq_right hle, hmore, turns_add]

/-- Full windows, one after the other. -/
theorem flatMap_full_windows (S t n K : ℕ) :
    ((List.range K).flatMap fun k => (window S (k * n) t n).map (k * n + ·)) =
      turns S t (K * n) := by
  have hfull := flatMap_windows S t n (K * n) K
  rw [Nat.min_self] at hfull
  rw [← hfull]
  refine List.flatMap_congr fun k hk => ?_
  have hle : (k + 1) * n ≤ K * n := Nat.mul_le_mul_right n (List.mem_range.mp hk)
  rw [Nat.succ_mul] at hle
  rw [Nat.min_eq_left (by omega)]

/-- Two deals of different length go alike as long as both last. -/
theorem zip_turns (h : n ≤ m) :
    (turns S t m).zip (turns S t n) = (turns S t n).map fun g => (g, g) := by
  obtain ⟨k, rfl⟩ := Nat.exists_eq_add_of_le h
  rw [turns_add]
  generalize turns S t n = l
  induction l with
  | nil => simp
  | cons g l ih => simp [ih]

/-- A window's places are an arithmetic progression from the first one on. -/
theorem window_eq_map {first count : ℕ} (hfirst : first < S) (hturn : (a + first) % S = t)
    (hcount : ∀ m, m < count ↔ first + m * S < n) :
    window S a t n = (List.range count).map fun m => first + m * S := by
  have hpos : 0 < S := by omega
  have hsorted : ((List.range count).map fun m => first + m * S).Pairwise (· < ·) := by
    refine List.Pairwise.map _ (fun i j hij => ?_) List.pairwise_lt_range
    have := Nat.mul_lt_mul_of_pos_right hij hpos
    omega
  have hsorted' : (window S a t n).Pairwise (· < ·) := List.pairwise_lt_range.filter _
  refine List.Perm.eq_of_pairwise ?_ hsorted' hsorted ?_
  · exact fun i j _ _ hij hji => absurd hji (not_lt.mpr hij.le)
  · refine (List.perm_ext_iff_of_nodup (hsorted'.imp fun h => h.ne)
      (hsorted.imp fun h => h.ne)).mpr fun j => ?_
    simp only [mem_window, List.mem_map, List.mem_range]
    constructor
    · rintro ⟨hj, hmod⟩
      -- the place is congruent to the first one, and not before it
      have hcongr : (a + j) % S = (a + first) % S := hmod.trans hturn.symm
      have hjmod : j % S = first := by
        have hcancel : j ≡ first [MOD S] := Nat.ModEq.add_left_cancel' a hcongr
        rwa [Nat.ModEq, Nat.mod_eq_of_lt hfirst] at hcancel
      have hdiv : first + j / S * S = j := by
        rw [← hjmod, Nat.mul_comm, Nat.mod_add_div]
      exact ⟨j / S, (hcount _).mpr (hdiv.trans_lt hj), hdiv⟩
    · rintro ⟨m, hm, rfl⟩
      refine ⟨(hcount m).mp hm, ?_⟩
      rw [← Nat.add_assoc, Nat.add_mul_mod_self_right, hturn]

/-- Every place of a window goes to one party. -/
theorem sum_window_length (hpos : 0 < S) (a n : ℕ) :
    ∑ t : Fin S, (window S a t n).length = n := by
  induction n with
  | zero => simp [window]
  | succ n ih =>
      have hlast : ∀ t : Fin S, (window S a t (n + 1)).length =
          (window S a t n).length + if t = ⟨(a + n) % S, Nat.mod_lt _ hpos⟩ then 1 else 0 := by
        intro t
        unfold window
        rw [List.range_succ, List.filter_append, List.length_append]
        congr 1
        by_cases h : (a + n) % S = t
        · simp [h]
        · have h' : ¬ t.val = (a + n) % S := fun heq => h heq.symm
          simp [h, h', Fin.ext_iff]
      rw [Finset.sum_congr rfl fun t _ => hlast t, Finset.sum_add_distrib, ih]
      simp

end VlbiStreamer.Library
