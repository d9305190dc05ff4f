import VlbiStreamer.Library.Memory
import Mathlib.Data.Nat.Count

/-!
# Putting headers right

A program goes over the slots of a buffer, compares the header of each with the one it
should have, and copies the right one over a wrong one.

`Headers` says which header slot `j` should have and which are wrong for it; the two
fields with proofs make the pass over the slots exact: `Refilled` says of every byte of
the memory what it is afterwards, `refill_count` how many headers were wrong, and
`refill_again` that a second pass finds nothing.
-/

namespace VlbiStreamer.Library

/-- The headers that the slots of a buffer should have. -/
structure Headers where
  /-- The size of a slot. -/
  size : ℕ
  /-- The size of a header. -/
  len : ℕ
  len_le : len ≤ size
  header : ℕ → Bytes
  wrong : ℕ → Bytes → Bool
  /-- Only the header of a slot is looked at. -/
  wrong_congr : ∀ {j : ℕ} {bs bs' : Bytes}, (∀ x < len, bs x = bs' x) →
    wrong j bs = wrong j bs'
  header_right : ∀ j, wrong j (header j) = false

namespace Headers

variable (H : Headers)

/-- Put the header of one slot right. -/
def mend (j : ℕ) (m : Memory) (p : Ptr) : Memory :=
  if H.wrong j (m.read p) then m.write p H.len (H.header j) else m

/-- Put the headers of `n` slots right, from slot `j` on, and count the wrong ones. -/
def refill : ℕ → ℕ → Memory → Ptr → Memory × ℕ
  | _, 0, m, _ => (m, 0)
  | j, n + 1, m, p =>
      let rest := refill (j + 1) n (H.mend j m p) (p.add H.size)
      (rest.1, rest.2 + if H.wrong j (m.read p) then 1 else 0)

/-- Slot `k` has a wrong header. -/
def WrongAt (j : ℕ) (m : Memory) (p : Ptr) (k : ℕ) : Prop :=
  H.wrong (j + k) (m.read (p.add (k * H.size))) = true

instance (j : ℕ) (m : Memory) (p : Ptr) : DecidablePred (H.WrongAt j m p) :=
  fun k => inferInstanceAs (Decidable (H.wrong (j + k) (m.read (p.add (k * H.size))) = true))

/-- `m'` is `m` with the headers of `n` slots put right. -/
structure Refilled (j n : ℕ) (m : Memory) (p : Ptr) (m' : Memory) : Prop where
  slot : ∀ k < n, ∀ x < H.size, m'.read (p.add (k * H.size)) x =
    if H.WrongAt j m p k ∧ x < H.len then H.header (j + k) x
    else m.read (p.add (k * H.size)) x
  outside : ∀ b o, b ≠ p.block ∨ o < p.off ∨ p.off + n * H.size ≤ o → m' b o = m b o

variable {H} {j n k x : ℕ} {m m' : Memory} {p : Ptr}

theorem add_zero_slot (p : Ptr) : p.add ((0 : ℕ) * H.size) = p := by
  rw [Nat.cast_zero, zero_mul, Ptr.add, add_zero]

theorem add_succ_slot (p : Ptr) (k : ℕ) :
    p.add ((k + 1 : ℕ) * H.size) = (p.add H.size).add (k * H.size) := by
  simp only [Ptr.add, Nat.cast_succ, Int.add_mul, Int.one_mul, Ptr.mk.injEq, true_and]
  omega

/-! ## One slot -/

theorem mend_self : (H.mend j m p).read p x =
    if H.wrong j (m.read p) = true ∧ x < H.len then H.header j x else m.read p x := by
  unfold mend
  by_cases hwrong : H.wrong j (m.read p) = true
  · rw [if_pos hwrong]
    by_cases hx : x < H.len
    · rw [if_pos ⟨hwrong, hx⟩, Memory.read_write_self hx]
    · rw [if_neg fun h => hx h.2]
      exact if_neg (by omega)
  · rw [if_neg hwrong, if_neg fun h => hwrong h.1]

theorem mend_outside {b : ℕ} {o : ℤ} (h : b ≠ p.block ∨ o < p.off ∨ p.off + H.size ≤ o) :
    H.mend j m p b o = m b o := by
  have hle := H.len_le
  unfold mend
  split
  · exact if_neg (by omega)
  · rfl

/-- The slots that follow are left alone. -/
theorem mend_read_later :
    (H.mend j m p).read ((p.add H.size).add (k * H.size)) x =
      m.read ((p.add H.size).add (k * H.size)) x := by
  have hpos : (0 : ℤ) ≤ k * H.size := mul_nonneg (Int.natCast_nonneg k) (Int.natCast_nonneg _)
  exact mend_outside (Or.inr (Or.inr (by simp only [Ptr.add]; omega)))

theorem wrongAt_mend : H.WrongAt (j + 1) (H.mend j m p) (p.add H.size) k ↔
    H.WrongAt j m p (k + 1) := by
  unfold WrongAt
  rw [add_succ_slot, Nat.add_right_comm j 1 k, Nat.add_assoc j k 1,
    H.wrong_congr fun _ _ => mend_read_later]

theorem wrongAt_zero : H.WrongAt j m p 0 ↔ H.wrong j (m.read p) = true := by
  rw [WrongAt, add_zero_slot, Nat.add_zero]

/-! ## All slots -/

/-- **Every byte after the pass**. -/
theorem refilled : H.Refilled j n m p (H.refill j n m p).1 := by
  induction n generalizing j m p with
  | zero => exact ⟨fun k hk => absurd hk (Nat.not_lt_zero k), fun _ _ _ => rfl⟩
  | succ n ih =>
      have hrest : H.Refilled (j + 1) n (H.mend j m p) (p.add H.size)
          (H.refill j (n + 1) m p).1 := ih
      refine ⟨fun k hk x hx => ?_, fun b o h => ?_⟩
      · cases k with
        | zero =>
            -- the first slot lies before the others
            have hlt : (H.refill j (n + 1) m p).1.read p x = (H.mend j m p).read p x :=
              hrest.outside _ _ (Or.inr (Or.inl (by simp only [Ptr.add]; omega)))
            rw [add_zero_slot, hlt, mend_self]
            exact if_congr (and_congr_left fun _ => wrongAt_zero.symm) rfl rfl
        | succ k =>
            have hslot := hrest.slot k (by omega) x hx
            rw [add_succ_slot, hslot, mend_read_later, Nat.add_right_comm j 1 k]
            exact if_congr (and_congr_left fun _ => wrongAt_mend) rfl rfl
      · have hpos : (0 : ℤ) ≤ n * H.size :=
          mul_nonneg (Int.natCast_nonneg n) (Int.natCast_nonneg _)
        rw [Nat.cast_succ, Int.add_mul, Int.one_mul] at h
        rw [hrest.outside b o (by simp only [Ptr.add]; omega), mend_outside (by omega)]

/-- The pass counts the wrong headers. -/
theorem refill_count : (H.refill j n m p).2 = Nat.count (H.WrongAt j m p) n := by
  induction n generalizing j m p with
  | zero => rfl
  | succ n ih =>
      have hrest : Nat.count (H.WrongAt (j + 1) (H.mend j m p) (p.add H.size)) n =
          Nat.count (fun k => H.WrongAt j m p (k + 1)) n :=
        le_antisymm (Nat.count_mono_left fun _ _ => wrongAt_mend.mp)
          (Nat.count_mono_left fun _ _ => wrongAt_mend.mpr)
      rw [Nat.count_succ', ← hrest, ← ih]
      exact congrArg _ (if_congr wrongAt_zero.symm rfl rfl)

/-- No header is wrong after the pass. -/
theorem Refilled.right (h : H.Refilled j n m p m') (hk : k < n) : ¬ H.WrongAt j m' p k := by
  have hslot : ∀ x < H.len, m'.read (p.add (k * H.size)) x = _ := fun x hx =>
    h.slot k hk x (hx.trans_le H.len_le)
  by_cases hwrong : H.WrongAt j m p k
  · have hheader : ∀ x < H.len, m'.read (p.add (k * H.size)) x = H.header (j + k) x := by
      intro x hx
      rw [hslot x hx, if_pos ⟨hwrong, hx⟩]
    rw [WrongAt, H.wrong_congr hheader, H.header_right]
    exact Bool.false_ne_true
  · have hsame : ∀ x < H.len, m'.read (p.add (k * H.size)) x = m.read (p.add (k * H.size)) x := by
      intro x hx
      rw [hslot x hx, if_neg fun h => hwrong h.1]
    rw [WrongAt, H.wrong_congr hsame]
    exact hwrong

/-- A pass over right headers changes nothing. -/
theorem refill_of_right (h : ∀ k < n, ¬ H.WrongAt j m p k) : H.refill j n m p = (m, 0) := by
  induction n generalizing j m p with
  | zero => rfl
  | succ n ih =>
      have hfirst : ¬ H.wrong j (m.read p) = true := mt wrongAt_zero.mpr (h 0 (Nat.succ_pos n))
      have hmend : H.mend j m p = m := if_neg hfirst
      have hrest : H.refill (j + 1) n m (p.add H.size) = (m, 0) := by
        refine ih fun k hk => ?_
        have hright := mt wrongAt_mend.mp (h (k + 1) (by omega))
        rwa [hmend] at hright
      rw [refill, hmend, hrest, if_neg hfirst]

/-- **A second pass** finds nothing. -/
theorem refill_again : H.refill j n (H.refill j n m p).1 p = ((H.refill j n m p).1, 0) :=
  refill_of_right fun _ hk => refilled.right hk

end Headers

end VlbiStreamer.Library
