import Mathlib.Data.List.Basic
import VlbiStreamer.Library.Transition

/-!
# Variants of transition systems

A number that every step of some kind makes smaller bounds the runs of such steps
(`runFrom_length_le`).  Where moreover only the states that are done have no such
step, the work `Completes`: however the steps are chosen, it comes to its end.
-/

namespace VlbiStreamer.Library

universe u v

namespace System

variable {State : Type u} {Action : Type v} {next : State → Action → Option State}
  {Inv Done : State → Prop} {p : Action → Prop} {variant : State → ℕ} {s t : State}

/-- Every step of a kind keeps the invariant and takes something off a number. -/
def Descends (next : State → Action → Option State) (Inv : State → Prop) (p : Action → Prop)
    (variant : State → ℕ) : Prop :=
  ∀ s a t, Inv s → p a → next s a = some t → Inv t ∧ variant t < variant s

/-- **The variant rule.**  A run is no longer than the number it begins with. -/
theorem runFrom_length_le (hstep : Descends next Inv p variant) {as : List Action} (h : Inv s)
    (has : ∀ a ∈ as, p a) (hrun : runFrom next s as = some t) :
    as.length + variant t ≤ variant s := by
  induction as generalizing s with
  | nil =>
      obtain rfl := Option.some.inj hrun
      exact Nat.le_of_eq (Nat.zero_add _)
  | cons a as ih =>
      obtain ⟨s', hs', hrest⟩ := Option.bind_eq_some_iff.mp hrun
      obtain ⟨hinv, hlt⟩ := hstep _ _ _ h (has a List.mem_cons_self) hs'
      have hle := ih hinv (fun b hb => has b (List.mem_cons_of_mem _ hb)) hrest
      rw [List.length_cons]
      omega

/-- However steps of a kind are taken, there is an end to them, and they only end where the
work is done. -/
def Completes (next : State → Action → Option State) (p : Action → Prop) (Done : State → Prop)
    (s : State) : Prop :=
  ∃ n, ∀ as t, (∀ a ∈ as, p a) → runFrom next s as = some t →
    as.length ≤ n ∧ (Done t ∨ ∃ a u, p a ∧ next t a = some u)

/-- **The work comes to its end**, where it only stops when it is done. -/
theorem Completes.of_descends (hstep : Descends next Inv p variant)
    (hgo : ∀ s, Inv s → Done s ∨ ∃ a t, p a ∧ next s a = some t) (h : Inv s) :
    Completes next p Done s := by
  refine ⟨variant s, fun as t has hrun => ⟨?_, ?_⟩⟩
  · have hle := runFrom_length_le hstep h has hrun
    omega
  · exact hgo t (runFrom_invariant (fun s a t hs ha hnext => (hstep s a t hs ha hnext).1) h has
      hrun)

/-- Then some run does the work. -/
theorem Completes.exists_done (h : Completes next p Done s) :
    ∃ as t, (∀ a ∈ as, p a) ∧ runFrom next s as = some t ∧ Done t := by
  obtain ⟨n, hn⟩ := h
  -- a run that has `k` steps to go to the bound and one beyond
  have hlonger : ∀ k as t, as.length + k = n + 1 → (∀ a ∈ as, p a) →
      runFrom next s as = some t →
        ∃ as t, (∀ a ∈ as, p a) ∧ runFrom next s as = some t ∧ Done t := by
    intro k
    induction k with
    | zero =>
        intro as t hk has hrun
        have hle := (hn as t has hrun).1
        omega
    | succ k ih =>
        intro as t hk has hrun
        obtain ⟨-, hdone | ⟨a, u, ha, hu⟩⟩ := hn as t has hrun
        · exact ⟨as, t, has, hrun, hdone⟩
        refine ih (as ++ [a]) u ?_ ?_ ?_
        · rw [List.length_append, List.length_singleton]
          omega
        · intro b hb
          obtain hb | hb := List.mem_append.mp hb
          · exact has b hb
          · rwa [List.mem_singleton.mp hb]
        · rw [runFrom_append, hrun]
          simpa [runFrom] using hu
  exact hlonger (n + 1) [] s (Nat.zero_add _) (fun a ha => absurd ha List.not_mem_nil) rfl

end System

end VlbiStreamer.Library
