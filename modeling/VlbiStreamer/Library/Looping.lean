import Mathlib.Logic.Relation
import Mathlib.Order.Basic

/-!
# Loops

A `while` loop is a turn that either goes on with another state or stops with a result, and
`Ends turn s r` says that the loop stops with `r` when it is entered in state `s`.  A program
that may crash has a result for it.

`Reaches turn s t` says that the loop comes to `t` from `s`.

`Ends.of_variant` is the rule of total correctness, `Ends.invariant` that of partial
correctness, and `Reaches.invariant` the one for the states in between.  `Upholds` is what the
last two ask of a turn, in one statement.
-/

namespace VlbiStreamer.Library

universe u v

/-- What one turn of a loop comes to. -/
inductive Turn (σ : Type u) (ρ : Type v) where
  | again (s : σ)
  | stop (r : ρ)

variable {σ : Type u} {ρ : Type v}

/-- At most `fuel` turns. -/
def runLoop (turn : σ → Turn σ ρ) : ℕ → σ → Option ρ
  | 0, _ => none
  | fuel + 1, s =>
      match turn s with
      | .stop r => some r
      | .again t => runLoop turn fuel t

/-- The loop stops with `r`. -/
def Ends (turn : σ → Turn σ ρ) (s : σ) (r : ρ) : Prop := ∃ fuel, runLoop turn fuel s = some r

/-- The loop comes to `t` from `s`. -/
def Reaches (turn : σ → Turn σ ρ) : σ → σ → Prop :=
  Relation.ReflTransGen fun s t => turn s = .again t

variable {turn : σ → Turn σ ρ} {s t u : σ} {r r' : ρ}

theorem runLoop_stop (h : turn s = .stop r) (fuel : ℕ) : runLoop turn (fuel + 1) s = some r := by
  unfold runLoop
  rw [h]

theorem runLoop_again (h : turn s = .again t) (fuel : ℕ) :
    runLoop turn (fuel + 1) s = runLoop turn fuel t := by
  rw [runLoop]
  rw [h]

namespace Ends

theorem stop (h : turn s = .stop r) : Ends turn s r := ⟨1, runLoop_stop h 0⟩

theorem stop_iff (h : turn s = .stop r) : Ends turn s r' ↔ r' = r := by
  constructor
  · rintro ⟨fuel, hrun⟩
    cases fuel with
    | zero => cases hrun
    | succ fuel =>
        rw [runLoop_stop h] at hrun
        exact (Option.some.inj hrun).symm
  · rintro rfl
    exact stop h

theorem again_iff (h : turn s = .again t) : Ends turn s r ↔ Ends turn t r := by
  constructor
  · rintro ⟨fuel, hrun⟩
    cases fuel with
    | zero => cases hrun
    | succ fuel => exact ⟨fuel, (runLoop_again h fuel).symm.trans hrun⟩
  · rintro ⟨fuel, hrun⟩
    exact ⟨fuel + 1, (runLoop_again h fuel).trans hrun⟩

/-- The turns of a counted loop. -/
theorem turns_iff {f : ℕ → σ} {n : ℕ} (h : ∀ k < n, turn (f k) = .again (f (k + 1))) :
    Ends turn (f 0) r ↔ Ends turn (f n) r := by
  induction n with
  | zero => exact Iff.rfl
  | succ n ih =>
      rw [ih fun k hk => h k (Nat.lt_succ_of_lt hk)]
      exact again_iff (h n (Nat.lt_succ_self n))

/-- **What holds before every turn** holds when the loop stops. -/
theorem invariant (I : σ → Prop) (post : ρ → Prop) (h : Ends turn s r)
    (hagain : ∀ s t, I s → turn s = .again t → I t)
    (hstop : ∀ s r, I s → turn s = .stop r → post r) (hs : I s) : post r := by
  obtain ⟨fuel, hrun⟩ := h
  induction fuel generalizing s with
  | zero => cases hrun
  | succ fuel ih =>
      cases hturn : turn s with
      | stop r' =>
          rw [runLoop_stop hturn] at hrun
          obtain rfl := Option.some.inj hrun
          exact hstop s r' hs hturn
      | again t =>
          rw [runLoop_again hturn] at hrun
          exact ih (hagain s t hs hturn) hrun

/-- A loop stops with one result. -/
theorem unique (h : Ends turn s r) (h' : Ends turn s r') : r = r' := by
  obtain ⟨fuel, hrun⟩ := h
  induction fuel generalizing s with
  | zero => cases hrun
  | succ fuel ih =>
      cases hturn : turn s with
      | stop r₀ =>
          rw [runLoop_stop hturn] at hrun
          rw [(stop_iff hturn).mp h']
          exact (Option.some.inj hrun).symm
      | again t =>
          rw [runLoop_again hturn] at hrun
          exact ih ((again_iff hturn).mp h') hrun

/-- **The rule of total correctness.**  The variant goes down with every turn that the
invariant allows. -/
theorem of_variant (I : σ → Prop) (post : ρ → Prop) (variant : σ → ℕ)
    (hturn : ∀ s, I s → (∃ t, turn s = .again t ∧ I t ∧ variant t < variant s) ∨
      ∃ r, turn s = .stop r ∧ post r) (hs : I s) : ∃ r, Ends turn s r ∧ post r := by
  induction hn : variant s using Nat.strongRecOn generalizing s with
  | ind n ih =>
      rcases hturn s hs with ⟨t, hagain, ht, hlt⟩ | ⟨r, hstop, hpost⟩
      · obtain ⟨r, hends, hpost⟩ := ih (variant t) (hn ▸ hlt) ht rfl
        exact ⟨r, (again_iff hagain).mpr hends, hpost⟩
      · exact ⟨r, stop hstop, hpost⟩

end Ends

namespace Reaches

theorem refl : Reaches turn s s := Relation.ReflTransGen.refl

theorem next (h : Reaches turn s t) (hturn : turn t = .again u) : Reaches turn s u :=
  Relation.ReflTransGen.tail h hturn

theorem trans (h : Reaches turn s t) (h' : Reaches turn t u) : Reaches turn s u :=
  Relation.ReflTransGen.trans h h'

theorem stop_iff (h : turn s = .stop r) : Reaches turn s u ↔ u = s := by
  constructor
  · intro hreach
    rcases Relation.ReflTransGen.cases_head hreach with rfl | ⟨t, hturn, -⟩
    · rfl
    · cases h.symm.trans hturn
  · rintro rfl
    exact refl

theorem again_iff (h : turn s = .again t) : Reaches turn s u ↔ u = s ∨ Reaches turn t u := by
  constructor
  · intro hreach
    rcases Relation.ReflTransGen.cases_head hreach with rfl | ⟨t', hturn, hrest⟩
    · exact Or.inl rfl
    · obtain rfl : t' = t := Turn.again.inj (hturn.symm.trans h)
      exact Or.inr hrest
  · rintro (rfl | hrest)
    · exact refl
    · exact Relation.ReflTransGen.head h hrest

/-- What every turn keeps holds of every state the loop comes to. -/
theorem invariant (I : σ → Prop) (h : Reaches turn s t)
    (hagain : ∀ t u, I t → turn t = .again u → I u) (hs : I s) : I t := by
  induction h with
  | refl => exact hs
  | tail _ hturn ih => exact hagain _ _ ih hturn

/-- The rest of a loop is the loop. -/
theorem ends_iff (h : Reaches turn s t) : Ends turn s r ↔ Ends turn t r := by
  induction h with
  | refl => exact Iff.rfl
  | tail _ hturn ih => rw [ih, Ends.again_iff hturn]

end Reaches

/-- A turn from a state in `I` stops with a result in `post` or goes on in `I`. -/
def Upholds (turn : σ → Turn σ ρ) (I : σ → Prop) (post : ρ → Prop) : Prop :=
  ∀ s, I s → (∃ r, turn s = .stop r ∧ post r) ∨ ∃ t, turn s = .again t ∧ I t

namespace Upholds

variable {I : σ → Prop} {post : ρ → Prop}

theorem again (h : Upholds turn I post) (hs : I s) (hturn : turn s = .again t) : I t := by
  rcases h s hs with ⟨r, hstop, -⟩ | ⟨t', hagain, ht'⟩
  · cases hstop.symm.trans hturn
  · obtain rfl : t' = t := Turn.again.inj (hagain.symm.trans hturn)
    exact ht'

theorem stop (h : Upholds turn I post) (hs : I s) (hturn : turn s = .stop r) : post r := by
  rcases h s hs with ⟨r', hstop, hr'⟩ | ⟨t, hagain, -⟩
  · obtain rfl : r' = r := Turn.stop.inj (hstop.symm.trans hturn)
    exact hr'
  · cases hagain.symm.trans hturn

theorem reaches (h : Upholds turn I post) (hreach : Reaches turn s t) (hs : I s) : I t :=
  hreach.invariant I (fun _ _ => h.again) hs

theorem ends (h : Upholds turn I post) (hends : Ends turn s r) (hs : I s) : post r :=
  hends.invariant I post (fun _ _ => h.again) (fun _ _ => h.stop) hs

end Upholds

end VlbiStreamer.Library
