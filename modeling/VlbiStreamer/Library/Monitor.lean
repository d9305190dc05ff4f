import Mathlib.Data.List.Basic

/-!
# Monitors

A program writes down what it does, and a monitor reads it: it has a state, and in each state
it allows some acts and no others.  `Admits` says that a monitor allows all of a list of acts,
one after the other; `Settles` that it also comes back to a given state.
-/

namespace VlbiStreamer.Library

universe u v

/-- A monitor with states `σ` of acts `α`. -/
structure Monitor (σ : Type u) (α : Type v) where
  allows : σ → α → Prop
  after : σ → α → σ

namespace Monitor

variable {σ : Type u} {α : Type v} (m : Monitor σ α) {g g' g'' : σ} {a : α} {as bs : List α}

/-- The state behind these acts. -/
def afterAll (g : σ) (as : List α) : σ := as.foldl m.after g

/-- Every act is allowed. -/
def Admits : σ → List α → Prop
  | _, [] => True
  | g, a :: as => m.allows g a ∧ Admits (m.after g a) as

/-- Every act is allowed, and then the state is `g'`. -/
def Settles (g : σ) (as : List α) (g' : σ) : Prop := m.Admits g as ∧ m.afterAll g as = g'

variable {m}

theorem admits_append : m.Admits g (as ++ bs) ↔ m.Admits g as ∧ m.Admits (m.afterAll g as) bs := by
  induction as generalizing g with
  | nil => exact (and_iff_right trivial).symm
  | cons a as ih =>
      rw [List.cons_append]
      exact (and_congr_right fun _ => ih).trans and_assoc.symm

theorem Settles.append (h : m.Settles g as g') (h' : m.Settles g' bs g'') :
    m.Settles g (as ++ bs) g'' := by
  constructor
  · apply admits_append.mpr
    rw [h.2]
    exact ⟨h.1, h'.1⟩
  · rw [afterAll, List.foldl_append]
    show m.afterAll (m.afterAll g as) bs = g''
    rw [h.2, h'.2]

theorem Settles.act (h : m.Settles g as g') (ha : m.allows g' a) :
    m.Settles g (as ++ [a]) (m.after g' a) :=
  h.append ⟨⟨ha, trivial⟩, rfl⟩

end Monitor

end VlbiStreamer.Library
