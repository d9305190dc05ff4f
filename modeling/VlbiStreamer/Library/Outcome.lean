/-!
# Programs that may end early

A program that either goes on with a state or ends with one is a function into
`Except ε σ`.  `Meets post failed r` says what holds of the state in either case.
-/

namespace VlbiStreamer.Library

universe u v w

variable {σ τ : Type u} {ε : Type v} {α : Type w}

/-- `post` of the state with which the program goes on, `failed` of that with which it ends. -/
def Meets (post : σ → Prop) (failed : ε → Prop) : Except ε σ → Prop
  | .ok s => post s
  | .error e => failed e

namespace Meets

variable {post post' : σ → Prop} {failed failed' : ε → Prop} {next : τ → Prop} {r : Except ε σ}
  {s t : σ}

theorem mono (h : Meets post failed r) (hpost : ∀ s, post s → post' s)
    (hfailed : ∀ e, failed e → failed' e) : Meets post' failed' r := by
  cases r with
  | ok s => exact hpost s h
  | error e => exact hfailed e h

/-- One program after the other. -/
theorem bind {f : σ → Except ε τ} (h : Meets post failed r)
    (hf : ∀ s, post s → Meets next failed (f s)) : Meets next failed (r >>= f) := by
  cases r with
  | ok s => exact hf s h
  | error e => exact h

theorem of_ok (h : Meets post failed r) (hr : r = .ok s) : post s := by
  rw [hr] at h
  exact h

theorem of_error {e : ε} (h : Meets post failed r) (hr : r = .error e) : failed e := by
  rw [hr] at h
  exact h

/-- **The rule for a loop over a list.**  The invariant knows what has been done and what is
left. -/
theorem foldlM {f : σ → α → Except ε σ} {I : List α → List α → σ → Prop}
    (hstep : ∀ b a rest s, I b (a :: rest) s →
      Meets (I (b ++ [a]) rest) failed (f s a))
    {b l : List α} (h : I b l s) :
    Meets (I (b ++ l) []) failed (l.foldlM f s) := by
  induction l generalizing b s with
  | nil =>
      rw [List.append_nil]
      exact h
  | cons a l ih =>
      rw [List.foldlM_cons, ← List.singleton_append, ← List.append_assoc]
      exact (hstep b a l s h).bind fun t ht => ih ht

end Meets

end VlbiStreamer.Library
