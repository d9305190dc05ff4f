import Mathlib.Tactic.FinCases
import VlbiStreamer.ResourceTree.Threads

/-!
# What any interleaving guarantees

The hand-off protocol of one entity (`ResourceTree.Desk`), carried over to any
number of threads on a whole branch.

* `handsOff_of_reachable`: in a run of `get_free`, `get_specific`, `get_loaded`,
  `set_free` and `set_loaded` whose steps are `HandOffSafe`, no entity is parked
  in front of a waiter.  `handOff_lost` is a run of two threads in which one is:
  `set_free` makes its test between the other thread's search and its ticket.
* `wakes_of_reachable`: in a run of all six functions whose steps are
  `SignalSafe`, no sleeper misses the call of its ticket.  `waiter_stalls` is a
  run of three threads in which one does: `pthread_cond_signal` wakes the other
  sleeper, which goes back to sleep.
-/

namespace VlbiStreamer.ResourceTree

open Library BranchList Lists EntityListBranch

namespace Threads

/-! ## Small runs -/

section Runs

variable {τ ε : Type} [DecidableEq τ] {s : Threads τ ε} {b : EntityListBranch ε} {e : ℕ}
  {t u : τ} {r : Role}

/-- What another thread does keeps a thread free. -/
theorem free_become (h : s.Free u) (hne : u ≠ t) : (s.become b e t r).Free u := by
  intro en
  by_cases hen : en = e
  · subst hen
    simpa [become, assign, hne] using h en
  · simpa [become, assign, hen] using h en

/-- So does getting an entity and giving it back. -/
theorem free_become_self (h : s.Free t) (hr : r = .away ∨ r = .holding) :
    (s.become b e t r).Free t := by
  intro en
  by_cases hen : en = e
  · subst hen
    simpa [become, assign] using hr
  · simpa [become, assign, hen] using h en

/-- A branch with one buffer. -/
def oneBuffer : EntityListBranch Unit where
  root k := if k = freelist then some 4 else none
  heap _ := ⟨none, none, freelist, 0, 0, ()⟩
  live := {4}

/-- Threads that have not called anything yet. -/
def atRest (τ : Type) : Threads τ Unit where
  branch := oneBuffer
  role _ _ := .away
  took _ := []
  served _ := []

theorem atRest_isStart (τ : Type) : IsStart (atRest τ) where
  represents := by
    refine ⟨fun k => if k = freelist then [4] else [], ⟨⟨fun k => ?_, fun k => ?_, ?_⟩, ?_⟩⟩
    · cases k <;> simp [atRest, oneBuffer, Lists.children, Lists.fathers]
    · cases k <;> simp
    · intro k e he
      cases k <;> simp_all [atRest, oneBuffer]
    · intro e
      constructor
      · intro he
        exact ⟨freelist, by simpa [atRest, oneBuffer] using he⟩
      · rintro ⟨k, he⟩
        cases k <;> simp_all [atRest, oneBuffer]
  fresh _ _ := ⟨rfl, rfl, rfl, fun _ => rfl, rfl, rfl⟩
  away _ _ := rfl

theorem free_atRest {τ : Type} (t : τ) : (atRest τ).Free t := fun _ => .inl rfl

/-- The buffer after `get_free`. -/
def taken : EntityListBranch Unit := ((oneBuffer.getFree none).getD (.null, oneBuffer)).2

/-- The buffer after `set_free` found nobody waiting for it. -/
def parked : EntityListBranch Unit := ((taken.setFreeLocked id 4).getD (.passOn, taken)).2

/-- The state after thread `t` took the ticket `k` of the buffer and fell
asleep. -/
def asleep {τ : Type} [DecidableEq τ] (s : Threads τ Unit) (t : τ) (k : ℕ) :
    Threads τ Unit :=
  { s.become (s.branch.takeTicket 4) 4 t (.sleeping .getSpecific k) with
    took := Function.update s.took 4 (s.took 4 ++ [t]) }

theorem free_asleep {τ : Type} [DecidableEq τ] {s : Threads τ Unit} {t u : τ} (h : s.Free u)
    (hne : u ≠ t) (k : ℕ) : (s.asleep t k).Free u :=
  free_become (b := s.branch) (r := .sleeping .getSpecific k) h hne

end Runs

/-! ## No hand-off is lost -/

section HandOff

variable {τ ε : Type} [DecidableEq τ] [Fintype τ] {s : Threads τ ε}

/-- **No hand-off is lost** in any interleaving of the five functions whose
every step is `HandOffSafe`. -/
theorem handsOff_of_reachable
    (h : ((system τ ε).restrict OfFive).ReachableUnder HandOffSafe s) :
    WellFormed s.branch ∧ ∀ en ∈ s.branch.live, (s.desk en).HandsOff := by
  obtain ⟨hg, hruns⟩ : Good s ∧ ∀ en ∈ s.branch.live,
      (Desk.system τ).ReachableUnder Desk.FindsWaiters (s.desk en) :=
    desk_reachable (fun _ _ => Desk.FindsWaiters.hasRoom)
      (fun s a s' en hok hsim => hsim.imp id fun ⟨d, hd, hhand, _⟩ => ⟨d, hd, hhand hok⟩)
      h.of_restrict
  obtain ⟨L, hrep⟩ := hg.represents
  exact ⟨⟨L, wellFormed_of_represents hrep⟩,
    fun en hen => Desk.handsOff_of_findsWaiters (hruns en hen)⟩

/-- Thread `false` gets the buffer. -/
def run₁ : Threads Bool Unit := (atRest Bool).become taken 4 false .holding

/-- Thread `true` finds it taken. -/
def run₂ : Threads Bool Unit := run₁.become taken 4 true (.queueing .getSpecific)

/-- Thread `true` takes a ticket and goes to sleep. -/
def run₃ : Threads Bool Unit := run₂.asleep true 1

theorem run₂_unlocked : (run₁.desk 4).Unlocked := by
  intro u c h
  cases u <;> cases h

/-- A thread queues for the buffer in time. -/
theorem handsOff_of_reachable_queued :
    WellFormed run₃.branch ∧ ∀ en ∈ run₃.branch.live, (run₃.desk en).HandsOff := by
  refine handsOff_of_reachable (.step (.step (.step (.init (atRest_isStart Bool))
    (a := .getFree false none) (t := run₁) trivial ⟨trivial, ?_⟩)
    (a := .request true .getSpecific fun _ => true) (t := run₂) ?_ ⟨trivial, ?_⟩)
    (a := .takeTicket true 4) ?_ ⟨trivial, ?_⟩)
  · exact .getFree (free_atRest false) rfl
  · intro en
    show some (some (4, busylist)) ≠ some (some (en, loadedlist))
    simp
  · exact .requestQueue (free_become (free_atRest true) (by simp)) rfl rfl run₂_unlocked
  · show (run₂.desk 4).waiters.card + 1 < 2 ^ 15
    have hle := Finset.card_le_univ (run₂.desk 4).waiters
    simp at hle
    omega
  · exact .takeTicket (c := .getSpecific) rfl

/-- Thread `false` puts the buffer on the free list while thread `true` is
about to take its ticket. -/
def lost₃ : Threads Bool Unit := run₂.become parked 4 false .away

/-- Thread `true` waits for a free buffer. -/
def lost₄ : Threads Bool Unit := lost₃.asleep true 1

/-- A hand-off that is lost. -/
theorem handOff_lost :
    ¬ ∀ s : Threads Bool Unit, ((system Bool Unit).restrict OfFive).Reachable s →
      ∀ en ∈ s.branch.live, (s.desk en).HandsOff := by
  intro hall
  have hrun : ((system Bool Unit).restrict OfFive).Reachable lost₄ := by
    refine .step (.step (.step (.step (.init (atRest_isStart Bool))
      (a := .getFree false none) (t := run₁) ⟨trivial, ?_⟩)
      (a := .request true .getSpecific fun _ => true) (t := run₂) ⟨trivial, ?_⟩)
      (a := .setFree false id 4) (t := lost₃) ⟨trivial, ?_⟩)
      (a := .takeTicket true 4) ⟨trivial, ?_⟩
    · exact .getFree (free_atRest false) rfl
    · exact .requestQueue (free_become (free_atRest true) (by simp)) rfl rfl run₂_unlocked
    · exact .setFreePark (free_become (free_become_self (free_atRest false) (.inr rfl))
        (by simp)) rfl rfl
    · exact .takeTicket (c := .getSpecific) rfl
  have hlive : 4 ∈ lost₄.branch.live := by decide
  have hnot := (hall lost₄ hrun 4 hlive).notParked true 1 rfl
  exact absurd hnot (by decide)

end HandOff

/-! ## The right waiter is woken -/

section Wake

variable {τ ε : Type} [DecidableEq τ] [Fintype τ] {s : Threads τ ε}

/-- **The right waiter is woken** in any interleaving of the six functions
whose every step is `SignalSafe`. -/
theorem wakes_of_reachable (h : (system τ ε).ReachableUnder SignalSafe s) :
    ∀ en ∈ s.branch.live, (s.desk en).Wakes := by
  obtain ⟨-, hruns⟩ : Good s ∧ ∀ en ∈ s.branch.live,
      (Desk.system τ).ReachableUnder Desk.WakesNext (s.desk en) :=
    desk_reachable (fun _ _ => Desk.WakesNext.hasRoom)
      (fun s a s' en hok hsim => hsim.imp id fun ⟨d, hd, _, hsig⟩ => ⟨d, hd, hsig hok⟩) h
  exact fun en hen => Desk.wakes_of_wakesNext (hruns en hen)

/-- Thread `false` is about to call the ticket of thread `true`. -/
def run₄ : Threads Bool Unit :=
  run₃.become (EntityListBranch.callback id 4 run₃.branch) 4 false .calling

/-- Thread `true` is woken. -/
def run₅ : Threads Bool Unit :=
  run₄.assign (run₄.branch.callNext 4) 4 (Function.update
    (Function.update (fun u => run₄.role u 4) true (.woken .getSpecific 1)) false .away)

theorem run₄_unlocked : (run₄.desk 4).Unlocked := by
  intro u c h
  cases u <;> cases h

/-- The only sleeper is woken. -/
theorem wakes_of_reachable_handedOver :
    4 ∈ run₅.branch.live ∧ ∀ en ∈ run₅.branch.live, (run₅.desk en).Wakes := by
  refine ⟨by decide, wakes_of_reachable
    (.step (.step (.step (.step (.step (.init (atRest_isStart Bool))
    (a := .getFree false none) (t := run₁) trivial ?_)
    (a := .request true .getSpecific fun _ => true) (t := run₂) trivial ?_)
    (a := .takeTicket true 4) (t := run₃) ?_ ?_)
    (a := .setFree false id 4) (t := run₄) trivial ?_)
    (a := .callNext false 4 (some true)) ?_ ?_)⟩
  · exact .getFree (free_atRest false) rfl
  · exact .requestQueue (free_become (free_atRest true) (by simp)) rfl rfl run₂_unlocked
  · show (run₂.desk 4).waiters.card + 1 < 2 ^ 15
    have hle := Finset.card_le_univ (run₂.desk 4).waiters
    simp at hle
    omega
  · exact .takeTicket (c := .getSpecific) rfl
  · exact .setFreePass (free_asleep (free_become (free_become_self (free_atRest false)
      (.inr rfl)) (by simp)) (by simp) 1) rfl rfl
  · exact ⟨true, .getSpecific, rfl, rfl⟩
  · exact .callNext rfl run₄_unlocked (.wake rfl)

/-- Thread `0` has the buffer. -/
def stall₁ : Threads (Fin 3) Unit := (atRest (Fin 3)).become taken 4 0 .holding

/-- Threads `1` and `2` queue for it, in this order. -/
def stall₂ : Threads (Fin 3) Unit := stall₁.become taken 4 1 (.queueing .getSpecific)

def stall₃ : Threads (Fin 3) Unit := stall₂.asleep 1 1

def stall₄ : Threads (Fin 3) Unit := stall₃.become stall₃.branch 4 2 (.queueing .getSpecific)

def stall₅ : Threads (Fin 3) Unit := stall₄.asleep 2 2

/-- Thread `0` releases the buffer. -/
def stall₆ : Threads (Fin 3) Unit :=
  stall₅.become (EntityListBranch.callback id 4 stall₅.branch) 4 0 .calling

/-- It calls the ticket of thread `1` and its signal wakes thread `2`. -/
def stall₇ : Threads (Fin 3) Unit :=
  stall₆.assign (stall₆.branch.callNext 4) 4 (Function.update
    (Function.update (fun u => stall₆.role u 4) 2 (.woken .getSpecific 2)) 0 .away)

/-- Thread `2` goes back to sleep. -/
def stall₈ : Threads (Fin 3) Unit := stall₇.become stall₇.branch 4 2 (.sleeping .getSpecific 2)

/-- Everybody sleeps, and the ticket of thread `1` was called. -/
theorem waiter_stalls :
    ¬ ∀ s : Threads (Fin 3) Unit, (system (Fin 3) Unit).Reachable s →
      ∀ en ∈ s.branch.live, (s.desk en).Wakes := by
  intro hall
  have hrun : (system (Fin 3) Unit).Reachable stall₈ := by
    refine .step (.step (.step (.step (.step (.step (.step (.step
      (.init (atRest_isStart (Fin 3)))
      (a := .getFree 0 none) (t := stall₁) ?_)
      (a := .request 1 .getSpecific fun _ => true) (t := stall₂) ?_)
      (a := .takeTicket 1 4) (t := stall₃) ?_)
      (a := .request 2 .getSpecific fun _ => true) (t := stall₄) ?_)
      (a := .takeTicket 2 4) (t := stall₅) ?_)
      (a := .setFree 0 id 4) (t := stall₆) ?_)
      (a := .callNext 0 4 (some 2)) (t := stall₇) ?_)
      (a := .recheck 2 4) ?_
    · exact .getFree (free_atRest 0) rfl
    · exact .requestQueue (free_become (free_atRest 1) (by simp)) rfl rfl
        (by intro u c h; fin_cases u <;> cases h)
    · exact .takeTicket (c := .getSpecific) rfl
    · exact .requestQueue (free_asleep (free_become (free_become (free_atRest 2) (by simp))
        (by simp)) (by simp) 1) rfl rfl
        (by intro u c h; fin_cases u <;> cases h)
    · exact .takeTicket (c := .getSpecific) rfl
    · exact .setFreePass (free_asleep (free_become (free_asleep (free_become
        (free_become_self (free_atRest 0) (.inr rfl)) (by simp)) (by simp) 1) (by simp))
        (by simp) 2) rfl rfl
    · exact .callNext rfl
        (by intro u c h; fin_cases u <;> cases h)
        (.wake rfl)
    · exact .recheck (c := .getSpecific) (k := 2) rfl
        (by intro u c h; fin_cases u <;> cases h)
  have hlive : 4 ∈ stall₈.branch.live := by decide
  rcases (hall stall₈ hrun 4 hlive).noStall 1 .getSpecific rfl with ⟨v, hv⟩ | ⟨v, c, k, hv⟩
  · fin_cases v <;> exact absurd hv (by decide)
  · fin_cases v <;> cases hv

end Wake

end Threads

end VlbiStreamer.ResourceTree
