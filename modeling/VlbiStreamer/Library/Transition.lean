import Mathlib.Logic.Relation

/-!
# Guarded transition systems

A program that takes one atomic step after another, possibly on behalf of
several parties, is a `System`: its initial states and a labelled step
relation.  `Reachable` collects the states of all finite runs.

`ReachableUnder ok` is the same collection cut down to the runs whose every
step meets `ok` at the state it is taken in.  It is what a conditional safety
result is about: the condition may look at the state *before* a step and at
the action, never at what the step produces.
-/

namespace VlbiStreamer.Library

universe u v

/-- Initial states and labelled steps. -/
structure System (State : Type u) (Action : Type v) where
  /-- The states a run may start in. -/
  init : State → Prop
  /-- `step s a t`: action `a` leads from `s` to `t`. -/
  step : State → Action → State → Prop

namespace System

variable {State : Type u} {Action : Type v} (M : System State Action)

/-- States of the runs whose every step meets `ok`. -/
inductive ReachableUnder (ok : State → Action → Prop) : State → Prop where
  | init {s : State} : M.init s → ReachableUnder ok s
  | step {s t : State} {a : Action} :
      ReachableUnder ok s → ok s a → M.step s a t → ReachableUnder ok t

/-- States of all runs. -/
def Reachable (s : State) : Prop := M.ReachableUnder (fun _ _ => True) s

variable {M} {ok ok' : State → Action → Prop} {s t : State} {a : Action}

theorem Reachable.init (h : M.init s) : M.Reachable s :=
  ReachableUnder.init h

theorem Reachable.step (h : M.Reachable s) (hstep : M.step s a t) :
    M.Reachable t :=
  ReachableUnder.step h trivial hstep

/-- Weakening the condition only adds runs. -/
theorem ReachableUnder.mono (hok : ∀ s a, ok s a → ok' s a)
    (h : M.ReachableUnder ok s) : M.ReachableUnder ok' s := by
  induction h with
  | init hinit => exact .init hinit
  | step _ hcond hstep ih => exact .step ih (hok _ _ hcond) hstep

/-- A conditional run is a run. -/
theorem ReachableUnder.reachable (h : M.ReachableUnder ok s) : M.Reachable s :=
  h.mono fun _ _ _ => trivial

/-- **The invariant rule.**  What holds initially and survives every step that
meets the condition holds along every conditional run. -/
theorem ReachableUnder.invariant {Inv : State → Prop}
    (hinit : ∀ s, M.init s → Inv s)
    (hstep : ∀ s a t, Inv s → ok s a → M.step s a t → Inv t)
    (h : M.ReachableUnder ok s) : Inv s := by
  induction h with
  | init hi => exact hinit _ hi
  | step _ hcond hs ih => exact hstep _ _ _ ih hcond hs

/-- The invariant rule for unconditional runs. -/
theorem Reachable.invariant {Inv : State → Prop}
    (hinit : ∀ s, M.init s → Inv s)
    (hstep : ∀ s a t, Inv s → M.step s a t → Inv t)
    (h : M.Reachable s) : Inv s :=
  ReachableUnder.invariant hinit (fun s a t hinv _ hs => hstep s a t hinv hs) h

/-- A program whose next state is a partial function of the state and the action. -/
def ofNext (init : State → Prop) (next : State → Action → Option State) :
    System State Action where
  init := init
  step s a t := next s a = some t

/-- Take one action after the other. -/
def runFrom (next : State → Action → Option State) : State → List Action → Option State
  | s, [] => some s
  | s, a :: as => (next s a).bind (runFrom next · as)

theorem runFrom_append (next : State → Action → Option State) (s : State)
    (as bs : List Action) :
    runFrom next s (as ++ bs) = (runFrom next s as).bind (runFrom next · bs) := by
  induction as generalizing s with
  | nil => rfl
  | cons a as ih =>
      show (next s a).bind _ = ((next s a).bind _).bind _
      cases next s a with
      | none => rfl
      | some t => exact ih t

/-- The invariant rule for executed runs, whose actions meet a condition. -/
theorem runFrom_invariant {next : State → Action → Option State} {Inv : State → Prop}
    {p : Action → Prop} (hstep : ∀ s a t, Inv s → p a → next s a = some t → Inv t)
    {as : List Action} (h : Inv s) (has : ∀ a ∈ as, p a) (hrun : runFrom next s as = some t) :
    Inv t := by
  induction as generalizing s with
  | nil =>
      obtain rfl := Option.some.inj hrun
      exact h
  | cons a as ih =>
      obtain ⟨s', hs', hrest⟩ := Option.bind_eq_some_iff.mp hrun
      exact ih (hstep _ _ _ h (has a List.mem_cons_self) hs')
        (fun b hb => has b (List.mem_cons_of_mem _ hb)) hrest

/-- Every action of an executed run meets a condition. -/
def OkFrom (ok : State → Action → Prop) (next : State → Action → Option State) :
    State → List Action → Prop
  | _, [] => True
  | s, a :: as => ok s a ∧ ∀ t, next s a = some t → OkFrom ok next t as

theorem OkFrom.cons {next : State → Action → Option State} {as : List Action} (hok : ok s a)
    (hnext : next s a = some t) (h : OkFrom ok next t as) : OkFrom ok next s (a :: as) := by
  refine ⟨hok, fun t' ht' => ?_⟩
  obtain rfl := Option.some.inj (hnext.symm.trans ht')
  exact h

/-- The condition on an executed run can be checked along with it. -/
instance OkFrom.decidable [∀ s a, Decidable (ok s a)] (next : State → Action → Option State) :
    (s : State) → (as : List Action) → Decidable (OkFrom ok next s as)
  | _, [] => isTrue trivial
  | s, a :: as =>
      match hnext : next s a with
      | none => decidable_of_iff (ok s a)
          ⟨fun hok => ⟨hok, fun t ht => by rw [hnext] at ht; cases ht⟩, And.left⟩
      | some t =>
          have := OkFrom.decidable next t as
          decidable_of_iff (ok s a ∧ OkFrom ok next t as)
            ⟨fun hok => .cons hok.1 hnext hok.2, fun hok => ⟨hok.1, hok.2 t hnext⟩⟩

theorem OkFrom.of_forall {p : Action → Prop} {next : State → Action → Option State}
    {as : List Action} (has : ∀ a ∈ as, p a) : OkFrom (fun _ => p) next s as := by
  induction as generalizing s with
  | nil => trivial
  | cons a as ih =>
      exact ⟨has a List.mem_cons_self, fun _ _ => ih fun b hb => has b (List.mem_cons_of_mem _ hb)⟩

theorem ReachableUnder.runFrom {init : State → Prop} {next : State → Action → Option State}
    {as : List Action} (h : (ofNext init next).ReachableUnder ok s)
    (hok : OkFrom ok next s as) (hrun : System.runFrom next s as = some t) :
    (ofNext init next).ReachableUnder ok t := by
  induction as generalizing s with
  | nil =>
      obtain rfl := Option.some.inj hrun
      exact h
  | cons a as ih =>
      obtain ⟨s', hstep, hrest⟩ := Option.bind_eq_some_iff.mp hrun
      exact ih (h.step hok.1 hstep) (hok.2 s' hstep) hrest

/-- A run that is executed is a run. -/
theorem Reachable.runFrom {init : State → Prop} {next : State → Action → Option State}
    {as : List Action} (h : (ofNext init next).Reachable s)
    (hrun : System.runFrom next s as = some t) : (ofNext init next).Reachable t := by
  refine ReachableUnder.runFrom h ?_ hrun
  clear h hrun
  induction as generalizing s with
  | nil => trivial
  | cons a as ih => exact ⟨trivial, fun _ _ => ih⟩

/-- Every state of an executed run is good. -/
def AllFrom (good : State → Prop) (next : State → Action → Option State) :
    State → List Action → Prop
  | s, [] => good s
  | s, a :: as => good s ∧ ∀ t, next s a = some t → AllFrom good next t as

/-- **The exact condition rule.**  Where a step from a good state is taken, and ends in a
good state exactly if it meets the condition, a run has only good states exactly if all
its steps meet the condition. -/
theorem allFrom_iff_okFrom {good : State → Prop} {next : State → Action → Option State}
    {as : List Action}
    (hstep : ∀ s a, good s → ∃ t, next s a = some t ∧ (good t ↔ ok s a)) (hs : good s) :
    AllFrom good next s as ↔ OkFrom ok next s as := by
  induction as generalizing s with
  | nil => exact ⟨fun _ => trivial, fun _ => hs⟩
  | cons a as ih =>
      obtain ⟨t, hnext, hiff⟩ := hstep s a hs
      constructor
      · rintro ⟨-, hall⟩
        -- the first state of the rest is good, and that is where the condition comes from
        have hrest := hall t hnext
        have ht : good t := by
          cases as with
          | nil => exact hrest
          | cons b bs => exact hrest.1
        refine ⟨hiff.mp ht, fun t' ht' => ?_⟩
        obtain rfl := Option.some.inj (hnext.symm.trans ht')
        exact (ih ht).mp hrest
      · rintro ⟨hok, hrest⟩
        refine ⟨hs, fun t' ht' => ?_⟩
        obtain rfl := Option.some.inj (hnext.symm.trans ht')
        exact (ih (hiff.mpr hok)).mpr (hrest t hnext)

/-- The runs that only take some of the actions. -/
def restrict (M : System State Action) (p : Action → Prop) : System State Action where
  init := M.init
  step s a t := p a ∧ M.step s a t

/-- Leaving actions out is a condition on the steps. -/
theorem ReachableUnder.of_restrict {p : Action → Prop}
    (h : (M.restrict p).ReachableUnder ok s) :
    M.ReachableUnder (fun s a => p a ∧ ok s a) s := by
  induction h with
  | init hinit => exact .init hinit
  | step _ hcond hstep ih => exact .step ih ⟨hstep.1, hcond⟩ hstep.2

end System

end VlbiStreamer.Library
