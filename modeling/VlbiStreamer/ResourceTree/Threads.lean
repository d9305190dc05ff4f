import VlbiStreamer.ResourceTree.Desk
import VlbiStreamer.ResourceTree.Operations

/-!
# Threads on a branch

Any number of threads call `get_free`, `get_specific`, `get_loaded`, `set_free`,
`set_loaded` and `block_until_free` on one branch.  A state is the branch and
what every thread is doing with every entity; a step is one region of the code
between taking and giving up a lock, of one thread.

`Threads.desk s en` is what the hand-off protocol sees of the entity `en`, and
`Step.plays` says that every step of the threads is a step of the protocol on
each entity, or nothing.  What the protocol guarantees for one entity
therefore holds of all of them: `handsOff_of_reachable` (no hand-off is lost)
and `wakes_of_reachable` (the right waiter is woken), each under the condition
on the steps that the code needs and does not ensure by itself.

A thread that asks for an entity it already has would wait for itself; no
caller does this and it is not a step here.
-/

set_option linter.unusedSectionVars false

namespace VlbiStreamer.ResourceTree

open Library BranchList Lists EntityListBranch

variable {τ ε : Type} [DecidableEq τ]

/-- A branch and the threads that use it. -/
structure Threads (τ ε : Type) where
  branch : EntityListBranch ε
  role : τ → ℕ → Role
  /-- The threads that took a ticket of an entity. -/
  took : ℕ → List τ
  /-- The threads whose ticket was called and that went on. -/
  served : ℕ → List τ

/-- One region of the code, run by thread `t`. -/
inductive Action (τ ε : Type) where
  | getFree (t : τ) (check : Option (ε → Bool))
  | request (t : τ) (c : Caller) (identify : ε → Bool)
  | takeTicket (t : τ) (en : ℕ)
  | recheck (t : τ) (en : ℕ)
  | setFree (t : τ) (release : ε → ε) (en : ℕ)
  | callNext (t : τ) (en : ℕ) (w : Option τ)
  | setLoaded (t : τ) (en : ℕ) (w : Option τ)
  | give (t u : τ) (en : ℕ)
  | callback (t : τ) (f : ε → ε) (en : ℕ)
  | evict (t : τ) (release : ε → ε) (en : ℕ)
  | releaseLoaded (t : τ) (identify : ε → Bool) (release : ε → ε)

namespace Threads

/-- The function a thread looks an entity up with. -/
def request : Caller → (ε → Bool) → EntityListBranch ε →
    Option (Request × EntityListBranch ε)
  | .getSpecific, identify, b => b.getSpecific identify
  | .getLoaded, identify, b => b.getLoaded identify
  | .blockUntilFree, identify, b => b.blockOnBusy identify

/-- What the hand-off protocol sees of an entity. -/
def desk (s : Threads τ ε) (en : ℕ) : Desk τ where
  list := (s.branch.heap en).currentBranch
  bottom := (s.branch.heap en).waitersBottom
  head := (s.branch.heap en).waitersHead
  role u := s.role u en
  took := s.took en
  served := s.served en

/-- The thread is in none of the functions. -/
def Free (s : Threads τ ε) (t : τ) : Prop :=
  ∀ en, s.role t en = .away ∨ s.role t en = .holding

/-- Change the branch and what the threads are doing with `en`. -/
def assign (s : Threads τ ε) (b : EntityListBranch ε) (en : ℕ) (roles : τ → Role) :
    Threads τ ε :=
  { s with branch := b, role := fun u => Function.update (s.role u) en (roles u) }

/-- Change what `t` is doing with `en`. -/
def become (s : Threads τ ε) (b : EntityListBranch ε) (en : ℕ) (t : τ) (r : Role) :
    Threads τ ε :=
  s.assign b en (Function.update (fun u => s.role u en) t r)

/-- The head of the loop `while (waiters_bottom != myqueue)`. -/
def check (s : Threads τ ε) (en : ℕ) (t : τ) (c : Caller) (k : ℕ) : Threads τ ε :=
  if (s.branch.heap en).waitersBottom = k then
    { s.become s.branch en t (.granted c) with
      served := Function.update s.served en (s.served en ++ [t]) }
  else s.become s.branch en t (.sleeping c k)

/-- One region of the code. -/
inductive Step (s : Threads τ ε) : Action τ ε → Threads τ ε → Prop where
  /-- `get_free` returns `NULL` or sleeps on `busysignal`. -/
  | getFreeFails {t : τ} {check : Option (ε → Bool)} {r : GetFree} {b : EntityListBranch ε} :
      s.Free t → s.branch.getFree check = some (r, b) → (∀ en, r ≠ .got en) →
      Step s (.getFree t check) { s with branch := b }
  /-- `get_free` takes an entity. -/
  | getFree {t : τ} {check : Option (ε → Bool)} {en : ℕ} {b : EntityListBranch ε} :
      s.Free t → s.branch.getFree check = some (.got en, b) →
      Step s (.getFree t check) (s.become b en t .holding)
  /-- No such entity, or the end of the first loop of `block_until_free`. -/
  | requestNull {t : τ} {c : Caller} {identify : ε → Bool} {b : EntityListBranch ε} :
      s.Free t → request c identify s.branch = some (.null, b) →
      Step s (.request t c identify) { s with branch := b }
  /-- The entity lies ready. -/
  | requestGot {t : τ} {c : Caller} {identify : ε → Bool} {en : ℕ}
      {b : EntityListBranch ε} :
      s.Free t → request c identify s.branch = some (.got en, b) →
      Step s (.request t c identify) (s.become b en t .holding)
  /-- The entity is taken: lock its wait lock and unlock the branch. -/
  | requestQueue {t : τ} {c : Caller} {identify : ε → Bool} {en : ℕ}
      {b : EntityListBranch ε} :
      s.Free t → request c identify s.branch = some (.queue en, b) →
      s.role t en = .away → (s.desk en).Unlocked →
      Step s (.request t c identify) (s.become b en t (.queueing c))
  /-- Take a ticket, test it, and sleep or go on. -/
  | takeTicket {t : τ} {en : ℕ} {c : Caller} : s.role t en = .queueing c →
      Step s (.takeTicket t en)
        (({ s with branch := s.branch.takeTicket en
                   took := Function.update s.took en (s.took en ++ [t]) }).check en t c
          (addSafelyInt16t (s.branch.heap en).waitersHead))
  /-- A woken thread tests its ticket again. -/
  | recheck {t : τ} {en : ℕ} {c : Caller} {k : ℕ} : s.role t en = .woken c k →
      (s.desk en).Unlocked → Step s (.recheck t en) (s.check en t c k)
  /-- The first region of `set_free` finds the counters different. -/
  | setFreePass {t : τ} {release : ε → ε} {en : ℕ} {b : EntityListBranch ε} :
      s.Free t → s.role t en = .holding →
      s.branch.setFreeLocked release en = some (.passOn, b) →
      Step s (.setFree t release en) (s.become b en t .calling)
  /-- The first region of `set_free` finds the counters equal. -/
  | setFreePark {t : τ} {release : ε → ε} {en : ℕ} {b : EntityListBranch ε} :
      s.Free t → s.role t en = .holding →
      s.branch.setFreeLocked release en = some (.parked, b) →
      Step s (.setFree t release en) (s.become b en t .away)
  /-- The second region of `set_free`. -/
  | callNext {t : τ} {en : ℕ} {w : Option τ} {roles : τ → Role} :
      s.role t en = .calling → (s.desk en).Unlocked →
      Desk.Signals (fun u => s.role u en) w roles →
      Step s (.callNext t en w)
        (s.assign (s.branch.callNext en) en (Function.update roles t .away))
  /-- `set_loaded` finds the counters different. -/
  | setLoadedPass {t : τ} {en : ℕ} {w : Option τ} {roles : τ → Role}
      {b : EntityListBranch ε} :
      s.Free t → s.role t en = .holding → (s.desk en).Unlocked →
      s.branch.setLoaded en = some (.passOn, b) →
      Desk.Signals (fun u => s.role u en) w roles →
      Step s (.setLoaded t en w) (s.assign b en (Function.update roles t .away))
  /-- `set_loaded` finds the counters equal. -/
  | setLoadedPark {t : τ} {en : ℕ} {b : EntityListBranch ε} :
      s.Free t → s.role t en = .holding → (s.desk en).Unlocked →
      s.branch.setLoaded en = some (.parked, b) →
      Step s (.setLoaded t en none) (s.become b en t .away)
  /-- The entity goes on to another thread, as a buffer does from the receiver
  to its own writing thread. -/
  | give {t u : τ} {en : ℕ} : s.role t en = .holding → s.role u en = .away →
      Step s (.give t u en)
        (s.assign s.branch en (Function.update
          (Function.update (fun v => s.role v en) t .away) u .holding))
  /-- The holder changes what the entity holds. -/
  | callback {t : τ} {f : ε → ε} {en : ℕ} : s.role t en = .holding →
      Step s (.callback t f en) { s with branch := callback f en s.branch }
  /-- `block_until_free`, with its ticket called. -/
  | evict {t : τ} {release : ε → ε} {en : ℕ} {b : EntityListBranch ε} :
      s.role t en = .evicting → s.branch.blockRelease release en = some b →
      Step s (.evict t release en) (s.become b en t .away)
  /-- The second loop of `block_until_free`. -/
  | releaseLoaded {t : τ} {identify : ε → Bool} {release : ε → ε}
      {b : EntityListBranch ε} :
      s.Free t →
      s.branch.blockReleaseLoaded identify release (s.branch.live.card + 1) = some b →
      Step s (.releaseLoaded t identify release) { s with branch := b }

/-- All entities are free and no thread has called anything. -/
structure IsStart (s : Threads τ ε) : Prop where
  represents : ∃ L, Represents s.branch L
  fresh : ∀ en ∈ s.branch.live, (s.desk en).IsFresh
  away : ∀ t en, s.role t en = .away

/-- The threads of the program. -/
def system (τ ε : Type) [DecidableEq τ] : System (Threads τ ε) (Action τ ε) where
  init := IsStart
  step := Step

/-! ## The conditions on a step -/

section Conditions

variable [Fintype τ]

/-- The steps of `get_free`, `get_specific`, `get_loaded`, `set_free` and
`set_loaded`. -/
def OfFive : Action τ ε → Prop
  | .request _ .blockUntilFree _ => False
  | .evict _ _ _ => False
  | .releaseLoaded _ _ _ => False
  | _ => True

/-- The steps that cannot lose a hand-off.
* A thread takes a ticket while fewer than 2^15 - 1 others have one.
* `get_specific` does not find its entity on the loaded list.
* When the test of `set_free` finds the counters equal, no thread is between
  finding the entity and taking its ticket. -/
def HandOffSafe (s : Threads τ ε) : Action τ ε → Prop
  | .takeTicket _ en => (s.desk en).waiters.card + 1 < 2 ^ 15
  | .request _ .getSpecific identify =>
      ∀ en, s.branch.getFromAll identify ≠ some (some (en, loadedlist))
  | .setFree _ _ en =>
      (s.branch.heap en).waitersBottom = (s.branch.heap en).waitersHead →
        ∀ u c, s.role u en ≠ .queueing c
  | _ => True

/-- The steps that cannot wake the wrong waiter.
* A thread takes a ticket while fewer than 2^15 - 1 others have one.
* The signal of a release wakes the sleeper whose ticket the release calls. -/
def SignalSafe (s : Threads τ ε) : Action τ ε → Prop
  | .takeTicket _ en => (s.desk en).waiters.card + 1 < 2 ^ 15
  | .callNext _ en w => ∃ u c, w = some u ∧
      s.role u en = .sleeping c (addSafelyInt16t (s.branch.heap en).waitersBottom)
  | .setLoaded _ en w =>
      (s.branch.heap en).waitersHead ≠ (s.branch.heap en).waitersBottom →
        ∃ u c, w = some u ∧
          s.role u en = .sleeping c (addSafelyInt16t (s.branch.heap en).waitersBottom)
  | _ => True

end Conditions

/-! ## Every step is a step of the protocol -/

variable {s s' : Threads τ ε} {b : EntityListBranch ε} {e : ℕ} {t : τ}
  {roles : τ → Role}

/-- The branch is well formed and only its entities are in use. -/
structure Good (s : Threads τ ε) : Prop where
  represents : ∃ L, Represents s.branch L
  known : ∀ t en, s.role t en ≠ .away → en ∈ s.branch.live

/-- A step that only concerns the entity `e`. -/
structure Touches (s s' : Threads τ ε) (e : ℕ) : Prop where
  good : Good s'
  live : s'.branch.live = s.branch.live
  other : ∀ x, x ≠ e → s'.desk x = s.desk x

theorem desk_assign_self (s : Threads τ ε) (b : EntityListBranch ε) (e : ℕ)
    (roles : τ → Role) :
    (s.assign b e roles).desk e =
      { s.desk e with list := (b.heap e).currentBranch, bottom := (b.heap e).waitersBottom
                      head := (b.heap e).waitersHead, role := roles } := by
  simp [desk, assign]

/-- Assigning roles for `e` touches `e` only. -/
theorem touches_assign (hg : Good s) (he : e ∈ s.branch.live)
    (hlive : b.live = s.branch.live) (hrep : ∃ L, Represents b L)
    (hother : ∀ x, x ≠ e → (b.heap x).currentBranch = (s.branch.heap x).currentBranch ∧
      (b.heap x).waitersHead = (s.branch.heap x).waitersHead ∧
      (b.heap x).waitersBottom = (s.branch.heap x).waitersBottom) :
    Touches s (s.assign b e roles) e where
  good := by
    refine ⟨hrep, fun t en hrole => ?_⟩
    show en ∈ b.live
    rw [hlive]
    by_cases hen : en = e
    · subst hen; exact he
    · exact hg.known t en (by simpa [assign, Function.update_of_ne hen] using hrole)
  live := hlive
  other x hx := by
    obtain ⟨h₁, h₂, h₃⟩ := hother x hx
    simp [desk, assign, Function.update_of_ne hx, h₁, h₂, h₃]

/-- Moving `e` touches `e` only. -/
theorem touches_of_moved {k : BranchList} (hg : Good s) (he : e ∈ s.branch.live)
    (hmoved : Moved s.branch b k e) : Touches s (s.assign b e roles) e :=
  touches_assign hg he hmoved.live hmoved.represents fun x hx =>
    ⟨by rw [hmoved.branch x, if_neg hx], hmoved.head x, hmoved.bottom x⟩

/-- What a moved entity looks like. -/
theorem desk_of_moved {k : BranchList} (hmoved : Moved s.branch b k e) :
    (s.assign b e roles).desk e = { s.desk e with list := k, role := roles } := by
  rw [desk_assign_self, hmoved.branch e, hmoved.head e, hmoved.bottom e]
  simp [desk]

/-- Calling the next ticket of `e` touches `e` only. -/
theorem touches_callNext (hg : Good s) (he : e ∈ s.branch.live) :
    Touches s (s.assign (s.branch.callNext e) e roles) e := by
  obtain ⟨L, hrep⟩ := hg.represents
  refine touches_assign hg he rfl ⟨L, callNext_represents hrep e⟩ fun x hx => ?_
  simp [callNext, Lists.modify, Function.update_of_ne hx]

/-- What an entity whose next ticket was called looks like. -/
theorem desk_callNext : (s.assign (s.branch.callNext e) e roles).desk e =
    { s.desk e with bottom := addSafelyInt16t (s.desk e).bottom, role := roles } := by
  rw [desk_assign_self]
  simp [callNext, Lists.modify, desk]

/-- What an action can be to the protocol on the entity `x`. -/
def Means (s : Threads τ ε) (x : ℕ) : Action τ ε → DeskAction τ → Prop
  | .getFree t check, d => d = .acquire t ∧ ∃ b, s.branch.getFree check = some (.got x, b)
  | .request t c identify, d =>
      (d = .acquire t ∧ ∃ b, request c identify s.branch = some (.got x, b)) ∨
      (d = .enqueue t c ∧ ∃ b, request c identify s.branch = some (.queue x, b))
  | .takeTicket t en, d => x = en ∧ d = .take t
  | .recheck t en, d => x = en ∧ d = .recheck t
  | .setFree t _ en, d => x = en ∧ (d = .parkFree t ∨ d = .pass t)
  | .callNext t en w, d => x = en ∧ d = .call t w
  | .setLoaded t en w, d => x = en ∧ (d = .parkLoaded t ∨ d = .passLoaded t w)
  | .give t u en, d => x = en ∧ d = .give t u
  | .callback _ _ _, _ => False
  | .evict t _ en, d => x = en ∧ d = .evict t
  | .releaseLoaded _ identify _, d => d = .drain ∧ identify (s.branch.heap x).entity

/-- An action that leaves the entity `x` to whom it belongs. -/
def Spares (s : Threads τ ε) (x : ℕ) : Action τ ε → Prop
  | .setFree _ _ en => x ≠ en
  | .evict _ _ en => x ≠ en
  | .releaseLoaded _ identify _ =>
      ¬ (x ∈ s.branch.live ∧ (s.branch.heap x).currentBranch = loadedlist ∧
        identify (s.branch.heap x).entity)
  | _ => True

/-- What a step is to the protocol on the entity `x`. -/
def Plays (s : Threads τ ε) (a : Action τ ε) (s' : Threads τ ε) (x : ℕ) : Prop :=
  (s'.desk x = s.desk x ∧ s.Spares x a) ∨
    ∃ d, s.Means x a d ∧ Desk.Step (s.desk x) d (s'.desk x)

/-- What a step on the entity `en` is to the protocol. -/
def Simulates [Fintype τ] (s : Threads τ ε) (a : Action τ ε) (s' : Threads τ ε) (en : ℕ) :
    Prop :=
  s'.desk en = s.desk en ∨
    ∃ d, Desk.Step (s.desk en) d (s'.desk en) ∧
      (OfFive a ∧ s.HandOffSafe a → (s.desk en).FindsWaiters d) ∧
      (s.SignalSafe a → (s.desk en).WakesNext d)

/-- A step that concerns one entity plays the protocol on this entity only. -/
theorem Touches.plays {a : Action τ ε} (h : Touches s s' e)
    (hspares : ∀ x, x ≠ e → s.Spares x a) {d : DeskAction τ} (hmeans : s.Means e a d)
    (hstep : Desk.Step (s.desk e) d (s'.desk e)) :
    Good s' ∧ s'.branch.live = s.branch.live ∧ ∀ x, Plays s a s' x := by
  refine ⟨h.good, h.live, fun x => ?_⟩
  by_cases hx : x = e
  · subst hx
    exact .inr ⟨d, hmeans, hstep⟩
  · exact .inl ⟨h.other x hx, hspares x hx⟩

/-- A function of the branch has one answer and leaves one branch. -/
theorem result_inj {α β : Type} {result : Option (α × β)} {x x' : α} {y y' : β}
    (h : result = some (x, y)) (h' : result = some (x', y')) : x = x' ∧ y = y' :=
  Prod.mk.inj (Option.some.inj (h.symm.trans h'))

/-- What looking an entity up comes to. -/
theorem request_cases {L : BranchList → List ℕ} (h : Represents b L) (c : Caller)
    (identify : ε → Bool) :
    (∃ r, request c identify b = some (r, b) ∧ (r = .null ∨ r = .assertFailed)) ∨
    (∃ en k, request c identify b = some (.queue en, b) ∧ en ∈ L k ∧
      (k = busylist ∨ (c = .getSpecific ∧ k = loadedlist ∧
        b.getFromAll identify = some (some (en, loadedlist))))) ∨
    (∃ en k b', request c identify b = some (.got en, b') ∧ en ∈ L k ∧ k ≠ busylist ∧
      b.mutexFreeChangeBranch busylist en = some b') := by
  cases c with
  | getSpecific =>
      rcases getSpecific_cases h identify with hr | ⟨en, k, hr, hen, hk, hfrom⟩ |
        ⟨en, b', hr, hen, hmove⟩
      · exact .inl ⟨_, hr, .inl rfl⟩
      · refine .inr (.inl ⟨en, k, hr, hen, ?_⟩)
        cases k with
        | freelist => exact absurd rfl hk
        | busylist => exact .inl rfl
        | loadedlist => exact .inr ⟨rfl, rfl, hfrom⟩
      · exact .inr (.inr ⟨en, freelist, b', hr, hen, by simp, hmove⟩)
  | getLoaded =>
      rcases getLoaded_cases h identify with ⟨r, hr, hnone⟩ | ⟨en, hr, hen⟩ |
        ⟨en, b', hr, hen, hmove⟩
      · exact .inl ⟨r, hr, hnone⟩
      · exact .inr (.inl ⟨en, busylist, hr, hen, .inl rfl⟩)
      · exact .inr (.inr ⟨en, loadedlist, b', hr, hen, by simp, hmove⟩)
  | blockUntilFree =>
      rcases blockOnBusy_cases h identify with hr | ⟨en, hr, hen⟩
      · exact .inl ⟨_, hr, .inl rfl⟩
      · exact .inr (.inl ⟨en, busylist, hr, hen, .inl rfl⟩)

/-- Taking an entity that lies ready is `Desk.Step.acquire`. -/
theorem plays_acquire {L : BranchList → List ℕ} {k : BranchList} {a : Action τ ε}
    (hg : Good s) (hrep : Represents s.branch L)
    (hserves : ∃ called q, (s.desk e).Serves called q) (hfree : s.Free t)
    (he : e ∈ L k) (hk : k ≠ busylist)
    (hmove : s.branch.mutexFreeChangeBranch busylist e = some b)
    (hspares : ∀ x, x ≠ e → s.Spares x a) (hmeans : s.Means e a (.acquire t)) :
    Good (s.become b e t .holding) ∧
      (s.become b e t .holding).branch.live = s.branch.live ∧
      ∀ x, Plays s a (s.become b e t .holding) x := by
  have hlive := hrep.mem_live he
  have hmoved := moved_of_move hrep hlive hmove
  have hlist : (s.desk e).list ≠ busylist := by
    show (s.branch.heap e).currentBranch ≠ busylist
    rw [hrep.branch k e he]
    exact hk
  obtain ⟨called, q, hq⟩ := hserves
  have haway : (s.desk e).role t = .away := by
    rcases hfree e with haway | hholding
    · exact haway
    · exact absurd (hq.busy (.inl ⟨t, by simp [desk, hholding]⟩)) hlist
  refine (touches_of_moved hg hlive hmoved).plays hspares hmeans ?_
  show Desk.Step _ _ ((s.assign b e _).desk e)
  rw [desk_of_moved hmoved]
  exact Desk.Step.acquire haway hlist

/-- Testing a ticket is `Desk.check`. -/
theorem touches_check (h : Touches s s' e) (c : Caller) (k : ℕ)
    (hknown : e ∈ s.branch.live) :
    Touches s (s'.check e t c k) e ∧ (s'.check e t c k).desk e = (s'.desk e).check t c k := by
  have hlive : e ∈ s'.branch.live := by rw [h.live]; exact hknown
  have hassign : ∀ r, Touches s' (s'.become s'.branch e t r) e := fun r =>
    touches_assign h.good hlive rfl h.good.represents fun _ _ => ⟨rfl, rfl, rfl⟩
  have htrans : ∀ u, Touches s' u e → Touches s u e := fun u hu =>
    ⟨hu.good, hu.live.trans h.live, fun x hx => (hu.other x hx).trans (h.other x hx)⟩
  unfold check Desk.check
  by_cases hk : (s'.branch.heap e).waitersBottom = k
  · rw [if_pos hk, if_pos (show (s'.desk e).bottom = k from hk)]
    have hgranted := hassign (.granted c)
    refine ⟨htrans _ ⟨⟨hgranted.good.represents, hgranted.good.known⟩, rfl,
      fun x hx => ?_⟩, ?_⟩
    · have hother := hgranted.other x hx
      rw [← hother]
      simp [desk, Function.update_of_ne hx, become, assign]
    · simp [desk, become, assign]
  · rw [if_neg hk, if_neg (show ¬ (s'.desk e).bottom = k from hk)]
    refine ⟨htrans _ (hassign _), ?_⟩
    simp [desk, become, assign]

/-- **Every step of the threads plays the protocol** on every entity. -/
theorem Step.plays {a : Action τ ε} (hg : Good s)
    (hserves : ∀ en ∈ s.branch.live, ∃ called q, (s.desk en).Serves called q)
    (h : Step s a s') :
    Good s' ∧ s'.branch.live = s.branch.live ∧ ∀ x, Plays s a s' x := by
  obtain ⟨L, hrep⟩ := hg.represents
  have hknown : ∀ {t : τ} {en : ℕ} {r : Role}, s.role t en = r → r ≠ .away →
      en ∈ s.branch.live := fun hr hne => hg.known _ _ (by rw [hr]; exact hne)
  cases h with
  | getFreeFails hfree hr hnone =>
      rcases getFree_cases hrep _ with ⟨r, hr', -⟩ | ⟨en, b, hr', -⟩
      · obtain ⟨-, rfl⟩ := result_inj hr' hr
        exact ⟨hg, rfl, fun _ => .inl ⟨rfl, trivial⟩⟩
      · obtain ⟨rfl, -⟩ := result_inj hr' hr
        exact absurd rfl (hnone en)
  | getFree hfree hr =>
      rcases getFree_cases hrep _ with ⟨r, hr', hnone⟩ | ⟨en, b, hr', hen, hmove⟩
      · obtain ⟨rfl, -⟩ := result_inj hr' hr
        simp at hnone
      · obtain ⟨hen', rfl⟩ := result_inj hr' hr
        obtain rfl := GetFree.got.inj hen'
        exact plays_acquire hg hrep (hserves en (hrep.mem_live hen)) hfree hen
          (by simp) hmove (fun _ _ => trivial) ⟨rfl, b, hr'⟩
  | requestNull hfree hr =>
      rename_i t c identify b
      rcases request_cases hrep c identify with ⟨r, hr', -⟩ | ⟨en, k, hr', -⟩ |
        ⟨en, k, b', hr', -⟩
      · obtain ⟨-, rfl⟩ := result_inj hr' hr
        exact ⟨hg, rfl, fun _ => .inl ⟨rfl, trivial⟩⟩
      · cases (result_inj hr' hr).1
      · cases (result_inj hr' hr).1
  | requestGot hfree hr =>
      rename_i t c identify e b
      rcases request_cases hrep c identify with ⟨r, hr', hnone⟩ | ⟨en, k, hr', -⟩ |
        ⟨en, k, b', hr', hen, hk, hmove⟩
      · obtain ⟨rfl, -⟩ := result_inj hr' hr
        simp at hnone
      · cases (result_inj hr' hr).1
      · obtain ⟨hen', rfl⟩ := result_inj hr' hr
        obtain rfl := Request.got.inj hen'
        exact plays_acquire hg hrep (hserves en (hrep.mem_live hen)) hfree hen hk hmove
          (fun _ _ => trivial) (.inl ⟨rfl, b', hr'⟩)
  | requestQueue hfree hr haway hun =>
      rename_i t c identify e b
      rcases request_cases hrep c identify with ⟨r, hr', hnone⟩ | ⟨en, k, hr', hen, hk⟩ |
        ⟨en, k, b', hr', -⟩
      · obtain ⟨rfl, -⟩ := result_inj hr' hr
        simp at hnone
      · obtain ⟨hen', rfl⟩ := result_inj hr' hr
        obtain rfl := Request.queue.inj hen'
        have hlist : (s.desk en).list = k := hrep.branch k en hen
        refine (touches_assign hg (hrep.mem_live hen) rfl ⟨L, hrep⟩
          fun _ _ => ⟨rfl, rfl, rfl⟩).plays (d := .enqueue t c) (fun _ _ => trivial)
          (.inr ⟨rfl, _, hr'⟩) ?_
        rw [desk_assign_self]
        refine Desk.Step.enqueue haway hun ?_
        rw [hlist]
        exact hk.imp id fun h => ⟨h.1, h.2.1⟩
      · cases (result_inj hr' hr).1
  | takeTicket ht =>
      rename_i t e c
      have hlive := hknown ht (by simp)
      have htouch : Touches s ({ s with
          branch := s.branch.takeTicket e
          took := Function.update s.took e (s.took e ++ [t]) }) e := by
        refine ⟨⟨⟨L, takeTicket_represents hrep e⟩, hg.known⟩, rfl, fun x hx => ?_⟩
        simp [desk, EntityListBranch.takeTicket, Lists.modify, Function.update_of_ne hx]
      obtain ⟨htouch', hdesk⟩ :=
        touches_check (t := t) htouch c (addSafelyInt16t (s.branch.heap e).waitersHead) hlive
      have htaken : ({ s with
          branch := s.branch.takeTicket e
          took := Function.update s.took e (s.took e ++ [t]) } : Threads τ ε).desk e =
          { s.desk e with head := addSafelyInt16t (s.desk e).head
                          took := (s.desk e).took ++ [t] } := by
        simp [desk, EntityListBranch.takeTicket, Lists.modify]
      refine htouch'.plays (d := .take t) (fun _ _ => trivial) ⟨rfl, rfl⟩ ?_
      rw [hdesk, htaken]
      exact Desk.Step.take ht
  | recheck ht hun =>
      rename_i t e c k
      have hlive := hknown ht (by simp)
      obtain ⟨htouch, hdesk⟩ := touches_check (t := t) ⟨hg, rfl, fun _ _ => rfl⟩ c k hlive
      refine htouch.plays (d := .recheck t) (fun _ _ => trivial) ⟨rfl, rfl⟩ ?_
      rw [hdesk]
      exact Desk.Step.recheck ht hun
  | setFreePass hfree ht hr =>
      rename_i t release e b
      have hlive := hknown ht (by simp)
      rcases setFreeLocked_cases hrep hlive release with ⟨hne, hr'⟩ | ⟨b', -, hr', -⟩
      · obtain ⟨-, rfl⟩ := result_inj hr' hr
        have htouch : Touches s
            (s.become (EntityListBranch.callback release e s.branch) e t .calling) e :=
          touches_assign hg hlive rfl ⟨L, callback_represents hrep release e⟩
            fun x _ => callback_counters release e x
        refine htouch.plays (d := .pass t) (fun _ hx => hx) ⟨rfl, .inr rfl⟩ ?_
        obtain ⟨h₁, h₂, h₃⟩ := callback_counters (s := s.branch) release e e
        show Desk.Step _ _ ((s.assign _ e _).desk e)
        rw [desk_assign_self, h₁, h₂, h₃]
        exact Desk.Step.pass ht hne
      · cases (result_inj hr' hr).1
  | setFreePark hfree ht hr =>
      rename_i t release e b
      have hlive := hknown ht (by simp)
      rcases setFreeLocked_cases hrep hlive release with ⟨-, hr'⟩ | ⟨b', heq, hr', hmove⟩
      · cases (result_inj hr' hr).1
      · obtain ⟨-, rfl⟩ := result_inj hr' hr
        have hmoved :=
          (moved_of_move (callback_represents hrep release e) hlive hmove).callback_before
        refine (touches_of_moved hg hlive hmoved).plays (d := .parkFree t) (fun _ hx => hx)
          ⟨rfl, .inl rfl⟩ ?_
        rw [desk_of_moved hmoved]
        exact Desk.Step.parkFree ht heq
  | callNext ht hun hsig =>
      rename_i t e w roles
      have hlive := hknown ht (by simp)
      refine (touches_callNext hg hlive).plays (d := .call t w) (fun _ _ => trivial)
        ⟨rfl, rfl⟩ ?_
      rw [desk_callNext]
      exact Desk.Step.call ht hun hsig
  | setLoadedPass hfree ht hun hr hsig =>
      rename_i t e w roles b
      have hlive := hknown ht (by simp)
      rcases setLoaded_cases hrep hlive with ⟨hne, hr'⟩ | ⟨b', -, hr', -⟩
      · obtain ⟨-, rfl⟩ := result_inj hr' hr
        refine (touches_callNext hg hlive).plays (d := .passLoaded t w) (fun _ _ => trivial)
          ⟨rfl, .inr rfl⟩ ?_
        rw [desk_callNext]
        exact Desk.Step.passLoaded ht hun hne hsig
      · cases (result_inj hr' hr).1
  | setLoadedPark hfree ht hun hr =>
      rename_i t e b
      have hlive := hknown ht (by simp)
      rcases setLoaded_cases hrep hlive with ⟨-, hr'⟩ | ⟨b', heq, hr', hmove⟩
      · cases (result_inj hr' hr).1
      · obtain ⟨-, rfl⟩ := result_inj hr' hr
        have hmoved := moved_of_move hrep hlive hmove
        refine (touches_of_moved hg hlive hmoved).plays (d := .parkLoaded t)
          (fun _ _ => trivial) ⟨rfl, .inl rfl⟩ ?_
        rw [desk_of_moved hmoved]
        exact Desk.Step.parkLoaded ht hun heq
  | give ht hu =>
      rename_i t u e
      have hlive := hknown ht (by simp)
      refine (touches_assign hg hlive rfl ⟨L, hrep⟩ fun _ _ => ⟨rfl, rfl, rfl⟩).plays
        (d := .give t u) (fun _ _ => trivial) ⟨rfl, rfl⟩ ?_
      rw [desk_assign_self]
      exact Desk.Step.give ht hu
  | callback ht =>
      rename_i t f e
      refine ⟨⟨⟨L, callback_represents hrep f e⟩, hg.known⟩, rfl,
        fun en => .inl ⟨?_, trivial⟩⟩
      obtain ⟨h₁, h₂, h₃⟩ := callback_counters (s := s.branch) f e en
      simp [desk, h₁, h₂, h₃]
  | evict ht hr =>
      rename_i t release e b
      have hlive := hknown ht (by simp)
      obtain ⟨b', hr', hmoved⟩ := blockRelease_moved hrep hlive release
      obtain rfl := Option.some.inj (hr'.symm.trans hr)
      refine (touches_of_moved hg hlive hmoved).plays (d := .evict t) (fun _ hx => hx)
        ⟨rfl, rfl⟩ ?_
      rw [desk_of_moved hmoved]
      exact Desk.Step.evict ht
  | releaseLoaded hfree hr =>
      rename_i t identify release b
      have hfuel : (loaded s.branch).card < s.branch.live.card + 1 :=
        Nat.lt_succ_of_le (Finset.card_filter_le _ _)
      obtain ⟨b', hr', hdrained⟩ :=
        blockReleaseLoaded_drained identify release _ hrep hfuel
      obtain rfl := Option.some.inj (hr'.symm.trans hr)
      refine ⟨⟨hdrained.represents, fun t en hrole => ?_⟩, hdrained.live, fun x => ?_⟩
      · show en ∈ b'.live
        rw [hdrained.live]
        exact hg.known t en hrole
      · have hbottom := hdrained.bottom x
        have hhead := hdrained.head x
        have hexact := blockReleaseLoaded_exact identify release _ hrep hr x
        unfold DrainedAt at hexact
        split at hexact
        · rename_i hfound
          refine .inr ⟨.drain, ⟨rfl, hfound.2.2⟩, ?_⟩
          have hdesk : ({ s with branch := b' }).desk x =
              { s.desk x with list := freelist } := by
            simp [desk, hexact.1, hbottom, hhead]
          rw [hdesk]
          exact Desk.Step.drain hfound.2.1
        · rename_i hother
          exact .inl ⟨by simp [desk, hexact.1, hbottom, hhead], hother⟩

/-- What an action does to the contents `c` of the entity `x`. -/
def payload (s : Threads τ ε) (x : ℕ) (c : ε) : Action τ ε → ε
  | .callback _ f en => if x = en then f c else c
  | .setFree _ release en => if x = en then release c else c
  | .evict _ release en => if x = en then release c else c
  | .releaseLoaded _ identify release =>
      if x ∈ s.branch.live ∧ (s.branch.heap x).currentBranch = loadedlist ∧ identify c then
        release c
      else c
  | _ => c

/-- **What a step does to the contents of the entities**. -/
theorem Step.entity {a : Action τ ε} (hg : Good s) (h : Step s a s') (x : ℕ) :
    (s'.branch.heap x).entity = s.payload x (s.branch.heap x).entity a := by
  obtain ⟨L, hrep⟩ := hg.represents
  have hknown : ∀ {t : τ} {en : ℕ} {r : Role}, s.role t en = r → r ≠ .away →
      en ∈ s.branch.live := fun hr hne => hg.known _ _ (by rw [hr]; exact hne)
  have hcheck : ∀ (u : Threads τ ε) en t c k,
      ((u.check en t c k).branch.heap x).entity = (u.branch.heap x).entity := by
    intro u en t c k
    unfold check
    split <;> rfl
  cases h with
  | getFreeFails hfree hr hnone =>
      rcases getFree_cases hrep _ with ⟨r, hr', -⟩ | ⟨en, b, hr', -⟩
      · obtain ⟨-, rfl⟩ := result_inj hr' hr
        rfl
      · obtain ⟨rfl, -⟩ := result_inj hr' hr
        exact absurd rfl (hnone en)
  | getFree hfree hr =>
      rcases getFree_cases hrep _ with ⟨r, hr', hnone⟩ | ⟨en, b, hr', hen, hmove⟩
      · obtain ⟨rfl, -⟩ := result_inj hr' hr
        simp at hnone
      · obtain ⟨-, rfl⟩ := result_inj hr' hr
        exact entity_of_move hrep (hrep.mem_live hen) hmove x
  | requestNull hfree hr =>
      rename_i t c identify b
      rcases request_cases hrep c identify with ⟨r, hr', -⟩ | ⟨en, k, hr', -⟩ |
        ⟨en, k, b', hr', -⟩
      · obtain ⟨-, rfl⟩ := result_inj hr' hr
        rfl
      · cases (result_inj hr' hr).1
      · cases (result_inj hr' hr).1
  | requestGot hfree hr =>
      rename_i t c identify e b
      rcases request_cases hrep c identify with ⟨r, hr', hnone⟩ | ⟨en, k, hr', -⟩ |
        ⟨en, k, b', hr', hen, hk, hmove⟩
      · obtain ⟨rfl, -⟩ := result_inj hr' hr
        simp at hnone
      · cases (result_inj hr' hr).1
      · obtain ⟨-, rfl⟩ := result_inj hr' hr
        exact entity_of_move hrep (hrep.mem_live hen) hmove x
  | requestQueue hfree hr haway hun =>
      rename_i t c identify e b
      rcases request_cases hrep c identify with ⟨r, hr', hnone⟩ | ⟨en, k, hr', hen, hk⟩ |
        ⟨en, k, b', hr', -⟩
      · obtain ⟨rfl, -⟩ := result_inj hr' hr
        simp at hnone
      · obtain ⟨-, rfl⟩ := result_inj hr' hr
        rfl
      · cases (result_inj hr' hr).1
  | takeTicket ht =>
      rw [hcheck]
      exact takeTicket_entity _ x
  | recheck ht hun => exact hcheck _ _ _ _ _
  | setFreePass hfree ht hr =>
      rename_i t release e b
      rcases setFreeLocked_cases hrep (hknown ht (by simp)) release with
        ⟨hne, hr'⟩ | ⟨b', -, hr', -⟩
      · obtain ⟨-, rfl⟩ := result_inj hr' hr
        exact callback_entity release e x
      · cases (result_inj hr' hr).1
  | setFreePark hfree ht hr =>
      rename_i t release e b
      have hlive := hknown ht (by simp)
      rcases setFreeLocked_cases hrep hlive release with ⟨-, hr'⟩ | ⟨b', heq, hr', hmove⟩
      · cases (result_inj hr' hr).1
      · obtain ⟨-, rfl⟩ := result_inj hr' hr
        exact (entity_of_move (callback_represents hrep release e) hlive hmove x).trans
          (callback_entity release e x)
  | callNext ht hun hsig => exact callNext_entity _ x
  | setLoadedPass hfree ht hun hr hsig =>
      rename_i t e w roles b
      rcases setLoaded_cases hrep (hknown ht (by simp)) with ⟨hne, hr'⟩ | ⟨b', -, hr', -⟩
      · obtain ⟨-, rfl⟩ := result_inj hr' hr
        exact callNext_entity e x
      · cases (result_inj hr' hr).1
  | setLoadedPark hfree ht hun hr =>
      rename_i t e b
      have hlive := hknown ht (by simp)
      rcases setLoaded_cases hrep hlive with ⟨-, hr'⟩ | ⟨b', heq, hr', hmove⟩
      · cases (result_inj hr' hr).1
      · obtain ⟨-, rfl⟩ := result_inj hr' hr
        exact entity_of_move hrep hlive hmove x
  | give ht hu => rfl
  | callback ht => exact callback_entity _ _ x
  | evict ht hr =>
      rename_i t release e b
      have hlive := hknown ht (by simp)
      obtain ⟨u, hu, -⟩ := hrep.mutexFreeChangeBranch hlive freelist
      have hrelease : s.branch.blockRelease release e =
          some (EntityListBranch.callback release e u) := by
        simp [blockRelease, hu]
      obtain rfl := Option.some.inj (hrelease.symm.trans hr)
      show ((EntityListBranch.callback release e u).heap x).entity = _
      rw [callback_entity, entity_of_move hrep hlive hu]
      rfl
  | releaseLoaded hfree hr =>
      rename_i t identify release b
      have hexact := blockReleaseLoaded_exact identify release _ hrep hr x
      unfold DrainedAt at hexact
      show (b.heap x).entity = if _ then _ else _
      split at hexact
      · rename_i hfound
        rw [if_pos hfound]
        exact hexact.2
      · rename_i hother
        rw [if_neg hother]
        exact hexact.2

/-- What a step means to the protocol decides what its condition allows. -/
theorem Plays.simulates [Fintype τ] {a : Action τ ε} {L : BranchList → List ℕ} {x : ℕ}
    (hrep : Represents s.branch L) (h : Plays s a s' x) : Simulates s a s' x := by
  rcases h with ⟨hsame, -⟩ | ⟨d, hmeans, hstep⟩
  · exact .inl hsame
  refine .inr ⟨d, hstep, ?_, ?_⟩
  · rintro ⟨hfive, hsafe⟩
    cases a with
    | getFree t check => obtain ⟨rfl, -⟩ := hmeans; trivial
    | request t c identify =>
        rcases hmeans with ⟨rfl, -⟩ | ⟨rfl, b, hr⟩
        · trivial
        · rcases hstep.of_enqueue with hlist | ⟨rfl, -⟩
          · exact hlist
          · rcases request_cases hrep .getSpecific identify with ⟨r, hr', hnone⟩ |
              ⟨en, k, hr', hen, hk⟩ | ⟨en, k, b', hr', -⟩
            · obtain ⟨rfl, -⟩ := result_inj hr' hr
              simp at hnone
            · obtain rfl := Request.queue.inj (result_inj hr' hr).1
              rcases hk with rfl | ⟨-, rfl, hfrom⟩
              · exact hrep.branch _ en hen
              · exact absurd hfrom (hsafe en)
            · cases (result_inj hr' hr).1
    | takeTicket t en => obtain ⟨rfl, rfl⟩ := hmeans; exact hsafe
    | recheck t en => obtain ⟨rfl, rfl⟩ := hmeans; trivial
    | setFree t release en =>
        obtain ⟨rfl, rfl | rfl⟩ := hmeans
        · exact hsafe hstep.of_parkFree.2
        · trivial
    | callNext t en w => obtain ⟨rfl, rfl⟩ := hmeans; trivial
    | setLoaded t en w => obtain ⟨rfl, rfl | rfl⟩ := hmeans <;> trivial
    | give t u en => obtain ⟨rfl, rfl⟩ := hmeans; trivial
    | callback t f en => exact hmeans.elim
    | evict t release en => exact hfive.elim
    | releaseLoaded t identify release => exact hfive.elim
  · intro hsafe
    cases a with
    | getFree t check => obtain ⟨rfl, -⟩ := hmeans; trivial
    | request t c identify => rcases hmeans with ⟨rfl, -⟩ | ⟨rfl, -⟩ <;> trivial
    | takeTicket t en => obtain ⟨rfl, rfl⟩ := hmeans; exact hsafe
    | recheck t en => obtain ⟨rfl, rfl⟩ := hmeans; trivial
    | setFree t release en => obtain ⟨rfl, rfl | rfl⟩ := hmeans <;> trivial
    | callNext t en w => obtain ⟨rfl, rfl⟩ := hmeans; exact hsafe
    | setLoaded t en w =>
        obtain ⟨rfl, rfl | rfl⟩ := hmeans
        · trivial
        · exact hsafe hstep.of_passLoaded
    | give t u en => obtain ⟨rfl, rfl⟩ := hmeans; trivial
    | callback t f en => exact hmeans.elim
    | evict t release en => obtain ⟨rfl, rfl⟩ := hmeans; trivial
    | releaseLoaded t identify release => obtain ⟨rfl, -⟩ := hmeans; trivial

/-- **Every step of the threads simulates the protocol** on every entity. -/
theorem Step.simulates [Fintype τ] {a : Action τ ε} (hg : Good s)
    (hserves : ∀ en ∈ s.branch.live, ∃ called q, (s.desk en).Serves called q)
    (h : Step s a s') :
    Good s' ∧ s'.branch.live = s.branch.live ∧ ∀ en, Simulates s a s' en := by
  obtain ⟨L, hrep⟩ := hg.represents
  obtain ⟨hg', hlive, hplays⟩ := Step.plays hg hserves h
  exact ⟨hg', hlive, fun en => (hplays en).simulates hrep⟩

/-! ## Runs -/

/-- Each entity of a run of the threads makes a run of the protocol. -/
theorem desk_reachable [Fintype τ] {ok : Threads τ ε → Action τ ε → Prop}
    {ok' : Desk τ → DeskAction τ → Prop}
    (hroom : ∀ d a, ok' d a → Desk.HasRoom d a)
    (hok : ∀ (s : Threads τ ε) a s' en, ok s a → Simulates s a s' en →
      s'.desk en = s.desk en ∨
        ∃ d, Desk.Step (s.desk en) d (s'.desk en) ∧ ok' (s.desk en) d)
    (h : (system τ ε).ReachableUnder ok s) :
    Good s ∧ ∀ en ∈ s.branch.live, (Desk.system τ).ReachableUnder ok' (s.desk en) := by
  apply h.invariant
  · intro s hstart
    refine ⟨⟨hstart.represents, fun t en hrole => absurd (hstart.away t en) hrole⟩,
      fun en hen => .init (hstart.fresh en hen)⟩
  · rintro s a s' ⟨hg, hruns⟩ hcond hstep
    have hserves : ∀ en ∈ s.branch.live, ∃ called q, (s.desk en).Serves called q :=
      fun en hen => Desk.serves_of_reachable ((hruns en hen).mono hroom)
    obtain ⟨hg', hlive, hsim⟩ := Step.simulates hg hserves hstep
    refine ⟨hg', fun en hen => ?_⟩
    rw [hlive] at hen
    rcases hok s a s' en hcond (hsim en) with hsame | ⟨d, hd, hok'⟩
    · rw [hsame]
      exact hruns en hen
    · exact .step (hruns en hen) hok' hd

end Threads

end VlbiStreamer.ResourceTree
