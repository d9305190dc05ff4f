import Mathlib.Data.Fintype.Card
import VlbiStreamer.Library.TicketQueue
import VlbiStreamer.Library.Transition
import VlbiStreamer.ResourceTree.Branch

/-!
# The hand-off protocol of one entity

What `get_free`, `get_specific`, `get_loaded`, `set_free`, `set_loaded` and
`block_until_free` do to *one* entity, when any number of threads run them.  A
`Desk` is that entity as the protocol sees it: the list it is on, its two ticket
counters, and what every thread is doing with it.  Each step of `Desk.Step` is
one region of `resourcetree.c` between taking and giving up a lock.

A thread that finds the entity taken keeps the wait lock but gives up the
branch lock before it takes its ticket: it is `queueing` in between, and every
region that needs the wait lock has to pass it by (`Unlocked`).  The one region
that does not is the test of `set_free`.

`took` and `served` are logs, of the threads that took a ticket and of the
threads that were let through.  `Serves d called q` says that the counters stand
for the queue `q`; it holds as long as fewer than 2^15 threads queue
(`serves_of_reachable`).  What it takes for the entity never to be parked in
front of a waiter is `handsOff_of_findsWaiters`, what it takes for the right waiter
to be woken is `wakes_of_wakesNext`.
-/

set_option linter.unusedSectionVars false

namespace VlbiStreamer.ResourceTree

open Library BranchList

/-- The function a waiting thread is in. -/
inductive Caller where
  | getSpecific
  | getLoaded
  | blockUntilFree
  deriving DecidableEq, Repr

/-- What a thread is doing with the entity. -/
inductive Role where
  /-- Nothing. -/
  | away
  /-- It found the entity taken and holds the wait lock, without a ticket yet. -/
  | queueing (c : Caller)
  /-- It sleeps on `waitsig` until this ticket is called. -/
  | sleeping (c : Caller) (ticket : ℕ)
  /-- It was signalled and has to test its ticket again. -/
  | woken (c : Caller) (ticket : ℕ)
  /-- It has the entity. -/
  | holding
  /-- It is in `set_free`, past the test and before `ADD_SAFELY_INT16T`. -/
  | calling
  /-- It is in `block_until_free`, about to put the entity on the free list. -/
  | evicting
  deriving DecidableEq, Repr

namespace Role

/-- The ticket a thread waits with. -/
def ticket : Role → Option ℕ
  | sleeping _ k => some k
  | woken _ k => some k
  | _ => none

/-- Does the entity belong to the thread? -/
def owns : Role → Bool
  | holding => true
  | calling => true
  | evicting => true
  | _ => false

/-- What a thread goes on to once its ticket was called. -/
def granted : Caller → Role
  | .getSpecific => holding
  | .getLoaded => holding
  | .blockUntilFree => evicting

section Simp

variable (c : Caller) (k : ℕ)

@[simp] theorem ticket_away : away.ticket = none := rfl
@[simp] theorem ticket_queueing : (queueing c).ticket = none := rfl
@[simp] theorem ticket_sleeping : (sleeping c k).ticket = some k := rfl
@[simp] theorem ticket_woken : (woken c k).ticket = some k := rfl
@[simp] theorem ticket_holding : holding.ticket = none := rfl
@[simp] theorem ticket_calling : calling.ticket = none := rfl
@[simp] theorem ticket_evicting : evicting.ticket = none := rfl
@[simp] theorem owns_away : away.owns = false := rfl
@[simp] theorem owns_queueing : (queueing c).owns = false := rfl
@[simp] theorem owns_sleeping : (sleeping c k).owns = false := rfl
@[simp] theorem owns_woken : (woken c k).owns = false := rfl
@[simp] theorem owns_holding : holding.owns = true := rfl
@[simp] theorem owns_calling : calling.owns = true := rfl
@[simp] theorem owns_evicting : evicting.owns = true := rfl

end Simp

@[simp] theorem owns_granted (c : Caller) : (granted c).owns = true := by
  cases c <;> rfl

@[simp] theorem ticket_granted (c : Caller) : (granted c).ticket = none := by
  cases c <;> rfl

theorem granted_ne_calling (c : Caller) : granted c ≠ calling := by
  cases c <;> simp [granted]

theorem ticket_of_owns {r : Role} (h : r.owns = true) : r.ticket = none := by
  cases r <;> simp_all

end Role

/-- One entity, as the hand-off protocol sees it. -/
structure Desk (τ : Type) where
  list : BranchList
  bottom : ℕ
  head : ℕ
  role : τ → Role
  took : List τ
  served : List τ

/-- The steps of the protocol. -/
inductive DeskAction (τ : Type) where
  | acquire (t : τ)
  | enqueue (t : τ) (c : Caller)
  | take (t : τ)
  | recheck (t : τ)
  | parkFree (t : τ)
  | pass (t : τ)
  | call (t : τ) (w : Option τ)
  | parkLoaded (t : τ)
  | passLoaded (t : τ) (w : Option τ)
  | give (t u : τ)
  | evict (t : τ)
  | drain

namespace Desk

variable {τ : Type} [DecidableEq τ]

/-- Nobody is between finding the entity and taking a ticket. -/
def Unlocked (d : Desk τ) : Prop := ∀ u c, d.role u ≠ .queueing c

/-- `pthread_cond_signal`: some sleeper, any of them, is woken; nobody is when
nobody sleeps. -/
inductive Signals (role : τ → Role) : Option τ → (τ → Role) → Prop where
  | nobody : (∀ u c k, role u ≠ .sleeping c k) → Signals role none role
  | wake {u : τ} {c : Caller} {k : ℕ} : role u = .sleeping c k →
      Signals role (some u) (Function.update role u (.woken c k))

/-- The head of the loop `while (waiters_bottom != myqueue)`: go on with the
entity, or sleep. -/
def check (d : Desk τ) (t : τ) (c : Caller) (k : ℕ) : Desk τ :=
  if d.bottom = k then
    { d with role := Function.update d.role t (.granted c), served := d.served ++ [t] }
  else { d with role := Function.update d.role t (.sleeping c k) }

/-- One region of the code. -/
inductive Step (d : Desk τ) : DeskAction τ → Desk τ → Prop where
  /-- `get_free`, `get_specific`, `get_loaded`: the entity lies ready. -/
  | acquire {t : τ} : d.role t = .away → d.list ≠ busylist →
      Step d (.acquire t)
        { d with list := busylist, role := Function.update d.role t .holding }
  /-- `get_specific`, `get_loaded`, `block_until_free`: the entity is taken, or
  it is loaded and `get_specific` was to find it free. -/
  | enqueue {t : τ} {c : Caller} : d.role t = .away → d.Unlocked →
      (d.list = busylist ∨ (c = .getSpecific ∧ d.list = loadedlist)) →
      Step d (.enqueue t c) { d with role := Function.update d.role t (.queueing c) }
  /-- `ADD_SAFELY_INT16T(waiters_head)` and the first test of the loop. -/
  | take {t : τ} {c : Caller} : d.role t = .queueing c →
      Step d (.take t)
        (({ d with head := addSafelyInt16t d.head, took := d.took ++ [t] }).check t c
          (addSafelyInt16t d.head))
  /-- Back from `pthread_cond_wait`. -/
  | recheck {t : τ} {c : Caller} {k : ℕ} : d.role t = .woken c k → d.Unlocked →
      Step d (.recheck t) (d.check t c k)
  /-- `set_free`, nobody has a ticket. -/
  | parkFree {t : τ} : d.role t = .holding → d.bottom = d.head →
      Step d (.parkFree t)
        { d with list := freelist, role := Function.update d.role t .away }
  /-- `set_free`, somebody has a ticket. -/
  | pass {t : τ} : d.role t = .holding → d.bottom ≠ d.head →
      Step d (.pass t) { d with role := Function.update d.role t .calling }
  /-- The rest of `set_free`. -/
  | call {t : τ} {w : Option τ} {role' : τ → Role} : d.role t = .calling → d.Unlocked →
      Signals d.role w role' →
      Step d (.call t w) { d with bottom := addSafelyInt16t d.bottom,
                                  role := Function.update role' t .away }
  /-- `set_loaded`, nobody has a ticket. -/
  | parkLoaded {t : τ} : d.role t = .holding → d.Unlocked → d.head = d.bottom →
      Step d (.parkLoaded t)
        { d with list := loadedlist, role := Function.update d.role t .away }
  /-- `set_loaded`, somebody has a ticket. -/
  | passLoaded {t : τ} {w : Option τ} {role' : τ → Role} : d.role t = .holding →
      d.Unlocked → d.head ≠ d.bottom → Signals d.role w role' →
      Step d (.passLoaded t w) { d with bottom := addSafelyInt16t d.bottom,
                                        role := Function.update role' t .away }
  /-- The holder leaves the entity to another thread. -/
  | give {t u : τ} : d.role t = .holding → d.role u = .away →
      Step d (.give t u)
        { d with role := Function.update (Function.update d.role t .away) u .holding }
  /-- `block_until_free` puts the entity it waited for on the free list. -/
  | evict {t : τ} : d.role t = .evicting →
      Step d (.evict t)
        { d with list := freelist, role := Function.update d.role t .away }
  /-- `block_until_free` puts a loaded entity on the free list. -/
  | drain : d.list = loadedlist → Step d .drain { d with list := freelist }

/-! What the single steps need and do. -/

section Inversion

variable {d d' : Desk τ} {t : τ}

theorem Step.of_acquire (h : Step d (.acquire t) d') :
    d.role t = .away ∧ d.list ≠ busylist ∧ d'.role t = .holding := by
  cases h with
  | acquire ht hlist => exact ⟨ht, hlist, by simp⟩

theorem Step.of_enqueue {c : Caller} (h : Step d (.enqueue t c) d') :
    d.list = busylist ∨ (c = .getSpecific ∧ d.list = loadedlist) := by
  cases h with
  | enqueue _ _ hlist => exact hlist

theorem Step.of_parkFree (h : Step d (.parkFree t) d') :
    d.role t = .holding ∧ d.bottom = d.head := by
  cases h with
  | parkFree ht heq => exact ⟨ht, heq⟩

theorem Step.of_pass (h : Step d (.pass t) d') :
    d.role t = .holding ∧ d'.role t = .calling := by
  cases h with
  | pass ht _ => exact ⟨ht, by simp⟩

theorem Step.of_parkLoaded (h : Step d (.parkLoaded t) d') :
    d.role t = .holding ∧ d.Unlocked ∧ d.head = d.bottom := by
  cases h with
  | parkLoaded ht hun heq => exact ⟨ht, hun, heq⟩

theorem Step.of_passLoaded {w : Option τ} (h : Step d (.passLoaded t w) d') :
    d.head ≠ d.bottom := by
  cases h with
  | passLoaded _ _ hne _ => exact hne

theorem Step.of_evict (h : Step d (.evict t) d') :
    d.role t = .evicting ∧ d'.role t = .away := by
  cases h with
  | evict ht => exact ⟨ht, by simp⟩

theorem Step.of_drain (h : Step d .drain d') : d.list = loadedlist := by
  cases h with
  | drain hlist => exact hlist

end Inversion

/-- The entity lies on the free list and nobody has asked for it. -/
structure IsFresh (d : Desk τ) : Prop where
  list : d.list = freelist
  bottom : d.bottom = 0
  head : d.head = 0
  role : ∀ u, d.role u = .away
  took : d.took = []
  served : d.served = []

/-- The protocol. -/
def system (τ : Type) [DecidableEq τ] : System (Desk τ) (DeskAction τ) where
  init := IsFresh
  step := Step

/-! ## The queue behind the counters -/

/-- Number of values of the counters. -/
def tickets : ℕ := int16Max + 1

theorem addSafelyInt16t_eq {x : ℕ} (h : x < tickets) :
    addSafelyInt16t x = ticketSucc tickets x := by
  unfold addSafelyInt16t ticketSucc
  by_cases hmax : x = int16Max
  · simp [hmax, tickets]
  · rw [if_neg hmax, Nat.mod_eq_of_lt]
    unfold tickets at h ⊢
    omega

/-- The counters stand for the queue `q`; the entity belongs to at most one
thread, and to none while the called one has not gone on. -/
structure Serves (d : Desk τ) (called : Option τ) (q : List τ) : Prop where
  queue : Tickets tickets d.bottom d.head (fun u k => (d.role u).ticket = some k) called q
  fifo : d.took = d.served ++ (called.toList ++ q)
  oneOwner : ∀ u v, (d.role u).owns → (d.role v).owns → u = v
  exclusive : ∀ u, (d.role u).owns → called = none
  pending : ∀ u, d.role u = .calling → q ≠ []
  busy : (∃ u, (d.role u).owns) ∨ called ≠ none → d.list = busylist

variable {d d' : Desk τ} {called : Option τ} {q : List τ} {t u v : τ} {k : ℕ}

theorem IsFresh.serves (h : IsFresh d) : Serves d none [] where
  queue := by
    rw [h.bottom, h.head]
    exact Tickets.empty (by simp [tickets]) (by simp [h.role])
  fifo := by simp [h.took, h.served]
  oneOwner u v hu := by simp [h.role] at hu
  exclusive _ _ := rfl
  pending u hu := by simp [h.role] at hu
  busy hbusy := by simp [h.role] at hbusy

namespace Serves

/-- Changing the role of a thread that does not wait, to one that does not
wait, leaves the queue alone. -/
theorem queue_update (h : Serves d called q) {r : Role} (ht : (d.role t).ticket = none)
    (hr : r.ticket = none) :
    Tickets tickets d.bottom d.head
      (fun u k => (Function.update d.role t r u).ticket = some k) called q := by
  refine h.queue.congr fun u k => ?_
  by_cases hu : u = t
  · subst hu
    simp [ht, hr]
  · simp [Function.update_of_ne hu]

/-- Waking a thread does not change its ticket. -/
theorem ticket_signals {role role' : τ → Role} {w : Option τ} (hs : Signals role w role')
    (u : τ) : (role' u).ticket = (role u).ticket := by
  cases hs with
  | nobody => rfl
  | wake hv =>
      rename_i v c k
      by_cases huv : u = v
      · subst huv
        simp [hv]
      · simp [Function.update_of_ne huv]

theorem owns_signals {role role' : τ → Role} {w : Option τ} (hs : Signals role w role')
    (u : τ) : (role' u).owns = (role u).owns := by
  cases hs with
  | nobody => rfl
  | wake hv =>
      rename_i v c k
      by_cases huv : u = v
      · subst huv
        simp [hv]
      · simp [Function.update_of_ne huv]

/-- Nobody else owns what the thread `t` owns. -/
theorem not_owns_of_ne (h : Serves d called q) (ht : (d.role t).owns) (hu : u ≠ t) :
    (d.role u).owns = false := by
  by_contra hown
  exact hu (h.oneOwner u t (by simpa using hown) ht)

/-- While the entity lies ready it belongs to nobody. -/
theorem idle (h : Serves d called q) (hlist : d.list ≠ busylist) :
    (∀ u, (d.role u).owns = false) ∧ called = none := by
  constructor
  · intro u
    by_contra hown
    exact hlist (h.busy (.inl ⟨u, by simpa using hown⟩))
  · by_contra hcalled
    exact hlist (h.busy (.inr hcalled))

/-- **Taking the entity from a list.** -/
theorem acquire (h : Serves d called q) (ht : d.role t = .away) (hlist : d.list ≠ busylist) :
    Serves { d with list := busylist, role := Function.update d.role t .holding }
      called q := by
  obtain ⟨hnone, hcalled⟩ := h.idle hlist
  have hself : ∀ u, (Function.update d.role t Role.holding u).owns → u = t := by
    intro u hu
    by_contra hne
    simp [Function.update_of_ne hne, hnone u] at hu
  refine ⟨h.queue_update (by simp [ht]) rfl, h.fifo, ?_, fun _ _ => hcalled,
    ?_, fun _ => rfl⟩
  · intro u v hu hv
    rw [hself u hu, hself v hv]
  · intro u hu
    by_cases hut : u = t
    · subst hut; simp at hu
    · exact h.pending u (by simpa [Function.update_of_ne hut] using hu)

/-- A thread that owns nothing may turn to any role in which it owns nothing
and waits for nothing. -/
theorem of_outsider (h : Serves d called q) {r : Role} (ht : (d.role t).ticket = none)
    (hr : r.ticket = none) (hown : r.owns = false) :
    Serves { d with role := Function.update d.role t r } called q := by
  have hback : ∀ u, (Function.update d.role t r u).owns → (d.role u).owns := by
    intro u hu
    by_cases hut : u = t
    · subst hut; simp [hown] at hu
    · simpa [Function.update_of_ne hut] using hu
  refine ⟨h.queue_update ht hr, h.fifo, ?_, ?_, ?_, ?_⟩
  · intro u v hu hv
    exact h.oneOwner u v (hback u hu) (hback v hv)
  · intro u hu
    exact h.exclusive u (hback u hu)
  · intro u hu
    by_cases hut : u = t
    · subst hut
      simp at hu
      simp [hu] at hown
    · exact h.pending u (by simpa [Function.update_of_ne hut] using hu)
  · rintro (⟨u, hu⟩ | hcalled)
    · exact h.busy (.inl ⟨u, hback u hu⟩)
    · exact h.busy (.inr hcalled)

/-- When the owner is done with it, the entity may lie on any list. -/
theorem park (h : Serves d called q) (ht : (d.role t).owns) (k : BranchList) :
    Serves { d with list := k, role := Function.update d.role t .away } called q := by
  have houtsider := h.of_outsider (t := t) (r := .away) (Role.ticket_of_owns ht) rfl rfl
  refine { houtsider with busy := ?_ }
  rintro (⟨u, hu⟩ | hcalled)
  · exfalso
    by_cases hut : u = t
    · subst hut; simp at hu
    · simp [Function.update_of_ne hut, h.not_owns_of_ne ht hut] at hu
  · exact absurd (h.exclusive t ht) hcalled

/-- A loaded entity that belongs to nobody may go to the free list. -/
theorem drain (h : Serves d called q) (hlist : d.list = loadedlist) :
    Serves { d with list := freelist } called q := by
  obtain ⟨hnone, hcalled⟩ := h.idle (by simp [hlist])
  refine { h with busy := ?_ }
  rintro (⟨u, hu⟩ | hc)
  · simp [hnone u] at hu
  · exact absurd hcalled hc

/-- **`set_free` decides to pass the entity on.** -/
theorem pass (h : Serves d called q) (ht : d.role t = .holding) (hne : d.bottom ≠ d.head) :
    Serves { d with role := Function.update d.role t .calling } called q := by
  have hown : (d.role t).owns := by simp [ht]
  have hq : q ≠ [] := fun hq => hne (h.queue.head_eq_bottom_iff.mpr hq).symm
  have hself : ∀ u, (Function.update d.role t Role.calling u).owns → u = t := by
    intro u hu
    by_contra hut
    simp [Function.update_of_ne hut, h.not_owns_of_ne hown hut] at hu
  refine ⟨h.queue_update (by simp [ht]) rfl, h.fifo, ?_, fun _ _ => h.exclusive t hown,
    fun _ _ => hq, fun _ => h.busy (.inl ⟨t, hown⟩)⟩
  intro u v hu hv
  rw [hself u hu, hself v hv]

/-- **Giving the entity to another thread.** -/
theorem give (h : Serves d called q) (ht : d.role t = .holding) (hu : d.role u = .away) :
    Serves { d with
      role := Function.update (Function.update d.role t .away) u .holding } called q := by
  have hown : (d.role t).owns := by simp [ht]
  have hut : u ≠ t := by rintro rfl; simp [ht] at hu
  have hmid := h.of_outsider (t := t) (r := .away) (by simp [ht]) rfl rfl
  have hawayu : Function.update d.role t Role.away u = .away := by
    simp [Function.update_of_ne hut, hu]
  have hself : ∀ v, (Function.update (Function.update d.role t Role.away) u
      Role.holding v).owns → v = u := by
    intro v hv
    by_contra hvu
    rw [Function.update_of_ne hvu] at hv
    by_cases hvt : v = t
    · subst hvt; simp at hv
    · simp [Function.update_of_ne hvt, h.not_owns_of_ne hown hvt] at hv
  refine ⟨hmid.queue_update (by simp [hawayu]) rfl, h.fifo, ?_,
    fun _ _ => h.exclusive t hown, ?_, fun _ => h.busy (.inl ⟨t, hown⟩)⟩
  · intro v w hv hw
    rw [hself v hv, hself w hw]
  · intro v hv
    by_cases hvu : v = u
    · subst hvu; simp at hv
    · exact hmid.pending v (by simpa [Function.update_of_ne hvu] using hv)

/-- **Taking a ticket** puts the thread to sleep at the end of the queue, if
there is room for it. -/
theorem take (h : Serves d called q) {c : Caller} (ht : d.role t = .queueing c)
    (hroom : q.length + 1 < tickets) :
    Serves { d with head := addSafelyInt16t d.head, took := d.took ++ [t],
                    role := Function.update d.role t (.sleeping c (addSafelyInt16t d.head)) }
        called (q ++ [t]) ∧
      d.bottom ≠ addSafelyInt16t d.head := by
  have hhead : d.head < tickets := by
    rw [h.queue.head_eq]
    exact Nat.mod_lt _ (by simp [tickets])
  have hqueue : Tickets tickets d.bottom (ticketSucc tickets d.head)
      (fun u k => (Function.update d.role t (.sleeping c (addSafelyInt16t d.head)) u).ticket =
        some k) called (q ++ [t]) := by
    refine h.queue.take hroom (by simp [ht]) fun v k => ?_
    rw [addSafelyInt16t_eq hhead]
    by_cases hv : v = t
    · subst hv
      simp [ht, eq_comm]
    · simp [hv]
  rw [← addSafelyInt16t_eq hhead] at hqueue
  have hback : ∀ u, (Function.update d.role t (Role.sleeping c (addSafelyInt16t d.head))
      u).owns → u ≠ t ∧ (d.role u).owns := by
    intro u hu
    by_cases hut : u = t
    · subst hut; simp at hu
    · exact ⟨hut, by simpa [Function.update_of_ne hut] using hu⟩
  refine ⟨⟨hqueue, by simp [h.fifo], ?_, ?_, fun _ _ => by simp, ?_⟩, ?_⟩
  · intro u v hu hv
    exact h.oneOwner u v (hback u hu).2 (hback v hv).2
  · intro u hu
    exact h.exclusive u (hback u hu).2
  · rintro (⟨u, hu⟩ | hcalled)
    · exact h.busy (.inl ⟨u, (hback u hu).2⟩)
    · exact h.busy (.inr hcalled)
  · intro heq
    have hempty := hqueue.head_eq_bottom_iff.mp heq.symm
    simp at hempty

/-- Falling asleep again. -/
theorem resume_sleep (h : Serves d called q) {c : Caller} (ht : d.role t = .woken c k) :
    Serves { d with role := Function.update d.role t (.sleeping c k) } called q := by
  have hback : ∀ u, (Function.update d.role t (Role.sleeping c k) u).owns →
      (d.role u).owns := by
    intro u hu
    by_cases hut : u = t
    · subst hut; simp at hu
    · simpa [Function.update_of_ne hut] using hu
  refine ⟨h.queue.congr fun u k' => ?_, h.fifo, ?_, ?_, ?_, ?_⟩
  · by_cases hut : u = t
    · subst hut; simp [ht]
    · simp [Function.update_of_ne hut]
  · intro u v hu hv
    exact h.oneOwner u v (hback u hu) (hback v hv)
  · intro u hu
    exact h.exclusive u (hback u hu)
  · intro u hu
    by_cases hut : u = t
    · subst hut; simp at hu
    · exact h.pending u (by simpa [Function.update_of_ne hut] using hu)
  · rintro (⟨u, hu⟩ | hcalled)
    · exact h.busy (.inl ⟨u, hback u hu⟩)
    · exact h.busy (.inr hcalled)

/-- **The called thread goes on** and is the owner from then on. -/
theorem proceed (h : Serves d called q) {c : Caller} (ht : d.role t = .woken c d.bottom) :
    called = some t ∧
      Serves { d with role := Function.update d.role t (.granted c),
                      served := d.served ++ [t] } none q := by
  have hcalled : called = some t :=
    h.queue.called_iff.mp (by simp [ht])
  have hnone : ∀ u, (d.role u).owns = false := by
    intro u
    by_contra hown
    have := h.exclusive u (by simpa using hown)
    simp [hcalled] at this
  have hself : ∀ u, (Function.update d.role t (Role.granted c) u).owns → u = t := by
    intro u hu
    by_contra hut
    simp [Function.update_of_ne hut, hnone u] at hu
  refine ⟨hcalled, ?_⟩
  subst hcalled
  refine ⟨h.queue.leave fun u k => ?_, by simp [h.fifo], ?_, fun _ _ => rfl, ?_,
    fun _ => h.busy (.inr (by simp))⟩
  · by_cases hut : u = t
    · subst hut; simp
    · simp [hut]
  · intro u v hu hv
    rw [hself u hu, hself v hv]
  · intro u hu
    by_cases hut : u = t
    · subst hut
      exact absurd (by simpa using hu) (Role.granted_ne_calling c)
    · exact h.pending u (by simpa [Function.update_of_ne hut] using hu)

/-- **Calling the next ticket** lets the front of the queue own the entity. -/
theorem handOver (h : Serves d called (u :: q)) (ht : (d.role t).owns)
    {role' : τ → Role} {w : Option τ} (hs : Signals d.role w role') :
    called = none ∧
      Serves { d with bottom := addSafelyInt16t d.bottom,
                      role := Function.update role' t .away } (some u) q := by
  have hnone := h.exclusive t ht
  subst hnone
  have hother : ∀ v, (Function.update role' t Role.away v).owns = false := by
    intro v
    by_cases hvt : v = t
    · subst hvt; simp
    · rw [Function.update_of_ne hvt, owns_signals hs]
      exact h.not_owns_of_ne ht hvt
  refine ⟨rfl, ⟨?_, by simpa using h.fifo, ?_, ?_, ?_, fun _ => h.busy (.inl ⟨t, ht⟩)⟩⟩
  · rw [addSafelyInt16t_eq h.queue.bottom_lt]
    refine h.queue.call.congr fun v k => ?_
    by_cases hvt : v = t
    · subst hvt
      simp [Role.ticket_of_owns ht]
    · simp [Function.update_of_ne hvt, ticket_signals hs]
  · intro v _ hv
    simp [hother v] at hv
  · intro v hv
    simp [hother v] at hv
  · intro v hv
    have := hother v
    rw [show Function.update role' t Role.away v = .calling from hv] at this
    simp at this

end Serves

/-! ## The invariant of a run -/

section Runs

variable [Fintype τ] {a : DeskAction τ}

/-- The threads that wait with a ticket. -/
def waiters (d : Desk τ) : Finset τ := Finset.univ.filter fun u => (d.role u).ticket.isSome

/-- Nobody takes a ticket when 2^15 - 1 threads already have one. -/
def HasRoom (d : Desk τ) : DeskAction τ → Prop
  | .take _ => d.waiters.card + 1 < tickets
  | _ => True

/-- The queue is no longer than the threads that wait. -/
theorem Serves.length_le (h : Serves d called q) : q.length ≤ d.waiters.card := by
  have hnodup := (List.nodup_append.mp h.queue.nodup).2.1
  rw [← List.toFinset_card_of_nodup hnodup]
  refine Finset.card_le_card fun u hu => ?_
  obtain ⟨k, hk⟩ := h.queue.waits_of_mem (List.mem_append_right _ (by simpa using hu))
  simp [waiters, hk]

/-- **One step keeps a queue behind the counters.** -/
theorem Step.serves (h : Serves d called q) (hroom : d.HasRoom a) (hs : Step d a d') :
    ∃ called' q', Serves d' called' q' := by
  cases hs with
  | acquire ht hlist => exact ⟨called, q, h.acquire ht hlist⟩
  | enqueue ht _ _ =>
      exact ⟨called, q, h.of_outsider (by simp [ht]) rfl rfl⟩
  | take ht =>
      rename_i t c
      have hlen := h.length_le
      have hroom' : d.waiters.card + 1 < tickets := hroom
      obtain ⟨hserves, hne⟩ := h.take ht (by omega)
      refine ⟨called, q ++ [t], ?_⟩
      rw [check, if_neg hne]
      exact hserves
  | recheck ht _ =>
      rename_i t c k _
      by_cases hk : d.bottom = k
      · subst hk
        refine ⟨none, q, ?_⟩
        rw [check, if_pos rfl]
        exact (h.proceed ht).2
      · refine ⟨called, q, ?_⟩
        rw [check, if_neg hk]
        exact h.resume_sleep ht
  | parkFree ht _ => exact ⟨called, q, h.park (by simp [ht]) freelist⟩
  | pass ht hne => exact ⟨called, q, h.pass ht hne⟩
  | call ht _ hsig =>
      cases q with
      | nil => exact absurd rfl (h.pending _ ht)
      | cons u q => exact ⟨some u, q, (h.handOver (by simp [ht]) hsig).2⟩
  | parkLoaded ht _ _ => exact ⟨called, q, h.park (by simp [ht]) loadedlist⟩
  | passLoaded ht _ hne hsig =>
      cases q with
      | nil => exact absurd (h.queue.head_eq_bottom_iff.mpr rfl) hne
      | cons u q => exact ⟨some u, q, (h.handOver (by simp [ht]) hsig).2⟩
  | give ht hu => exact ⟨called, q, h.give ht hu⟩
  | evict ht => exact ⟨called, q, h.park (by simp [ht]) freelist⟩
  | drain hlist => exact ⟨called, q, h.drain hlist⟩

/-- **The counters always stand for a queue**, as long as there is room. -/
theorem serves_of_reachable (h : (system τ).ReachableUnder HasRoom d) :
    ∃ called q, Serves d called q := by
  apply h.invariant
  · intro d hinit
    exact ⟨none, [], IsFresh.serves hinit⟩
  · rintro d a d' ⟨called, q, hserves⟩ hroom hs
    exact Step.serves hserves hroom hs

/-! ## No waiter is left behind -/

/-- The entity is never parked in front of a waiter. -/
structure HandsOff (d : Desk τ) : Prop where
  /-- At most one thread has the entity. -/
  oneHolder : ∀ u v, (d.role u).owns → (d.role v).owns → u = v
  /-- When somebody has queued, the entity is taken or was just granted. -/
  attended : d.head ≠ d.bottom →
    d.list = busylist ∨ ∃ u, (d.role u).ticket = some d.bottom
  /-- It lies on no other list while somebody waits. -/
  notParked : ∀ u k, (d.role u).ticket = some k → d.list = busylist
  /-- A holder that releases it finds the counters different. -/
  passedOn : ∀ t u k, d.role t = .holding → (d.role u).ticket = some k →
    d.head ≠ d.bottom

/-- The steps of the five functions after which a release finds every waiter:
`set_free` does not make its test between another thread's search and its
ticket, nobody queues for an entity that is not taken, and there is room. -/
def FindsWaiters (d : Desk τ) : DeskAction τ → Prop
  | .take _ => d.waiters.card + 1 < tickets
  | .enqueue _ _ => d.list = busylist
  | .parkFree _ => d.Unlocked
  | .evict _ => False
  | .drain => False
  | _ => True

theorem FindsWaiters.hasRoom (h : d.FindsWaiters a) : d.HasRoom a := by
  cases a <;> first | exact h | trivial

/-- When the entity lies ready, nobody waits for it and nobody is about to. -/
def Attended (d : Desk τ) (q : List τ) : Prop :=
  d.list ≠ busylist → q = [] ∧ d.Unlocked

/-- A thread that is not `queueing` does not lock the desk. -/
theorem Unlocked.update (h : d.Unlocked) {r : Role} (hr : ∀ c, r ≠ .queueing c) :
    ∀ u c, Function.update d.role t r u ≠ .queueing c := by
  intro u c
  by_cases hut : u = t
  · subst hut; simpa using hr c
  · simpa [Function.update_of_ne hut] using h u c

/-- **One step of the five functions leaves no waiter behind.** -/
theorem Step.attended (h : Serves d called q) (hatt : d.Attended q)
    (hok : d.FindsWaiters a) (hs : Step d a d') :
    ∃ called' q', Serves d' called' q' ∧ d'.Attended q' := by
  obtain ⟨called', q', h'⟩ := Step.serves h hok.hasRoom hs
  refine ⟨called', q', h', ?_⟩
  -- a step that leaves the entity on the busy list has nothing to show
  have hbusy : d'.list = busylist → d'.Attended q' := fun hl hne => absurd hl hne
  have howner : ∀ t r, d.role t = r → r.owns → d.list = busylist := by
    rintro t r rfl hown
    exact h.busy (.inl ⟨t, hown⟩)
  cases hs with
  | acquire _ _ => exact hbusy rfl
  | enqueue _ _ _ => exact hbusy hok
  | take ht =>
      rename_i t c
      apply hbusy
      have hlist : d.list = busylist := by
        by_contra hne
        exact (hatt hne).2 t c ht
      unfold check
      split <;> exact hlist
  | recheck ht _ =>
      rename_i t c k _
      apply hbusy
      have hlist : d.list = busylist := by
        by_contra hne
        obtain ⟨hq, -⟩ := hatt hne
        have hmem := h.queue.mem_of_waits (u := t) (k := k) (by simp [ht])
        rw [(h.idle hne).2, hq] at hmem
        simp at hmem
      unfold check
      split <;> exact hlist
  | parkFree ht heq =>
      intro _
      exact ⟨h'.queue.head_eq_bottom_iff.mp heq.symm, Unlocked.update hok (by simp)⟩
  | pass ht _ => exact hbusy (howner _ _ ht rfl)
  | call ht _ _ => exact hbusy (howner _ _ ht rfl)
  | parkLoaded ht hun heq =>
      intro _
      exact ⟨h'.queue.head_eq_bottom_iff.mp heq, Unlocked.update hun (by simp)⟩
  | passLoaded ht _ _ _ => exact hbusy (howner _ _ ht rfl)
  | give ht _ => exact hbusy (howner _ _ ht rfl)
  | evict _ => exact absurd hok (by simp [FindsWaiters])
  | drain _ => exact absurd hok (by simp [FindsWaiters])

/-- **No hand-off is lost** in a run of the five functions whose every step
finds the waiters. -/
theorem handsOff_of_findsWaiters (h : (system τ).ReachableUnder FindsWaiters d) :
    HandsOff d := by
  obtain ⟨called, q, hserves, hatt⟩ : ∃ called q, Serves d called q ∧ d.Attended q := by
    apply h.invariant
    · intro d hinit
      refine ⟨none, [], IsFresh.serves hinit, fun _ => ⟨rfl, fun u c => ?_⟩⟩
      simp [hinit.role u]
    · rintro d a d' ⟨called, q, hserves, hatt⟩ hok hs
      exact Step.attended hserves hatt hok hs
  have hparked : ∀ u k, (d.role u).ticket = some k → d.list = busylist := by
    intro u k hk
    by_contra hne
    have hmem := hserves.queue.mem_of_waits hk
    rw [(hserves.idle hne).2, (hatt hne).1] at hmem
    simp at hmem
  refine ⟨hserves.oneOwner, fun hne => .inl ?_, hparked, fun t u k ht hk heq => ?_⟩
  · by_contra hlist
    exact hne (hserves.queue.head_eq_bottom_iff.mpr (hatt hlist).1)
  · have hmem := hserves.queue.mem_of_waits hk
    rw [hserves.exclusive t (by simp [ht]), hserves.queue.head_eq_bottom_iff.mp heq] at hmem
    simp at hmem

/-! ## The right waiter is woken -/

/-- Nobody sleeps through the call of its ticket. -/
structure Wakes (d : Desk τ) : Prop where
  /-- A sleeper whose ticket was called has somebody to wait for. -/
  noStall : ∀ u c, d.role u = .sleeping c d.bottom →
    (∃ v, (d.role v).owns) ∨ ∃ v c k, d.role v = .woken c k
  /-- No two threads have the same ticket. -/
  distinct : ∀ u v k, (d.role u).ticket = some k → (d.role v).ticket = some k → u = v
  /-- Threads go on in the order in which they took their tickets. -/
  inOrder : d.served <+: d.took

/-- The steps after which the called thread is awake: the signal of a release
wakes the sleeper whose ticket it calls, and there is room. -/
def WakesNext (d : Desk τ) : DeskAction τ → Prop
  | .take _ => d.waiters.card + 1 < tickets
  | .call _ w => ∃ u c, w = some u ∧ d.role u = .sleeping c (addSafelyInt16t d.bottom)
  | .passLoaded _ w => ∃ u c, w = some u ∧ d.role u = .sleeping c (addSafelyInt16t d.bottom)
  | _ => True

theorem WakesNext.hasRoom (h : d.WakesNext a) : d.HasRoom a := by
  cases a <;> first | exact h | trivial

/-- The called thread is awake. -/
def Awake (d : Desk τ) (called : Option τ) : Prop :=
  ∀ u, called = some u → ∃ c, d.role u = .woken c d.bottom

/-- The signal of a release wakes the front of the queue. -/
theorem Serves.awake_of_handOver (h : Serves d called (u :: q)) (ht : (d.role t).owns)
    {role' : τ → Role} {w : Option τ} (hs : Signals d.role w role')
    (hnext : ∃ u c, w = some u ∧ d.role u = .sleeping c (addSafelyInt16t d.bottom)) :
    ∃ c, Function.update role' t .away u = .woken c (addSafelyInt16t d.bottom) := by
  obtain ⟨v, c, rfl, hv⟩ := hnext
  have hfront : (d.role u).ticket = some (addSafelyInt16t d.bottom) :=
    (h.queue.waits_iff u _).mpr
      (.inr ⟨0, rfl, by rw [addSafelyInt16t_eq h.queue.bottom_lt, ticketAt_zero]⟩)
  obtain rfl : u = v := h.queue.distinct hfront (by simp [hv])
  have hut : u ≠ t := by
    rintro rfl
    simp [Role.ticket_of_owns ht] at hfront
  cases hs with
  | wake hw =>
      rename_i c' k'
      obtain ⟨-, rfl⟩ : c' = c ∧ k' = addSafelyInt16t d.bottom := by simpa [hw] using hv
      exact ⟨c', by simp [Function.update_of_ne hut]⟩

/-- A step of a thread that is not `woken` does not put the called thread back
to sleep. -/
theorem Awake.update (h : d.Awake called) {r : Role} (ht : ∀ c k, d.role t ≠ .woken c k) :
    ∀ u, called = some u → ∃ c, Function.update d.role t r u = .woken c d.bottom := by
  intro u hu
  obtain ⟨c, hc⟩ := h u hu
  have hut : u ≠ t := by rintro rfl; exact ht c d.bottom hc
  exact ⟨c, by simp [Function.update_of_ne hut, hc]⟩

/-- **One step keeps the called thread awake.** -/
theorem Step.awake (h : Serves d called q) (hawake : d.Awake called)
    (hok : d.WakesNext a) (hs : Step d a d') :
    ∃ called' q', Serves d' called' q' ∧ d'.Awake called' := by
  cases hs with
  | acquire ht hlist =>
      exact ⟨called, q, h.acquire ht hlist, hawake.update (by simp [ht])⟩
  | enqueue ht _ _ =>
      exact ⟨called, q, h.of_outsider (by simp [ht]) rfl rfl, hawake.update (by simp [ht])⟩
  | take ht =>
      rename_i t c
      have hlen := h.length_le
      have hroom : d.waiters.card + 1 < tickets := hok
      obtain ⟨hserves, hne⟩ := h.take ht (by omega)
      refine ⟨called, q ++ [t], ?_⟩
      rw [check, if_neg hne]
      exact ⟨hserves, hawake.update (by simp [ht])⟩
  | recheck ht _ =>
      rename_i t c k _
      by_cases hk : d.bottom = k
      · subst hk
        refine ⟨none, q, ?_⟩
        rw [check, if_pos rfl]
        exact ⟨(h.proceed ht).2, by simp [Awake]⟩
      · refine ⟨called, q, ?_⟩
        rw [check, if_neg hk]
        refine ⟨h.resume_sleep ht, fun u hu => ?_⟩
        obtain ⟨c', hc'⟩ := hawake u hu
        have hut : u ≠ t := by
          rintro rfl
          rw [ht] at hc'
          exact hk (Role.woken.inj hc').2.symm
        exact ⟨c', by simp [Function.update_of_ne hut, hc']⟩
  | parkFree ht _ =>
      exact ⟨called, q, h.park (by simp [ht]) freelist, hawake.update (by simp [ht])⟩
  | pass ht hne => exact ⟨called, q, h.pass ht hne, hawake.update (by simp [ht])⟩
  | call ht _ hsig =>
      rename_i t w role' _
      have hown : (d.role t).owns := by simp [ht]
      cases q with
      | nil => exact absurd rfl (h.pending t ht)
      | cons u q =>
          refine ⟨some u, q, (h.handOver hown hsig).2, ?_⟩
          rintro _ ⟨⟩
          exact h.awake_of_handOver hown hsig hok
  | parkLoaded ht _ _ =>
      exact ⟨called, q, h.park (by simp [ht]) loadedlist, hawake.update (by simp [ht])⟩
  | passLoaded ht _ hne hsig =>
      rename_i t w role' _
      have hown : (d.role t).owns := by simp [ht]
      cases q with
      | nil => exact absurd (h.queue.head_eq_bottom_iff.mpr rfl) hne
      | cons u q =>
          refine ⟨some u, q, (h.handOver hown hsig).2, ?_⟩
          rintro _ ⟨⟩
          exact h.awake_of_handOver hown hsig hok
  | give ht hu =>
      rename_i t u
      have hnone := h.exclusive t (by simp [ht])
      exact ⟨called, q, h.give ht hu, by simp [hnone, Awake]⟩
  | evict ht => exact ⟨called, q, h.park (by simp [ht]) freelist, hawake.update (by simp [ht])⟩
  | drain hlist => exact ⟨called, q, h.drain hlist, hawake⟩

/-- Tickets are distinct and served in order as long as there is room. -/
theorem Serves.fair (h : Serves d called q) :
    (∀ u v k, (d.role u).ticket = some k → (d.role v).ticket = some k → u = v) ∧
      d.served <+: d.took :=
  ⟨fun _ _ _ hu hv => h.queue.distinct hu hv, h.fifo ▸ List.prefix_append _ _⟩

/-- **No sleeper misses its call** in a run whose every signal wakes the sleeper
whose ticket is called. -/
theorem wakes_of_wakesNext (h : (system τ).ReachableUnder WakesNext d) : Wakes d := by
  obtain ⟨called, q, hserves, hawake⟩ : ∃ called q, Serves d called q ∧ d.Awake called := by
    apply h.invariant
    · intro d hinit
      exact ⟨none, [], IsFresh.serves hinit, by simp [Awake]⟩
    · rintro d a d' ⟨called, q, hserves, hawake⟩ hok hs
      exact Step.awake hserves hawake hok hs
  refine ⟨fun u c hu => ?_, hserves.fair.1, hserves.fair.2⟩
  have hcalled : called = some u := hserves.queue.called_iff.mp (by simp [hu])
  obtain ⟨c', hc'⟩ := hawake u hcalled
  simp [hu] at hc'

end Runs

end Desk

end VlbiStreamer.ResourceTree
