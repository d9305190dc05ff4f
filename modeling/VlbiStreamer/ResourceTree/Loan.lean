import VlbiStreamer.ResourceTree.Membranch

/-!
# One memory buffer and the recordings

What the steps of `ResourceTree.Membranch` are to *one* buffer: the hand-off
protocol of `ResourceTree.Desk`, with the `opt` of the buffer beside it.  A
thread that waits for the buffer, or that is about to put it on the free list in
`block_until_free`, has a *claim* on it (`Role.caller`).

`Loan.Sound` is the invariant.  There is at most one claim on a buffer, by a
thread of the recording that the buffer belongs to or last belonged to, and the
buffer stays busy under it.  `Sound.step` says that it survives every step of the
protocol in which `set_free` parks the buffer only while nobody is between
finding it and taking a ticket.  `Owed.step` follows a buffer that a call of
`block_until_free` has to clear.
-/

set_option linter.unusedSectionVars false

namespace VlbiStreamer.ResourceTree

open Library BranchList

/-! ## Claims -/

/-- The function in which a thread has a claim on the entity. -/
def Role.caller : Role → Option Caller
  | .queueing c => some c
  | .sleeping c _ => some c
  | .woken c _ => some c
  | .evicting => some .blockUntilFree
  | _ => none

namespace Role

section Simp

variable (c : Caller) (k : ℕ)

@[simp] theorem caller_away : away.caller = none := rfl
@[simp] theorem caller_queueing : (queueing c).caller = some c := rfl
@[simp] theorem caller_sleeping : (sleeping c k).caller = some c := rfl
@[simp] theorem caller_woken : (woken c k).caller = some c := rfl
@[simp] theorem caller_holding : holding.caller = none := rfl
@[simp] theorem caller_calling : calling.caller = none := rfl
@[simp] theorem caller_evicting : evicting.caller = some .blockUntilFree := rfl

end Simp

/-- A thread with a ticket has a claim. -/
theorem caller_of_ticket {r : Role} {k : ℕ} (h : r.ticket = some k) :
    ∃ c, r.caller = some c := by
  cases r <;> simp_all

/-- Going on with the entity keeps the claim of `block_until_free` only. -/
theorem caller_granted {c c' : Caller} :
    (granted c).caller = some c' ↔ c = .blockUntilFree ∧ c' = .blockUntilFree := by
  cases c <;> simp [granted, eq_comm]

end Role

namespace Desk

variable {τ : Type} [DecidableEq τ] {d d' : Desk τ} {a : DeskAction τ} {u : τ} {c : Caller}

/-- A signal changes no claim. -/
theorem Signals.caller {role role' : τ → Role} {w : Option τ} (hs : Signals role w role')
    (u : τ) : (role' u).caller = (role u).caller := by
  cases hs with
  | nobody => rfl
  | wake hv =>
      rename_i v c k
      by_cases huv : u = v
      · subst huv
        simp [hv]
      · simp [Function.update_of_ne huv]

/-- A signal leaves the holder alone. -/
theorem Signals.holding {role role' : τ → Role} {w : Option τ} (hs : Signals role w role')
    (h : role u = .holding) : role' u = .holding := by
  cases hs with
  | nobody => exact h
  | wake hv =>
      rename_i v c k
      by_cases huv : u = v
      · subst huv
        simp [h] at hv
      · rwa [Function.update_of_ne huv]

/-- A change of one role to one without a claim makes no claim. -/
theorem caller_update {role : τ → Role} {t : τ} {r : Role} (hr : r.caller = none)
    (h : (Function.update role t r u).caller = some c) : (role u).caller = some c := by
  by_cases hut : u = t
  · subst hut
    simp [hr] at h
  · rwa [Function.update_of_ne hut] at h

/-- Testing a ticket makes no claim. -/
theorem caller_check {t : τ} {c' : Caller} {k : ℕ} (ht : (d.role t).caller = some c')
    (h : ((d.check t c' k).role u).caller = some c) : (d.role u).caller = some c := by
  unfold check at h
  by_cases hut : u = t
  · subst hut
    split at h
    · simp only [Function.update_self, Role.caller_granted] at h
      rw [ht, h.1, h.2]
    · simpa [ht] using h
  · split at h <;> simpa [Function.update_of_ne hut] using h

/-- **A claim begins with finding the entity.** -/
theorem Step.caller_before (h : Step d a d') (hu : (d'.role u).caller = some c) :
    (d.role u).caller = some c ∨ a = .enqueue u c := by
  cases h with
  | acquire _ _ => exact .inl (caller_update rfl hu)
  | enqueue ht hun hlist =>
      rename_i t c'
      by_cases hut : u = t
      · subst hut
        simp only [Function.update_self, Role.caller_queueing, Option.some.injEq] at hu
        exact .inr (by rw [hu])
      · exact .inl (by simpa [Function.update_of_ne hut] using hu)
  | take ht =>
      have hold := caller_check (by simp [ht]) hu
      exact .inl hold
  | recheck ht _ => exact .inl (caller_check (by simp [ht]) hu)
  | parkFree _ _ => exact .inl (caller_update rfl hu)
  | pass _ _ => exact .inl (caller_update rfl hu)
  | call _ _ hsig => exact .inl (by rw [← hsig.caller]; exact caller_update rfl hu)
  | parkLoaded _ _ _ => exact .inl (caller_update rfl hu)
  | passLoaded _ _ _ hsig => exact .inl (by rw [← hsig.caller]; exact caller_update rfl hu)
  | give _ _ => exact .inl (caller_update rfl (caller_update rfl hu))
  | evict _ => exact .inl (caller_update rfl hu)
  | drain _ => exact .inl hu

/-- A change of the role of a thread without a claim ends no claim. -/
theorem caller_update_of_none {role : τ → Role} {t : τ} {r : Role}
    (ht : (role t).caller = none) (hu : (role u).caller = some c) :
    (Function.update role t r u).caller = some c := by
  have hut : u ≠ t := by
    rintro rfl
    simp [ht] at hu
  rwa [Function.update_of_ne hut]

/-- Testing a ticket does not end the claim of `block_until_free`. -/
theorem blocking_check {t : τ} {c' : Caller} {k : ℕ} (ht : (d.role t).caller = some c')
    (hu : (d.role u).caller = some .blockUntilFree) :
    ((d.check t c' k).role u).caller = some .blockUntilFree := by
  unfold check
  by_cases hut : u = t
  · subst hut
    obtain rfl := Option.some.inj (ht.symm.trans hu)
    split <;> simp [Role.granted]
  · split <;> simpa [Function.update_of_ne hut] using hu

/-- **The claim of `block_until_free` ends when it moves the entity.** -/
theorem Step.caller_after (h : Step d a d') (hu : (d.role u).caller = some .blockUntilFree) :
    (d'.role u).caller = some .blockUntilFree ∨ a = .evict u := by
  cases h with
  | acquire ht _ => exact .inl (caller_update_of_none (by simp [ht]) hu)
  | enqueue ht _ _ => exact .inl (caller_update_of_none (by simp [ht]) hu)
  | take ht => exact .inl (blocking_check (by simp [ht]) hu)
  | recheck ht _ => exact .inl (blocking_check (by simp [ht]) hu)
  | parkFree ht _ => exact .inl (caller_update_of_none (by simp [ht]) hu)
  | pass ht _ => exact .inl (caller_update_of_none (by simp [ht]) hu)
  | call ht _ hsig =>
      refine .inl (caller_update_of_none ?_ ?_)
      · simp [hsig.caller, ht]
      · rwa [hsig.caller]
  | parkLoaded ht _ _ => exact .inl (caller_update_of_none (by simp [ht]) hu)
  | passLoaded ht _ _ hsig =>
      refine .inl (caller_update_of_none ?_ ?_)
      · simp [hsig.caller, ht]
      · rwa [hsig.caller]
  | give ht hv =>
      rename_i t v
      have htv : (Function.update d.role t Role.away v).caller = none := by
        by_cases hvt : v = t
        · subst hvt; simp
        · simp [Function.update_of_ne hvt, hv]
      exact .inl (caller_update_of_none htv (caller_update_of_none (by simp [ht]) hu))
  | evict ht =>
      rename_i t
      by_cases hut : u = t
      · exact .inr (by rw [hut])
      · exact .inl (by simpa [Function.update_of_ne hut] using hu)
  | drain _ => exact .inl hu

/-- The list an action of the protocol leaves the entity on. -/
def listAfter (d : Desk τ) : DeskAction τ → BranchList
  | .acquire _ => busylist
  | .parkFree _ | .evict _ | .drain => freelist
  | .parkLoaded _ => loadedlist
  | _ => d.list

theorem Step.list (h : Step d a d') : d'.list = d.listAfter a := by
  cases h with
  | take ht => unfold check; split <;> rfl
  | recheck ht _ => unfold check; split <;> rfl
  | _ => rfl

/-- A holder loses the entity by giving it away. -/
def GivesAway (u : τ) : DeskAction τ → Prop
  | .parkFree t | .pass t | .parkLoaded t | .passLoaded t _ | .give t _ => u = t
  | _ => False

/-- A change of the role of another thread leaves the holder alone. -/
theorem holding_update {role : τ → Role} {t : τ} {r : Role} (hut : u ≠ t)
    (h : role u = .holding) : Function.update role t r u = .holding := by
  rwa [Function.update_of_ne hut]

theorem Step.holding (h : Step d a d') (hu : d.role u = .holding) (ha : ¬ GivesAway u a) :
    d'.role u = .holding := by
  have hne : ∀ {t : τ}, d.role t ≠ .holding → u ≠ t := by
    rintro t ht rfl
    exact ht hu
  have hcheck : ∀ {t : τ} {e : Desk τ} {c k}, u ≠ t → e.role u = .holding →
      (e.check t c k).role u = .holding := by
    intro t e c k hut he
    unfold check
    split <;> exact holding_update hut he
  cases h with
  | acquire ht _ => exact holding_update (hne (by simp [ht])) hu
  | enqueue ht _ _ => exact holding_update (hne (by simp [ht])) hu
  | take ht => exact hcheck (hne (by simp [ht])) hu
  | recheck ht _ => exact hcheck (hne (by simp [ht])) hu
  | parkFree _ _ => exact holding_update ha hu
  | pass _ _ => exact holding_update ha hu
  | call ht _ hsig => exact holding_update (hne (by simp [ht])) (hsig.holding hu)
  | parkLoaded _ _ _ => exact holding_update ha hu
  | passLoaded _ _ _ hsig => exact holding_update ha (hsig.holding hu)
  | give _ hv => exact holding_update (hne (by simp [hv])) (holding_update ha hu)
  | evict ht => exact holding_update (hne (by simp [ht])) hu
  | drain _ => exact hu

end Desk

/-! ## One buffer -/

/-- The thread that calls a function for an `opt`. -/
def Caller.party {ω : Type} (β : Type) : Caller → ω → Party ω β
  | .blockUntilFree, o => .vlbistreamer o
  | _, o => .streamer o

/-- A buffer, as the recordings see it. -/
structure Loan (ω β : Type) where
  desk : Desk (Party ω β)
  opt : Option ω
  acquiring : Option ω

namespace Loan

variable {ω β : Type} [DecidableEq ω] [DecidableEq β]

/-- The thread has a claim on the buffer. -/
def Claims (l : Loan ω β) (u : Party ω β) (c : Caller) : Prop :=
  (l.desk.role u).caller = some c

/-- What the program asks for before a step of the protocol. -/
def Admits (phase : ω → Phase) (l : Loan ω β) : DeskAction (Party ω β) → Prop
  | .acquire t => ∃ o, t = .streamer o ∧ phase o = .running
  | .enqueue t c => c ≠ .getSpecific ∧ Alive phase t ∧
      ∃ o, t = c.party β o ∧ l.opt = some o ∧ (c = .getLoaded → l.acquiring ≠ some o)
  | .parkFree _ => l.desk.Unlocked ∧ l.acquiring = none
  | .pass _ | .parkLoaded _ | .passLoaded _ _ | .give _ _ => l.acquiring = none
  | _ => True

/-- The steps that run `release`. -/
def Releases : DeskAction (Party ω β) → Prop
  | .parkFree _ | .pass _ | .evict _ | .drain => True
  | _ => False

/-- `get_free` takes the buffer for this `opt`. -/
def takenFor (l : Loan ω β) : DeskAction (Party ω β) → Option ω
  | .acquire (.streamer o) => if l.desk.list = freelist then some o else l.acquiring
  | _ => l.acquiring

/-- A step of the program on the buffer. -/
structure Step (phase : ω → Phase) (l : Loan ω β) (d : DeskAction (Party ω β))
    (l' : Loan ω β) : Prop where
  desk : Desk.Step l.desk d l'.desk
  admits : l.Admits phase d
  released : Releases d → l'.opt = none
  kept : ¬ Releases d → l'.opt = l.opt
  acquiring : l'.acquiring = l.takenFor d

/-- **The invariant of a buffer.** -/
structure Sound (phase : ω → Phase) (l : Loan ω β) : Prop where
  serves : ∃ called q, l.desk.Serves called q
  oneClaim : ∀ u v c c', l.Claims u c → l.Claims v c' → u = v
  busy : ∀ u c, l.Claims u c → l.desk.list = busylist ∧ l.acquiring = none
  party : ∀ u c, l.Claims u c → ∃ o, u = c.party β o ∧ (l.opt = none ∨ l.opt = some o)
  alive : ∀ u c, l.Claims u c → Alive phase u
  acquired : ∀ o, l.acquiring = some o →
    l.desk.role (.streamer o) = .holding ∧ phase o = .running
  stale : l.desk.list = freelist ∨ l.acquiring ≠ none →
    ∀ o, l.opt = some o → Membranch.Stale phase o
  live : l.desk.list ≠ freelist → ∀ o, l.opt = some o → phase o ≠ .returned

variable {phase : ω → Phase} {l l' : Loan ω β} {d : DeskAction (Party ω β)}

namespace Sound

/-- A parked buffer has no claim on it. -/
theorem unclaimed (h : l.Sound phase) {t : Party ω β} (ht : l.desk.role t = .holding)
    (heq : l.desk.head = l.desk.bottom) (hun : l.desk.Unlocked) (u : Party ω β) (c : Caller) :
    ¬ l.Claims u c := by
  intro hu
  obtain ⟨called, q, hq⟩ := h.serves
  have hnone := hq.exclusive t (by simp [ht])
  have hempty := hq.queue.head_eq_bottom_iff.mp heq
  have hticket : ∀ k, (l.desk.role u).ticket ≠ some k := by
    intro k hk
    have hmem := hq.queue.mem_of_waits hk
    simp [hnone, hempty] at hmem
  unfold Claims at hu
  cases hr : l.desk.role u with
  | away => simp [hr] at hu
  | queueing c => exact hun u c hr
  | sleeping c k => exact hticket k (by simp [hr])
  | woken c k => exact hticket k (by simp [hr])
  | holding => simp [hr] at hu
  | calling => simp [hr] at hu
  | evicting =>
      have hut := hq.oneOwner u t (by simp [hr]) (by simp [ht])
      subst hut
      simp [hr] at ht

/-- At most one thread waits, so there is room for its ticket. -/
theorem hasRoom [Fintype ω] [Fintype β] (h : l.Sound phase) (d : DeskAction (Party ω β)) :
    l.desk.HasRoom d := by
  cases d with
  | take t =>
      have hone : l.desk.waiters.card ≤ 1 := by
        apply Finset.card_le_one.mpr
        intro u hu v hv
        obtain ⟨k, hk⟩ := Option.isSome_iff_exists.mp (Finset.mem_filter.mp hu).2
        obtain ⟨k', hk'⟩ := Option.isSome_iff_exists.mp (Finset.mem_filter.mp hv).2
        obtain ⟨c, hc⟩ := Role.caller_of_ticket hk
        obtain ⟨c', hc'⟩ := Role.caller_of_ticket hk'
        exact h.oneClaim u v c c' hc hc'
      have hmany : 2 < Desk.tickets := by decide
      show l.desk.waiters.card + 1 < Desk.tickets
      omega
  | _ => trivial

/-- Two running threads with a claim in the name of one `opt` are one thread. -/
theorem party_unique {u v : Party ω β} {c c' : Caller} {o : ω} (hu : u = c.party β o)
    (hv : v = c'.party β o) (hau : Alive phase u) (hav : Alive phase v) : u = v := by
  subst hu hv
  cases c <;> cases c' <;> simp_all [Caller.party, Alive]

/-- A buffer that carries the `opt` of a recording is in nobody's `get_free`, but
perhaps in the recording's own. -/
theorem acquiring_of_opt (h : l.Sound phase) {o : ω} (hphase : phase o ≠ .idle)
    (hopt : l.opt = some o) :
    l.acquiring = none ∨ (l.acquiring = some o ∧ phase o = .running) := by
  cases hacq : l.acquiring with
  | none => exact .inl rfl
  | some o' =>
      right
      obtain ⟨-, hrunning⟩ := h.acquired o' hacq
      rcases h.stale (.inr (by simp [hacq])) o hopt with hidle | honly
      · exact absurd hidle hphase
      · obtain rfl := honly o' (by simp [hrunning])
        exact ⟨rfl, hrunning⟩

/-- A thread that finds the buffer finds nobody in the middle of taking it. -/
theorem not_acquiring (h : l.Sound phase) {t : Party ω β} {c : Caller} {o : ω}
    (ht : t = c.party β o) (halive : Alive phase t) (hopt : l.opt = some o)
    (hsettled : c ≠ .blockUntilFree → l.acquiring ≠ some o) : l.acquiring = none := by
  have hphase : phase o ≠ .idle := by
    subst ht
    intro hidle
    cases c <;> simp [Caller.party, Alive, hidle] at halive
  rcases h.acquiring_of_opt hphase hopt with hnone | ⟨hsome, hrunning⟩
  · exact hnone
  · cases c with
    | getSpecific => exact absurd hsome (hsettled (by simp))
    | getLoaded => exact absurd hsome (hsettled (by simp))
    | blockUntilFree =>
        subst ht
        exact absurd (hrunning.symm.trans halive) (by simp)

/-- The claims after a step are those before it, or of a thread that finds the
buffer. -/
theorem claim_before (hs : Step phase l d l') {u : Party ω β} {c : Caller}
    (hu : l'.Claims u c) : l.Claims u c ∨ d = .enqueue u c :=
  hs.desk.caller_before hu

/-- **A step leaves at most one claim.** -/
theorem oneClaim_step (h : l.Sound phase) (hs : Step phase l d l') {u v : Party ω β}
    {c c' : Caller} (hu : l'.Claims u c) (hv : l'.Claims v c') : u = v := by
  have hnew : ∀ {u v : Party ω β} {c c' : Caller}, d = .enqueue u c → l.Claims v c' →
      u = v := by
    rintro u v c c' rfl hv
    obtain ⟨-, halive, o, hu, hopt, -⟩ := hs.admits
    obtain ⟨o', hv', hopt'⟩ := h.party v c' hv
    have ho : o' = o := by
      rcases hopt' with hnone | hsome
      · simp [hopt] at hnone
      · exact Option.some.inj (hsome.symm.trans hopt)
    subst ho
    exact party_unique hu hv' halive (h.alive v c' hv)
  rcases claim_before hs hu with hu | hu <;> rcases claim_before hs hv with hv | hv
  · exact h.oneClaim u v c c' hu hv
  · exact (hnew hv hu).symm
  · exact hnew hu hv
  · rw [hu] at hv
    cases hv
    rfl

/-- A step that leaves the buffer on another list leaves no claim on it. -/
theorem unclaimed_after (h : l.Sound phase) (hs : Step phase l d l')
    (hlist : l'.desk.list ≠ busylist) (u : Party ω β) (c : Caller) : ¬ l'.Claims u c := by
  intro hu
  have hafter := hs.desk.list
  rcases claim_before hs hu with hold | rfl
  · have hbusy := (h.busy u c hold).1
    cases d with
    | parkFree t =>
        obtain ⟨ht, heq⟩ := hs.desk.of_parkFree
        exact h.unclaimed ht heq.symm hs.admits.1 u c hold
    | parkLoaded t =>
        obtain ⟨ht, hun, heq⟩ := hs.desk.of_parkLoaded
        exact h.unclaimed ht heq hun u c hold
    | evict t =>
        obtain ⟨ht, haway⟩ := hs.desk.of_evict
        have hut : u = t := h.oneClaim u t c .blockUntilFree hold (by simp [Claims, ht])
        subst hut
        simp [Claims, haway] at hu
    | drain => simp [hs.desk.of_drain] at hbusy
    | acquire t => exact hlist hafter
    | _ => exact hlist (hafter.trans hbusy)
  · obtain ⟨hc, -⟩ := hs.admits
    rcases hs.desk.of_enqueue with hbusy | ⟨hspecific, -⟩
    · exact hlist (hafter.trans hbusy)
    · exact hc hspecific

/-- What a thread has a claim on belongs to its recording. -/
theorem party_step (h : l.Sound phase) (hs : Step phase l d l') {u : Party ω β} {c : Caller}
    (hu : l'.Claims u c) : ∃ o, u = c.party β o ∧ (l'.opt = none ∨ l'.opt = some o) := by
  by_cases hd : Releases d
  · have hold : l.Claims u c := by
      rcases claim_before hs hu with hold | rfl
      · exact hold
      · exact hd.elim
    obtain ⟨o, ho, -⟩ := h.party u c hold
    exact ⟨o, ho, .inl (hs.released hd)⟩
  · rw [hs.kept hd]
    rcases claim_before hs hu with hold | rfl
    · exact h.party u c hold
    · obtain ⟨-, -, o, ho, hopt, -⟩ := hs.admits
      exact ⟨o, ho, .inr hopt⟩

/-- While somebody has a claim on the buffer, `get_free` is not about to acquire
it. -/
theorem settled_step (h : l.Sound phase) (hs : Step phase l d l') {u : Party ω β}
    {c : Caller} (hu : l'.Claims u c) : l'.acquiring = none := by
  rw [hs.acquiring]
  rcases claim_before hs hu with hold | rfl
  · obtain ⟨hbusy, hnone⟩ := h.busy u c hold
    cases d with
    | acquire t => exact absurd hbusy hs.desk.of_acquire.2.1
    | _ => exact hnone
  · obtain ⟨-, halive, o, ho, hopt, hsettled⟩ := hs.admits
    refine h.not_acquiring ho halive hopt fun hc => ?_
    cases c with
    | getSpecific => exact absurd rfl (hs.admits.1)
    | getLoaded => exact hsettled rfl
    | blockUntilFree => exact absurd rfl hc

/-- The thread that `get_free` has taken the buffer for holds it. -/
theorem acquired_step (h : l.Sound phase) (hs : Step phase l d l') {o : ω}
    (ho : l'.acquiring = some o) :
    l'.desk.role (.streamer o) = .holding ∧ phase o = .running := by
  rw [hs.acquiring] at ho
  have hkeep : ∀ {o : ω}, l.acquiring = some o → ¬ Desk.GivesAway (.streamer o) d →
      l'.desk.role (.streamer o) = .holding ∧ phase o = .running := by
    intro o ho hgive
    obtain ⟨hhold, hphase⟩ := h.acquired o ho
    exact ⟨hs.desk.holding hhold hgive, hphase⟩
  have hadmits := hs.admits
  cases d with
  | acquire t =>
      obtain ⟨o', rfl, hphase⟩ := hadmits
      by_cases hfree : l.desk.list = freelist
      · simp only [takenFor, if_pos hfree, Option.some.injEq] at ho
        subst ho
        exact ⟨hs.desk.of_acquire.2.2, hphase⟩
      · simp only [takenFor, if_neg hfree] at ho
        exact hkeep ho (by simp [Desk.GivesAway])
  | parkFree t => exact absurd (hadmits.2.symm.trans ho) (by simp)
  | pass t => exact absurd (hadmits.symm.trans ho) (by simp)
  | parkLoaded t => exact absurd (hadmits.symm.trans ho) (by simp)
  | passLoaded t w => exact absurd (hadmits.symm.trans ho) (by simp)
  | give t u => exact absurd (hadmits.symm.trans ho) (by simp)
  | _ => exact hkeep ho (by simp [Desk.GivesAway])

/-- Where the buffer was when a step leaves it free, or in the hands of `get_free`. -/
theorem free_before (hs : Step phase l d l') (hd : ¬ Releases d)
    (hfree : l'.desk.list = freelist ∨ l'.acquiring ≠ none) :
    l.desk.list = freelist ∨ l.acquiring ≠ none := by
  rw [hs.desk.list, hs.acquiring] at hfree
  cases d with
  | acquire t =>
      by_cases hlist : l.desk.list = freelist
      · exact .inl hlist
      · cases t <;> simp_all [takenFor, Desk.listAfter]
  | parkFree t => exact absurd trivial hd
  | evict t => exact absurd trivial hd
  | drain => exact absurd trivial hd
  | parkLoaded t => exact .inr (by simpa [takenFor, Desk.listAfter] using hfree)
  | _ => exact hfree

/-- A buffer that is not free carries the `opt` of a recording that has not
returned. -/
theorem live_step (h : l.Sound phase) (hs : Step phase l d l')
    (hlist : l'.desk.list ≠ freelist) {o : ω} (ho : l'.opt = some o) :
    phase o ≠ .returned := by
  have hd : ¬ Releases d := by
    intro hd
    simp [hs.released hd] at ho
  rw [hs.kept hd] at ho
  by_cases hfree : l.desk.list = freelist
  · have hadmits := hs.admits
    have hafter := hs.desk.list
    cases d with
    | acquire t =>
        obtain ⟨o', -, hphase⟩ := hadmits
        rcases h.stale (.inl hfree) o ho with hidle | honly
        · simp [hidle]
        · obtain rfl := honly o' (by simp [hphase])
          simp [hphase]
    | parkLoaded t =>
        obtain ⟨ht, -⟩ := hs.desk.of_parkLoaded
        obtain ⟨called, q, hq⟩ := h.serves
        have hbusy := hq.busy (.inl ⟨t, by simp [ht]⟩)
        simp [hfree] at hbusy
    | parkFree t => exact absurd trivial hd
    | evict t => exact absurd trivial hd
    | drain => exact absurd trivial hd
    | _ => exact absurd (hafter.trans hfree) hlist
  · exact h.live hfree o ho

/-- **Every step of the program keeps the invariant of the buffer.** -/
theorem step [Fintype ω] [Fintype β] (h : l.Sound phase) (hs : Step phase l d l') :
    l'.Sound phase where
  serves := by
    obtain ⟨called, q, hq⟩ := h.serves
    exact Desk.Step.serves hq (h.hasRoom d) hs.desk
  oneClaim u v c c' hu hv := h.oneClaim_step hs hu hv
  busy u c hu := by
    refine ⟨?_, h.settled_step hs hu⟩
    by_contra hlist
    exact h.unclaimed_after hs hlist u c hu
  party u c hu := h.party_step hs hu
  alive u c hu := by
    rcases claim_before hs hu with hold | rfl
    · exact h.alive u c hold
    · exact hs.admits.2.1
  acquired o ho := h.acquired_step hs ho
  stale hfree o ho := by
    have hd : ¬ Releases d := by
      intro hd
      simp [hs.released hd] at ho
    rw [hs.kept hd] at ho
    exact h.stale (free_before hs hd hfree) o ho
  live hlist o ho := h.live_step hs hlist ho

/-- A recording gets further. -/
theorem advance (h : l.Sound phase) {o : ω} {p : Phase} (hold : phase o ≠ .idle)
    (hnew : p ≠ .idle)
    (halive : ∀ u c, l.Claims u c → Alive (Function.update phase o p) u)
    (hsettled : l.acquiring ≠ some o)
    (hreturned : p = .returned → l.desk.list ≠ freelist → l.opt ≠ some o) :
    l.Sound (Function.update phase o p) := by
  refine { h with alive := halive, acquired := fun o' ho' => ?_, stale := ?_, live := ?_ }
  · have hne : o' ≠ o := by
      rintro rfl
      exact hsettled ho'
    rw [Function.update_of_ne hne]
    exact h.acquired o' ho'
  · intro hfree o' ho'
    rcases h.stale hfree o' ho' with hidle | honly
    · left
      have hne : o' ≠ o := by
        rintro rfl
        exact hold hidle
      rwa [Function.update_of_ne hne]
    · right
      intro o'' ho''
      by_cases heq : o'' = o
      · subst heq
        exact honly o'' hold
      · rw [Function.update_of_ne heq] at ho''
        exact honly o'' ho''
  · intro hlist o' ho'
    by_cases heq : o' = o
    · subst heq
      rw [Function.update_self]
      intro hp
      exact hreturned hp hlist ho'
    · rw [Function.update_of_ne heq]
      exact h.live hlist o' ho'

/-- `acquire` gives the buffer to the recording that `get_free` took it for. -/
theorem acquire (h : l.Sound phase) {o : ω} (ho : l.acquiring = some o) :
    ({ l with opt := some o, acquiring := none } : Loan ω β).Sound phase := by
  obtain ⟨hhold, hrunning⟩ := h.acquired o ho
  have hnone : ∀ u c, ¬ l.Claims u c := by
    intro u c hu
    simp [(h.busy u c hu).2] at ho
  have hbusy : l.desk.list = busylist := by
    obtain ⟨called, q, hq⟩ := h.serves
    exact hq.busy (.inl ⟨.streamer o, by simp [hhold]⟩)
  refine ⟨h.serves, h.oneClaim, fun u c hu => absurd hu (hnone u c),
    fun u c hu => absurd hu (hnone u c), h.alive, by simp, ?_, ?_⟩
  · rintro (hfree | hacquiring)
    · simp [hbusy] at hfree
    · exact absurd rfl hacquiring
  · rintro - o' ⟨⟩
    simp [hrunning]

end Sound

/-! ## What a call of `block_until_free` has to clear -/

/-- A buffer that the call for `o` found busy or loaded is still the recording's,
or it was released and is free, has been free, or is about to be freed. -/
def Owed (o : ω) (released retaken : Prop) (l : Loan ω β) : Prop :=
  (l.opt = some o ∧ l.desk.list ≠ freelist ∧ l.acquiring = none) ∨
    (released ∧ (l.desk.list = freelist ∨ retaken ∨
      l.Claims (.vlbistreamer o) .blockUntilFree))

/-- `set_free` passes a buffer of the recording on to `block_until_free`. -/
theorem claims_of_pass [Fintype ω] [Fintype β] (h : l.Sound phase) {t : Party ω β}
    (hs : Step phase l (.pass t) l') {o : ω} (hphase : phase o ≠ .running)
    (ho : l.opt = some o) : l'.Claims (.vlbistreamer o) .blockUntilFree := by
  obtain ⟨called, q, hq⟩ := (h.step hs).serves
  obtain ⟨u, hu⟩ := List.exists_mem_of_ne_nil q (hq.pending t hs.desk.of_pass.2)
  obtain ⟨k, hk⟩ := hq.queue.waits_of_mem (List.mem_append_right _ hu)
  obtain ⟨c, hc⟩ := Role.caller_of_ticket hk
  have hold : l.Claims u c := by
    rcases Sound.claim_before hs hc with hold | hd
    · exact hold
    · cases hd
  obtain ⟨o', hparty, hopt⟩ := h.party u c hold
  have hoo : o' = o := by
    rcases hopt with hnone | hsome
    · simp [ho] at hnone
    · exact Option.some.inj (hsome.symm.trans ho)
  subst hoo hparty
  have halive := h.alive _ c hold
  cases c with
  | getSpecific => exact absurd halive hphase
  | getLoaded => exact absurd halive hphase
  | blockUntilFree => exact hc

/-- **A step keeps track of what is owed.** -/
theorem Owed.step [Fintype ω] [Fintype β] {o : ω} {released released' retaken retaken' : Prop}
    (howed : l.Owed o released retaken) (h : l.Sound phase) (hs : Step phase l d l')
    (hphase : phase o ≠ .running) (hreleased : released ∨ Releases d → released')
    (hretaken : retaken ∨ (l.desk.list = freelist ∧ l'.desk.list = busylist) → retaken') :
    l'.Owed o released' retaken' := by
  have hafter := hs.desk.list
  rcases howed with ⟨ho, hlist, hnone⟩ | ⟨hr, hwhere⟩
  · by_cases hd : Releases d
    · refine .inr ⟨hreleased (.inr hd), ?_⟩
      cases d with
      | parkFree t => exact .inl hafter
      | evict t => exact .inl hafter
      | drain => exact .inl hafter
      | pass t => exact .inr (.inr (claims_of_pass h hs hphase ho))
      | _ => exact hd.elim
    · refine .inl ⟨(hs.kept hd).trans ho, ?_, ?_⟩
      · intro hfree
        rcases Sound.free_before hs hd (.inl hfree) with hfree | hne
        · exact hlist hfree
        · exact hne hnone
      · by_contra hne
        rcases Sound.free_before hs hd (.inr hne) with hfree | hne
        · exact hlist hfree
        · exact hne hnone
  · refine .inr ⟨hreleased (.inl hr), ?_⟩
    rcases hwhere with hfree | ht | hclaim
    · cases d with
      | acquire t => exact .inr (.inl (hretaken (.inr ⟨hfree, hafter⟩)))
      | parkLoaded t =>
          obtain ⟨ht, -⟩ := hs.desk.of_parkLoaded
          obtain ⟨called, q, hq⟩ := h.serves
          have hbusy := hq.busy (.inl ⟨t, by simp [ht]⟩)
          simp [hfree] at hbusy
      | parkFree t => exact .inl hafter
      | evict t => exact .inl hafter
      | drain => exact .inl hafter
      | _ => exact .inl (hafter.trans hfree)
    · exact .inr (.inl (hretaken (.inl ht)))
    · rcases hs.desk.caller_after hclaim with hclaim | rfl
      · exact .inr (.inr hclaim)
      · exact .inl hafter

end Loan

end VlbiStreamer.ResourceTree
