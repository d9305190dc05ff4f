import VlbiStreamer.ResourceTree.Loan

/-!
# What `block_until_free` leaves behind

`block_until_free` queues for every busy buffer of its `opt`, like a reader for a
buffer that is being loaded, and puts on the free list what is handed to it.
`leftNothing_of_reachable`: when it returns, it has left nothing behind, in every
run in which `set_free` does not test the counters of a buffer while a thread is
between finding the buffer and taking its ticket.

The code does not keep the two apart.  A ticket that is taken for a buffer that has
just been put on the free list stays with the buffer: the next recording that gets
it hands it over to the thread that waits.  `astray_not_leftNothing` is a run in
which `block_until_free` returns while a buffer that its `opt` had is neither free
nor taken again, `robbed_stolen` one in which it releases the buffer of another
recording.
-/

set_option linter.unusedSectionVars false

namespace VlbiStreamer.ResourceTree

open Library BranchList Lists EntityListBranch

namespace Membranch

variable {ω β : Type} [DecidableEq ω] [DecidableEq β] {s s' : Membranch ω β}
  {a : Action (Party ω β) (Simplebuf ω)} {t : Threads (Party ω β) (Simplebuf ω)} {x : ℕ}
  {o : ω}

/-- The buffer, as the recordings see it. -/
def loan (s : Membranch ω β) (x : ℕ) : Loan ω β where
  desk := s.threads.desk x
  opt := s.opt x
  acquiring := s.acquiring x

/-! ## A region is a step of the protocol on every buffer -/

/-- A region that leaves the buffer to whom it belongs leaves its `opt`. -/
theorem opt_of_spares (hg : Threads.Good s.threads) (hpermits : s.Permits a)
    (hstep : Threads.Step s.threads a t) (hspares : s.threads.Spares x a) :
    (t.branch.heap x).entity.opt = s.opt x := by
  rw [hstep.entity hg x]
  cases a with
  | callback u f en =>
      simp only [Threads.payload]
      split
      · exact hpermits _
      · rfl
  | setFree u release en =>
      simp only [Threads.payload]
      rw [if_neg hspares]
      rfl
  | evict u release en =>
      simp only [Threads.payload]
      rw [if_neg hspares]
      rfl
  | releaseLoaded u identify release =>
      simp only [Threads.payload]
      rw [if_neg hspares]
      rfl
  | _ => rfl

/-- Any other region releases it. -/
theorem opt_of_not_spares (hg : Threads.Good s.threads) (hpermits : s.Permits a)
    (hstep : Threads.Step s.threads a t) (hspares : ¬ s.threads.Spares x a) :
    (t.branch.heap x).entity.opt = none := by
  rw [hstep.entity hg x]
  cases a with
  | setFree u release en =>
      obtain rfl := hpermits.1
      simp only [Threads.payload]
      rw [if_pos (not_not.mp hspares)]
      rfl
  | evict u release en =>
      obtain rfl : release = sbufRelease := hpermits
      simp only [Threads.payload]
      rw [if_pos (not_not.mp hspares)]
      rfl
  | releaseLoaded u identify release =>
      obtain ⟨o, -, -, rfl, -⟩ := hpermits
      simp only [Threads.payload]
      rw [if_pos (not_not.mp hspares)]
      rfl
  | _ => exact absurd trivial hspares

/-- The steps that release the buffer are those of the regions that do. -/
theorem releases_iff {d : DeskAction (Party ω β)} (hx : x ∈ s.threads.branch.live)
    (hmeans : s.threads.Means x a d) {e : Desk (Party ω β)}
    (hstep : Desk.Step (s.threads.desk x) d e) :
    Loan.Releases d ↔ ¬ s.threads.Spares x a := by
  cases a with
  | setFree u release en =>
      obtain ⟨rfl, rfl | rfl⟩ := hmeans <;> simp [Loan.Releases, Threads.Spares]
  | evict u release en =>
      obtain ⟨rfl, rfl⟩ := hmeans
      simp [Loan.Releases, Threads.Spares]
  | releaseLoaded u identify release =>
      obtain ⟨rfl, hid⟩ := hmeans
      simp only [Loan.Releases, Threads.Spares, not_not, true_iff]
      exact ⟨hx, hstep.of_drain, hid⟩
  | getFree u check => obtain ⟨rfl, -⟩ := hmeans; simp [Loan.Releases, Threads.Spares]
  | request u c identify =>
      rcases hmeans with ⟨rfl, -⟩ | ⟨rfl, -⟩ <;> simp [Loan.Releases, Threads.Spares]
  | takeTicket u en => obtain ⟨rfl, rfl⟩ := hmeans; simp [Loan.Releases, Threads.Spares]
  | recheck u en => obtain ⟨rfl, rfl⟩ := hmeans; simp [Loan.Releases, Threads.Spares]
  | callNext u en w => obtain ⟨rfl, rfl⟩ := hmeans; simp [Loan.Releases, Threads.Spares]
  | setLoaded u en w =>
      obtain ⟨rfl, rfl | rfl⟩ := hmeans <;> simp [Loan.Releases, Threads.Spares]
  | give u v en => obtain ⟨rfl, rfl⟩ := hmeans; simp [Loan.Releases, Threads.Spares]
  | callback u f en => exact hmeans.elim

/-- What the program asks for before a region is what the protocol asks for. -/
theorem admits_of_means {d : DeskAction (Party ω β)} (hg : Threads.Good s.threads)
    (hx : x ∈ s.threads.branch.live) (halive : Alive s.phase (thread a)) (hpermits : s.Permits a)
    (hok : s.Undisturbed (.region a)) (hmeans : s.threads.Means x a d)
    {e : Desk (Party ω β)} (hstep : Desk.Step (s.threads.desk x) d e) :
    (s.loan x).Admits s.phase d := by
  obtain ⟨L, hrep⟩ := hg.represents
  cases a with
  | getFree u check =>
      obtain ⟨rfl, -⟩ := hmeans
      obtain ⟨-, o, rfl, -⟩ := hpermits
      exact ⟨o, rfl, halive⟩
  | request u c identify =>
      rcases hpermits with ⟨rfl, o, seq, rfl, hsettled, rfl⟩ | ⟨rfl, o, rfl, rfl, -⟩
      · rcases hmeans with ⟨rfl, -⟩ | ⟨rfl, b, hr⟩
        · exact ⟨o, rfl, halive⟩
        · exact ⟨by simp, halive, o, rfl, opt_of_sbufIdentifySeq (getLoaded_queue hrep hr),
            fun _ => hsettled x hx⟩
      · rcases hmeans with ⟨rfl, b, hr⟩ | ⟨rfl, b, hr⟩
        · rcases blockOnBusy_cases hrep (sbufIdentifyOpt o) with hr' | ⟨en, hr', -⟩
          · cases (Threads.result_inj hr hr').1
          · cases (Threads.result_inj hr hr').1
        · exact ⟨by simp, halive, o, rfl, sbufIdentifyOpt_iff.mp (blockOnBusy_queue hrep hr),
            by simp⟩
  | setFree u release en =>
      obtain ⟨rfl, rfl | rfl⟩ := hmeans
      · exact ⟨hok hstep.of_parkFree.2, hpermits.2⟩
      · exact hpermits.2
  | setLoaded u en w => obtain ⟨rfl, rfl | rfl⟩ := hmeans <;> exact hpermits
  | give u v en => obtain ⟨rfl, rfl⟩ := hmeans; exact hpermits.2
  | takeTicket u en => obtain ⟨rfl, rfl⟩ := hmeans; trivial
  | recheck u en => obtain ⟨rfl, rfl⟩ := hmeans; trivial
  | callNext u en w => obtain ⟨rfl, rfl⟩ := hmeans; trivial
  | callback u f en => exact hmeans.elim
  | evict u release en => obtain ⟨rfl, rfl⟩ := hmeans; trivial
  | releaseLoaded u identify release => obtain ⟨rfl, -⟩ := hmeans; trivial

/-- `get_free` is the only region that takes a buffer for an `opt`. -/
theorem acquiring_of_means {d : DeskAction (Party ω β)} (hg : Threads.Good s.threads)
    (hpermits : s.Permits a) (hmeans : s.threads.Means x a d)
    (hstep : Desk.Step (s.threads.desk x) d (t.desk x)) :
    (s.after a t).acquiring x = (s.loan x).takenFor d := by
  obtain ⟨L, hrep⟩ := hg.represents
  cases a with
  | getFree u check =>
      obtain ⟨rfl, b, hr⟩ := hmeans
      obtain ⟨-, o, rfl, -⟩ := hpermits
      have hfree : s.list x = freelist := getFree_got hrep hr
      have hbusy : (t.branch.heap x).currentBranch = busylist := hstep.list
      show (if s.Takes t x then some o else s.acquiring x) =
        if s.list x = freelist then some o else s.acquiring x
      rw [if_pos ⟨hfree, hbusy⟩, if_pos hfree]
  | request u c identify =>
      rcases hpermits with ⟨rfl, o, seq, rfl, -, rfl⟩ | ⟨rfl, o, rfl, rfl, -⟩
      · rcases hmeans with ⟨rfl, b, hr⟩ | ⟨rfl, -⟩
        · have hloaded : s.list x = loadedlist := getLoaded_got hrep hr
          show s.acquiring x = if s.list x = freelist then some o else s.acquiring x
          rw [hloaded]
          rfl
        · rfl
      · rcases hmeans with ⟨rfl, -⟩ | ⟨rfl, -⟩ <;> rfl
  | takeTicket u en => obtain ⟨rfl, rfl⟩ := hmeans; rfl
  | recheck u en => obtain ⟨rfl, rfl⟩ := hmeans; rfl
  | setFree u release en => obtain ⟨rfl, rfl | rfl⟩ := hmeans <;> rfl
  | callNext u en w => obtain ⟨rfl, rfl⟩ := hmeans; rfl
  | setLoaded u en w => obtain ⟨rfl, rfl | rfl⟩ := hmeans <;> rfl
  | give u v en => obtain ⟨rfl, rfl⟩ := hmeans; rfl
  | callback u f en => exact hmeans.elim
  | evict u release en => obtain ⟨rfl, rfl⟩ := hmeans; rfl
  | releaseLoaded u identify release => obtain ⟨rfl, -⟩ := hmeans; rfl

/-- A region that leaves the buffer on its list is no `get_free` of it. -/
theorem acquiring_of_list (hlist : (t.branch.heap x).currentBranch = s.list x) :
    (s.after a t).acquiring x = s.acquiring x := by
  have hnot : ¬ s.Takes t x := by
    rintro ⟨hfree, hbusy⟩
    rw [hlist, hfree] at hbusy
    cases hbusy
  cases a with
  | getFree u check =>
      cases u with
      | streamer o => exact if_neg hnot
      | vlbistreamer o => rfl
      | buffer b => rfl
  | _ => rfl

/-- What a region is to the buffer `x`. -/
def Plays (s : Membranch ω β) (a : Action (Party ω β) (Simplebuf ω)) (s' : Membranch ω β)
    (x : ℕ) : Prop :=
  (s'.loan x = s.loan x ∧ s.threads.Spares x a) ∨
    ∃ d, s.threads.Means x a d ∧ (s.loan x).Step s.phase d (s'.loan x)

/-- **A region is a step of the protocol** on every buffer, or nothing. -/
theorem plays_region (hg : Threads.Good s.threads)
    (hsound : ∀ x ∈ s.threads.branch.live, (s.loan x).Sound s.phase)
    (halive : Alive s.phase (thread a)) (hpermits : s.Permits a)
    (hok : s.Undisturbed (.region a)) (hstep : Threads.Step s.threads a t) :
    Threads.Good t ∧ t.branch.live = s.threads.branch.live ∧
      ∀ x ∈ s.threads.branch.live, s.Plays a (s.after a t) x := by
  obtain ⟨hg', hlive, hplays⟩ := hstep.plays hg fun x hx => (hsound x hx).serves
  refine ⟨hg', hlive, fun x hx => ?_⟩
  rcases hplays x with ⟨hsame, hspares⟩ | ⟨d, hmeans, hdesk⟩
  · left
    have hlist : (t.branch.heap x).currentBranch = s.list x := congrArg Desk.list hsame
    refine ⟨?_, hspares⟩
    show Loan.mk (t.desk x) (t.branch.heap x).entity.opt ((s.after a t).acquiring x) = _
    rw [hsame, opt_of_spares hg hpermits hstep hspares, acquiring_of_list hlist]
    rfl
  · right
    have hreleases := releases_iff hx hmeans hdesk
    refine ⟨d, hmeans, hdesk, admits_of_means hg hx halive hpermits hok hmeans hdesk, ?_, ?_,
      acquiring_of_means hg hpermits hmeans hdesk⟩
    · intro hd
      exact opt_of_not_spares hg hpermits hstep (hreleases.mp hd)
    · intro hd
      exact opt_of_spares hg hpermits hstep (not_not.mp fun h => hd (hreleases.mpr h))

/-! ## The invariant -/

/-- **The invariant of the memory buffers.** -/
structure Inv (s : Membranch ω β) : Prop where
  good : Threads.Good s.threads
  sound : ∀ x ∈ s.threads.branch.live, (s.loan x).Sound s.phase
  called : ∀ o, ∀ x ∈ s.owed o,
    x ∈ s.threads.branch.live ∧ (s.phase o = .blocking ∨ s.phase o = .returned)
  owed : ∀ o, ∀ x ∈ s.owed o, (s.loan x).Owed o (x ∈ s.released o) (x ∈ s.retaken o)
  spared : ∀ o, s.stolen o = ∅

theorem IsStart.inv (h : IsStart s) : Inv s where
  good := ⟨h.threads.represents, fun t en hrole => absurd (h.threads.away t en) hrole⟩
  sound x hx := by
    have hfresh := h.threads.fresh x hx
    have hnone : ∀ u c, ¬ (s.loan x).Claims u c := by
      intro u c hu
      rw [Loan.Claims, show (s.loan x).desk.role u = .away from h.threads.away u x] at hu
      simp at hu
    refine ⟨⟨none, [], hfresh.serves⟩, fun u v c c' hu => absurd hu (hnone u c),
      fun u c hu => absurd hu (hnone u c), fun u c hu => absurd hu (hnone u c),
      fun u c hu => absurd hu (hnone u c), ?_, fun _ o ho => h.opt x o ho, ?_⟩
    · intro o ho
      exact absurd ((h.acquiring x).symm.trans ho) (by simp)
    · intro hlist
      exact absurd hfresh.list hlist
  called o x hx := by simp [h.owed o] at hx
  owed o x hx := by simp [h.owed o] at hx
  spared := h.stolen

/-- A thread in none of the functions has no claim. -/
theorem unclaimed_of_free {u : Party ω β} (h : s.threads.Free u) (x : ℕ) (c : Caller) :
    ¬ (s.loan x).Claims u c := by
  intro hu
  unfold Loan.Claims at hu
  change (s.threads.role u x).caller = some c at hu
  rcases h x with haway | hholding
  · simp [haway] at hu
  · simp [hholding] at hu

/-- `block_until_free` does not move a buffer of another recording. -/
theorem Inv.not_stolen (h : Inv s) (hpermits : s.Permits a)
    (hstep : Threads.Step s.threads a t) (hevicts : s.Evicts (.vlbistreamer o) x a) :
    ¬ s.OfOther o x := by
  rintro ⟨o', hne, hother⟩
  cases a with
  | evict u release en =>
      obtain ⟨rfl, rfl⟩ := hevicts
      have hrole : s.threads.role (.vlbistreamer o) x = .evicting := by
        cases hstep with
        | evict ht _ => exact ht
      have hclaim : (s.loan x).Claims (.vlbistreamer o) .blockUntilFree := by
        show (s.threads.role (.vlbistreamer o) x).caller = _
        rw [hrole]
        rfl
      have hsound := h.sound x (h.good.known _ x (by rw [hrole]; simp))
      rcases hother with hopt | hacq
      · obtain ⟨o'', hparty, hwhose⟩ := hsound.party _ _ hclaim
        obtain rfl : o = o'' := Party.vlbistreamer.inj hparty
        rcases hwhose with hnone | hsome
        · exact absurd (hnone.symm.trans hopt) (by simp)
        · exact hne (Option.some.inj (hopt.symm.trans hsome))
      · exact absurd ((hsound.busy _ _ hclaim).2.symm.trans hacq) (by simp)
  | releaseLoaded u identify release =>
      obtain ⟨rfl, hfound⟩ := hevicts
      obtain ⟨o'', hparty, rfl, -, -⟩ := hpermits
      obtain rfl := Party.vlbistreamer.inj hparty
      obtain ⟨hx, hloaded, hid⟩ := not_not.mp hfound
      rcases hother with hopt | hacq
      · exact hne (Option.some.inj (hopt.symm.trans (sbufIdentifyOpt_iff.mp hid)))
      · have hsound := h.sound x hx
        obtain ⟨hholding, -⟩ := hsound.acquired o' hacq
        obtain ⟨called, q, hq⟩ := hsound.serves
        have hbusy := hq.busy (.inl ⟨.streamer o', by simp [hholding]⟩)
        exact absurd (hloaded.symm.trans hbusy) (by simp)
  | _ => exact hevicts.elim

/-- A step of the protocol is logged. -/
theorem owed_region {d : DeskAction (Party ω β)} [Fintype ω] [Fintype β] (h : Inv s)
    (hx : x ∈ s.owed o) (hmeans : s.threads.Means x a d)
    (hloan : (s.loan x).Step s.phase d ((s.after a t).loan x)) :
    ((s.after a t).loan x).Owed o (x ∈ (s.after a t).released o)
      (x ∈ (s.after a t).retaken o) := by
  obtain ⟨hlive, hphase⟩ := h.called o x hx
  refine (h.owed o x hx).step (h.sound x hlive) hloan ?_ ?_ ?_
  · rcases hphase with hp | hp <;> simp [hp]
  · rintro (hold | hd)
    · exact .inl hold
    · exact .inr ((releases_iff hlive hmeans hloan.desk).mp hd)
  · rintro (hold | htaken)
    · exact .inl hold
    · exact .inr htaken

/-- When `block_until_free` returns, no buffer that is not free carries the `opt`. -/
theorem unidentified_after (hg : Threads.Good s.threads)
    (hpermits : s.Permits (.releaseLoaded (.vlbistreamer o) (sbufIdentifyOpt o) sbufRelease))
    (hplays : s.Plays (.releaseLoaded (.vlbistreamer o) (sbufIdentifyOpt o) sbufRelease) s' x)
    (hx : x ∈ s.threads.branch.live) (hlist : (s'.loan x).desk.list ≠ freelist) :
    (s'.loan x).opt ≠ some o := by
  obtain ⟨L, hrep⟩ := hg.represents
  obtain ⟨o', hparty, -, -, hnull⟩ := hpermits
  rcases hplays with ⟨hsame, hspares⟩ | ⟨d, hmeans, hloan⟩
  · rw [hsame] at hlist ⊢
    intro hopt
    have hid : sbufIdentifyOpt o (s.threads.branch.heap x).entity :=
      sbufIdentifyOpt_iff.mpr hopt
    cases hwhere : s.list x with
    | freelist => exact hlist hwhere
    | busylist => simp [blockOnBusy_null hrep hnull hx hwhere] at hid
    | loadedlist => exact hspares ⟨hx, hwhere, hid⟩
  · obtain ⟨rfl, -⟩ := hmeans
    exact absurd hloan.desk.list hlist

/-- A recording gets further when its `block_until_free` returns. -/
theorem phase_after (hpermits : s.Permits a) :
    (s.after a t).phase = s.phase ∨
      ∃ o, a = .releaseLoaded (.vlbistreamer o) (sbufIdentifyOpt o) sbufRelease ∧
        (s.after a t).phase = Function.update s.phase o .returned := by
  cases a with
  | releaseLoaded u identify release =>
      obtain ⟨o, rfl, rfl, rfl, -⟩ := hpermits
      exact .inr ⟨o, rfl, rfl⟩
  | _ => exact .inl rfl

/-- When a recording gets further, the threads of the others run on. -/
theorem alive_advance {phase : ω → Phase} {p : Phase} {u : Party ω β} (hu : Alive phase u)
    (hstreamer : u ≠ .streamer o) (hvlbistreamer : u ≠ .vlbistreamer o) :
    Alive (Function.update phase o p) u := by
  cases u with
  | streamer o' =>
      have hne : o' ≠ o := by
        rintro rfl
        exact hstreamer rfl
      simpa [Alive, Function.update_of_ne hne] using hu
  | vlbistreamer o' =>
      have hne : o' ≠ o := by
        rintro rfl
        exact hvlbistreamer rfl
      simpa [Alive, Function.update_of_ne hne] using hu
  | buffer b => trivial

/-- After the last region of `block_until_free` the buffers are as they should be. -/
theorem sound_returned (h : Inv s)
    (halive : s.phase o = .blocking)
    (hpermits : s.Permits (.releaseLoaded (.vlbistreamer o) (sbufIdentifyOpt o) sbufRelease))
    (hstep : Threads.Step s.threads
      (.releaseLoaded (.vlbistreamer o) (sbufIdentifyOpt o) sbufRelease) t)
    (hplays : s.Plays (.releaseLoaded (.vlbistreamer o) (sbufIdentifyOpt o) sbufRelease) s' x)
    (hthreads : s'.threads = t) (hx : x ∈ s.threads.branch.live)
    (hsound : (s'.loan x).Sound s.phase) :
    (s'.loan x).Sound (Function.update s.phase o .returned) := by
  refine hsound.advance (by simp [halive]) (by simp) ?_ ?_ ?_
  · intro u c hu
    have hfree : s'.threads.Free (.vlbistreamer o) := by
      rw [hthreads]
      cases hstep with
      | releaseLoaded hfree _ => exact hfree
    have hu' := hsound.alive u c hu
    refine alive_advance hu' ?_ ?_
    · rintro rfl
      exact absurd (halive.symm.trans hu') (by simp)
    · rintro rfl
      exact unclaimed_of_free hfree x c hu
  · intro hacq
    exact absurd (halive.symm.trans (hsound.acquired o hacq).2) (by simp)
  · intro _ hlist
    exact unidentified_after h.good hpermits hplays hx hlist

/-- **A region keeps the invariant.** -/
theorem Inv.region [Fintype ω] [Fintype β] (h : Inv s) (halive : Alive s.phase (thread a))
    (hpermits : s.Permits a) (hok : s.Undisturbed (.region a))
    (hstep : Threads.Step s.threads a t) : Inv (s.after a t) := by
  obtain ⟨hg, hlive, hplays⟩ :=
    plays_region h.good h.sound halive hpermits hok hstep
  have hsound : ∀ x ∈ s.threads.branch.live, ((s.after a t).loan x).Sound s.phase := by
    intro x hx
    rcases hplays x hx with ⟨hsame, -⟩ | ⟨d, -, hloan⟩
    · rw [hsame]
      exact h.sound x hx
    · exact (h.sound x hx).step hloan
  have hphase : ∀ o, s.phase o = .blocking ∨ s.phase o = .returned →
      (s.after a t).phase o = .blocking ∨ (s.after a t).phase o = .returned := by
    intro o ho
    rcases phase_after (t := t) hpermits with hsame | ⟨o', -, hnew⟩
    · rwa [hsame]
    · rw [hnew]
      by_cases hoo : o = o'
      · subst hoo
        exact .inr (Function.update_self ..)
      · rwa [Function.update_of_ne hoo]
  refine ⟨hg, ?_, ?_, ?_, ?_⟩
  · intro x hx
    have hx' : x ∈ s.threads.branch.live := hlive ▸ hx
    rcases phase_after (t := t) hpermits with hsame | ⟨o, rfl, hnew⟩
    · rw [hsame]
      exact hsound x hx'
    · rw [hnew]
      exact sound_returned h halive hpermits hstep (hplays x hx') rfl hx' (hsound x hx')
  · intro o x hx
    obtain ⟨hx', hp⟩ := h.called o x hx
    exact ⟨(by rw [← hlive] at hx'; exact hx'), hphase o hp⟩
  · intro o x hx
    obtain ⟨hx', -⟩ := h.called o x hx
    rcases hplays x hx' with ⟨hsame, -⟩ | ⟨d, hmeans, hloan⟩
    · rw [hsame]
      exact (h.owed o x hx).imp id fun hr => ⟨.inl hr.1, hr.2.imp id (.imp .inl id)⟩
    · exact owed_region h hx hmeans hloan
  · intro o
    apply Set.eq_empty_of_forall_notMem
    rintro x (hold | ⟨hevicts, hother⟩)
    · simp [h.spared o] at hold
    · exact h.not_stolen hpermits hstep hevicts hother

/-- Only the contents of the buffer change when `acquire` runs. -/
theorem Inv.acquire {acq : ℕ} (h : Inv s) (hacq : s.acquiring x = some o)
    (hstep : Threads.Step s.threads (.callback (.streamer o) (sbufAcquire o acq) x) t) :
    Inv { s with threads := t, acquiring := Function.update s.acquiring x none } := by
  obtain ⟨hg, hlive, hplays⟩ := hstep.plays h.good fun y hy => (h.sound y hy).serves
  have hdesk : ∀ y, t.desk y = s.threads.desk y := by
    intro y
    rcases hplays y with ⟨hsame, -⟩ | ⟨d, hmeans, -⟩
    · exact hsame
    · exact hmeans.elim
  have hloan : ∀ y, loan { s with threads := t
                                  acquiring := Function.update s.acquiring x none } y =
      if y = x then { s.loan x with opt := some o, acquiring := none } else s.loan y := by
    intro y
    have hentity := hstep.entity h.good y
    simp only [Threads.payload] at hentity
    by_cases hy : y = x
    · subst hy
      rw [if_pos rfl] at hentity ⊢
      simp [loan, opt, hdesk, hentity]
    · rw [if_neg hy] at hentity ⊢
      simp [loan, opt, hdesk, hentity, Function.update_of_ne hy]
  refine ⟨hg, ?_, ?_, ?_, h.spared⟩
  · intro y hy
    have hy' : y ∈ s.threads.branch.live := hlive ▸ hy
    rw [hloan y]
    split
    · rename_i heq
      subst heq
      exact (h.sound y hy').acquire hacq
    · exact h.sound y hy'
  · intro o' y hy
    obtain ⟨hy', hp⟩ := h.called o' y hy
    exact ⟨(by rw [← hlive] at hy'; exact hy'), hp⟩
  · intro o' y hy
    rw [hloan y]
    split
    · rename_i heq
      subst heq
      rcases h.owed o' y hy with ⟨-, -, hnone⟩ | hr
      · exact absurd (hnone.symm.trans hacq) (by simp)
      · exact .inr hr
    · exact h.owed o' y hy

/-- `vlbistreamer` joins the streamer thread. -/
theorem Inv.join (h : Inv s) (hphase : s.phase o = .running)
    (hfree : s.threads.Free (.streamer o)) (hsettled : s.Settled o) :
    Inv { s with phase := Function.update s.phase o .ended } := by
  refine ⟨h.good, ?_, ?_, h.owed, h.spared⟩
  · intro x hx
    refine (h.sound x hx).advance (by simp [hphase]) (by simp) ?_ (hsettled x hx) (by simp)
    intro u c hu
    have hu' := (h.sound x hx).alive u c hu
    refine alive_advance hu' ?_ ?_
    · rintro rfl
      exact unclaimed_of_free hfree x c hu
    · rintro rfl
      exact absurd (hphase.symm.trans hu') (by simp)
  · intro o' x hx
    obtain ⟨hx', hp⟩ := h.called o' x hx
    have hne : o' ≠ o := by
      rintro rfl
      simp [hphase] at hp
    exact ⟨hx', by simpa [Function.update_of_ne hne] using hp⟩

/-- `vlbistreamer` calls `block_until_free`. -/
theorem Inv.call (h : Inv s) (hphase : s.phase o = .ended) :
    Inv { s with
      phase := Function.update s.phase o .blocking
      owed := Function.update s.owed o
        {x | x ∈ s.threads.branch.live ∧ s.list x ≠ freelist ∧ s.opt x = some o}
      released := Function.update s.released o ∅
      retaken := Function.update s.retaken o ∅
      stolen := Function.update s.stolen o ∅ } := by
  refine ⟨h.good, ?_, ?_, ?_, ?_⟩
  · intro x hx
    refine (h.sound x hx).advance (by simp [hphase]) (by simp) ?_ ?_ (by simp)
    · intro u c hu
      have hu' := (h.sound x hx).alive u c hu
      refine alive_advance hu' ?_ ?_
      · rintro rfl
        exact absurd (hphase.symm.trans hu') (by simp)
      · rintro rfl
        exact absurd (hphase.symm.trans hu') (by simp)
    · intro hacq
      exact absurd (hphase.symm.trans ((h.sound x hx).acquired o hacq).2) (by simp)
  · intro o' x hx
    dsimp only at hx ⊢
    by_cases heq : o' = o
    · subst heq
      rw [Function.update_self] at hx
      exact ⟨hx.1, .inl (Function.update_self ..)⟩
    · rw [Function.update_of_ne heq] at hx
      obtain ⟨hx', hp⟩ := h.called o' x hx
      exact ⟨hx', by simpa [Function.update_of_ne heq] using hp⟩
  · intro o' x hx
    dsimp only at hx ⊢
    by_cases heq : o' = o
    · subst heq
      rw [Function.update_self] at hx
      obtain ⟨hx', hlist, hopt⟩ := hx
      refine .inl ⟨hopt, hlist, ?_⟩
      rcases (h.sound x hx').acquiring_of_opt (by simp [hphase]) hopt with
        hnone | ⟨-, hrunning⟩
      · exact hnone
      · exact absurd (hphase.symm.trans hrunning) (by simp)
    · rw [Function.update_of_ne heq] at hx
      simp only [Function.update_of_ne heq]
      exact h.owed o' x hx
  · intro o'
    by_cases heq : o' = o
    · subst heq
      exact Function.update_self ..
    · exact (Function.update_of_ne heq ..).trans (h.spared o')

/-- **Every step keeps the invariant.** -/
theorem Inv.step [Fintype ω] [Fintype β] {m : MembranchAction ω β} (h : Inv s)
    (hok : s.Undisturbed m) (hstep : Step s m s') : Inv s' := by
  cases hstep with
  | region halive hpermits hstep => exact h.region halive hpermits hok hstep
  | acquire hacq hstep => exact h.acquire hacq hstep
  | join hphase hfree hsettled => exact h.join hphase hfree hsettled
  | call hphase => exact h.call hphase

/-- The invariant says what `block_until_free` has left. -/
theorem Inv.leftNothing (h : Inv s) (hphase : s.phase o = .returned) : s.LeftNothing o where
  unidentified x hx hlist := by
    by_contra hid
    have hopt := sbufIdentifyOpt_iff.mp (Bool.eq_true_of_not_eq_false hid)
    exact (h.sound x hx).live hlist o hopt hphase
  cleared x hx := by
    have hsound := h.sound x (h.called o x hx).1
    rcases h.owed o x hx with ⟨hopt, hlist, -⟩ | ⟨hr, hfree | htaken | hclaim⟩
    · exact absurd hphase (hsound.live hlist o hopt)
    · exact ⟨hr, .inl hfree⟩
    · exact ⟨hr, .inr htaken⟩
    · exact absurd (hphase.symm.trans (hsound.alive _ _ hclaim)) (by simp)
  spared := h.spared o

/-- **`block_until_free` leaves nothing behind** in a run in which every step is
`Undisturbed`. -/
theorem leftNothing_of_reachable [Fintype ω] [Fintype β] (s : Membranch ω β) (o : ω)
    (h : (system ω β).ReachableUnder Undisturbed s) (hphase : s.phase o = .returned) :
    s.LeftNothing o := by
  refine Inv.leftNothing ?_ hphase
  apply h.invariant
  · exact fun s hstart => hstart.inv
  · exact fun s m s' hinv hok hstep => hinv.step hok hstep

/-! ## Runs with one buffer -/

section Runs

/-- A branch with one memory buffer. -/
def oneSbuf : EntityListBranch (Simplebuf Bool) where
  root k := if k = freelist then some 4 else none
  heap _ := ⟨none, none, freelist, 0, 0, ⟨none, 0, 0⟩⟩
  live := {4}

/-- Two recordings have started. -/
def start : Membranch Bool Unit where
  threads := ⟨oneSbuf, fun _ _ => .away, fun _ => [], fun _ => []⟩
  acquiring _ := none
  phase _ := .running
  owed _ := ∅
  released _ := ∅
  retaken _ := ∅
  stolen _ := ∅

/-- `get_free` of recording `o` takes the buffer. -/
def got (s : Membranch Bool Unit) (o : Bool) : Membranch Bool Unit :=
  s.after (.getFree (.streamer o) none) (s.threads.become
    ((s.threads.branch.getFree none).getD (.null, s.threads.branch)).2 4 (.streamer o) .holding)

/-- It runs `acquire`. -/
def acquired (s : Membranch Bool Unit) (o : Bool) : Membranch Bool Unit :=
  { s with
    threads := { s.threads with
      branch := EntityListBranch.callback (sbufAcquire o 0) 4 s.threads.branch }
    acquiring := Function.update s.acquiring 4 none }

/-- The streamer thread leaves the buffer to its writing thread. -/
def given (s : Membranch Bool Unit) (o : Bool) : Membranch Bool Unit :=
  s.after (.give (.streamer o) (.buffer ()) 4) (s.threads.assign s.threads.branch 4
    (Function.update (Function.update (fun v => s.threads.role v 4) (.streamer o) .away)
      (.buffer ()) .holding))

def joined (s : Membranch Bool Unit) (o : Bool) : Membranch Bool Unit :=
  { s with phase := Function.update s.phase o .ended }

def called (s : Membranch Bool Unit) (o : Bool) : Membranch Bool Unit :=
  { s with
    phase := Function.update s.phase o .blocking
    owed := Function.update s.owed o
      {x | x ∈ s.threads.branch.live ∧ s.list x ≠ freelist ∧ s.opt x = some o}
    released := Function.update s.released o ∅
    retaken := Function.update s.retaken o ∅
    stolen := Function.update s.stolen o ∅ }

/-- `block_until_free` of recording `o` finds the buffer busy. -/
def found (s : Membranch Bool Unit) (o : Bool) : Membranch Bool Unit :=
  s.after (.request (.vlbistreamer o) .blockUntilFree (sbufIdentifyOpt o))
    (s.threads.become s.threads.branch 4 (.vlbistreamer o) (.queueing .blockUntilFree))

/-- It takes a ticket and goes to sleep. -/
def queued (s : Membranch Bool Unit) (o : Bool) : Membranch Bool Unit :=
  s.after (.takeTicket (.vlbistreamer o) 4)
    (({ s.threads with
        branch := s.threads.branch.takeTicket 4
        took := Function.update s.threads.took 4
          (s.threads.took 4 ++ [Party.vlbistreamer o]) }).check 4 (.vlbistreamer o) .blockUntilFree
      (addSafelyInt16t (s.threads.branch.heap 4).waitersHead))

/-- `set_free` finds nobody waiting. -/
def freed (s : Membranch Bool Unit) : Membranch Bool Unit :=
  s.after (.setFree (.buffer ()) sbufRelease 4) (s.threads.become
    ((s.threads.branch.setFreeLocked sbufRelease 4).getD (.passOn, s.threads.branch)).2 4
    (.buffer ()) .away)

/-- `set_free` finds somebody waiting. -/
def passed (s : Membranch Bool Unit) : Membranch Bool Unit :=
  s.after (.setFree (.buffer ()) sbufRelease 4) (s.threads.become
    ((s.threads.branch.setFreeLocked sbufRelease 4).getD (.passOn, s.threads.branch)).2 4
    (.buffer ()) .calling)

/-- `set_free` calls the ticket and wakes `block_until_free` of recording `o`. -/
def woke (s : Membranch Bool Unit) (o : Bool) : Membranch Bool Unit :=
  s.after (.callNext (.buffer ()) 4 (some (.vlbistreamer o)))
    (s.threads.assign (s.threads.branch.callNext 4) 4 (Function.update (Function.update
      (fun u => s.threads.role u 4) (.vlbistreamer o) (.woken .blockUntilFree 1))
      (.buffer ()) .away))

/-- It finds its ticket called. -/
def granted (s : Membranch Bool Unit) (o : Bool) : Membranch Bool Unit :=
  s.after (.recheck (.vlbistreamer o) 4)
    (s.threads.check 4 (.vlbistreamer o) .blockUntilFree 1)

/-- It puts the buffer on the free list and releases it. -/
def evicted (s : Membranch Bool Unit) (o : Bool) : Membranch Bool Unit :=
  s.after (.evict (.vlbistreamer o) sbufRelease 4) (s.threads.become
    ((s.threads.branch.blockRelease sbufRelease 4).getD s.threads.branch) 4
    (.vlbistreamer o) .away)

/-- The last region of `block_until_free`. -/
def finished (s : Membranch Bool Unit) (o : Bool) : Membranch Bool Unit :=
  s.after (.releaseLoaded (.vlbistreamer o) (sbufIdentifyOpt o) sbufRelease)
    { s.threads with branch := (s.threads.branch.blockReleaseLoaded (sbufIdentifyOpt o)
        sbufRelease (s.threads.branch.live.card + 1)).getD s.threads.branch }

/-- There is no other buffer. -/
structure Lonely (s : Membranch Bool Unit) : Prop where
  live : s.threads.branch.live = {4}
  quiet : ∀ u x, x ≠ 4 → s.threads.role u x = .away

namespace Lonely

variable {s : Membranch Bool Unit} {o : Bool} {u : Party Bool Unit}

theorem free (h : Lonely s)
    (hrole : s.threads.role u 4 = .away ∨ s.threads.role u 4 = .holding) :
    s.threads.Free u := by
  intro x
  by_cases hx : x = 4
  · subst hx
    exact hrole
  · exact .inl (h.quiet u x hx)

theorem settled (h : Lonely s) (hacq : s.acquiring 4 ≠ some o) : s.Settled o := by
  intro x hx
  rw [h.live, Finset.mem_singleton] at hx
  subst hx
  exact hacq

/-- A step that changes the roles for the one buffer. -/
theorem of_roles (h : Lonely s) {s' : Membranch Bool Unit}
    (hlive : s'.threads.branch.live = {4})
    (hroles : ∀ u, ∃ r, s'.threads.role u = Function.update (s.threads.role u) 4 r) :
    Lonely s' where
  live := hlive
  quiet u x hx := by
    obtain ⟨r, hr⟩ := hroles u
    rw [hr, Function.update_of_ne hx]
    exact h.quiet u x hx

end Lonely

/-- Recording `false` has a busy buffer when its `block_until_free` is called. -/
def lent₁ : Membranch Bool Unit := got start false
def lent₂ : Membranch Bool Unit := acquired lent₁ false
def lent₃ : Membranch Bool Unit := given lent₂ false
def lent₄ : Membranch Bool Unit := joined lent₃ false
def lent₅ : Membranch Bool Unit := called lent₄ false

theorem start_isStart : IsStart start where
  threads := by
    refine ⟨⟨fun k => if k = freelist then [4] else [], ⟨⟨fun k => ?_, fun k => ?_, ?_⟩, ?_⟩⟩,
      fun _ _ => ⟨rfl, rfl, rfl, fun _ => rfl, rfl, rfl⟩, fun _ _ => rfl⟩
    · cases k <;> simp [start, oneSbuf, Lists.children, Lists.fathers]
    · cases k <;> simp
    · intro k e he
      cases k <;> simp_all [start, oneSbuf]
    · intro e
      constructor
      · intro he
        exact ⟨freelist, by simpa [start, oneSbuf] using he⟩
      · rintro ⟨k, he⟩
        cases k <;> simp_all [start, oneSbuf]
  acquiring _ := rfl
  phase _ := .inr rfl
  opt x o ho := by cases ho
  owed _ := rfl
  stolen _ := rfl

theorem start_lonely : Lonely start := ⟨rfl, fun _ _ _ => rfl⟩

theorem lent₁_lonely : Lonely lent₁ := start_lonely.of_roles rfl fun _ => ⟨_, rfl⟩
theorem lent₂_lonely : Lonely lent₂ := ⟨rfl, lent₁_lonely.quiet⟩
theorem lent₃_lonely : Lonely lent₃ := lent₂_lonely.of_roles rfl fun _ => ⟨_, rfl⟩
theorem lent₅_lonely : Lonely lent₅ := ⟨rfl, lent₃_lonely.quiet⟩

theorem lent₅_reachable : (system Bool Unit).ReachableUnder Undisturbed lent₅ := by
  have h₁ : (system Bool Unit).ReachableUnder Undisturbed lent₁ :=
    .step (a := .region (.getFree (.streamer false) none)) (.init start_isStart) trivial
      (.region rfl ⟨rfl, false, rfl, start_lonely.settled (by simp [start])⟩
        (.getFree (start_lonely.free (.inl rfl)) rfl))
  have h₂ : (system Bool Unit).ReachableUnder Undisturbed lent₂ :=
    .step (a := .acquire false 0 4) h₁ trivial (.acquire rfl (.callback rfl))
  have h₃ : (system Bool Unit).ReachableUnder Undisturbed lent₃ :=
    .step (a := .region (.give (.streamer false) (.buffer ()) 4)) h₂ trivial
      (.region rfl ⟨⟨(), rfl⟩, rfl⟩ (.give rfl rfl))
  have h₄ : (system Bool Unit).ReachableUnder Undisturbed lent₄ :=
    .step (a := .join false) h₃ trivial (.join rfl (lent₃_lonely.free (.inl rfl))
      (lent₃_lonely.settled (by decide +kernel)))
  exact .step (a := .call false) h₄ trivial (.call rfl)

/-- `block_until_free` takes its ticket, and `set_free` passes the buffer on to it. -/
def kept₁ : Membranch Bool Unit := found lent₅ false
def kept₂ : Membranch Bool Unit := queued kept₁ false
def kept₃ : Membranch Bool Unit := passed kept₂
def kept₄ : Membranch Bool Unit := woke kept₃ false
def kept₅ : Membranch Bool Unit := granted kept₄ false
def kept₆ : Membranch Bool Unit := evicted kept₅ false
def kept₇ : Membranch Bool Unit := finished kept₆ false

theorem kept₁_lonely : Lonely kept₁ := lent₅_lonely.of_roles rfl fun _ => ⟨_, rfl⟩
theorem kept₂_lonely : Lonely kept₂ := kept₁_lonely.of_roles rfl fun _ => ⟨_, rfl⟩

theorem kept₆_lonely : Lonely kept₆ := by
  have h₃ : Lonely kept₃ := kept₂_lonely.of_roles rfl fun _ => ⟨_, rfl⟩
  have h₄ : Lonely kept₄ := h₃.of_roles rfl fun _ => ⟨_, rfl⟩
  have h₅ : Lonely kept₅ := h₄.of_roles rfl fun _ => ⟨_, rfl⟩
  exact h₅.of_roles rfl fun _ => ⟨_, rfl⟩

theorem lent₅_unlocked : (lent₅.threads.desk 4).Unlocked := by
  intro u c h
  rcases u with (_ | _) | (_ | _) | _ <;> cases h

theorem kept₃_unlocked : (kept₃.threads.desk 4).Unlocked := by
  intro u c h
  rcases u with (_ | _) | (_ | _) | _ <;> cases h

theorem kept₄_unlocked : (kept₄.threads.desk 4).Unlocked := by
  intro u c h
  rcases u with (_ | _) | (_ | _) | _ <;> cases h

theorem kept₁_reachable : (system Bool Unit).ReachableUnder Undisturbed kept₁ :=
  .step (a := .region (.request (.vlbistreamer false) .blockUntilFree
    (sbufIdentifyOpt false))) lent₅_reachable trivial
    (.region rfl (.inr ⟨rfl, false, rfl, rfl, fun hnull =>
        absurd (congrArg (Option.map Prod.fst) hnull) (by decide +kernel)⟩)
      (.requestQueue (lent₅_lonely.free (.inl rfl)) rfl rfl lent₅_unlocked))

/-- Recording `false` gets its buffer back. -/
theorem leftNothing_of_reachable_kept :
    4 ∈ kept₇.owed false ∧ kept₇.LeftNothing false := by
  refine ⟨⟨by decide +kernel, by decide +kernel, by decide +kernel⟩,
    leftNothing_of_reachable kept₇ false ?_ rfl⟩
  have h₂ : (system Bool Unit).ReachableUnder Undisturbed kept₂ :=
    .step (a := .region (.takeTicket (.vlbistreamer false) 4)) kept₁_reachable trivial
      (.region rfl trivial (.takeTicket rfl))
  have h₃ : (system Bool Unit).ReachableUnder Undisturbed kept₃ :=
    .step (a := .region (.setFree (.buffer ()) sbufRelease 4)) h₂
      (fun heq => absurd heq (by decide +kernel))
      (.region trivial ⟨rfl, rfl⟩ (.setFreePass (kept₂_lonely.free (.inr rfl)) rfl rfl))
  have h₄ : (system Bool Unit).ReachableUnder Undisturbed kept₄ :=
    .step (a := .region (.callNext (.buffer ()) 4 (some (.vlbistreamer false)))) h₃ trivial
      (.region trivial trivial (.callNext rfl kept₃_unlocked (.wake rfl)))
  have h₅ : (system Bool Unit).ReachableUnder Undisturbed kept₅ :=
    .step (a := .region (.recheck (.vlbistreamer false) 4)) h₄ trivial
      (.region rfl trivial (.recheck rfl kept₄_unlocked))
  have h₆ : (system Bool Unit).ReachableUnder Undisturbed kept₆ :=
    .step (a := .region (.evict (.vlbistreamer false) sbufRelease 4)) h₅ trivial
      (.region rfl rfl (.evict rfl rfl))
  exact .step (a := .region (.releaseLoaded (.vlbistreamer false) (sbufIdentifyOpt false)
      sbufRelease)) h₆ trivial (.region rfl ⟨false, rfl, rfl, rfl, rfl⟩
    (.releaseLoaded (kept₆_lonely.free (.inl rfl)) rfl))

/-- `set_free` puts the buffer on the free list while `block_until_free` of recording
`false` is between finding it and taking a ticket; recording `true` gets it. -/
def mixed₁ : Membranch Bool Unit := freed kept₁
def mixed₂ : Membranch Bool Unit := got mixed₁ true
def mixed₃ : Membranch Bool Unit := acquired mixed₂ true
def mixed₄ : Membranch Bool Unit := queued mixed₃ false
def mixed₅ : Membranch Bool Unit := given mixed₄ true

theorem mixed₁_lonely : Lonely mixed₁ := kept₁_lonely.of_roles rfl fun _ => ⟨_, rfl⟩
theorem mixed₂_lonely : Lonely mixed₂ := mixed₁_lonely.of_roles rfl fun _ => ⟨_, rfl⟩
theorem mixed₃_lonely : Lonely mixed₃ := ⟨rfl, mixed₂_lonely.quiet⟩
theorem mixed₄_lonely : Lonely mixed₄ := mixed₃_lonely.of_roles rfl fun _ => ⟨_, rfl⟩
theorem mixed₅_lonely : Lonely mixed₅ := mixed₄_lonely.of_roles rfl fun _ => ⟨_, rfl⟩

theorem mixed₅_reachable : (system Bool Unit).Reachable mixed₅ := by
  have h₁ : (system Bool Unit).Reachable mixed₁ :=
    .step (a := .region (.setFree (.buffer ()) sbufRelease 4)) kept₁_reachable.reachable
      (.region trivial ⟨rfl, rfl⟩ (.setFreePark (kept₁_lonely.free (.inr rfl)) rfl rfl))
  have h₂ : (system Bool Unit).Reachable mixed₂ :=
    .step (a := .region (.getFree (.streamer true) none)) h₁
      (.region rfl ⟨rfl, true, rfl, mixed₁_lonely.settled (by decide +kernel)⟩
        (.getFree (mixed₁_lonely.free (.inl rfl)) rfl))
  have h₃ : (system Bool Unit).Reachable mixed₃ :=
    .step (a := .acquire true 0 4) h₂ (.acquire rfl (.callback rfl))
  have h₄ : (system Bool Unit).Reachable mixed₄ :=
    .step (a := .region (.takeTicket (.vlbistreamer false) 4)) h₃
      (.region rfl trivial (.takeTicket rfl))
  exact .step (a := .region (.give (.streamer true) (.buffer ()) 4)) h₄
    (.region rfl ⟨⟨(), rfl⟩, rfl⟩ (.give rfl rfl))

/-- `block_until_free` of recording `true` is called, `set_free` passes the buffer on
to `false`, and the call returns. -/
def astray₁ : Membranch Bool Unit := joined mixed₅ true
def astray₂ : Membranch Bool Unit := called astray₁ true
def astray₃ : Membranch Bool Unit := passed astray₂
def astray₄ : Membranch Bool Unit := finished astray₃ true

/-- The buffer that recording `true` had is neither free nor taken again. -/
theorem astray_not_leftNothing :
    ¬ ∀ (s : Membranch Bool Unit) (o : Bool), (system Bool Unit).Reachable s →
      s.phase o = .returned → s.LeftNothing o := by
  intro hall
  have h₁ : (system Bool Unit).Reachable astray₁ :=
    .step (a := .join true) mixed₅_reachable (.join rfl (mixed₅_lonely.free (.inl rfl))
      (mixed₅_lonely.settled (by decide +kernel)))
  have h₂ : (system Bool Unit).Reachable astray₂ := .step (a := .call true) h₁ (.call rfl)
  have hlonely₂ : Lonely astray₂ := ⟨rfl, mixed₅_lonely.quiet⟩
  have h₃ : (system Bool Unit).Reachable astray₃ :=
    .step (a := .region (.setFree (.buffer ()) sbufRelease 4)) h₂
      (.region trivial ⟨rfl, rfl⟩ (.setFreePass (hlonely₂.free (.inr rfl)) rfl rfl))
  have hlonely₃ : Lonely astray₃ := hlonely₂.of_roles rfl fun _ => ⟨_, rfl⟩
  have h₄ : (system Bool Unit).Reachable astray₄ :=
    .step (a := .region (.releaseLoaded (.vlbistreamer true) (sbufIdentifyOpt true)
      sbufRelease)) h₃ (.region rfl ⟨true, rfl, rfl, rfl, rfl⟩
        (.releaseLoaded (hlonely₃.free (.inl rfl)) rfl))
  have howed : 4 ∈ astray₄.owed true :=
    ⟨by decide +kernel, by decide +kernel, by decide +kernel⟩
  rcases ((hall astray₄ true h₄ rfl).cleared 4 howed).2 with hfree | hretaken
  · exact absurd hfree (by decide +kernel)
  · rcases hretaken with (hbefore | hpassed) | hreturned
    · exact hbefore
    · exact absurd hpassed.1 (by decide +kernel)
    · exact absurd hreturned.1 (by decide +kernel)

/-- `set_loaded` passes the buffer of recording `true` on to `false`, whose
`block_until_free` puts it on the free list. -/
def robbed₁ : Membranch Bool Unit :=
  mixed₅.after (.setLoaded (.buffer ()) 4 (some (.vlbistreamer false)))
    (mixed₅.threads.assign (mixed₅.threads.branch.callNext 4) 4 (Function.update
      (Function.update (fun u => mixed₅.threads.role u 4) (.vlbistreamer false)
        (.woken .blockUntilFree 1)) (.buffer ()) .away))

def robbed₂ : Membranch Bool Unit := granted robbed₁ false
def robbed₃ : Membranch Bool Unit := evicted robbed₂ false
def robbed₄ : Membranch Bool Unit := finished robbed₃ false

theorem mixed₅_unlocked : (mixed₅.threads.desk 4).Unlocked := by
  intro u c h
  rcases u with (_ | _) | (_ | _) | _ <;> cases h

theorem robbed₁_unlocked : (robbed₁.threads.desk 4).Unlocked := by
  intro u c h
  rcases u with (_ | _) | (_ | _) | _ <;> cases h

/-- A call of `block_until_free` can release the buffer of another recording. -/
theorem robbed_stolen :
    (system Bool Unit).Reachable robbed₄ ∧ robbed₄.phase false = .returned ∧
      4 ∈ robbed₄.stolen false := by
  have h₁ : (system Bool Unit).Reachable robbed₁ :=
    .step (a := .region (.setLoaded (.buffer ()) 4 (some (.vlbistreamer false))))
      mixed₅_reachable (.region trivial rfl (.setLoadedPass (mixed₅_lonely.free (.inr rfl))
        rfl mixed₅_unlocked rfl (.wake rfl)))
  have h₂ : (system Bool Unit).Reachable robbed₂ :=
    .step (a := .region (.recheck (.vlbistreamer false) 4)) h₁
      (.region rfl trivial (.recheck rfl robbed₁_unlocked))
  have h₃ : (system Bool Unit).Reachable robbed₃ :=
    .step (a := .region (.evict (.vlbistreamer false) sbufRelease 4)) h₂
      (.region rfl rfl (.evict rfl rfl))
  have hlonely₁ : Lonely robbed₁ := mixed₅_lonely.of_roles rfl fun _ => ⟨_, rfl⟩
  have hlonely₂ : Lonely robbed₂ := hlonely₁.of_roles rfl fun _ => ⟨_, rfl⟩
  have hlonely₃ : Lonely robbed₃ := hlonely₂.of_roles rfl fun _ => ⟨_, rfl⟩
  refine ⟨.step (a := .region (.releaseLoaded (.vlbistreamer false) (sbufIdentifyOpt false)
    sbufRelease)) h₃ (.region rfl ⟨false, rfl, rfl, rfl, rfl⟩
      (.releaseLoaded (hlonely₃.free (.inl rfl)) rfl)), rfl, ?_⟩
  exact .inl (.inr ⟨⟨rfl, rfl⟩, true, by simp, .inl rfl⟩)

end Runs

end Membranch

end VlbiStreamer.ResourceTree
