import VlbiStreamer.ActiveFileIndex.Lifecycle
import VlbiStreamer.ActiveFileIndex.Registry
import VlbiStreamer.Sender.LiveSending

/-!
# Waking the sender and the loaders

`Orderly` holds along all runs of `Live.system`: who has `wait_mutex`, and that a thread that
looked at its file or at the status before it took the mutex is not late for the wake-up that
follows.  So no wake-up is lost, whatever the order of the steps.

`Regional` is what a region of the sender is for the other threads.
-/

namespace VlbiStreamer.Sender

open ActiveFileIndex Library

/-! ## What the operations leave of an index -/

section Index

variable {fi fi' : FileIndex} {id : ℕ} {f : Fileholder → Fileholder}

/-- The counts and the status of the recording. -/
structure SameCounts (fi fi' : FileIndex) : Prop where
  status : fi'.status = fi.status
  nPackets : fi'.nPackets = fi.nPackets
  nFiles : fi'.nFiles = fi.nFiles

theorem sameCounts_modifyCell (h : fi.modifyCell id f = some fi') : SameCounts fi fi' := by
  unfold FileIndex.modifyCell at h
  split at h
  · obtain rfl := Option.some.inj h
    exact ⟨rfl, rfl, rfl⟩
  · cases h

theorem sameCounts_makeRoom {realloc : Option (ℕ → Fileholder)} {made : Bool}
    (h : fi.makeRoom id realloc = some (made, fi')) : SameCounts fi fi' := by
  unfold FileIndex.makeRoom at h
  split at h
  · split at h
    · cases h
    · cases h
      exact ⟨rfl, rfl, rfl⟩
    · split at h
      · cases h
        exact ⟨rfl, rfl, rfl⟩
      · cases h
  · cases h
    exact ⟨rfl, rfl, rfl⟩

/-- Adding a file counts it when it is past the files there are. -/
theorem afiAddFile_counts {diskid r : ℤ} {status : Status}
    {realloc : Option (ℕ → Fileholder)}
    (h : fi.afiAddFile id diskid status realloc = some (r, fi')) :
    fi'.status = fi.status ∧ fi'.nPackets = fi.nPackets ∧
      (fi'.nFiles = fi.nFiles ∨ (fi.nFiles ≤ id ∧ fi'.nFiles = fi.nFiles + 1)) := by
  unfold FileIndex.afiAddFile at h
  cases hmake : fi.makeRoom id realloc with
  | none =>
      rw [hmake] at h
      cases h
  | some made =>
      obtain ⟨made, fi₁⟩ := made
      have hroom := sameCounts_makeRoom hmake
      rw [hmake] at h
      cases made with
      | false =>
          obtain ⟨-, rfl⟩ : -1 = r ∧ fi₁ = fi' := by simpa using h
          exact ⟨hroom.status, hroom.nPackets, Or.inl hroom.nFiles⟩
      | true =>
          obtain ⟨fi₂, hcell, heq⟩ := Option.map_eq_some_iff.mp h
          obtain ⟨-, rfl⟩ : 0 = r ∧ fi₂ = fi' := by simpa using heq
          have hset := sameCounts_modifyCell hcell
          have hstatus : (fi₁.countFile id).status = fi₁.status := by
            unfold FileIndex.countFile
            split <;> rfl
          have hpackets : (fi₁.countFile id).nPackets = fi₁.nPackets := by
            unfold FileIndex.countFile
            split <;> rfl
          refine ⟨hset.status.trans (hstatus.trans hroom.status),
            hset.nPackets.trans (hpackets.trans hroom.nPackets), ?_⟩
          rw [hset.nFiles, ← hroom.nFiles]
          unfold FileIndex.countFile
          split
          · exact Or.inl rfl
          · right
            exact ⟨by omega, rfl⟩

end Index

/-! ## Where the loops lead -/

/-- The regions at which the loops of `jump_to_next_file` stop. -/
def Pc.Ahead : Pc → Prop
  | .skip _ | .startLoading | .waitOnUpdate true | .getLoaded | .returned .noLoaded => True
  | _ => False

theorem Pc.Ahead.awake {pc : Pc} (h : pc.Ahead) : pc.isAsleep = false := by
  cases pc <;> first | rfl | exact h.elim

theorem Pc.Ahead.ne_holding {pc : Pc} (h : pc.Ahead) : pc ≠ .holding := by
  rintro rfl
  exact h

namespace Live

variable {d : LiveSetup} {s s' t : Live}

/-- Nothing but the region changes, to one of these. -/
def Goes (s t : Live) : Prop := ∃ pc : Pc, pc.Ahead ∧ t = s.goTo pc

theorem goes_skippedSent : s.Goes s.skippedSent := by
  unfold skippedSent
  split
  · exact ⟨.getLoaded, trivial, rfl⟩
  · exact ⟨.returned .noLoaded, trivial, rfl⟩

theorem goes_skipSent : s.Goes s.skipSent := by
  unfold skipSent
  split
  · exact ⟨.skip .skipSent, trivial, rfl⟩
  · exact goes_skippedSent

theorem goes_afterLoading : s.Goes s.afterLoading := by
  unfold afterLoading
  split
  · exact ⟨.waitOnUpdate true, trivial, rfl⟩
  · exact goes_skipSent

theorem goes_skippedLoaded : s.Goes s.skippedLoaded := by
  unfold skippedLoaded
  split
  · exact goes_afterLoading
  · exact ⟨.startLoading, trivial, rfl⟩

theorem goes_skipLoaded : s.Goes s.skipLoaded := by
  unfold skipLoaded
  split
  · exact ⟨.skip .skipLoaded, trivial, rfl⟩
  · exact goes_skippedLoaded

theorem goes_loadNext : s.Goes s.loadNext := by
  unfold loadNext
  split
  · exact goes_skipLoaded
  · exact goes_afterLoading

theorem goes_skipAgain (lors : Lors) : s.Goes (s.skipAgain lors) := by
  cases lors with
  | skipLoaded => exact goes_skipLoaded
  | skipSent => exact goes_skipSent

theorem goes_skipped (lors : Lors) : s.Goes (s.skipped lors) := by
  cases lors with
  | skipLoaded => exact goes_skippedLoaded
  | skipSent => exact goes_skippedSent

/-! ## What a region of the sender is for the others -/

/-- Bookkeeping of the sender, who may set a buffer free or give it a file to load. -/
structure Tended (s t : Live) : Prop where
  fi : t.fi = s.fi
  recorder : t.recorder = s.recorder
  writing : t.writing = s.writing
  holder : t.holder = s.holder
  loaders : ∀ buffer, t.loaders buffer = s.loaders buffer ∨ t.loaders buffer = .idle ∨
    ∃ file, t.loaders buffer = .checking file

theorem Tended.refl (s : Live) : s.Tended s :=
  ⟨rfl, rfl, rfl, rfl, fun _ => Or.inl rfl⟩

/-- A region besides what is the sender's own. -/
structure Regional (s t : Live) : Prop where
  fi : t.fi = s.fi
  recorder : t.recorder = s.recorder
  writing : t.writing = s.writing
  loaders : ∀ buffer, t.loaders buffer = s.loaders buffer ∨ t.loaders buffer = .idle ∨
    ∃ file, t.loaders buffer = .checking file
  sleeps : t.pc.isAsleep = true → has s.fi.status afiRecord = true
  holder : (t.holder = s.holder ∧ t.pc ≠ .holding) ∨
    (s.pc = .holding ∧ t.holder = none ∧ t.pc ≠ .holding) ∨
    (s.holder = none ∧ t.holder = some .sender)

theorem Tended.goTo (h : s.Tended s') {pc : Pc} (hawake : pc.isAsleep = false)
    (hpc : pc ≠ .holding) : s.Regional (s'.goTo pc) :=
  { fi := h.fi
    recorder := h.recorder
    writing := h.writing
    loaders := h.loaders
    sleeps := fun hsleeps => absurd (hsleeps.symm.trans hawake) (by decide)
    holder := Or.inl ⟨h.holder, hpc⟩ }

theorem Tended.goes (h : s.Tended s') (hgoes : s'.Goes t) : s.Regional t := by
  obtain ⟨pc, hpc, rfl⟩ := hgoes
  exact h.goTo hpc.awake hpc.ne_holding

theorem Tended.track (h : s.Tended s') (f : SenderTracking → SenderTracking) :
    s.Tended (s'.track f) :=
  ⟨h.fi, h.recorder, h.writing, h.holder, h.loaders⟩

/-- A buffer is set free or given a file to load. -/
theorem Tended.setLoader (h : s.Tended s') (buffer : ℕ) {loader : Loader}
    (hloader : loader = .idle ∨ ∃ file, loader = .checking file) :
    s.Tended (s'.setLoader buffer loader) where
  fi := h.fi
  recorder := h.recorder
  writing := h.writing
  holder := h.holder
  loaders b := by
    unfold Live.setLoader
    dsimp only
    by_cases hb : b = buffer
    · subst hb
      rw [Function.update_self]
      exact Or.inr hloader
    · rw [Function.update_of_ne hb]
      exact h.loaders b

theorem regional_compare (h : s.Tended s') : s.Regional s'.compare := by
  unfold compare
  split
  · exact h.goTo rfl (by simp)
  · exact h.goes goes_loadNext

theorem afiWaitOnUpdate_eq_sleeps {fi : FileIndex} :
    fi.afiWaitOnUpdate = .sleeps ↔ has fi.status afiRecord = true := by
  unfold FileIndex.afiWaitOnUpdate
  split <;> simp_all

theorem regional_takeMutex (h : s.takeMutex = some t) : s.Regional t := by
  unfold takeMutex at h
  split at h
  · obtain rfl := Option.some.inj h
    exact ⟨rfl, rfl, rfl, fun _ => Or.inl rfl, by simp [Pc.isAsleep],
      Or.inr (Or.inr ⟨by assumption, rfl⟩)⟩
  · cases h

theorem regional_enter : s.Regional (s.enter d) := by
  have htended : s.Tended { s.updateMetadata.countBytes d with
      live := has s.fi.status afiRecord } := ⟨rfl, rfl, rfl, rfl, fun _ => Or.inl rfl⟩
  unfold enter
  cases s.be with
  | none => exact htended.goTo rfl (by simp)
  | some held =>
      have hfree := htended.setLoader held.buffer (Or.inl rfl)
      exact regional_compare ⟨hfree.fi, hfree.recorder, hfree.writing, hfree.holder,
        hfree.loaders⟩

theorem regional_startLoading (h : s.startLoading = some t) : s.Regional t := by
  unfold startLoading at h
  split at h
  · obtain rfl := Option.some.inj h
    exact (Tended.refl s).goTo rfl (by simp)
  · exact regional_takeMutex h
  · obtain rfl := Option.some.inj h
    split
    · exact (Tended.refl s).goTo rfl (by simp)
    · exact (Tended.refl s).goes goes_afterLoading

theorem regional_wokenLoading (h : s.wokenLoading = some t) : s.Regional t := by
  unfold wokenLoading at h
  split at h
  · obtain rfl := Option.some.inj h
    exact (Tended.refl s).goTo rfl (by simp)
  · exact regional_takeMutex h
  · obtain rfl := Option.some.inj h
    exact (Tended.refl s).goTo rfl (by simp)

theorem regional_requesting {noneFree : Bool} {buffer : Option ℕ}
    (h : s.requesting d noneFree buffer = some t) : s.Regional t := by
  have htended : s.Tended s.updateMetadata := ⟨rfl, rfl, rfl, rfl, fun _ => Or.inl rfl⟩
  unfold requesting at h
  dsimp only at h
  split at h
  · obtain rfl := Option.some.inj h
    exact htended.goes goes_afterLoading
  · split at h
    · obtain rfl := Option.some.inj h
      exact htended.goes goes_afterLoading
    · split at h
      · obtain rfl := Option.some.inj h
        exact htended.goTo rfl (by simp)
      · split at h
        · obtain rfl := Option.some.inj h
          rename_i buffer _
          have hgiven := htended.setLoader buffer (Or.inr ⟨s.st.filesLoaded.toNat, rfl⟩)
          exact (hgiven.track _).goes goes_loadNext
        · cases h

theorem regional_getLoaded {buffer : Option ℕ} (h : s.getLoaded buffer = some t) :
    s.Regional t := by
  unfold getLoaded at h
  split at h
  · obtain rfl := Option.some.inj h
    exact (Tended.refl s).goTo rfl (by simp)
  · split at h
    · obtain rfl := Option.some.inj h
      exact ⟨rfl, rfl, rfl, fun _ => Or.inl rfl, by simp [Live.track, Pc.isAsleep],
        Or.inl ⟨rfl, by simp [Live.track]⟩⟩
    · cases h

/-- The wait itself, with the mutex given up when it was held. -/
theorem Tended.waitOr (h : s.Tended s') {asleep : Pc} (hasleep : asleep ≠ .holding) :
    s.Regional (s'.waitOr asleep) := by
  unfold Live.waitOr
  cases hwait : s'.fi.afiWaitOnUpdate with
  | sleeps =>
      have hrecord := afiWaitOnUpdate_eq_sleeps.mp hwait
      rw [h.fi] at hrecord
      exact ⟨h.fi, h.recorder, h.writing, h.loaders, fun _ => hrecord,
        Or.inl ⟨h.holder, hasleep⟩⟩
  | returns _ => exact h.goTo rfl (by simp)

/-- **Every region of the sender is one.** -/
theorem regional_region {noneFree : Bool} {buffer : Option ℕ}
    (h : s.region d noneFree buffer = some t) : s.Regional t := by
  have hself := Tended.refl s
  unfold region at h
  split at h
  case h_1 =>
    obtain rfl := Option.some.inj h
    exact regional_enter
  case h_2 =>
    obtain rfl := Option.some.inj h
    unfold getStatus
    split <;> exact hself.goTo rfl (by simp)
  case h_3 again _ =>
    split at h
    · obtain rfl := Option.some.inj h
      exact hself.waitOr (by simp)
    · cases h
  case h_4 =>
    obtain rfl := Option.some.inj h
    exact regional_compare ((hself.track _).track _)
  case h_5 lors _ =>
    obtain rfl := Option.some.inj h
    unfold isMissing
    split
    · exact hself.goTo rfl (by simp)
    · exact hself.goTo rfl (by simp)
    · exact hself.goes (goes_skipped lors)
  case h_6 lors _ =>
    obtain rfl := Option.some.inj h
    exact (hself.track _).goes (goes_skipAgain lors)
  case h_7 => exact regional_startLoading h
  case h_8 hpc =>
    obtain rfl := Option.some.inj h
    have hwait : s.Regional (s.waitOr .asleepLoading) := hself.waitOr (by simp)
    refine ⟨hwait.fi, hwait.recorder, hwait.writing, hwait.loaders, hwait.sleeps, ?_⟩
    refine Or.inr (Or.inl ⟨hpc, rfl, ?_⟩)
    show (s.waitOr .asleepLoading).pc ≠ .holding
    unfold waitOr
    split <;> simp [goTo]
  case h_9 => exact regional_wokenLoading h
  case h_10 => exact regional_requesting h
  case h_11 => exact regional_getLoaded h
  case h_12 => cases h

theorem regional_send (h : s.send d = some t) : s.Regional t := by
  unfold send at h
  split at h
  · obtain rfl := Option.some.inj h
    dsimp only
    split <;> exact ⟨rfl, rfl, rfl, fun _ => Or.inl rfl, by simp [goTo, Pc.isAsleep],
      Or.inl ⟨rfl, by simp [goTo]⟩⟩
  · cases h

/-! ## No wake-up is lost -/

end Live

/-- The file that the thread of a buffer waits for, after its look at it. -/
def Loader.waitsFor : Loader → Option ℕ
  | .holding file | .asleep file => some file
  | _ => none

/-- The file that it has found on disk. -/
def Loader.readsFrom : Loader → Option ℕ
  | .found file | .reading file => some file
  | _ => none

namespace Live

variable {d : LiveSetup} {s s' t : Live}

/-- Who has `wait_mutex`, and who may sleep: a thread that waits for a file which is on disk
meanwhile has its wake-up before it. -/
structure Orderly (s : Live) : Prop where
  status : has s.fi.status afiRecord = true ↔ s.recorder = .recording
  awake : s.recorder = .gone → s.Awake
  sender : s.pc = .holding → s.holder = some .sender
  loader : ∀ buffer file, s.loaders buffer = .holding file → s.holder = some (.loader buffer)
  onTime : ∀ buffer file, (s.loaders buffer).waitsFor = some file →
    ∃ fh, s.fi.files[file]? = some fh ∧
      (s.recorder = .recording → has fh.status fhOndisk = true → s.writing file = true)
  reads : ∀ buffer file, (s.loaders buffer).readsFrom = some file →
    s.fi.onDisk file = some true

theorem Starts.orderly (h : Starts d s) : s.Orderly where
  status := ⟨fun _ => h.recorder, fun _ => h.status⟩
  awake hgone := by
    rw [h.recorder] at hgone
    cases hgone
  sender hpc := by
    rw [h.pc] at hpc
    cases hpc
  loader buffer file hloader := by
    rcases h.loaders buffer with hidle | ⟨_, hidle | hidle⟩ <;>
      · rw [hidle] at hloader
        cases hloader
  onTime buffer file hwaits := by
    rcases h.loaders buffer with hidle | ⟨_, hidle | hidle⟩ <;>
      · rw [hidle] at hwaits
        cases hwaits
  reads buffer file hreads := by
    rcases h.loaders buffer with hidle | ⟨_, hidle | hidle⟩ <;>
      · rw [hidle] at hreads
        cases hreads

/-- What the sender gives to a loader is no wait. -/
theorem Regional.same_of_waits (h : s.Regional t) {buffer file : ℕ}
    (hwaits : (t.loaders buffer).waitsFor = some file) :
    t.loaders buffer = s.loaders buffer := by
  rcases h.loaders buffer with hsame | hidle | ⟨_, hchecking⟩
  · exact hsame
  · rw [hidle] at hwaits
    cases hwaits
  · rw [hchecking] at hwaits
    cases hwaits

theorem Regional.same_of_reads (h : s.Regional t) {buffer file : ℕ}
    (hreads : (t.loaders buffer).readsFrom = some file) :
    t.loaders buffer = s.loaders buffer := by
  rcases h.loaders buffer with hsame | hidle | ⟨_, hchecking⟩
  · exact hsame
  · rw [hidle] at hreads
    cases hreads
  · rw [hchecking] at hreads
    cases hreads

/-- A region of the sender. -/
theorem Orderly.regional (h : s.Orderly) (hregion : s.Regional t) : t.Orderly where
  status := by
    rw [hregion.fi, hregion.recorder]
    exact h.status
  awake hgone := by
    rw [hregion.recorder] at hgone
    have hoff : ¬ has s.fi.status afiRecord = true := by
      rw [h.status, hgone]
      simp
    refine ⟨Bool.eq_false_iff.mpr fun hsleeps => hoff (hregion.sleeps hsleeps),
      fun buffer file hasleep => ?_⟩
    have hsame := hregion.same_of_waits (congrArg Loader.waitsFor hasleep)
    exact (h.awake hgone).loader buffer file (hsame.symm.trans hasleep)
  sender hpc := by
    rcases hregion.holder with ⟨-, hne⟩ | ⟨-, -, hne⟩ | ⟨-, hheld⟩
    · exact absurd hpc hne
    · exact absurd hpc hne
    · exact hheld
  loader buffer file hloader := by
    have hsame := hregion.same_of_waits (congrArg Loader.waitsFor hloader)
    have hheld := h.loader buffer file (hsame.symm.trans hloader)
    rcases hregion.holder with ⟨hsame, -⟩ | ⟨hpc, -, -⟩ | ⟨hnone, -⟩
    · rw [hsame]
      exact hheld
    · -- the sender had the mutex, so that the loader did not
      have hsender := h.sender hpc
      rw [hheld] at hsender
      cases hsender
    · rw [hheld] at hnone
      cases hnone
  onTime buffer file hwaits := by
    rw [hregion.fi, hregion.recorder, hregion.writing]
    rw [hregion.same_of_waits hwaits] at hwaits
    exact h.onTime buffer file hwaits
  reads buffer file hreads := by
    rw [hregion.fi]
    rw [hregion.same_of_reads hreads] at hreads
    exact h.reads buffer file hreads

/-- The cells change, and a file only comes on disk while it is being written. -/
theorem Orderly.withIndex (h : s.Orderly) {fi : FileIndex} {writing : ℕ → Bool}
    (hstatus : fi.status = s.fi.status)
    (hwriting : ∀ file, s.writing file = true → writing file = true)
    (hcells : ∀ {file fh}, s.fi.files[file]? = some fh → ∃ fh', fi.files[file]? = some fh' ∧
      (has fh.status fhOndisk = true → has fh'.status fhOndisk = true) ∧
      (has fh'.status fhOndisk = true → has fh.status fhOndisk = true ∨ writing file = true)) :
    Orderly { s with fi := fi, writing := writing } where
  status := by
    show has fi.status afiRecord = true ↔ _
    rw [hstatus]
    exact h.status
  awake hgone := ⟨(h.awake hgone).sender, (h.awake hgone).loader⟩
  sender := h.sender
  loader := h.loader
  onTime buffer file hwaits := by
    obtain ⟨fh, hfh, htime⟩ := h.onTime buffer file hwaits
    obtain ⟨fh', hfh', -, hnew⟩ := hcells hfh
    refine ⟨fh', hfh', fun hrecording hondisk => ?_⟩
    rcases hnew hondisk with hold | hwrites
    · exact hwriting file (htime hrecording hold)
    · exact hwrites
  reads buffer file hreads := by
    obtain ⟨fh, hfh, hondisk⟩ := Option.map_eq_some_iff.mp (h.reads buffer file hreads)
    obtain ⟨fh', hfh', hkeeps, -⟩ := hcells hfh
    exact Option.map_eq_some_iff.mpr ⟨fh', hfh', hkeeps hondisk⟩

/-- The thread of a buffer goes on, and the mutex goes from hand to hand. -/
theorem Orderly.move (h : s.Orderly) (buffer : ℕ) {loader : Loader} {holder : Option Waiter}
    (hawake : ∀ file, loader = .asleep file → s.recorder ≠ .gone)
    (hsender : s.pc = .holding → holder = some .sender)
    (hloader : ∀ file, loader = .holding file → holder = some (.loader buffer))
    (hothers : ∀ b ≠ buffer, ∀ file, s.loaders b = .holding file → holder = some (.loader b))
    (honTime : ∀ file, loader.waitsFor = some file → ∃ fh, s.fi.files[file]? = some fh ∧
      (s.recorder = .recording → has fh.status fhOndisk = true → s.writing file = true))
    (hreads : ∀ file, loader.readsFrom = some file → s.fi.onDisk file = some true) :
    Orderly { s.setLoader buffer loader with holder := holder } := by
  have hself : (s.setLoader buffer loader).loaders buffer = loader :=
    Function.update_self _ _ _
  have hother : ∀ b, b ≠ buffer → (s.setLoader buffer loader).loaders b = s.loaders b :=
    fun b hb => Function.update_of_ne hb _ _
  refine
    { status := h.status
      awake := fun hgone => ⟨(h.awake hgone).sender, fun b file hasleep => ?_⟩
      sender := hsender
      loader := fun b file hholding => ?_
      onTime := fun b file hwaits => ?_
      reads := fun b file hfile => ?_ }
  · by_cases hb : b = buffer
    · subst hb
      exact hawake file (hself.symm.trans hasleep) hgone
    · exact (h.awake hgone).loader b file ((hother b hb).symm.trans hasleep)
  · by_cases hb : b = buffer
    · subst hb
      exact hloader file (hself.symm.trans hholding)
    · exact hothers b hb file ((hother b hb).symm.trans hholding)
  · by_cases hb : b = buffer
    · subst hb
      exact honTime file ((congrArg Loader.waitsFor hself).symm.trans hwaits)
    · exact h.onTime b file ((congrArg Loader.waitsFor (hother b hb)).symm.trans hwaits)
  · by_cases hb : b = buffer
    · subst hb
      exact hreads file ((congrArg Loader.readsFrom hself).symm.trans hfile)
    · exact h.reads b file ((congrArg Loader.readsFrom (hother b hb)).symm.trans hfile)

/-- It neither takes the mutex nor sleeps. -/
theorem Orderly.setLoader (h : s.Orderly) (buffer : ℕ) {loader : Loader}
    (hwaits : loader.waitsFor = none)
    (hreads : ∀ file, loader.readsFrom = some file → s.fi.onDisk file = some true) :
    Orderly (s.setLoader buffer loader) := by
  refine h.move buffer (fun file hasleep => ?_) h.sender (fun file hholding => ?_)
    (fun b _ => h.loader b) (fun file hfile => ?_) hreads
  · rw [hasleep] at hwaits
    cases hwaits
  · rw [hholding] at hwaits
    cases hwaits
  · rw [hfile] at hwaits
    cases hwaits

/-- It takes the mutex, since its file was not on disk. -/
theorem Orderly.take (h : s.Orderly) (hfree : s.holder = none) {buffer file : ℕ}
    {fh : Fileholder} (hfh : s.fi.files[file]? = some fh)
    (hondisk : has fh.status fhOndisk = false) :
    Orderly { s.setLoader buffer (.holding file) with holder := some (.loader buffer) } := by
  refine h.move buffer (fun f hasleep => ?_) (fun hpc => ?_) (fun _ _ => rfl)
    (fun b _ f hloader => ?_) (fun f hwaits => ?_) (fun f hreads => ?_)
  · cases hasleep
  · have hheld := h.sender hpc
    rw [hfree] at hheld
    cases hheld
  · have hheld := h.loader b f hloader
    rw [hfree] at hheld
    cases hheld
  · obtain rfl : file = f := Option.some.inj hwaits
    exact ⟨fh, hfh, fun _ htrue => absurd (hondisk.symm.trans htrue) (by decide)⟩
  · cases hreads

/-- It has the mutex and gives it up, to sleep or to look again. -/
theorem Orderly.give (h : s.Orderly) {buffer file : ℕ} (hholding : s.loaders buffer = .holding file)
    {loader : Loader} (hnext : loader = .checking file ∨
      (loader = .asleep file ∧ has s.fi.status afiRecord = true)) :
    Orderly { s.setLoader buffer loader with holder := none } := by
  have hheld := h.loader buffer file hholding
  refine h.move buffer (fun f hasleep hgone => ?_) (fun hpc => ?_) (fun f hloader => ?_)
    (fun b hb f hloader => ?_) (fun f hwaits => ?_) (fun f hreads => ?_)
  · rcases hnext with rfl | ⟨-, hrecord⟩
    · cases hasleep
    · rw [h.status.mp hrecord] at hgone
      cases hgone
  · have hsender := h.sender hpc
    rw [hheld] at hsender
    cases hsender
  · rcases hnext with rfl | ⟨rfl, -⟩ <;> cases hloader
  · -- nobody else has it
    have hother := h.loader b f hloader
    rw [hheld] at hother
    cases hother
    exact absurd rfl hb
  · refine h.onTime buffer f ?_
    rw [hholding]
    rcases hnext with rfl | ⟨rfl, -⟩
    · cases hwaits
    · exact hwaits
  · rcases hnext with rfl | ⟨rfl, -⟩ <;> cases hreads

/-- Whoever is woken does not sleep. -/
theorem wokenPc_awake (pc : Pc) : (wokenPc pc).isAsleep = false := by
  cases pc with
  | asleep again => cases again <;> rfl
  | _ => rfl

/-- Waking leaves the region alone that has the mutex. -/
theorem eq_holding_of_wokenPc {pc : Pc} (h : wokenPc pc = .holding) : pc = .holding := by
  unfold wokenPc at h
  split at h <;> first | exact h | cases h

theorem waitsFor_wokenLoader {loader : Loader} {file : ℕ}
    (h : (wokenLoader loader).waitsFor = some file) : loader = .holding file := by
  cases loader with
  | holding other => exact congrArg Loader.holding (Option.some.inj h)
  | _ => cases h

theorem readsFrom_wokenLoader (loader : Loader) :
    (wokenLoader loader).readsFrom = loader.readsFrom := by
  cases loader <;> rfl

/-- Everybody is woken, by someone who could take the mutex. -/
theorem Orderly.wakeAll (h : s.Orderly) (hfree : s.holder = none) {writing : ℕ → Bool}
    {recorder : Recorder} (hrecorder : has s.fi.status afiRecord = true ↔ recorder = .recording) :
    Orderly { s with writing := writing, recorder := recorder }.wakeAll where
  status := hrecorder
  awake _ := by
    constructor
    · show (wokenPc s.pc).isAsleep = false
      exact wokenPc_awake s.pc
    · intro buffer file hasleep
      have hwaits : (wokenLoader (s.loaders buffer)).waitsFor = some file :=
        congrArg Loader.waitsFor hasleep
      have hwoken : wokenLoader (s.loaders buffer) = .asleep file := hasleep
      rw [waitsFor_wokenLoader hwaits] at hwoken
      cases hwoken
  sender hpc := by
    have hheld := h.sender (eq_holding_of_wokenPc hpc)
    rw [hfree] at hheld
    cases hheld
  loader buffer file hloader := by
    have hheld := h.loader buffer file (waitsFor_wokenLoader (congrArg Loader.waitsFor hloader))
    rw [hfree] at hheld
    cases hheld
  onTime buffer file hwaits := by
    have hheld := h.loader buffer file (waitsFor_wokenLoader hwaits)
    rw [hfree] at hheld
    cases hheld
  reads buffer file hreads :=
    h.reads buffer file ((readsFrom_wokenLoader _).symm.trans hreads)

/-- One region of the thread of a buffer. -/
theorem Orderly.load (h : s.Orderly) {buffer : ℕ} {isRead : Bool}
    (hload : s.load buffer isRead = some t) : t.Orderly := by
  unfold Live.load at hload
  split at hload
  case h_1 file hchecking =>
    cases hcell : s.fi.files[file]? with
    | none =>
        rw [show s.fi.afiWaitOnFile file = none by
          unfold FileIndex.afiWaitOnFile
          rw [hcell]
          rfl] at hload
        cases hload
    | some fh =>
        have hwait : s.fi.afiWaitOnFile file =
            some (if has fh.status fhOndisk then .returns 0
              else if has fh.status fhMissing then .returns (-1) else .sleeps) := by
          unfold FileIndex.afiWaitOnFile
          rw [hcell]
          rfl
        rw [hwait] at hload
        by_cases hondisk : has fh.status fhOndisk = true
        · rw [if_pos hondisk] at hload
          obtain rfl := Option.some.inj hload
          refine h.setLoader buffer rfl fun f hreads => ?_
          obtain rfl : file = f := Option.some.inj hreads
          exact Option.map_eq_some_iff.mpr ⟨fh, hcell, hondisk⟩
        · rw [if_neg hondisk] at hload
          by_cases hmissing : has fh.status fhMissing = true
          · rw [if_pos hmissing] at hload
            obtain rfl := Option.some.inj hload
            exact h.setLoader buffer rfl fun f hreads => by cases hreads
          · rw [if_neg hmissing] at hload
            dsimp only at hload
            split at hload
            · obtain rfl := Option.some.inj hload
              exact h.take (by assumption) hcell (Bool.eq_false_iff.mpr hondisk)
            · cases hload
  case h_2 file hholding =>
    split at hload
    · rename_i hsleeps
      obtain rfl := Option.some.inj hload
      exact h.give hholding (Or.inr ⟨rfl, afiWaitOnUpdate_eq_sleeps.mp hsleeps⟩)
    · obtain rfl := Option.some.inj hload
      exact h.give hholding (Or.inl rfl)
  case h_3 file hfound =>
    obtain ⟨_, -, rfl⟩ := Option.map_eq_some_iff.mp hload
    refine h.setLoader buffer rfl fun f hreads => ?_
    obtain rfl : file = f := Option.some.inj hreads
    exact h.reads buffer file (congrArg Loader.readsFrom hfound)
  case h_4 file hreading =>
    have hondisk := h.reads buffer file (congrArg Loader.readsFrom hreading)
    split at hload
    · obtain ⟨fi, hadd, rfl⟩ := Option.map_eq_some_iff.mp hload
      have hset : s.fi.modifyCell file
          (fun fh => { fh with status := fh.status ||| fhInmem }) = some fi := hadd
      have hindex : Orderly { s with fi := fi } := h.withIndex
        (sameCounts_modifyCell hset).status (fun _ hwrites => hwrites) fun {i fh} hfh => ?_
      · exact hindex.setLoader buffer rfl fun f hreads => by cases hreads
      · have hcell := modifyCell_getElem? hset i
        by_cases hi : file = i
        · subst hi
          rw [if_pos rfl, hfh] at hcell
          refine ⟨_, hcell, fun _ => (has_or_fhInmem fh.status).2, fun _ => Or.inl ?_⟩
          -- the file was on disk before it was read
          obtain ⟨fh', hfh', htrue⟩ := Option.map_eq_some_iff.mp hondisk
          rw [hfh] at hfh'
          obtain rfl := Option.some.inj hfh'
          exact htrue
        · rw [if_neg hi] at hcell
          exact ⟨fh, hcell.trans hfh, id, Or.inl⟩
    · obtain rfl := Option.some.inj hload
      exact h.setLoader buffer rfl fun f hreads => by cases hreads
  case h_5 => cases hload

/-- A writer changes the status of its file. -/
theorem Orderly.setCell (h : s.Orderly) {id : ℕ} {f : Fileholder → Fileholder} {fi : FileIndex}
    (hset : s.fi.modifyCell id f = some fi) (hwrites : s.writing id = true)
    (hkeeps : ∀ fh, has fh.status fhOndisk = true → has (f fh).status fhOndisk = true) :
    Orderly { s with fi := fi } := by
  refine h.withIndex (sameCounts_modifyCell hset).status (fun _ hw => hw) fun {i fh} hfh => ?_
  have hcell := modifyCell_getElem? hset i
  by_cases hi : id = i
  · subst hi
    rw [if_pos rfl, hfh] at hcell
    exact ⟨_, hcell, hkeeps fh, fun _ => Or.inr hwrites⟩
  · rw [if_neg hi] at hcell
    exact ⟨fh, hcell.trans hfh, fun hondisk => hondisk, Or.inl⟩

/-- A writer adds its file. -/
theorem Orderly.addFile (h : s.Orderly) {id : ℕ} {diskid r : ℤ}
    {realloc : Option (ℕ → Fileholder)} {fi : FileIndex}
    (hadd : s.fi.afiAddFile id diskid (fhInmem ||| fhBusy) realloc = some (r, fi)) :
    Orderly { s with fi := fi, writing := Function.update s.writing id true } := by
  refine h.withIndex (afiAddFile_counts hadd).1 (fun file hwrites => ?_)
    fun {i fh} hfh => ?_
  · by_cases hfile : file = id
    · rw [hfile, Function.update_self]
    · rw [Function.update_of_ne hfile]
      exact hwrites
  · rcases (afiAddFile_cells hadd).2 hfh with hsame | ⟨rfl, -, hnew⟩
    · exact ⟨fh, hsame, fun hondisk => hondisk, Or.inl⟩
    · have hinmem : has (fhInmem ||| fhBusy) fhOndisk = true := by decide
      exact ⟨_, hnew, fun _ => hinmem, fun _ => Or.inr (Function.update_self _ _ _)⟩

/-- `afi_disassociate` takes the status away. -/
theorem Orderly.disassociate (h : s.Orderly) : Orderly { s with
    fi := { s.fi with status := s.fi.status &&& ~~~afiRecord }, recorder := .ending } where
  status := by
    refine iff_of_false ?_ (by simp)
    show ¬ has (s.fi.status &&& ~~~afiRecord) afiRecord = true
    rw [Registry.has_afiRecord]
    simp [afiRecord]
  awake hgone := by cases hgone
  sender := h.sender
  loader := h.loader
  onTime buffer file hwaits := by
    obtain ⟨fh, hfh, -⟩ := h.onTime buffer file hwaits
    exact ⟨fh, hfh, fun hrecording => by cases hrecording⟩
  reads := h.reads

/-- **Every step keeps the order.** -/
theorem Orderly.step (h : s.Orderly) {a : Act} (hstep : next d s a = some t) : t.Orderly := by
  cases a with
  | addPackets n =>
      unfold next at hstep
      dsimp only at hstep
      split at hstep
      · obtain rfl := Option.some.inj hstep
        exact h.withIndex rfl (fun _ hwrites => hwrites) fun {_ fh} hfh =>
          ⟨fh, hfh, id, Or.inl⟩
      · cases hstep
  | addFile id diskid realloc =>
      unfold next at hstep
      dsimp only at hstep
      split at hstep
      · obtain ⟨fi, hfi, rfl⟩ := Option.map_eq_some_iff.mp hstep
        obtain ⟨⟨r, fi⟩, hadd, rfl⟩ := Option.map_eq_some_iff.mp hfi
        exact h.addFile hadd
      · cases hstep
  | delBusy id =>
      unfold next at hstep
      dsimp only at hstep
      split at hstep
      · rename_i hguard
        obtain ⟨fi, hset, rfl⟩ := Option.map_eq_some_iff.mp hstep
        exact h.setCell hset hguard.2 fun fh => (has_delBusy fh.status).2.trans
      · cases hstep
  | addOndisk id =>
      unfold next at hstep
      dsimp only at hstep
      split at hstep
      · rename_i hguard
        obtain ⟨fi, hset, rfl⟩ := Option.map_eq_some_iff.mp hstep
        exact h.setCell hset hguard.2 fun fh _ => (has_or_fhOndisk fh.status).2
      · cases hstep
  | wakeUp id =>
      unfold next at hstep
      dsimp only at hstep
      split at hstep
      · rename_i hguard
        obtain rfl := Option.some.inj hstep
        exact h.wakeAll hguard.2.2 h.status
      · cases hstep
  | disassociate =>
      unfold next at hstep
      dsimp only at hstep
      split at hstep
      · obtain rfl := Option.some.inj hstep
        exact h.disassociate
      · cases hstep
  | lastWakeUp =>
      unfold next at hstep
      dsimp only at hstep
      split at hstep
      · rename_i hguard
        obtain rfl := Option.some.inj hstep
        refine h.wakeAll hguard.2 (iff_of_false ?_ (by simp))
        rw [h.status, hguard.1]
        simp
      · cases hstep
  | send => exact h.regional (regional_send hstep)
  | quit =>
      unfold next at hstep
      dsimp only at hstep
      split at hstep
      · obtain rfl := Option.some.inj hstep
        exact h.regional ((Tended.refl s).goTo rfl (by simp))
      · cases hstep
  | region noneFree buffer => exact h.regional (regional_region hstep)
  | load buffer isRead => exact h.load hstep
  | spurious waiter =>
      cases waiter with
      | sender =>
          obtain rfl := Option.some.inj hstep
          exact
            { h with
              awake := fun hgone => ⟨wokenPc_awake s.pc, (h.awake hgone).loader⟩
              sender := fun hpc => h.sender (eq_holding_of_wokenPc hpc) }
      | loader buffer =>
          obtain rfl := Option.some.inj hstep
          have hholding : ∀ file, (wokenLoader (s.loaders buffer)).waitsFor = some file →
              s.loaders buffer = .holding file := fun _ => waitsFor_wokenLoader
          refine h.move buffer (fun file hasleep => ?_) h.sender (fun file hloader => ?_)
            (fun b _ => h.loader b) (fun file hwaits => ?_) fun file hreads => ?_
          · rw [hasleep] at hholding
            have hloader := hholding file rfl
            rw [hloader] at hasleep
            cases hasleep
          · exact h.loader buffer file (hholding file (congrArg Loader.waitsFor hloader))
          · exact h.onTime buffer file (congrArg Loader.waitsFor (hholding file hwaits))
          · exact h.reads buffer file ((readsFrom_wokenLoader _).symm.trans hreads)

theorem orderly_of_reachable (h : (system d).Reachable s) : s.Orderly :=
  h.invariant (fun _ => Starts.orderly) fun _ _ _ horderly hstep => horderly.step hstep

end Live

end VlbiStreamer.Sender
