import VlbiStreamer.Sender.LiveWaking

/-!
# A live sender and the end of the recording

`Accounts` follows the packets: what the sender has read of the index, how many files it has
sent and that it has sent all of their packets.  It needs sound steps: between the look at the
files and the look at the status the recorder can add files and be done, and between the look
at the status and the wait it can be done.  `served_of_reachable` is what holds of the runs
with sound steps, and `ended_not_served` has two runs without.
-/

namespace VlbiStreamer.Sender

open ActiveFileIndex Library

namespace Live

variable {d : LiveSetup} {s s' t : Live}

/-! ## What is counted -/

/-- Each file of the index has a packet, and at the end each packet has a file. -/
structure Counts (d : LiveSetup) (fi : FileIndex) (recorder : Recorder) : Prop where
  word : fi.nPackets < 2 ^ 64
  counted : ∀ file < fi.nFiles, file * d.elems < fi.nPackets
  ended : recorder ≠ .recording → fi.nPackets ≤ fi.nFiles * d.elems

section Counting

variable {fi fi' : FileIndex} {recorder : Recorder} {st : SenderTracking}

theorem Counts.nFiles_le (h : Counts d fi recorder) : fi.nFiles ≤ fi.nPackets := by
  cases hfiles : fi.nFiles with
  | zero => exact Nat.zero_le _
  | succ n =>
      have hlast := h.counted n (by omega)
      exact (Nat.le_mul_of_pos_right n d.elems_pos).trans_lt hlast

/-- The files of the index fit their word. -/
theorem Counts.toNat_nFiles (h : Counts d fi recorder) :
    (BitVec.ofNat 64 fi.nFiles).toNat = fi.nFiles := by
  rw [BitVec.toNat_ofNat]
  exact Nat.mod_eq_of_lt (h.nFiles_le.trans_lt h.word)

theorem Counts.toNat_nPackets (h : Counts d fi recorder) :
    (BitVec.ofNat 64 fi.nPackets).toNat = fi.nPackets := by
  rw [BitVec.toNat_ofNat]
  exact Nat.mod_eq_of_lt h.word

/-- What has just been read. -/
theorem Counts.snapshot (h : Counts d fi recorder)
    (hfiles : st.nFilesProbed = BitVec.ofNat 64 fi.nFiles)
    (hpackets : st.nPacketsProbed = BitVec.ofNat 64 fi.nPackets) : Snapshot d fi st := by
  have hf := h.toNat_nFiles
  have hp := h.toNat_nPackets
  rw [← hfiles] at hf
  rw [← hpackets] at hp
  refine ⟨hf.le, hp.le, ?_, Or.inr ⟨hf, hp⟩⟩
  rw [hf, hp]
  exact h.counted

/-- The index grows; when it does, the files that were in it are full. -/
theorem Snapshot.grow (h : Snapshot d fi st) (hfiles : fi.nFiles ≤ fi'.nFiles)
    (hpackets : fi.nPackets ≤ fi'.nPackets)
    (hfull : fi.nFiles * d.elems ≤ fi.nPackets ∨
      (fi'.nFiles = fi.nFiles ∧ fi'.nPackets = fi.nPackets)) : Snapshot d fi' st where
  files := h.files.trans hfiles
  packets := h.packets.trans hpackets
  counted := h.counted
  full := by
    rcases h.full with hold | ⟨hsameFiles, hsamePackets⟩
    · exact Or.inl hold
    · rcases hfull with hfull | ⟨hf, hp⟩
      · left
        rw [← hsameFiles, ← hsamePackets] at hfull
        exact hfull
      · exact Or.inr ⟨hsameFiles.trans hf.symm, hsamePackets.trans hp.symm⟩

end Counting

/-! ## What is sent -/

/-- The packets of the first files were sent, as far as the sender has heard of them. -/
structure SentUpTo (d : LiveSetup) (st : SenderTracking) (sent : List ℕ) (files : ℕ) : Prop where
  packets : st.packetsSent.toNat = min st.nPacketsProbed.toNat (files * d.elems)
  sent : sent = List.range st.packetsSent.toNat

/-- There is a file to be sent, and those before it were. -/
structure Due (d : LiveSetup) (st : SenderTracking) (sent : List ℕ) : Prop where
  place : st.filesSent < st.nFilesProbed
  sent : SentUpTo d st sent st.filesSent.toNat

/-- It stays right when the index is read again. -/
theorem SentUpTo.updateMetadata {files : ℕ} (h : SentUpTo d s.st s.sent files)
    (hcounts : Counts d s.fi s.recorder) (hsnapshot : Snapshot d s.fi s.st)
    (hfiles : files ≤ s.st.nFilesProbed.toNat) :
    SentUpTo d s.updateMetadata.st s.sent files where
  packets := by
    show s.st.packetsSent.toNat = min (BitVec.ofNat 64 s.fi.nPackets).toNat _
    rw [h.packets, hcounts.toNat_nPackets]
    rcases hsnapshot.full with hfull | ⟨-, hsame⟩
    · have hmono := Nat.mul_le_mul_right d.elems hfiles
      have hpackets := hsnapshot.packets
      rw [Nat.min_eq_right (hmono.trans hfull),
        Nat.min_eq_right (hmono.trans (hfull.trans hpackets))]
    · rw [hsame]
  sent := h.sent

theorem Due.updateMetadata (h : Due d s.st s.sent) (hcounts : Counts d s.fi s.recorder)
    (hsnapshot : Snapshot d s.fi s.st) : Due d s.updateMetadata.st s.sent where
  place := by
    have hplace := BitVec.lt_def.mp h.place
    show s.st.filesSent < BitVec.ofNat 64 s.fi.nFiles
    rw [BitVec.lt_def, hcounts.toNat_nFiles]
    exact hplace.trans_le hsnapshot.files
  sent := h.sent.updateMetadata hcounts hsnapshot (BitVec.lt_def.mp h.place).le

/-- Two trackings with the same numbers of what was sent and what was read. -/
structure Alike (st st' : SenderTracking) : Prop where
  filesSent : st'.filesSent = st.filesSent
  packetsSent : st'.packetsSent = st.packetsSent
  nFilesProbed : st'.nFilesProbed = st.nFilesProbed
  nPacketsProbed : st'.nPacketsProbed = st.nPacketsProbed

section Alike

variable {fi : FileIndex} {st st' : SenderTracking} {sent : List ℕ} {files : ℕ}

theorem Snapshot.alike (h : Snapshot d fi st) (hst : Alike st st') : Snapshot d fi st' := by
  refine ⟨?_, ?_, ?_, ?_⟩
  · rw [hst.nFilesProbed]
    exact h.files
  · rw [hst.nPacketsProbed]
    exact h.packets
  · rw [hst.nFilesProbed, hst.nPacketsProbed]
    exact h.counted
  · rw [hst.nFilesProbed, hst.nPacketsProbed]
    exact h.full

theorem SentUpTo.alike (h : SentUpTo d st sent files) (hst : Alike st st') :
    SentUpTo d st' sent files := by
  refine ⟨?_, ?_⟩
  · rw [hst.packetsSent, hst.nPacketsProbed]
    exact h.packets
  · rw [hst.packetsSent]
    exact h.sent

theorem Due.alike (h : Due d st sent) (hst : Alike st st') : Due d st' sent := by
  refine ⟨?_, ?_⟩
  · rw [hst.filesSent, hst.nFilesProbed]
    exact h.place
  · rw [hst.filesSent]
    exact h.sent.alike hst

end Alike

/-- What holds at each region of the sender. -/
def PlacedAt (d : LiveSetup) (s : Live) : Pc → Prop
  | .sending => (∃ buffer, s.be = some ⟨buffer, s.st.filesSent.toNat⟩) ∧ Due d s.st s.sent
  | .entry => s.be = none ∨ (s.st.filesSent < s.st.nFilesProbed ∧
      SentUpTo d s.st s.sent (s.st.filesSent.toNat + 1))
  | .getStatus | .refresh | .waitOnUpdate false | .asleep false =>
      s.be = none ∧ s.st.filesSent = s.st.nFilesProbed ∧
        SentUpTo d s.st s.sent s.st.filesSent.toNat
  | .returned .allDone => s.recorder ≠ .recording ∧ s.sent = List.range s.fi.nPackets
  | .returned .waitFailed => s.live = false
  | .returned .noLoaded | .stopped => True
  | .skipCount .skipSent => False
  | _ => s.be = none ∧ Due d s.st s.sent

theorem placedAt_woken {pc : Pc} (h : PlacedAt d s pc) : PlacedAt d s (wokenPc pc) := by
  cases pc with
  | asleep again =>
      cases again with
      | false => exact h
      | true => exact Or.inl h.1
  | _ => exact h

theorem placedAt_of_ahead {pc : Pc} (hpc : pc.Ahead) (hbe : s.be = none)
    (hdue : Due d s.st s.sent) : PlacedAt d s pc := by
  cases pc with
  | skip lors => exact ⟨hbe, hdue⟩
  | startLoading => exact ⟨hbe, hdue⟩
  | getLoaded => exact ⟨hbe, hdue⟩
  | waitOnUpdate again =>
      cases again with
      | false => exact hpc.elim
      | true => exact ⟨hbe, hdue⟩
  | returned e =>
      cases e with
      | noLoaded => trivial
      | allDone => exact hpc.elim
      | waitFailed => exact hpc.elim
  | _ => exact hpc.elim

/-- The counts, what the sender has read of them and what it has sent. -/
structure Accounts (d : LiveSetup) (s : Live) : Prop where
  counts : Counts d s.fi s.recorder
  snapshot : Snapshot d s.fi s.st
  placed : PlacedAt d s s.pc

theorem Starts.accounts (h : Starts d s) : Accounts d s where
  counts := ⟨h.word, h.counted, fun hover => absurd h.recorder hover⟩
  snapshot := h.snapshot
  placed := by
    rw [h.pc]
    obtain ⟨buffer, hbe, -⟩ := h.be
    refine ⟨⟨buffer, hbe⟩, h.place, ?_, h.sent⟩
    have hcounted := h.snapshot.counted _ (BitVec.lt_def.mp h.place)
    rw [h.packets, Nat.min_eq_right hcounted.le]

/-! ## The regions of the sender -/

/-- The sender has come past the loop that waits for another file. -/
structure Ready (d : LiveSetup) (s : Live) : Prop where
  counts : Counts d s.fi s.recorder
  snapshot : Snapshot d s.fi s.st
  be : s.be = none
  due : Due d s.st s.sent

theorem Ready.goes (h : Ready d s) (hgoes : s.Goes t) : Accounts d t := by
  obtain ⟨pc, hpc, rfl⟩ := hgoes
  exact ⟨h.counts, h.snapshot, placedAt_of_ahead hpc h.be h.due⟩

theorem Ready.goTo (h : Ready d s) {pc : Pc} (hpc : PlacedAt d s pc) : Accounts d (s.goTo pc) :=
  ⟨h.counts, h.snapshot, hpc⟩

/-- The condition of the loop that waits, when so many files were sent. -/
theorem accounts_compare (hcounts : Counts d s.fi s.recorder) (hsnapshot : Snapshot d s.fi s.st)
    (hbe : s.be = none) (hle : s.st.filesSent.toNat ≤ s.st.nFilesProbed.toNat)
    (hsent : SentUpTo d s.st s.sent s.st.filesSent.toNat) : Accounts d s.compare := by
  unfold compare
  by_cases heq : s.st.filesSent = s.st.nFilesProbed
  · rw [if_pos heq]
    exact ⟨hcounts, hsnapshot, hbe, heq, hsent⟩
  · rw [if_neg heq]
    have hlt : s.st.filesSent < s.st.nFilesProbed := by
      rw [BitVec.lt_def]
      exact lt_of_le_of_ne hle fun h => heq (BitVec.eq_of_toNat_eq h)
    exact Ready.goes ⟨hcounts, hsnapshot, hbe, hlt, hsent⟩ goes_loadNext

/-- The top of `jump_to_next_file` with a buffer that was sent. -/
theorem Accounts.enter (h : Accounts d s) (hpc : s.pc = .entry) : Accounts d (s.enter d) := by
  have hplaced := h.placed
  rw [hpc] at hplaced
  have hsnapshot : Snapshot d s.fi s.updateMetadata.st := h.counts.snapshot rfl rfl
  unfold Live.enter
  cases hbe : s.be with
  | none => exact ⟨h.counts, hsnapshot.alike ⟨rfl, rfl, rfl, rfl⟩, trivial⟩
  | some held =>
      rcases hplaced with hnone | ⟨hplace, hsent⟩
      · rw [hbe] at hnone
        cases hnone
      · have hlt := BitVec.lt_def.mp hplace
        have hnext : (s.st.filesSent + 1).toNat = s.st.filesSent.toNat + 1 := by
          rw [BitVec.toNat_add]
          exact Nat.mod_eq_of_lt (by have := s.st.nFilesProbed.isLt; simp; omega)
        have hread := hsent.updateMetadata h.counts h.snapshot (by omega)
        refine accounts_compare h.counts (h.counts.snapshot rfl rfl) rfl ?_ ?_
        · show (s.st.filesSent + 1).toNat ≤ (BitVec.ofNat 64 s.fi.nFiles).toNat
          have hfiles := h.snapshot.files
          rw [hnext, h.counts.toNat_nFiles]
          omega
        · show SentUpTo d _ _ (s.st.filesSent + 1).toNat
          rw [hnext]
          exact ⟨hread.packets, hread.sent⟩

/-- After a wait for another file. -/
theorem Accounts.refresh (h : Accounts d s) (hpc : s.pc = .refresh) :
    Accounts d (s.refresh d) := by
  have hplaced := h.placed
  rw [hpc] at hplaced
  obtain ⟨hbe, heq, hsent⟩ := hplaced
  have hread := hsent.updateMetadata h.counts h.snapshot (by rw [heq])
  refine accounts_compare h.counts (h.counts.snapshot rfl rfl) hbe ?_ ⟨hread.packets, hread.sent⟩
  show s.st.filesSent.toNat ≤ (BitVec.ofNat 64 s.fi.nFiles).toNat
  rw [h.counts.toNat_nFiles, heq]
  exact h.snapshot.files

/-- What holds where the sender has come past that loop. -/
theorem Accounts.ready (h : Accounts d s) (hplaced : s.be = none ∧ Due d s.st s.sent) :
    Ready d s :=
  ⟨h.counts, h.snapshot, hplaced.1, hplaced.2⟩

theorem Ready.track (h : Ready d s) {f : SenderTracking → SenderTracking}
    (hf : Alike s.st (f s.st)) : Ready d (s.track f) :=
  ⟨h.counts, h.snapshot.alike hf, h.be, h.due.alike hf⟩

theorem Ready.updateMetadata (h : Ready d s) : Ready d s.updateMetadata :=
  ⟨h.counts, h.counts.snapshot rfl rfl, h.be, h.due.updateMetadata h.counts h.snapshot⟩

/-- `afi_get_status`: when the recording is over and no file was added meanwhile, all was
sent. -/
theorem Accounts.getStatus (h : Accounts d s) (horderly : s.Orderly) (hpc : s.pc = .getStatus)
    (hsound : has s.fi.status afiRecord = true ∨ s.st.nFilesProbed.toNat = s.fi.nFiles) :
    Accounts d s.getStatus := by
  have hplaced := h.placed
  rw [hpc] at hplaced
  unfold Live.getStatus
  split
  · exact ⟨h.counts, h.snapshot, hplaced⟩
  · rename_i hoff
    obtain ⟨-, heq, hsent⟩ := hplaced
    have hover : s.recorder ≠ .recording := fun hon => hoff (horderly.status.mpr hon)
    have hfiles := hsound.resolve_left hoff
    refine ⟨h.counts, h.snapshot, hover, ?_⟩
    -- every packet has a file, and all the files were there when they were counted
    have hall : s.st.packetsSent.toNat = s.fi.nPackets := by
      have hended := h.counts.ended hover
      have hpackets := h.snapshot.packets
      have hfull := h.snapshot.full
      rw [hsent.packets, heq, hfiles]
      rw [hfiles] at hfull
      omega
    show s.sent = List.range s.fi.nPackets
    rw [hsent.sent, hall]

/-- A wait fails only where the recording was over from the beginning. -/
theorem Accounts.waitOr (h : Accounts d s) {asleep : Pc} (hasleep : PlacedAt d s asleep)
    (hsound : has s.fi.status afiRecord = true ∨ s.live = false) :
    Accounts d (s.waitOr asleep) := by
  unfold Live.waitOr
  cases hwait : s.fi.afiWaitOnUpdate with
  | sleeps => exact ⟨h.counts, h.snapshot, hasleep⟩
  | returns _ =>
      have hoff : ¬ has s.fi.status afiRecord = true := fun hon => by
        rw [afiWaitOnUpdate_eq_sleeps.mpr hon] at hwait
        cases hwait
      exact ⟨h.counts, h.snapshot, hsound.resolve_left hoff⟩

/-- `skip_missing`, which is not to skip a file to be sent. -/
theorem Ready.isMissing (h : Ready d s) {lors : Lors}
    (hsound : lors = .skipSent → s.fi.afiIsMissing s.st.filesSent.toNat ≠ some true) :
    Accounts d (s.isMissing lors) := by
  unfold Live.isMissing
  cases hmissing : s.fi.afiIsMissing (lors.target s.st).toNat with
  | none => exact h.goTo trivial
  | some missing =>
      cases missing with
      | false => exact h.goes (goes_skipped lors)
      | true =>
          cases lors with
          | skipLoaded => exact h.goTo ⟨h.be, h.due⟩
          | skipSent => exact absurd hmissing (hsound rfl)

theorem Ready.takeMutex (h : Ready d s) (htake : s.takeMutex = some t) : Accounts d t := by
  unfold Live.takeMutex at htake
  split at htake
  · obtain rfl := Option.some.inj htake
    exact ⟨h.counts, h.snapshot, h.be, h.due⟩
  · cases htake

theorem Ready.startLoading (h : Ready d s) (hstart : s.startLoading = some t) :
    Accounts d t := by
  unfold Live.startLoading at hstart
  split at hstart
  · obtain rfl := Option.some.inj hstart
    exact h.goTo trivial
  · exact h.takeMutex hstart
  · obtain rfl := Option.some.inj hstart
    split
    · exact h.goTo ⟨h.be, h.due⟩
    · exact h.goes goes_afterLoading

theorem Ready.wokenLoading (h : Ready d s) (hwoken : s.wokenLoading = some t) :
    Accounts d t := by
  unfold Live.wokenLoading at hwoken
  split at hwoken
  · obtain rfl := Option.some.inj hwoken
    exact h.goTo trivial
  · exact h.takeMutex hwoken
  · obtain rfl := Option.some.inj hwoken
    exact h.goTo ⟨h.be, h.due⟩

theorem Ready.requesting (h : Ready d s) {noneFree : Bool} {buffer : Option ℕ}
    (hrequest : s.requesting d noneFree buffer = some t) : Accounts d t := by
  have hread := h.updateMetadata
  unfold Live.requesting at hrequest
  dsimp only at hrequest
  split at hrequest
  · obtain rfl := Option.some.inj hrequest
    exact hread.goes goes_afterLoading
  · split at hrequest
    · obtain rfl := Option.some.inj hrequest
      exact hread.goes goes_afterLoading
    · split at hrequest
      · obtain rfl := Option.some.inj hrequest
        exact hread.goTo trivial
      · split at hrequest
        · obtain rfl := Option.some.inj hrequest
          rename_i buffer _
          have hgiven : Ready d (s.updateMetadata.setLoader buffer
              (.checking s.updateMetadata.st.filesLoaded.toNat)) :=
            ⟨hread.counts, hread.snapshot, hread.be, hread.due⟩
          exact (hgiven.track ⟨rfl, rfl, rfl, rfl⟩).goes goes_loadNext
        · cases hrequest

theorem Ready.getLoaded (h : Ready d s) {buffer : Option ℕ}
    (hloaded : s.getLoaded buffer = some t) : Accounts d t := by
  unfold Live.getLoaded at hloaded
  split at hloaded
  · obtain rfl := Option.some.inj hloaded
    exact h.goTo trivial
  · rename_i buffer
    split at hloaded
    · obtain rfl := Option.some.inj hloaded
      have hst : Alike s.st { s.st with filesInLoading := s.st.filesInLoading - 1 } :=
        ⟨rfl, rfl, rfl, rfl⟩
      exact ⟨h.counts, h.snapshot.alike hst, ⟨buffer, rfl⟩, h.due.alike hst⟩
    · cases hloaded

/-- **A sound region of the sender keeps the accounts.** -/
theorem Accounts.region (h : Accounts d s) (horderly : s.Orderly) {noneFree : Bool}
    {buffer : Option ℕ} (hsound : Sound d s (.region noneFree buffer))
    (hregion : s.region d noneFree buffer = some t) : Accounts d t := by
  have hplaced := h.placed
  unfold Live.region at hregion
  unfold Sound at hsound
  dsimp only at hsound
  split at hregion
  case h_1 hpc =>
    obtain rfl := Option.some.inj hregion
    exact h.enter hpc
  case h_2 hpc =>
    obtain rfl := Option.some.inj hregion
    rw [hpc] at hsound
    exact h.getStatus horderly hpc hsound
  case h_3 again hpc =>
    rw [hpc] at hplaced hsound
    split at hregion
    · obtain rfl := Option.some.inj hregion
      refine h.waitOr ?_ hsound
      cases again <;> exact hplaced
    · cases hregion
  case h_4 hpc =>
    obtain rfl := Option.some.inj hregion
    exact h.refresh hpc
  case h_5 lors hpc =>
    obtain rfl := Option.some.inj hregion
    rw [hpc] at hplaced hsound
    refine (h.ready hplaced).isMissing fun hlors => ?_
    subst hlors
    exact hsound
  case h_6 lors hpc =>
    obtain rfl := Option.some.inj hregion
    rw [hpc] at hplaced
    cases lors with
    | skipLoaded =>
        unfold Live.skipFile
        refine Ready.goes ?_ (goes_skipAgain .skipLoaded)
        exact (h.ready hplaced).track ⟨rfl, rfl, rfl, rfl⟩
    | skipSent => exact hplaced.elim
  case h_7 hpc =>
    rw [hpc] at hplaced
    exact (h.ready hplaced).startLoading hregion
  case h_8 hpc =>
    obtain rfl := Option.some.inj hregion
    rw [hpc] at hplaced hsound
    have hwait : Accounts d (s.waitOr .asleepLoading) := h.waitOr hplaced hsound
    exact ⟨hwait.counts, hwait.snapshot, hwait.placed⟩
  case h_9 hpc =>
    rw [hpc] at hplaced
    exact (h.ready hplaced).wokenLoading hregion
  case h_10 hpc =>
    rw [hpc] at hplaced
    exact (h.ready hplaced).requesting hregion
  case h_11 hpc =>
    rw [hpc] at hplaced
    exact (h.ready hplaced).getLoaded hregion
  case h_12 => cases hregion

/-- The packets of the buffer are those of the next file. -/
theorem Accounts.send (h : Accounts d s) (hsend : s.send d = some t) : Accounts d t := by
  have hplaced := h.placed
  unfold Live.send at hsend
  split at hsend
  case h_2 => cases hsend
  case h_1 held hpc hbe =>
    obtain rfl := Option.some.inj hsend
    rw [hpc] at hplaced
    obtain ⟨⟨buffer, hheld⟩, hdue⟩ := hplaced
    obtain rfl : held = ⟨buffer, s.st.filesSent.toNat⟩ := Option.some.inj (hbe.symm.trans hheld)
    have hlt := BitVec.lt_def.mp hdue.place
    have hcounted := h.snapshot.counted _ hlt
    have hword := s.st.nPacketsProbed.isLt
    -- the files before it are full
    have hbefore : s.st.packetsSent.toNat = s.st.filesSent.toNat * d.elems := by
      rw [hdue.sent.packets, Nat.min_eq_right hcounted.le]
    have hcount : (s.bboundaryPacketnum d).toNat =
        min (s.st.nPacketsProbed.toNat - s.st.packetsSent.toNat) d.elems := by
      unfold bboundaryPacketnum
      rw [toNat_minU, d.toNat_setWidth, BitVec.toNat_sub_of_le]
      rw [BitVec.le_def, hbefore]
      exact hcounted.le
    have hafter : (s.st.packetsSent + s.bboundaryPacketnum d).toNat =
        s.st.packetsSent.toNat + (s.bboundaryPacketnum d).toNat := by
      rw [BitVec.toNat_add]
      exact Nat.mod_eq_of_lt (by omega)
    have hnext : SentUpTo d { s.st with packetsSent := s.st.packetsSent + s.bboundaryPacketnum d }
        (s.sent ++ (List.range (s.bboundaryPacketnum d).toNat).map fun x =>
          s.st.filesSent.toNat * d.elems + x) (s.st.filesSent.toNat + 1) := by
      refine ⟨?_, ?_⟩
      · show (s.st.packetsSent + s.bboundaryPacketnum d).toNat =
          min s.st.nPacketsProbed.toNat _
        rw [hafter, hcount, hbefore, Nat.succ_mul]
        omega
      · show _ = List.range (s.st.packetsSent + s.bboundaryPacketnum d).toNat
        rw [hafter, List.range_add, ← hbefore, hdue.sent.sent]
    have hne : s.st.filesSent ≠ s.st.nFilesProbed := BitVec.ne_of_lt hdue.place
    dsimp only
    rw [if_pos (Or.inr hne)]
    exact ⟨h.counts, ⟨h.snapshot.files, h.snapshot.packets, h.snapshot.counted, h.snapshot.full⟩,
      Or.inr ⟨hdue.place, hnext⟩⟩

/-! ## The steps of the others -/

/-- A step that leaves the sender where it is, or wakes it. -/
structure Elsewhere (s t : Live) : Prop where
  pc : t.pc = s.pc ∨ t.pc = wokenPc s.pc
  st : t.st = s.st
  be : t.be = s.be
  sent : t.sent = s.sent
  live : t.live = s.live

theorem Accounts.placedAt (haccounts : Accounts d s) (h : s.Elsewhere t)
    (hdone : s.recorder ≠ .recording →
      t.recorder ≠ .recording ∧ t.fi.nPackets = s.fi.nPackets) : PlacedAt d t t.pc := by
  have hsame : ∀ pc, PlacedAt d s pc → PlacedAt d t pc := by
    intro pc hpc
    have hst := h.st
    have hbe := h.be
    have hsent := h.sent
    cases pc with
    | returned e =>
        cases e with
        | allDone =>
            obtain ⟨hover, hall⟩ := hdone hpc.1
            refine ⟨hover, ?_⟩
            rw [hsent, hall]
            exact hpc.2
        | waitFailed => exact h.live.trans hpc
        | noLoaded => trivial
    | stopped => trivial
    | waitOnUpdate again =>
        cases again <;>
          · unfold PlacedAt
            rw [hst, hbe, hsent]
            exact hpc
    | asleep again =>
        cases again <;>
          · unfold PlacedAt
            rw [hst, hbe, hsent]
            exact hpc
    | skipCount lors =>
        cases lors with
        | skipLoaded =>
            unfold PlacedAt
            rw [hst, hbe, hsent]
            exact hpc
        | skipSent => exact hpc.elim
    | _ =>
        unfold PlacedAt
        rw [hst, hbe, hsent]
        exact hpc
  rcases h.pc with hpc | hpc
  · rw [hpc]
    exact hsame _ haccounts.placed
  · rw [hpc]
    exact hsame _ (placedAt_woken haccounts.placed)

/-- One that counts nothing. -/
theorem Accounts.elsewhere (h : Accounts d s) (ht : s.Elsewhere t)
    (hpackets : t.fi.nPackets = s.fi.nPackets) (hfiles : t.fi.nFiles = s.fi.nFiles)
    (hrecorder : t.recorder ≠ .recording ↔ s.recorder ≠ .recording) : Accounts d t := by
  refine ⟨⟨?_, ?_, ?_⟩, ?_, h.placedAt ht fun hover => ⟨hrecorder.mpr hover, hpackets⟩⟩
  · rw [hpackets]
    exact h.counts.word
  · rw [hpackets, hfiles]
    exact h.counts.counted
  · rw [hpackets, hfiles, hrecorder]
    exact h.counts.ended
  · rw [ht.st]
    exact h.snapshot.grow hfiles.ge hpackets.ge (Or.inr ⟨hfiles, hpackets⟩)

/-- The files of full buffers are full. -/
theorem Counts.full_of_dvd {fi : FileIndex} {recorder : Recorder} (h : Counts d fi recorder)
    (hdvd : d.elems ∣ fi.nPackets) : fi.nFiles * d.elems ≤ fi.nPackets := by
  obtain ⟨k, hk⟩ := hdvd
  cases hfiles : fi.nFiles with
  | zero => simp
  | succ n =>
      have hlast := h.counted n (by omega)
      rw [hk, Nat.mul_comm d.elems k] at hlast ⊢
      exact Nat.mul_le_mul_right _ (Nat.lt_of_mul_lt_mul_right hlast)

/-- A receiver adds the packets of a buffer. -/
theorem Accounts.addPackets (h : Accounts d s) {n : ℕ} (hrecording : s.recorder = .recording)
    (hdvd : d.elems ∣ s.fi.nPackets) (hword : s.fi.nPackets + n < 2 ^ 64) :
    Accounts d { s with fi := s.fi.afiAddToPackets n } where
  counts :=
    { word := hword
      counted := fun file hfile => (h.counts.counted file hfile).trans_le (Nat.le_add_right _ _)
      ended := fun hover => absurd hrecording hover }
  snapshot := h.snapshot.grow le_rfl (Nat.le_add_right _ _) (Or.inl (h.counts.full_of_dvd hdvd))
  placed := h.placedAt ⟨Or.inl rfl, rfl, rfl, rfl, rfl⟩
    fun hover => absurd hrecording hover

/-- A writer adds a file after its packets. -/
theorem Accounts.addFile (h : Accounts d s) {id : ℕ} {fi : FileIndex} {writing : ℕ → Bool}
    (hrecording : s.recorder = .recording) (hid : id * d.elems < s.fi.nPackets)
    (hpackets : fi.nPackets = s.fi.nPackets)
    (hfiles : fi.nFiles = s.fi.nFiles ∨ (s.fi.nFiles ≤ id ∧ fi.nFiles = s.fi.nFiles + 1)) :
    Accounts d { s with fi := fi, writing := writing } := by
  have hplaced : PlacedAt d { s with fi := fi, writing := writing } s.pc :=
    h.placedAt ⟨Or.inl rfl, rfl, rfl, rfl, rfl⟩
      fun hover => absurd hrecording hover
  rcases hfiles with hsame | ⟨hnew, hcount⟩
  · exact h.elsewhere ⟨Or.inl rfl, rfl, rfl, rfl, rfl⟩ hpackets hsame Iff.rfl
  · -- the files before it are full, for it has a packet
    have hfull : s.fi.nFiles * d.elems < s.fi.nPackets :=
      (Nat.mul_le_mul_right _ hnew).trans_lt hid
    refine ⟨⟨?_, fun file hfile => ?_, fun hover => absurd hrecording hover⟩, ?_, hplaced⟩
    · show fi.nPackets < _
      rw [hpackets]
      exact h.counts.word
    · show file * d.elems < fi.nPackets
      have hfile' : file < fi.nFiles := hfile
      rw [hcount] at hfile'
      rw [hpackets]
      exact (Nat.mul_le_mul_right _ (Nat.le_of_lt_succ hfile')).trans_lt hfull
    · exact h.snapshot.grow (hcount ▸ Nat.le_succ _) hpackets.ge (Or.inl hfull.le)

/-- The thread of a buffer counts nothing. -/
theorem Accounts.load (h : Accounts d s) {buffer : ℕ} {isRead : Bool}
    (hload : s.load buffer isRead = some t) : Accounts d t := by
  have hsame : ∀ {t' : Live}, t'.pc = s.pc → t'.st = s.st → t'.be = s.be → t'.sent = s.sent →
      t'.live = s.live → s.Elsewhere t' :=
    fun hpc hst hbe hsent hlive => ⟨Or.inl hpc, hst, hbe, hsent, hlive⟩
  unfold Live.load at hload
  split at hload
  case h_1 =>
    split at hload
    · cases hload
    · obtain rfl := Option.some.inj hload
      exact h.elsewhere (hsame rfl rfl rfl rfl rfl) rfl rfl Iff.rfl
    · split at hload
      · obtain rfl := Option.some.inj hload
        exact h.elsewhere (hsame rfl rfl rfl rfl rfl) rfl rfl Iff.rfl
      · cases hload
  case h_2 =>
    split at hload <;>
      · obtain rfl := Option.some.inj hload
        exact h.elsewhere (hsame rfl rfl rfl rfl rfl) rfl rfl Iff.rfl
  case h_3 =>
    obtain ⟨_, -, rfl⟩ := Option.map_eq_some_iff.mp hload
    exact h.elsewhere (hsame rfl rfl rfl rfl rfl) rfl rfl Iff.rfl
  case h_4 =>
    split at hload
    · obtain ⟨fi, hadd, rfl⟩ := Option.map_eq_some_iff.mp hload
      have hcounts := sameCounts_modifyCell hadd
      exact h.elsewhere (hsame rfl rfl rfl rfl rfl) hcounts.nPackets hcounts.nFiles Iff.rfl
    · obtain rfl := Option.some.inj hload
      exact h.elsewhere (hsame rfl rfl rfl rfl rfl) rfl rfl Iff.rfl
  case h_5 => cases hload

/-- **Every sound step keeps the accounts.** -/
theorem Accounts.step (h : Accounts d s) (horderly : s.Orderly) {a : Act}
    (hsound : Sound d s a) (hstep : next d s a = some t) : Accounts d t := by
  cases a with
  | addPackets n =>
      unfold next at hstep
      dsimp only at hstep
      split at hstep
      · rename_i hguard
        obtain rfl := Option.some.inj hstep
        exact h.addPackets hguard.1 hguard.2.1 hsound
      · cases hstep
  | addFile id diskid realloc =>
      unfold next at hstep
      dsimp only at hstep
      split at hstep
      · rename_i hguard
        obtain ⟨fi, hfi, rfl⟩ := Option.map_eq_some_iff.mp hstep
        obtain ⟨⟨r, fi⟩, hadd, rfl⟩ := Option.map_eq_some_iff.mp hfi
        obtain ⟨-, hpackets, hfiles⟩ := afiAddFile_counts hadd
        exact h.addFile hguard.1 hguard.2 hpackets hfiles
      · cases hstep
  | delBusy id =>
      unfold next at hstep
      dsimp only at hstep
      split at hstep
      · obtain ⟨fi, hset, rfl⟩ := Option.map_eq_some_iff.mp hstep
        have hcounts := sameCounts_modifyCell hset
        exact h.elsewhere ⟨Or.inl rfl, rfl, rfl, rfl, rfl⟩ hcounts.nPackets hcounts.nFiles
          Iff.rfl
      · cases hstep
  | addOndisk id =>
      unfold next at hstep
      dsimp only at hstep
      split at hstep
      · obtain ⟨fi, hset, rfl⟩ := Option.map_eq_some_iff.mp hstep
        have hcounts := sameCounts_modifyCell hset
        exact h.elsewhere ⟨Or.inl rfl, rfl, rfl, rfl, rfl⟩ hcounts.nPackets hcounts.nFiles
          Iff.rfl
      · cases hstep
  | wakeUp id =>
      unfold next at hstep
      dsimp only at hstep
      split at hstep
      · obtain rfl := Option.some.inj hstep
        exact h.elsewhere ⟨Or.inr rfl, rfl, rfl, rfl, rfl⟩ rfl rfl Iff.rfl
      · cases hstep
  | disassociate =>
      unfold next at hstep
      dsimp only at hstep
      split at hstep
      · rename_i hrecording
        obtain rfl := Option.some.inj hstep
        refine ⟨⟨h.counts.word, h.counts.counted, fun _ => hsound⟩, h.snapshot.grow le_rfl le_rfl
          (Or.inr ⟨rfl, rfl⟩), ?_⟩
        exact h.placedAt ⟨Or.inl rfl, rfl, rfl, rfl, rfl⟩
          fun hover => absurd hrecording hover
      · cases hstep
  | lastWakeUp =>
      unfold next at hstep
      dsimp only at hstep
      split at hstep
      · rename_i hguard
        obtain rfl := Option.some.inj hstep
        refine h.elsewhere ⟨Or.inr rfl, rfl, rfl, rfl, rfl⟩ rfl rfl ?_
        rw [hguard.1]
        simp [Live.wakeAll]
      · cases hstep
  | send => exact h.send hstep
  | quit =>
      unfold next at hstep
      dsimp only at hstep
      split at hstep
      · obtain rfl := Option.some.inj hstep
        exact ⟨h.counts, h.snapshot, trivial⟩
      · cases hstep
  | region noneFree buffer => exact h.region horderly hsound hstep
  | load buffer isRead => exact h.load hstep
  | spurious waiter =>
      cases waiter with
      | sender =>
          obtain rfl := Option.some.inj hstep
          exact h.elsewhere ⟨Or.inr rfl, rfl, rfl, rfl, rfl⟩ rfl rfl Iff.rfl
      | loader buffer =>
          obtain rfl := Option.some.inj hstep
          exact h.elsewhere ⟨Or.inl rfl, rfl, rfl, rfl, rfl⟩ rfl rfl Iff.rfl

/-! ## The runs -/

/-- In every run, whatever its steps: nobody sleeps through a wake-up. -/
theorem Orderly.noticed (h : s.Orderly) {buffer file : ℕ}
    (hasleep : s.loaders buffer = .asleep file) (hondisk : s.fi.onDisk file = some true) :
    s.writing file = true ∨ s.recorder = .ending := by
  obtain ⟨fh, hfh, htime⟩ := h.onTime buffer file (congrArg Loader.waitsFor hasleep)
  cases hrecorder : s.recorder with
  | recording =>
      obtain ⟨fh', hfh', htrue⟩ := Option.map_eq_some_iff.mp hondisk
      rw [hfh] at hfh'
      obtain rfl := Option.some.inj hfh'
      exact Or.inl (htime hrecorder htrue)
  | ending => exact Or.inr rfl
  | gone => exact absurd hasleep ((h.awake hrecorder).loader buffer file)

theorem Accounts.served (h : Accounts d s) (horderly : s.Orderly) : s.Served where
  notEnded hpc := by
    have hplaced := h.placed
    rw [hpc] at hplaced
    exact hplaced
  awake := horderly.awake
  noticed _ _ := horderly.noticed
  complete hpc := by
    have hplaced := h.placed
    rw [hpc] at hplaced
    exact hplaced

/-- **A live sender is served while its steps are sound.** -/
theorem served_of_reachable (d : LiveSetup) {s : Live}
    (h : (system d).ReachableUnder (Sound d) s) : s.Served := by
  have hinv : s.Orderly ∧ Accounts d s := by
    induction h with
    | init hstart => exact ⟨Starts.orderly hstart, Starts.accounts hstart⟩
    | step _ hsound hstep ih => exact ⟨ih.1.step hstep, ih.2.step ih.1 hsound hstep⟩
  exact hinv.2.served hinv.1

/-! ### A recording of one packet a file -/

/-- One packet in a buffer. -/
def single : LiveSetup := ⟨1, 100, by decide⟩

/-- The recording has a file, and the sender holds it. -/
def opening : Live where
  fi :=
    { status := afiRecord ||| afiSend
      packetSize := 100
      files := [⟨0, fhInmem⟩, ⟨0, 0⟩]
      nPackets := 1
      nFiles := 1
      allocatedFiles := 2 }
  recorder := .recording
  writing := fun _ => false
  holder := none
  pc := .sending
  st :=
    { allocatedToLoad := 0
      filesSent := 0
      filesSkipped := 0
      filesLoaded := 1
      packetsLoaded := 1
      packetsSent := 0
      filesInLoading := 0
      nPacketsProbed := 1
      nFilesProbed := 1
      totalBytesToSend := 100
      statusProbed := afiRecord ||| afiSend
      packetcounter := 0
      inc := 0 }
  be := some ⟨0, 0⟩
  loaders := fun buffer => if buffer = 0 then .loaded 0 else .idle
  sent := []
  live := true

theorem opening_starts : Starts single opening where
  recorder := rfl
  status := by decide
  word := by decide
  counted := by decide
  snapshot := ⟨by decide, by decide, by decide, Or.inl (by decide)⟩
  pc := rfl
  be := ⟨0, rfl, rfl⟩
  place := by decide
  packets := by decide
  sent := rfl
  holder := rfl
  loaders := by
    intro buffer
    by_cases hbuffer : buffer = 0
    · subst hbuffer
      exact Or.inr ⟨0, Or.inr rfl⟩
    · exact Or.inl (if_neg hbuffer)

/-- The sender sleeps, is woken at the end of the recording and is done. -/
theorem served_of_reachable_ended : ∃ s, (system single).ReachableUnder (Sound single) s ∧
    s.pc = .returned .allDone ∧ s.sent = [0] ∧ s.Served := by
  have h₀ : (system single).ReachableUnder (Sound single) opening := .init opening_starts
  have h₁ := h₀.step (a := .send) (by exact trivial) (by rfl)
  have h₂ := h₁.step (a := .region false none) (by exact trivial) (by rfl)
  have h₃ := h₂.step (a := .region false none) (by exact Or.inl (by decide)) (by rfl)
  have h₄ := h₃.step (a := .region false none) (by exact Or.inl (by decide)) (by rfl)
  have h₅ := h₄.step (a := .disassociate) (by exact le_refl 1) (by rfl)
  have h₆ := h₅.step (a := .lastWakeUp) (by exact trivial) (by rfl)
  have h₇ := h₆.step (a := .region false none) (by exact trivial) (by rfl)
  have h₈ := h₇.step (a := .region false none) (by exact Or.inr rfl) (by rfl)
  exact ⟨_, h₈, rfl, rfl, served_of_reachable single h₈⟩

/-- The recording ends between the look at the status and the wait. -/
def endedBeforeWait : List Act :=
  [.send, .region false none, .region false none, .disassociate, .region false none]

/-- A file is added and the recording ends between the looks at the files and at the status. -/
def addedBeforeEnd : List Act :=
  [.send, .region false none, .addPackets 1, .addFile 1 0 none, .delBusy 1, .addOndisk 1,
    .wakeUp 1, .disassociate, .lastWakeUp, .region false none]

/-- **Two races.**  The recording ends between the look at the status and the wait, and
`jump_to_next_file` fails.  A file is added and the recording ends between the look at the
files and the look at the status, and all is done although a packet was not sent. -/
theorem ended_not_served :
    (∃ s, (system single).Reachable s ∧ s.pc = .returned .waitFailed ∧ s.live = true ∧
      ¬ s.Served) ∧
    ∃ s, (system single).Reachable s ∧ s.pc = .returned .allDone ∧ s.recorder = .gone ∧
      s.sent = [0] ∧ s.fi.nPackets = 2 ∧ ¬ s.Served := by
  have hstart : (system single).Reachable opening := .init opening_starts
  constructor
  · have hrun := hstart.runFrom
      (show System.runFrom (next single) opening endedBeforeWait = some _ from rfl)
    refine ⟨_, hrun, rfl, rfl, fun hserved => ?_⟩
    exact absurd (hserved.notEnded rfl) (by decide)
  · have hrun := hstart.runFrom
      (show System.runFrom (next single) opening addedBeforeEnd = some _ from rfl)
    refine ⟨_, hrun, rfl, rfl, rfl, rfl, fun hserved => ?_⟩
    exact absurd (hserved.complete rfl).2 (by decide)

end Live

end VlbiStreamer.Sender
