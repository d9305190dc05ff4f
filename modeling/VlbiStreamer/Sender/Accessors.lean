import VlbiStreamer.Library.Transition
import VlbiStreamer.Sender.CheckFiles

/-!
# Who asks the index for which file

Four functions of `active_file_index.c` assert a bound on the file they are asked for,
and their four callers each test it in their own way.  `Sending` is a sending event
between one such call and the next: the sender thread, the buffer threads that load files
for it, and the other clients of the index, in any order.  It keeps the calls that were
made.

`Sending.Right` is that every call passed the assertion and was about a file of the index.
Three of the assertions say the opposite of that, so that it only holds in the runs of
`accessors_right`, in which these three are not asked at all.  The fourth is passed in
every run (`isMissing_passes`), but also by the number that comes after the last file.
-/

namespace VlbiStreamer.Sender

open ActiveFileIndex Library

/-! ## The assertions -/

/-- The functions that assert a bound. -/
inductive Accessor where
  | setFound
  | isMissing
  | startLoading
  | getDiskId
  deriving DecidableEq, Repr

namespace Accessor

/-- What the function asserts of the file, in an index of `nFiles` files. -/
def asserts (nFiles file : ℕ) : Accessor → Prop
  | setFound => nFiles ≤ file
  | isMissing => file ≤ nFiles
  | startLoading => nFiles ≤ file
  | getDiskId => nFiles ≤ file

/-- The function returns or goes to sleep. -/
def answers (fi : FileIndex) (file : ℕ) : Accessor → Prop
  | setFound => ∀ diskId, (fi.afiSetFound file diskId).isSome
  | isMissing => (fi.afiIsMissing file).isSome
  | startLoading => ∀ inLoading, (fi.afiStartLoading file inLoading).isSome
  | getDiskId => (fi.afiGetDiskId file).isSome

/-- It does so when it passes its assertion on a file that has a cell. -/
theorem answers_iff (a : Accessor) (fi : FileIndex) (file : ℕ) :
    a.answers fi file ↔ a.asserts fi.nFiles file ∧ file < fi.files.length := by
  cases a with
  | setFound =>
      by_cases h : fi.nFiles ≤ file <;>
        simp [answers, asserts, FileIndex.afiSetFound, FileIndex.modifyCell, h]
  | isMissing =>
      by_cases h : file ≤ fi.nFiles <;> simp [answers, asserts, FileIndex.afiIsMissing, h]
  | startLoading =>
      by_cases h : fi.nFiles ≤ file <;> simp [answers, asserts, FileIndex.afiStartLoading, h]
  | getDiskId =>
      by_cases h : fi.nFiles ≤ file <;> simp [answers, asserts, FileIndex.afiGetDiskId, h]

/-- **No assertion admits the files of the index only**: each of them admits the number
that comes after the last file. -/
theorem asserts_outside (a : Accessor) (nFiles : ℕ) :
    ∃ file, a.asserts nFiles file ∧ ¬ file < nFiles := by
  refine ⟨nFiles, ?_, Nat.lt_irrefl nFiles⟩
  cases a <;> exact Nat.le_refl nFiles

/-- **Three of them admit no file of the index at all.** -/
theorem not_asserts {a : Accessor} {nFiles file : ℕ} (h : a ≠ isMissing) (hfile : file < nFiles) :
    ¬ a.asserts nFiles file := by
  cases a with
  | isMissing => exact absurd rfl h
  | setFound => exact Nat.not_le.mpr hfile
  | startLoading => exact Nat.not_le.mpr hfile
  | getDiskId => exact Nat.not_le.mpr hfile

end Accessor

/-! ## A sending event -/

/-- A call of an accessor, with the number of files at that moment. -/
structure AccessorCall where
  accessor : Accessor
  file : ℕ
  nFiles : ℕ

/-- The call is what the assertion and its caller mean. -/
def AccessorCall.Right (c : AccessorCall) : Prop :=
  c.accessor.asserts c.nFiles c.file ∧ c.file < c.nFiles

/-- Where the event is. -/
inductive Place where
  /-- The drives are searched. -/
  | checking
  /-- The sender thread is in no function that asks. -/
  | ready
  /-- At the test of the loop of `skip_missing`. -/
  | skipping (lors : Lors)
  /-- In `start_loading`, behind `skip_missing`. -/
  | loading
  /-- Asleep in `afi_start_loading`. -/
  | waiting
  /-- In `start_loading`, behind `afi_start_loading`. -/
  | requesting
  | aborted
  deriving DecidableEq

/-- Where the sender thread goes on after `skip_missing`. -/
def Lors.after : Lors → Place
  | skipLoaded => .loading
  | skipSent => .ready

/-- A sending event. -/
structure Sending where
  fi : FileIndex
  bufNumElems : BitVec 32
  st : SenderTracking
  place : Place
  /-- The files that the buffer threads were asked to load. -/
  inLoading : List ℕ
  /-- The calls of accessors, the latest first. -/
  calls : List AccessorCall

/-- What happens next. -/
inductive Action where
  /-- `common_check_files` has matched a name and read `temp` from it. -/
  | entry (temp id : ℤ)
  /-- `init_sender_tracking` and `throttling_count` -/
  | begin (allocated : ℤ)
  /-- `afi_update_metadata` in `jump_to_next_file` -/
  | probe
  /-- `st->files_sent++` -/
  | fileSent
  /-- The loop of `jump_to_next_file` calls `start_loading`. -/
  | enterLoading
  /-- `jump_to_next_file` calls `skip_missing(opt, st, SKIP_SENT)`. -/
  | enterSkipping
  /-- One test of the loop of `skip_missing`, and its body. -/
  | skipTest
  /-- `start_loading` from `skip_missing` to `afi_start_loading` -/
  | startLoading
  | wake
  /-- The rest of `start_loading`; the buffer may be refused. -/
  | request (buffer : Bool)
  /-- `write_buffer` of a buffer thread: a pass of `afi_wait_on_file`, then
  `afi_get_disk_id`. -/
  | readFile (file : ℕ)
  /-- Another client changes the index. -/
  | others (fi : FileIndex)

namespace Sending

/-- An accessor is called. -/
def called (s : Sending) (accessor : Accessor) (file : ℕ) : Sending :=
  { s with calls := ⟨accessor, file, s.fi.nFiles⟩ :: s.calls }

/-- The program stops. -/
def abort (s : Sending) : Sending := { s with place := .aborted }

/-- `afi_update_metadata(opt->fi, ..)` -/
def probed (s : Sending) : Sending :=
  { s with st := { s.st with
      nFilesProbed := BitVec.ofNat 64 s.fi.nFiles
      nPacketsProbed := BitVec.ofNat 64 s.fi.nPackets
      statusProbed := s.fi.status } }

/-- `common_check_files`, behind the match. -/
def entry (s : Sending) (temp id : ℤ) : Sending :=
  match foundFile s.fi temp id with
  | none => (s.called .setFound (unsignedLong temp)).abort
  | some (false, _) => s
  | some (true, fi) => { s.called .setFound (unsignedLong temp) with fi := fi }

/-- The loop of `skip_missing`, once. -/
def skipTest (s : Sending) (lors : Lors) : Sending :=
  let file := lors.target s.st
  if file ≤ s.st.nFilesProbed then
    match s.fi.afiIsMissing file.toNat with
    | none => (s.called .isMissing file.toNat).abort
    | some true =>
        let nuf := minU (BitVec.ofNat 64 s.fi.nFiles - s.st.packetsLoaded)
          (s.bufNumElems.setWidth 64)
        { s.called .isMissing file.toNat with st := lors.skip nuf s.st }
    | some false => { s.called .isMissing file.toNat with place := lors.after }
  else { s with place := lors.after }

/-- What `start_loading` does with the answer of `afi_start_loading`. -/
def answered (s : Sending) : Option FileIndex.Wait → Sending
  | none => s.abort
  | some .sleeps => { s with place := .waiting }
  | some (.returns err) => { s with place := if err = 0 then .requesting else .ready }

/-- `start_loading`, behind `skip_missing`. -/
def startLoading (s : Sending) : Sending :=
  if s.st.filesLoaded = s.st.nFilesProbed then { s with place := .ready }
  else (s.called .startLoading s.st.filesLoaded.toNat).answered
    (s.fi.afiStartLoading s.st.filesLoaded.toNat (decide (0 < s.st.filesInLoading)))

/-- `start_loading`, behind `afi_start_loading`. -/
def request (s : Sending) (buffer : Bool) : Sending :=
  let s := s.probed
  let nuf := minU (s.st.nPacketsProbed - s.st.packetsLoaded) (s.bufNumElems.setWidth 64)
  if nuf = 0 ∨ buffer = false then { s with place := .ready }
  else
    { s with
      place := .ready
      inLoading := s.st.filesLoaded.toNat :: s.inLoading
      st := { s.st with
        filesInLoading := s.st.filesInLoading + 1
        packetsLoaded := s.st.packetsLoaded + nuf
        filesLoaded := s.st.filesLoaded + 1 } }

/-- `write_buffer` of the buffer thread that loads the file. -/
def readFile (s : Sending) (file : ℕ) : Sending :=
  match s.fi.afiWaitOnFile file with
  | none => s.abort
  | some .sleeps => s
  | some (.returns err) =>
      let s := { s with inLoading := s.inLoading.erase file }
      if err ≠ 0 then s
      else match s.fi.afiGetDiskId file with
        | none => (s.called .getDiskId file).abort
        | some _ => s.called .getDiskId file

/-- One step of the event or of the other clients. -/
def next (s : Sending) : Action → Option Sending
  | .entry temp id => if s.place = .checking then some (s.entry temp id) else none
  | .begin allocated =>
      if s.place = .checking then
        some { { s with st := { s.st with allocatedToLoad := allocated } }.probed with
          place := .ready }
      else none
  | .probe => if s.place = .ready then some s.probed else none
  | .fileSent =>
      if s.place = .ready then
        some { s with st := { s.st with filesSent := s.st.filesSent + 1 } }
      else none
  | .enterLoading =>
      if s.place = .ready ∧ s.st.filesLoaded < s.st.nFilesProbed ∧ 0 < s.st.allocatedToLoad then
        some { s with place := .skipping .skipLoaded }
      else none
  | .enterSkipping =>
      if s.place = .ready then some { s with place := .skipping .skipSent } else none
  | .skipTest =>
      match s.place with
      | .skipping lors => some (s.skipTest lors)
      | _ => none
  | .startLoading => if s.place = .loading then some s.startLoading else none
  | .wake =>
      if s.place = .waiting then
        some (s.answered (s.fi.afiStartLoadingWoken s.st.filesLoaded.toNat))
      else none
  | .request buffer => if s.place = .requesting then some (s.request buffer) else none
  | .readFile file =>
      if s.place ≠ .aborted ∧ file ∈ s.inLoading then some (s.readFile file) else none
  | .others fi =>
      -- files are added to an index and not taken away
      if s.place ≠ .aborted ∧ s.fi.nFiles ≤ fi.nFiles then some { s with fi := fi } else none

/-- `sender_tracking` before it is filled in. -/
def noTracking : SenderTracking where
  allocatedToLoad := 0
  filesSent := 0
  filesSkipped := 0
  filesLoaded := 0
  packetsLoaded := 0
  packetsSent := 0
  filesInLoading := 0
  nPacketsProbed := 0
  nFilesProbed := 0
  totalBytesToSend := 0
  statusProbed := 0
  packetcounter := 0
  inc := 0

/-- `init_cfg` has got the index, and nothing was asked yet. -/
def start (fi : FileIndex) (bufNumElems : BitVec 32) : Sending :=
  ⟨fi, bufNumElems, noTracking, .checking, [], []⟩

/-- All runs of a sending event, on any index. -/
def system : System Sending Action :=
  .ofNext (fun s => ∃ fi bufNumElems, s = start fi bufNumElems) next

/-- Every call passed the assertion and was about a file of the index. -/
def Right (s : Sending) : Prop := ∀ c ∈ s.calls, c.Right

/-- The three accessors are not asked, and `afi_is_missing` is only asked for a file of the
index: a name that is found is of no such file, `start_loading` has come to the last
file that was probed, and the file that a buffer thread waits for is not on disk. -/
def Unasked (s : Sending) : Action → Prop
  | .entry temp _ => s.fi.nFiles ≤ unsignedLong temp
  | .skipTest => ∀ lors, s.place = .skipping lors → lors.target s.st ≤ s.st.nFilesProbed →
      (lors.target s.st).toNat < s.fi.nFiles
  | .startLoading => s.st.filesLoaded = s.st.nFilesProbed
  | .readFile file => s.fi.afiWaitOnFile file ≠ some (.returns 0)
  | _ => True

/-- The accessor that a step asks, and for which file. -/
def asked (s : Sending) : Action → Option (Accessor × ℕ)
  | .entry temp _ =>
      if s.fi.nFiles ≤ unsignedLong temp then none else some (.setFound, unsignedLong temp)
  | .skipTest =>
      match s.place with
      | .skipping lors =>
          if lors.target s.st ≤ s.st.nFilesProbed then
            some (.isMissing, (lors.target s.st).toNat)
          else none
      | _ => none
  | .startLoading =>
      if s.st.filesLoaded = s.st.nFilesProbed then none
      else some (.startLoading, s.st.filesLoaded.toNat)
  | .readFile file =>
      if s.fi.afiWaitOnFile file = some (.returns 0) then some (.getDiskId, file) else none
  | _ => none

/-! ## One step -/

section Steps

variable {s s' : Sending} {action : Action}

/-- A file of the index is not set found. -/
theorem entry_eq (temp id : ℤ) : s.entry temp id =
    if s.fi.nFiles ≤ unsignedLong temp then s
    else (s.called .setFound (unsignedLong temp)).abort := by
  unfold entry
  by_cases hfile : s.fi.nFiles ≤ unsignedLong temp
  · rw [foundFile_of_le hfile, if_pos hfile]
  · rw [foundFile_of_lt (Nat.not_le.mp hfile), if_neg hfile]

theorem skipTest_calls (lors : Lors) : (s.skipTest lors).calls =
    if lors.target s.st ≤ s.st.nFilesProbed then
      ⟨.isMissing, (lors.target s.st).toNat, s.fi.nFiles⟩ :: s.calls
    else s.calls := by
  unfold skipTest
  dsimp only
  split
  · split <;> rfl
  · rfl

theorem answered_calls (w : Option FileIndex.Wait) : (s.answered w).calls = s.calls := by
  unfold answered
  split <;> rfl

theorem startLoading_calls : s.startLoading.calls =
    if s.st.filesLoaded = s.st.nFilesProbed then s.calls
    else ⟨.startLoading, s.st.filesLoaded.toNat, s.fi.nFiles⟩ :: s.calls := by
  unfold startLoading
  split
  · rfl
  · exact answered_calls _

theorem request_calls (buffer : Bool) : (s.request buffer).calls = s.calls := by
  unfold request
  dsimp only
  split <;> rfl

theorem readFile_calls (file : ℕ) : (s.readFile file).calls =
    if s.fi.afiWaitOnFile file = some (.returns 0) then
      ⟨.getDiskId, file, s.fi.nFiles⟩ :: s.calls
    else s.calls := by
  unfold readFile
  rcases hwait : s.fi.afiWaitOnFile file with _ | (err | _)
  · rfl
  · by_cases herr : err = 0
    · subst herr
      dsimp only
      rw [if_neg (not_not_intro rfl), if_pos rfl]
      split <;> rfl
    · have hne : some (FileIndex.Wait.returns err) ≠ some (.returns 0) := by simp [herr]
      dsimp only
      rw [if_pos herr, if_neg hne]
  · rfl

/-- **A step makes one call at most**, and it is the one that `asked` says. -/
theorem next_calls (h : s.next action = some s') :
    s'.calls = ((s.asked action).map fun p => ⟨p.1, p.2, s.fi.nFiles⟩).toList ++ s.calls := by
  unfold next at h
  cases action with
  | entry temp id =>
      dsimp only at h
      split at h
      · obtain rfl := Option.some.inj h
        rw [entry_eq]
        by_cases hfile : s.fi.nFiles ≤ unsignedLong temp <;>
          simp [asked, hfile, called, abort]
      · cases h
  | skipTest =>
      dsimp only at h
      split at h
      · next lors hplace =>
          obtain rfl := Option.some.inj h
          rw [skipTest_calls]
          by_cases htest : lors.target s.st ≤ s.st.nFilesProbed <;>
            simp [asked, hplace, htest]
      · cases h
  | startLoading =>
      dsimp only at h
      split at h
      · obtain rfl := Option.some.inj h
        rw [startLoading_calls]
        by_cases hall : s.st.filesLoaded = s.st.nFilesProbed <;> simp [asked, hall]
      · cases h
  | readFile file =>
      dsimp only at h
      split at h
      · obtain rfl := Option.some.inj h
        rw [readFile_calls]
        by_cases hdisk : s.fi.afiWaitOnFile file = some (.returns 0) <;> simp [asked, hdisk]
      · cases h
  | wake =>
      dsimp only at h
      split at h
      · obtain rfl := Option.some.inj h
        exact answered_calls _
      · cases h
  | request buffer =>
      dsimp only at h
      split at h
      · obtain rfl := Option.some.inj h
        exact request_calls buffer
      · cases h
  | begin allocated | probe | fileSent | enterLoading | enterSkipping | others fi =>
      dsimp only at h
      split at h
      · obtain rfl := Option.some.inj h
        rfl
      · cases h

/-- No more files were probed than there are. -/
def Probed (s : Sending) : Prop := s.st.nFilesProbed.toNat ≤ s.fi.nFiles

theorem probed_probed : s.probed.Probed := by
  show (BitVec.ofNat 64 s.fi.nFiles).toNat ≤ s.fi.nFiles
  rw [BitVec.toNat_ofNat]
  exact Nat.mod_le _ _

theorem Probed.next (h : s.Probed) (hnext : s.next action = some s') : s'.Probed := by
  unfold Sending.next at hnext
  cases action with
  | entry temp id =>
      dsimp only at hnext
      split at hnext
      · obtain rfl := Option.some.inj hnext
        rw [entry_eq]
        split <;> exact h
      · cases hnext
  | skipTest =>
      dsimp only at hnext
      split at hnext
      · next lors hplace =>
          obtain rfl := Option.some.inj hnext
          unfold skipTest
          dsimp only
          split
          · split
            · exact h
            · cases lors <;> exact h
            · exact h
          · exact h
      · cases hnext
  | startLoading =>
      dsimp only at hnext
      split at hnext
      · obtain rfl := Option.some.inj hnext
        unfold startLoading answered
        split
        · exact h
        · split <;> exact h
      · cases hnext
  | readFile file =>
      dsimp only at hnext
      split at hnext
      · obtain rfl := Option.some.inj hnext
        unfold readFile
        split
        · exact h
        · exact h
        · dsimp only
          split
          · exact h
          · split <;> exact h
      · cases hnext
  | wake =>
      dsimp only at hnext
      split at hnext
      · obtain rfl := Option.some.inj hnext
        unfold answered
        split <;> exact h
      · cases hnext
  | request buffer =>
      dsimp only at hnext
      split at hnext
      · obtain rfl := Option.some.inj hnext
        unfold request
        dsimp only
        split <;> exact probed_probed
      · cases hnext
  | begin allocated | probe =>
      dsimp only at hnext
      split at hnext
      · obtain rfl := Option.some.inj hnext
        exact probed_probed
      · cases hnext
  | fileSent | enterLoading | enterSkipping =>
      dsimp only at hnext
      split at hnext
      · obtain rfl := Option.some.inj hnext
        exact h
      · cases hnext
  | others fi =>
      dsimp only at hnext
      split at hnext
      · next hmore =>
          obtain rfl := Option.some.inj hnext
          exact Nat.le_trans h hmore.2
      · cases hnext

/-- A step keeps to what its calls are for exactly if the call it makes does. -/
theorem right_next_iff (hright : s.Right) (hnext : s.next action = some s') :
    s'.Right ↔ ∀ p, s.asked action = some p → AccessorCall.Right ⟨p.1, p.2, s.fi.nFiles⟩ := by
  unfold Right
  rw [next_calls hnext]
  cases s.asked action with
  | none => exact ⟨fun _ p hp => (nomatch hp), fun _ => hright⟩
  | some p =>
      constructor
      · rintro hall q hq
        obtain rfl := Option.some.inj hq
        exact hall _ List.mem_cons_self
      · intro hnew c hc
        rcases List.mem_cons.mp hc with rfl | hold
        · exact hnew p rfl
        · exact hright c hold

/-- The call that a step makes is right exactly if it is a test of `skip_missing` for a
file of the index. -/
theorem asked_right_iff (h : s.Probed) :
    (∀ p, s.asked action = some p → AccessorCall.Right ⟨p.1, p.2, s.fi.nFiles⟩) ↔
      s.Unasked action := by
  -- the three are never right
  have hwrong : ∀ {a : Accessor} {file : ℕ}, a ≠ .isMissing →
      ¬ AccessorCall.Right ⟨a, file, s.fi.nFiles⟩ := fun hne hcall =>
    Accessor.not_asserts hne hcall.2 hcall.1
  cases action with
  | entry temp id =>
      by_cases hfile : s.fi.nFiles ≤ unsignedLong temp
      · exact ⟨fun _ => hfile, fun _ p hp => by simp [asked, hfile] at hp⟩
      · refine ⟨fun hcall => ?_, fun hextra => absurd hextra hfile⟩
        have hasked : s.asked (.entry temp id) = some (.setFound, unsignedLong temp) := if_neg hfile
        exact absurd (hcall _ hasked) (hwrong (nofun))
  | skipTest =>
      constructor
      · intro hcall lors hplace htest
        exact (hcall (.isMissing, _) (by simp [asked, hplace, htest])).2
      · intro hunasked p hp
        unfold asked at hp
        dsimp only at hp
        split at hp
        · next lors hplace =>
            split at hp
            · next htest =>
                obtain rfl := Option.some.inj hp
                have hle : (lors.target s.st).toNat ≤ s.st.nFilesProbed.toNat := htest
                exact ⟨Nat.le_trans hle h, hunasked lors hplace htest⟩
            · cases hp
        · cases hp
  | startLoading =>
      by_cases hall : s.st.filesLoaded = s.st.nFilesProbed
      · exact ⟨fun _ => hall, fun _ p hp => by simp [asked, hall] at hp⟩
      · refine ⟨fun hcall => ?_, fun hsame => absurd hsame hall⟩
        have hasked : s.asked .startLoading = some (.startLoading, s.st.filesLoaded.toNat) :=
          if_neg hall
        exact absurd (hcall _ hasked) (hwrong (nofun))
  | readFile file =>
      by_cases hdisk : s.fi.afiWaitOnFile file = some (.returns 0)
      · refine ⟨fun hcall => ?_, fun hnot => absurd hdisk hnot⟩
        have hasked : s.asked (.readFile file) = some (.getDiskId, file) := if_pos hdisk
        exact absurd (hcall _ hasked) (hwrong (nofun))
      · exact ⟨fun _ => hdisk, fun _ p hp => by simp [asked, hdisk] at hp⟩
  | begin | probe | fileSent | enterLoading | enterSkipping | wake | request | others =>
      exact ⟨fun _ => trivial, fun _ p hp => nomatch hp⟩

end Steps

/-! ## Runs -/

section Results

variable {s s' : Sending} {action : Action}

theorem probed_of_reachable (h : system.Reachable s) : s.Probed := by
  refine h.invariant ?_ ?_
  · rintro s ⟨fi, bufNumElems, rfl⟩
    exact Nat.zero_le _
  · exact fun s action s' hprobed hnext => hprobed.next hnext

/-- **Every test of `skip_missing` passes its assertion**, in every run. -/
theorem isMissing_passes (h : system.Reachable s) :
    ∀ c ∈ s.calls, c.accessor = .isMissing → c.accessor.asserts c.nFiles c.file := by
  induction h with
  | init hinit =>
      obtain ⟨fi, bufNumElems, rfl⟩ := hinit
      exact fun c hc => absurd hc List.not_mem_nil
  | @step s s' action hs _ hnext ih =>
      have hprobed : s.Probed := probed_of_reachable hs
      intro c hc hmissing
      rw [next_calls hnext] at hc
      rcases List.mem_append.mp hc with hnew | hold
      · obtain ⟨p, hp, rfl⟩ := Option.map_eq_some_iff.mp (Option.mem_toList.mp hnew)
        cases action with
        | skipTest =>
            unfold asked at hp
            dsimp only at hp
            split at hp
            · split at hp
              · next htest =>
                  obtain rfl := Option.some.inj hp
                  exact Nat.le_trans htest hprobed
              · cases hp
            · cases hp
        | entry | startLoading | readFile =>
            unfold asked at hp
            dsimp only at hp
            split at hp <;> cases hp
            cases hmissing
        | begin | probe | fileSent | enterLoading | enterSkipping | wake | request | others =>
            cases hp
      · exact ih c hold hmissing

theorem right_of_unasked (h : system.ReachableUnder Unasked s) : s.Right := by
  induction h with
  | init hinit =>
      obtain ⟨fi, bufNumElems, rfl⟩ := hinit
      exact fun c hc => absurd hc List.not_mem_nil
  | step hs hok hnext ih =>
      rw [right_next_iff ih hnext, asked_right_iff (probed_of_reachable hs.reachable)]
      exact hok

/-- Nothing else keeps the calls right. -/
theorem right_step_iff (h : system.ReachableUnder Unasked s) (hnext : s.next action = some s') :
    s'.Right ↔ s.Unasked action := by
  rw [right_next_iff (right_of_unasked h) hnext,
    asked_right_iff (probed_of_reachable h.reachable)]

/-- **The calls are right where the three accessors are not asked** and `skip_missing`
stays among the files, in every run of a sending event on any index.  Of an assertion by
itself it is never right that it only admits the files of the index. -/
theorem accessors_right (h : system.ReachableUnder Unasked s) :
    s.Right ∧ ∀ (a : Accessor) (nFiles : ℕ),
      ¬ ∀ file, a.asserts nFiles file → file < nFiles := by
  refine ⟨right_of_unasked h, fun a nFiles honly => ?_⟩
  obtain ⟨file, hadmits, houtside⟩ := a.asserts_outside nFiles
  exact houtside (honly file hadmits)

end Results

/-! ## `skip_missing` as a whole -/

/-- The loop of `skip_missing` is the tests of the event, when no other client comes in
between. -/
theorem skipTests_of_skipMissing {env : Env} {lors : Lors} {fuel : ℕ} {x x' : SenderState}
    (hrun : (skipMissing env lors fuel).run x = .ok ((), x')) :
    ∀ s : Sending, s.fi = env.fi → s.bufNumElems = env.bufNumElems → s.st = x.st →
      s.place = .skipping lors → ∃ n s', System.runFrom next s (List.replicate n .skipTest) =
        some s' ∧ s'.st = x'.st ∧ s'.place = lors.after := by
  induction fuel generalizing x with
  | zero => cases hrun
  | succ fuel ih =>
      intro s hfi hbuf hst hplace
      have hnext : s.next .skipTest = some (s.skipTest lors) := by
        unfold next
        rw [hplace]
      have hget : (get : Run SenderState).run x = .ok (x, x) := rfl
      unfold skipMissing at hrun
      rw [run_bind_ok hget] at hrun
      dsimp only at hrun
      by_cases htest : lors.target x.st ≤ x.st.nFilesProbed
      · rw [if_pos htest] at hrun
        have htest' : lors.target s.st ≤ s.st.nFilesProbed := by rw [hst]; exact htest
        cases hcell : env.fi.afiIsMissing (lors.target x.st).toNat with
        | none =>
            rw [hcell] at hrun
            cases hrun
        | some missing =>
            have hcell' : s.fi.afiIsMissing (lors.target s.st).toNat = some missing := by
              rw [hfi, hst]
              exact hcell
            rw [hcell] at hrun
            cases missing with
            | false =>
                obtain rfl : x = x' := by cases hrun; rfl
                have hone : s.skipTest lors = { s.called .isMissing (lors.target s.st).toNat with
                    place := lors.after } := by
                  unfold skipTest
                  dsimp only
                  rw [if_pos htest', hcell']
                rw [hone] at hnext
                exact ⟨1, _, congrArg (Option.bind · _) hnext, hst, rfl⟩
            | true =>
                -- the file is skipped, and the rest of the loop starts behind it
                have hrest : (skipMissing env lors fuel).run
                    { x with st := lors.skip (minU (BitVec.ofNat 64 env.fi.nFiles -
                      x.st.packetsLoaded) (env.bufNumElems.setWidth 64)) x.st } =
                    .ok ((), x') := hrun
                have hone : s.skipTest lors = { s.called .isMissing (lors.target s.st).toNat with
                    st := lors.skip (minU (BitVec.ofNat 64 s.fi.nFiles - s.st.packetsLoaded)
                      (s.bufNumElems.setWidth 64)) s.st } := by
                  unfold skipTest
                  dsimp only
                  rw [if_pos htest', hcell']
                obtain ⟨n, s', hrun', hst', hplace'⟩ := ih hrest (s.skipTest lors)
                  (by rw [hone]; exact hfi) (by rw [hone]; exact hbuf)
                  (by rw [hone, hst, hfi, hbuf]) (by rw [hone]; exact hplace)
                refine ⟨n + 1, s', ?_, hst', hplace'⟩
                rw [List.replicate_succ, System.runFrom, hnext]
                exact hrun'
      · rw [if_neg htest] at hrun
        have htest' : ¬ lors.target s.st ≤ s.st.nFilesProbed := by rw [hst]; exact htest
        obtain rfl : x = x' := by cases hrun; rfl
        have hone : s.skipTest lors = { s with place := lors.after } := by
          unfold skipTest
          dsimp only
          rw [if_neg htest']
        rw [hone] at hnext
        exact ⟨1, _, congrArg (Option.bind · _) hnext, hst, rfl⟩

/-! ## A recording with files -/

/-- A recording of two files, of which nothing is known yet. -/
def twoFiles : Sending := start (openedIndex ⟨2, 1000⟩) 500

/-- A third file is found; the first one is not missing. -/
theorem accessors_right_twoFiles : ∃ s,
    System.runFrom next twoFiles [.entry 2 0, .begin 5, .enterLoading, .skipTest] = some s ∧
      s.Right ∧ ∀ (a : Accessor) (nFiles : ℕ),
        ¬ ∀ file, a.asserts nFiles file → file < nFiles := by
  obtain ⟨s, hrun⟩ : ∃ s, System.runFrom next twoFiles [.entry 2 0, .begin 5, .enterLoading,
    .skipTest] = some s := ⟨_, rfl⟩
  have hinit : system.ReachableUnder Unasked twoFiles := .init ⟨_, _, rfl⟩
  suffices hok : System.OkFrom Unasked next twoFiles [.entry 2 0, .begin 5, .enterLoading,
    .skipTest] from ⟨s, hrun, accessors_right (hinit.runFrom hok hrun)⟩
  have hextra : 2 ≤ unsignedLong 2 := by decide
  refine ⟨hextra, fun s hs => ⟨trivial, fun s' hs' => ⟨trivial, fun t ht => ⟨?_, ?_⟩⟩⟩⟩
  · obtain rfl := Option.some.inj hs
    obtain rfl := Option.some.inj hs'
    obtain rfl := Option.some.inj ht
    intro lors hplace _
    cases hplace
    decide
  · exact fun _ _ => trivial

/-- The first file that is found aborts the event. -/
theorem found_file_aborts : ¬ ∀ s, system.Reachable s → s.Right := by
  intro hall
  obtain ⟨s, hrun⟩ : ∃ s, System.runFrom next twoFiles [.entry 0 0] = some s := ⟨_, rfl⟩
  have hinit : system.Reachable twoFiles := .init ⟨_, _, rfl⟩
  have hright := hall s (hinit.runFrom hrun)
  obtain rfl := Option.some.inj hrun
  obtain ⟨hpassed, -⟩ := hright ⟨.setFound, 0, 2⟩ List.mem_cons_self
  exact Nat.not_succ_le_zero 1 hpassed

end Sending

end VlbiStreamer.Sender
