import VlbiStreamer.FuseIndex.Scanning
import VlbiStreamer.Library.Transition

/-!
# The index of a recording over its calls

A recording is looked up again and again while its files are written and when its own
configuration file has appeared.  `Indexes` is what `fileid` is for: the drive of every file
below `n_files`, and `-1` for a file that no drive has.

The cells that `realloc` adds are never set to `-1`.  `indexes_of_reachable` says that the
index is right after every call of a run in which no call counts a missing file whose cell
was added so (`Indexing.Meets`); `gap_not_indexed` is a recording of two files for which it
is not.
-/

namespace VlbiStreamer.FuseIndex

open Library VlbiStreamer.Sender

/-! ## Right indices -/

/-- The index is that of these folders; the configuration file of a finished recording
counts `count` files. -/
structure DiskIndex.Indexes (filename : String) (count : ℕ) (folders : List (Option Folder))
    (fi : DiskIndex) : Prop where
  held : ∀ k < fi.nFiles, Held filename folders k →
    ∃ i : ℕ, Holds filename folders i k ∧ fi.cells[k]? = some (some (i : ℤ))
  lost : ∀ k < fi.nFiles, ¬ Held filename folders k → fi.cells[k]? = some (some (-1))
  capacity : fi.allocatedFiles = fi.cells.length
  room : fi.nFiles ≤ fi.allocatedFiles
  live : fi.status.noCfg = true → (∀ k, Held filename folders k → k < fi.nFiles) ∧
    (0 < fi.nFiles → Held filename folders (fi.nFiles - 1))
  finished : fi.status.noCfg = false → fi.nFiles = count

/-- A recording with the drives as the last call met them that went through its data
files. -/
structure Indexing where
  fi : DiskIndex
  seen : List (Option Folder)

/-- A call of `vbs_open` or `vbs_getattr`. -/
structure Access where
  opening : Bool
  visit : Visit

/-- The next call; a slot that was cleared is taken again. -/
def Indexing.next (filename : String) (s : Indexing) (a : Access) : Option Indexing :=
  ((if s.fi.status = slotFree then DiskIndex.added else s.fi).access filename a.opening
    a.visit).map fun (fi, scan) => ⟨fi, if scan = .scanned then a.visit.folders else s.seen⟩

/-- The calls for one recording. -/
def indexing (filename : String) : System Indexing Access :=
  System.ofNext (fun s => s.fi = DiskIndex.added ∧ s.seen = []) (Indexing.next filename)

/-! ## The condition -/

/-- The configuration file of a recording with `count` files. -/
structure Says (count : ℕ) (root : List CfgSetting) : Prop where
  typed : WellTyped root = true
  cumul : ∃ v, (CfgName.cumul, v) ∈ root
  only : ∀ v, (CfgName.cumul, v) ∈ root → v = some count

/-- No setting is `cumul`, and no packet size is zero. -/
def General (root : List CfgSetting) : Prop :=
  ∀ e ∈ root, e.1 ≠ .cumul ∧ e ≠ (.packetSize, some 0)

/-- A recording as it is written: files are only added, nothing else in its folders looks
like a data file, its own configuration files count `count` files, and the packet size comes
from the general one. -/
structure Indexing.Lawful (filename : String) (count : ℕ) (s : Indexing) (a : Access) : Prop where
  grows : ∀ i k, Holds filename s.seen i k → Holds filename a.visit.folders i k
  names : ∀ folder, some folder ∈ a.visit.folders → ∀ de ∈ folder.entries,
    regexMatches filename de.name → ∃ k, de.name = dataFileName filename k
  own : ∀ folder root, some folder ∈ a.visit.folders → folder.cfg = .settings root →
    Says count root ∧ ∀ e ∈ root, e ≠ (.packetSize, some 0)
  general : ∀ root, a.visit.cfgFile = .settings root →
    General root ∧ ∃ v, (CfgName.packetSize, v) ∈ root
  schedule : ∀ root, a.visit.schedule = some root → General root

/-- The file is there and can be parsed. -/
def CfgContents.isRead : CfgContents → Bool
  | .settings root => WellTyped root
  | _ => false

/-- The recording is in the schedule. -/
def Visit.inSchedule (v : Visit) : Bool := v.schedule.any WellTyped

/-- The recording has its own configuration file. -/
def Visit.hasOwn (v : Visit) : Bool := v.checkAllDirsForCfg.any CfgContents.isRead

/-- The configuration file is in the first folder. -/
def Visit.hasFirst (v : Visit) : Bool :=
  (v.folders.findSome? fun folder => folder.map Folder.cfg).any CfgContents.isRead

/-- The call comes upon the configuration file of the recording. -/
def DiskIndex.finishes (fi : DiskIndex) (v : Visit) : Bool :=
  !fi.status.initialized && v.hasFirst || !v.inSchedule && v.hasOwn

/-- The call goes through the data files. -/
def DiskIndex.scans (fi : DiskIndex) (v : Visit) : Bool :=
  !fi.status.notVbs && (!fi.status.initialized && v.hasFirst ||
    (!fi.status.initialized || fi.status.noCfg) && v.cfgFile.isRead &&
      (v.inSchedule || v.hasOwn))

/-- The cell of the file is `-1`, or will be when the array is allocated. -/
def DiskIndex.Marked (fi : DiskIndex) (v : Visit) (k : ℕ) : Prop :=
  match fi.fileid with
  | none => fi.finishes v = true ∨ k < diskindexInitialSize
  | some b => b[k]? = some (some (-1))

/-- The steps after which the index is right.
* There are no more drives than fit in a cell.
* Every data file has a number of eight digits and is found by the regular expression.
* A missing file that the call counts (below the count of the configuration file, or below a
  file that is there) has a cell that was set to `-1`. -/
structure Indexing.Meets (filename : String) (count : ℕ) (s : Indexing) (a : Access) : Prop
    extends Indexing.Lawful filename count s a where
  drives : a.visit.folders.length ≤ 128
  numbers : ∀ k, Held filename a.visit.folders k →
    k < 10 ^ indexingLength ∧ regexMatches filename (dataFileName filename k) = true
  marked : s.fi.scans a.visit = true → ∀ k, ¬ Held filename a.visit.folders k →
    (if s.fi.finishes a.visit then k < count
      else ∃ j, Held filename a.visit.folders j ∧ k < j) → s.fi.Marked a.visit k

/-! ## One call -/

variable {filename : String} {count : ℕ} {s : Indexing} {a : Access} {v : Visit}
  {folders : List (Option Folder)}

theorem Indexing.Meets.allReadable (h : Indexing.Meets filename count s a) :
    DiskIndex.AllReadable filename a.visit.folders := by
  intro folder hfolder de hde
  refine ⟨fun k hk => ?_, h.names folder hfolder de hde⟩
  obtain ⟨i, hi, heq⟩ := List.mem_iff_getElem.mp hfolder
  have hheld : Held filename a.visit.folders k :=
    ⟨i, folder, by rw [List.getElem?_eq_getElem hi, heq], de, hde, hk⟩
  obtain ⟨hlt, hmatch⟩ := h.numbers k hheld
  exact ⟨hlt, hk ▸ hmatch⟩

namespace DiskIndex

variable {fi fi' : DiskIndex} {k : ℕ}

/-- Ready to go through the drives. -/
structure Ready (filename : String) (count : ℕ) (folders : List (Option Folder))
    (fi : DiskIndex) : Prop extends Allocated fi where
  room : fi.nFiles ≤ fi.cells.length
  vbs : fi.status.notVbs = false
  wide : fi.status.noCfg = true → 0 < fi.cells.length
  last : fi.status.noCfg = true → 0 < fi.nFiles → Held filename folders (fi.nFiles - 1)
  counted : fi.status.noCfg = false → fi.nFiles = count
  marked : ∀ k, ¬ Held filename folders k →
    (if fi.status.noCfg then ∃ j, Held filename folders j ∧ k < j else k < count) →
      fi.cells[k]? = some (some (-1))

/-- **Behind the drives, the index is right.** -/
theorem Ready.indexes (h : Ready filename count folders fi)
    (hs : Scanned fi (filesFrom filename 0 folders) fi') :
    fi'.Indexes filename count folders := by
  have hnoCfg : fi'.status.noCfg = fi.status.noCfg := noCfg_of_flags hs.flags
  have hlast (hlive : fi.status.noCfg = true) (hpos : 0 < fi'.nFiles) :
      Held filename folders (fi'.nFiles - 1) := by
    obtain ⟨-, -, hsame | ⟨i, k, hmem, heq⟩⟩ := hs.live hlive
    · rw [hsame] at hpos ⊢
      exact h.last hlive hpos
    · rw [heq, Nat.add_sub_cancel]
      exact ⟨i, mem_filesFrom_zero.mp hmem⟩
  refine ⟨fun k hk hheld => ?_, fun k hk hnone => ?_, hs.capacity, ?_, fun hlive => ?_,
    fun hdone => ?_⟩
  · obtain ⟨i, hi⟩ := hheld
    obtain ⟨j, hj, hcell⟩ := hs.entered i k (mem_filesFrom_zero.mpr hi) hk
    exact ⟨j, mem_filesFrom_zero.mp hj, hcell⟩
  · have hcounted :
        if fi.status.noCfg then ∃ j, Held filename folders j ∧ k < j else k < count := by
      cases hcase : fi.status.noCfg with
      | true =>
          have hheld := hlast hcase (by omega)
          have hne : k ≠ fi'.nFiles - 1 := by
            rintro rfl
            exact hnone hheld
          exact ⟨fi'.nFiles - 1, hheld, by omega⟩
      | false =>
          rw [hs.finished hcase, h.counted hcase] at hk
          exact hk
    have hcell := h.marked k hnone hcounted
    have hinside : k < fi.cells.length := (List.getElem?_eq_some_iff.mp hcell).choose
    rw [hs.kept k (fun i hmem => hnone ⟨i, mem_filesFrom_zero.mp hmem⟩) hinside, hcell]
  · rw [hs.capacity]
    exact hs.room
  · rw [hnoCfg] at hlive
    refine ⟨fun k hheld => ?_, hlast hlive⟩
    obtain ⟨i, hi⟩ := hheld
    exact (hs.live hlive).2.1 i k (mem_filesFrom_zero.mpr hi)
  · rw [hnoCfg] at hdone
    rw [hs.finished hdone, h.counted hdone]

/-- The index is a matter of the array and of the count. -/
theorem Indexes.congr (h : fi.Indexes filename count folders) (hfileid : fi'.fileid = fi.fileid)
    (halloc : fi'.allocatedFiles = fi.allocatedFiles) (hfiles : fi'.nFiles = fi.nFiles)
    (hnoCfg : fi'.status.noCfg = fi.status.noCfg) : fi'.Indexes filename count folders := by
  have hcells := cells_eq_of_fileid hfileid
  refine ⟨?_, ?_, ?_, ?_, ?_, ?_⟩
  · rw [hfiles, hcells]
    exact h.held
  · rw [hfiles, hcells]
    exact h.lost
  · rw [halloc, hcells]
    exact h.capacity
  · rw [hfiles, halloc]
    exact h.room
  · rw [hnoCfg, hfiles]
    exact h.live
  · rw [hnoCfg, hfiles]
    exact h.finished

/-- A right index has no cell that was never written. -/
theorem Indexes.written (h : fi.Indexes filename count folders)
    (hk : k < fi.nFiles) : ∃ i, fi.cells[k]? = some (some i) := by
  by_cases hheld : Held filename folders k
  · obtain ⟨i, -, hcell⟩ := h.held k hk hheld
    exact ⟨i, hcell⟩
  · exact ⟨-1, h.lost k hk hheld⟩

/-- The packet size is known: the size of the files is computed. -/
theorem filesizeFromMb_spec (h : 0 < fi.packetSize) :
    ∃ size, fi.filesizeFromMb = some { fi with filesize := size } := by
  unfold filesizeFromMb
  split
  · rw [if_neg (by omega)]
    exact ⟨_, rfl⟩
  · exact ⟨fi.filesize, rfl⟩

/-- And so are the packets counted. -/
theorem countPackets_spec (h : 0 < fi.packetSize) :
    ∃ packets, fi.countPackets = some { fi with nPackets := packets } := by
  unfold countPackets
  split
  · rw [if_neg (by omega)]
    exact ⟨_, rfl⟩
  · exact ⟨fi.nPackets, rfl⟩

theorem ensureFileid_filesize (size n : ℕ) :
    ({ fi with filesize := size } : DiskIndex).ensureFileid n =
      { fi.ensureFileid n with filesize := size } := by
  unfold ensureFileid
  cases h : fi.fileid <;> simp [h]

theorem ensureFileid_packetSize (n : ℕ) : (fi.ensureFileid n).packetSize = fi.packetSize := by
  unfold ensureFileid
  split <;> rfl

/-- What holds of a recording between the calls, of the drives as they were seen. -/
structure Inv (filename : String) (count : ℕ) (seen : List (Option Folder)) (fi : DiskIndex) :
    Prop where
  fresh : fi.status.initialized = false →
    fi.fileid = none ∧ fi.nFiles = 0 ∧ fi.status.cfgParsed = false
  indexes : fi.status.initialized = true → fi.Indexes filename count seen
  present : fi.status.initialized = true → fi.fileid ≠ none
  wide : fi.status.initialized = true → fi.status.noCfg = true → 0 < fi.cells.length
  compiled : fi.status.initialized = true → (Bre.compile (dataFilePattern filename)).isSome

theorem Inv.cleared (seen : List (Option Folder)) : Inv filename count seen cleared where
  fresh _ := ⟨rfl, rfl, rfl⟩
  indexes := nofun
  present := nofun
  wide := nofun
  compiled := nofun

/-- Once the drives were gone through, the recording is initialized. -/
theorem Ready.inv (h : Ready filename count folders fi)
    (hs : Scanned fi (filesFrom filename 0 folders) fi')
    (hcompiled : (Bre.compile (dataFilePattern filename)).isSome) :
    Inv filename count folders (fi'.mark fun s => { s with initialized := true }) where
  fresh := nofun
  indexes _ := (h.indexes hs).congr rfl rfl rfl rfl
  present _ := hs.present
  wide _ hlive := by
    have hnoCfg : fi'.status.noCfg = fi.status.noCfg := noCfg_of_flags hs.flags
    exact lt_of_lt_of_le (h.wide (hnoCfg ▸ hlive)) hs.grows
  compiled _ := hcompiled

/-- What a call leaves. -/
def Leaves (filename : String) (count : ℕ) (seen : List (Option Folder)) (v : Visit)
    (r : Option (DiskIndex × Scan)) : Prop :=
  ∃ fi scan, r = some (fi, scan) ∧
    Inv filename count (if scan = .scanned then v.folders else seen) fi

/-- **Behind the configuration files.** -/
theorem updateFromSubfolders_spec {seen : List (Option Folder)}
    (hcompiled : (Bre.compile (dataFilePattern filename)).isSome) (hpacket : 0 < fi.packetSize)
    (h : Ready filename count v.folders (fi.ensureFileid diskindexInitialSize))
    (hdrives : v.folders.length ≤ 128) (hread : AllReadable filename v.folders) :
    Leaves filename count seen v (fi.updateFromSubfolders filename v) := by
  obtain ⟨size, hsize⟩ := filesizeFromMb_spec hpacket
  have hsome : (Bre.compile (dataFilePattern filename)).isNone = false := by
    rw [Option.isNone_eq_false_iff]
    exact hcompiled
  have hready : Ready filename count v.folders
      { fi.ensureFileid diskindexInitialSize with filesize := size } :=
    ⟨⟨h.present, h.capacity⟩, h.room, h.vbs, h.wide, h.last, h.counted, h.marked⟩
  obtain ⟨fi', hfold, hs⟩ := doToSubfolders_spec (n := 0)
    ((Scanned.start hready.toAllocated hready.room).mark
      (f := fun s => { s with found := false }) fun _ => rfl)
    hready.vbs hready.wide (by omega) hread
  rw [Set.empty_union] at hs
  unfold Leaves updateFromSubfolders genericDoToEachSubfolder
  rw [hsize, Option.bind_some, ensureFileid_filesize, hsome, if_neg Bool.false_ne_true]
  rw [show v.drives = v.folders.zipIdx 0 from rfl, hfold, Option.map_some, Option.bind_some]
  dsimp only
  split
  next hfound =>
    have hpos : 0 < fi'.packetSize := by
      rw [hs.packetSize]
      show 0 < (fi.ensureFileid _).packetSize
      rwa [ensureFileid_packetSize]
    obtain ⟨packets, hcount⟩ := countPackets_spec hpos
    rw [hcount]
    refine ⟨_, .scanned, rfl, ?_⟩
    have hs' : Scanned { fi.ensureFileid diskindexInitialSize with filesize := size }
        (filesFrom filename 0 v.folders) { fi' with nPackets := packets } :=
      ⟨⟨hs.present, hs.capacity⟩, hs.flags, hs.packetSize, hs.grows, hs.room, hs.entered,
        hs.kept, hs.live, hs.finished⟩
    exact hready.inv hs' hcompiled
  next hfound => exact ⟨DiskIndex.cleared, .failed, rfl, Inv.cleared _⟩

/-- What follows a configuration file that counts the files. -/
structure Finished (fi fi' : DiskIndex) : Prop where
  status : fi'.status = { fi.status with noCfg := false, cfgParsed := true }
  packetSize : fi'.packetSize = fi.packetSize
  nFiles : fi'.nFiles = fi.nFiles
  capacity : fi'.allocatedFiles = fi'.cells.length
  exact : fi'.cells.length = fi.nFiles
  present : fi.fileid = none ∨ 0 < fi.nFiles → fi'.fileid ≠ none
  marked : ∀ k < fi.nFiles, fi.fileid = none ∨ fi.cells[k]? = some (some (-1)) →
    fi'.cells[k]? = some (some (-1))

/-- The array is allocated with the count of the configuration file. -/
theorem finishFromCfg_of_none (h : fi.fileid = none) : Finished fi fi.finishFromCfg := by
  have heq : fi.finishFromCfg =
      { fi with
        status := { fi.status with noCfg := false, cfgParsed := true }
        fileid := some (Block.filled fi.nFiles (-1))
        allocatedFiles := fi.nFiles } := by
    have hensure : fi.ensureFileid fi.nFiles =
        { fi with fileid := some (Block.filled fi.nFiles (-1)), allocatedFiles := fi.nFiles } := by
      unfold ensureFileid
      rw [h]
    unfold finishFromCfg
    rw [hensure]
    cases hlive : fi.status.noCfg with
    | true => simp [mark, hlive]
    | false => simp [mark, hlive]
  have hlength : (Block.filled fi.nFiles (-1 : ℤ)).length = fi.nFiles := Block.length_filled
  rw [heq]
  exact ⟨rfl, rfl, rfl, hlength.symm, hlength, fun _ => Option.some_ne_none _,
    fun k hk _ => Block.getElem?_filled hk⟩

/-- The array of a live recording is brought to the count. -/
theorem finishFromCfg_of_live (hlive : fi.status.noCfg = true) (h : Allocated fi) :
    Finished fi fi.finishFromCfg := by
  obtain ⟨b, hb⟩ := Option.ne_none_iff_exists'.mp h.present
  have hcells : fi.cells = b := by
    unfold cells
    rw [hb]
    rfl
  have hensure : fi.ensureFileid fi.nFiles = fi := by
    unfold ensureFileid
    rw [hb]
  unfold finishFromCfg
  rw [hensure]
  dsimp only
  rw [hlive, if_pos rfl]
  split
  next hne =>
    by_cases hzero : fi.nFiles = 0
    · refine ⟨rfl, rfl, rfl, ?_, ?_, ?_, fun k hk => absurd hk (by omega)⟩
      · simp [mark, reallocFileid, hzero, cells]
      · simp [mark, reallocFileid, hzero, cells]
      · rintro (hnone | hpos)
        · exact absurd hnone h.present
        · omega
    · have hnew : ((fi.reallocFileid fi.nFiles).mark fun s => { s with noCfg := false }).cells =
          fi.cells.realloc fi.nFiles := by
        unfold cells mark reallocFileid
        rw [if_neg hzero]
        rfl
      refine ⟨rfl, rfl, rfl, ?_, ?_, fun _ => ?_, fun k hk hcell => ?_⟩
      · exact ((congrArg List.length hnew).trans Block.length_realloc).symm
      · exact (congrArg List.length hnew).trans Block.length_realloc
      · show (fi.reallocFileid fi.nFiles).fileid ≠ none
        unfold reallocFileid
        rw [if_neg hzero]
        exact Option.some_ne_none _
      · have hold := hcell.resolve_left h.present
        have hkept := Block.getElem?_realloc (List.getElem?_eq_some_iff.mp hold).choose hk
        exact (congrArg (·[k]?) hnew).trans (hkept.trans hold)
  next heq =>
    have hsame : fi.allocatedFiles = fi.nFiles := not_ne_iff.mp heq
    exact ⟨rfl, rfl, rfl, h.capacity, h.capacity.symm.trans hsame, fun _ => h.present,
      fun k _ hcell => hcell.resolve_left h.present⟩

/-- What neither reading configuration files nor looking for folders touches. -/
structure Kept (fi fi' : DiskIndex) : Prop where
  flags : DiskIndex.flags fi'.status = DiskIndex.flags fi.status
  fileid : fi'.fileid = fi.fileid
  allocatedFiles : fi'.allocatedFiles = fi.allocatedFiles

theorem Kept.trans {fi'' : DiskIndex} (h : Kept fi fi') (h' : Kept fi' fi'') : Kept fi fi'' :=
  ⟨h'.flags.trans h.flags, h'.fileid.trans h.fileid, h'.allocatedFiles.trans h.allocatedFiles⟩

theorem Kept.of_mark {f : Status → Status} (h : Kept (fi.mark f) fi')
    (hf : ∀ s, DiskIndex.flags (f s) = DiskIndex.flags s) : Kept fi fi' :=
  ⟨h.flags.trans (hf fi.status), h.fileid, h.allocatedFiles⟩

theorem Kept.parseCfg (root : List CfgSetting) : Kept fi (parseCfg root fi).1 := by
  obtain ⟨hstatus, hfileid, halloc⟩ := parseCfg_frame root fi
  exact ⟨by rw [hstatus], hfileid, halloc⟩

theorem Inv.congr {seen : List (Option Folder)} (h : Inv filename count seen fi)
    (hk : Kept fi fi') (hfiles : fi'.nFiles = fi.nFiles) : Inv filename count seen fi' := by
  have hinit := initialized_of_flags hk.flags
  have hnoCfg := noCfg_of_flags hk.flags
  have hparsed := cfgParsed_of_flags hk.flags
  refine ⟨fun hf => ?_, fun ht => ?_, fun ht => ?_, fun ht => ?_, fun ht => ?_⟩
  · rw [hfiles, hk.fileid, hparsed]
    exact h.fresh (hinit ▸ hf)
  · exact (h.indexes (hinit ▸ ht)).congr hk.fileid hk.allocatedFiles hfiles hnoCfg
  · rw [hk.fileid]
    exact h.present (hinit ▸ ht)
  · rw [hnoCfg, cells_eq_of_fileid hk.fileid]
    exact h.wide (hinit ▸ ht)
  · exact h.compiled (hinit ▸ ht)

/-- Flags are set that say nothing about the array. -/
theorem Inv.mark {seen : List (Option Folder)} {f : Status → Status}
    (h : Inv filename count seen fi)
    (hf : ∀ s, (f s).initialized = s.initialized ∧ (f s).noCfg = s.noCfg ∧
      (f s).cfgParsed = s.cfgParsed) : Inv filename count seen (fi.mark f) := by
  obtain ⟨hinit, hnoCfg, hparsed⟩ := hf fi.status
  refine ⟨fun hf => ?_, fun ht => ?_, fun ht => ?_, fun ht hlive => ?_, fun ht => ?_⟩
  · obtain ⟨hnone, hfiles, hold⟩ := h.fresh (hinit.symm.trans hf)
    exact ⟨hnone, hfiles, hparsed.trans hold⟩
  · exact (h.indexes (hinit.symm.trans ht)).congr rfl rfl rfl hnoCfg
  · exact h.present (hinit.symm.trans ht)
  · exact h.wide (hinit.symm.trans ht) (hnoCfg.symm.trans hlive)
  · exact h.compiled (hinit.symm.trans ht)

theorem ensureFileid_of_present {n : ℕ} (h : fi.fileid ≠ none) : fi.ensureFileid n = fi := by
  obtain ⟨b, hb⟩ := Option.ne_none_iff_exists'.mp h
  unfold ensureFileid
  rw [hb]

theorem ensureFileid_of_none {n : ℕ} (h : fi.fileid = none) : fi.ensureFileid n =
    { fi with fileid := some (Block.filled n (-1)), allocatedFiles := n } := by
  unfold ensureFileid
  rw [h]

/-- A live recording is ready if the files that are missing are marked. -/
theorem Inv.ready {seen : List (Option Folder)} (h : Inv filename count seen fi)
    (hlive : fi.status.noCfg = true) (hvbs : fi.status.notVbs = false)
    (hgrows : ∀ k, Held filename seen k → Held filename folders k)
    (hmarked : ∀ k, ¬ Held filename folders k → (∃ j, Held filename folders j ∧ k < j) →
      (fi.ensureFileid diskindexInitialSize).cells[k]? = some (some (-1))) :
    Ready filename count folders (fi.ensureFileid diskindexInitialSize) := by
  cases hinit : fi.status.initialized with
  | false =>
      obtain ⟨hnone, hfiles, -⟩ := h.fresh hinit
      rw [ensureFileid_of_none hnone] at hmarked ⊢
      have hlength : (Block.filled diskindexInitialSize (-1 : ℤ)).length = diskindexInitialSize :=
        Block.length_filled
      refine ⟨⟨Option.some_ne_none _, hlength.symm⟩, ?_, hvbs, fun _ => ?_, fun _ hpos => ?_,
        fun hdone => ?_, fun k hk hbehind => ?_⟩
      · show fi.nFiles ≤ _
        omega
      · exact lt_of_lt_of_eq (by decide) hlength.symm
      · exact absurd hpos (by show ¬ 0 < fi.nFiles; omega)
      · exact absurd (hlive.symm.trans hdone) (by decide)
      · exact hmarked k hk ((if_pos hlive).mp hbehind)
  | true =>
      have hindex := h.indexes hinit
      rw [ensureFileid_of_present (h.present hinit)] at hmarked ⊢
      refine ⟨⟨h.present hinit, hindex.capacity⟩, ?_, hvbs, h.wide hinit, fun _ hpos => ?_,
        fun hdone => ?_, fun k hk hbehind => hmarked k hk ?_⟩
      · rw [← hindex.capacity]
        exact hindex.room
      · exact hgrows _ ((hindex.live hlive).2 hpos)
      · exact absurd (hlive.symm.trans hdone) (by decide)
      · rwa [if_pos hlive] at hbehind

/-- A finished recording is ready if the files that are missing are marked. -/
theorem Finished.ready (h : Finished fi fi') (hcount : fi.nFiles = count)
    (hvbs : fi.status.notVbs = false) (hpresent : fi'.fileid ≠ none)
    (hmarked : ∀ k, ¬ Held filename folders k → k < count →
      fi.fileid = none ∨ fi.cells[k]? = some (some (-1))) :
    Ready filename count folders fi' := by
  have hnoCfg : fi'.status.noCfg = false := by rw [h.status]
  refine ⟨⟨hpresent, h.capacity⟩, ?_, ?_, fun hlive => ?_, fun hlive => ?_, fun _ => ?_,
    fun k hk hbelow => ?_⟩
  · rw [h.nFiles, h.exact]
  · rw [h.status]
    exact hvbs
  · exact absurd (hlive.symm.trans hnoCfg) (by decide)
  · exact absurd (hlive.symm.trans hnoCfg) (by decide)
  · rw [h.nFiles, hcount]
  · have hlt : k < count := by
      rw [hnoCfg] at hbelow
      exact hbelow
    exact h.marked k (by omega) (hmarked k hk hlt)

theorem Finished.ready_ensure (h : Finished fi fi') (hcount : fi.nFiles = count)
    (hvbs : fi.status.notVbs = false)
    (hmarked : ∀ k, ¬ Held filename folders k → k < count →
      fi.fileid = none ∨ fi.cells[k]? = some (some (-1))) :
    Ready filename count folders (fi'.ensureFileid diskindexInitialSize) := by
  by_cases hpresent : fi'.fileid = none
  · have hzero : fi.nFiles = 0 := by
      by_contra hne
      exact h.present (.inr (Nat.pos_of_ne_zero hne)) hpresent
    have hlength : (Block.filled diskindexInitialSize (-1 : ℤ)).length = diskindexInitialSize :=
      Block.length_filled
    have hnoCfg : fi'.status.noCfg = false := by rw [h.status]
    have hfiles : fi'.nFiles = 0 := h.nFiles.trans hzero
    rw [ensureFileid_of_none hpresent]
    refine ⟨⟨Option.some_ne_none _, hlength.symm⟩, ?_, ?_, fun hlive => ?_, fun hlive => ?_,
      fun _ => ?_, fun k _ hbelow => ?_⟩
    · exact hfiles.trans_le (Nat.zero_le _)
    · show fi'.status.notVbs = false
      rw [h.status]
      exact hvbs
    · exact absurd (hlive.symm.trans hnoCfg) (by decide)
    · exact absurd (hlive.symm.trans hnoCfg) (by decide)
    · exact h.nFiles.trans hcount
    · have hlt : k < count := by
        dsimp only at hbelow
        rw [hnoCfg] at hbelow
        exact hbelow
      omega
  · rw [ensureFileid_of_present hpresent]
    exact h.ready hcount hvbs hpresent hmarked

/-- Reading the configuration file of the recording, which is `finishFromCfg` if it is
there. -/
theorem getAndUpdateFromOwnCfg_spec {cfg : CfgContents} (fi : DiskIndex)
    (hcfg' : ∀ root, cfg = .settings root →
      Says count root ∧ ∀ e ∈ root, e ≠ (.packetSize, some 0)) :
    (cfg.isRead = false ∧ ∃ fi', fi.getAndUpdateFromOwnCfg cfg = (fi', false) ∧ Kept fi fi' ∧
        fi'.nFiles = fi.nFiles) ∨
      (cfg.isRead = true ∧ ∃ fi', fi.getAndUpdateFromOwnCfg cfg = (fi'.finishFromCfg, true) ∧
        Kept fi fi' ∧ fi'.nFiles = count ∧ (0 < fi.packetSize → 0 < fi'.packetSize)) := by
  cases cfg with
  | missing => exact .inl ⟨rfl, fi, rfl, ⟨rfl, rfl, rfl⟩, rfl⟩
  | unreadable =>
      exact .inl ⟨rfl, fi.mark fun s => { s with gotRefstat := true }, rfl, ⟨rfl, rfl, rfl⟩, rfl⟩
  | settings root =>
      obtain ⟨hroot, hzero⟩ := hcfg' root rfl
      obtain ⟨read, hread⟩ : ∃ read, read = fi.mark fun s => { s with gotRefstat := true } :=
        ⟨_, rfl⟩
      have hkept : Kept fi read := by
        rw [hread]
        exact ⟨rfl, rfl, rfl⟩
      have hparse : parseCfg root read = ((parseCfg root read).1, true) :=
        Prod.ext rfl ((parseCfg_ok root read).trans hroot.typed)
      refine .inr ⟨hroot.typed, (parseCfg root read).1, ?_, hkept.trans (Kept.parseCfg root),
        parseCfg_count hroot.typed hroot.only (.inl hroot.cumul), fun hpos => ?_⟩
      · unfold getAndUpdateFromOwnCfg
        have hcfg : read.getFiFromCfg (.settings root) = ((parseCfg root read).1, true) := hparse
        rw [if_neg (by simp), ← hread, hcfg]
      · refine parseCfg_packetSize hzero (.inl ?_)
        rw [hread]
        exact hpos

/-- The general configuration file, which has a packet size. -/
theorem getFiFromCfg_spec {cfg : CfgContents} (fi : DiskIndex)
    (hgeneral : ∀ root, cfg = .settings root →
      General root ∧ ∃ v, (CfgName.packetSize, v) ∈ root) :
    ∃ fi', fi.getFiFromCfg cfg = (fi', cfg.isRead) ∧ Kept fi fi' ∧ fi'.nFiles = fi.nFiles ∧
      (cfg.isRead = true → 0 < fi'.packetSize) := by
  cases cfg with
  | missing => exact ⟨fi, rfl, ⟨rfl, rfl, rfl⟩, rfl, nofun⟩
  | unreadable => exact ⟨fi, rfl, ⟨rfl, rfl, rfl⟩, rfl, nofun⟩
  | settings root =>
      obtain ⟨hroot, hsize⟩ := hgeneral root rfl
      exact ⟨_, Prod.ext rfl (parseCfg_ok root fi), Kept.parseCfg root,
        parseCfg_nFiles fun e he => (hroot e he).1,
        fun htyped => parseCfg_packetSize (fun e he => (hroot e he).2) (.inr ⟨htyped, hsize⟩)⟩

/-- The entry in the schedule. -/
theorem parseScheduleForFi_spec (fi : DiskIndex)
    (hroot : ∀ root, v.schedule = some root → General root) :
    ∃ fi', fi.parseScheduleForFi v.schedule = (fi', v.inSchedule) ∧ Kept fi fi' ∧
      fi'.nFiles = fi.nFiles ∧ (0 < fi.packetSize → 0 < fi'.packetSize) := by
  unfold Visit.inSchedule
  cases h : v.schedule with
  | none => exact ⟨fi, rfl, ⟨rfl, rfl, rfl⟩, rfl, id⟩
  | some root =>
      have hgeneral := hroot root h
      exact ⟨_, Prod.ext rfl (parseCfg_ok root fi), Kept.parseCfg root,
        parseCfg_nFiles fun e he => (hgeneral e he).1,
        fun hpos => parseCfg_packetSize (fun e he => (hgeneral e he).2) (.inl hpos)⟩

/-- A configuration file that is found is that of a folder. -/
theorem mem_of_checkAllDirsForCfg {cfg : CfgContents} (h : v.checkAllDirsForCfg = some cfg) :
    ∃ folder, some folder ∈ v.folders ∧ folder.cfg = cfg := by
  obtain ⟨folder, hmem, hsome⟩ := List.exists_of_findSome?_eq_some h
  cases folder with
  | none => cases hsome
  | some folder =>
      rw [Option.bind_some] at hsome
      split at hsome
      · cases hsome
      · exact ⟨folder, hmem, Option.some.inj hsome⟩

theorem Marked.ensured (h : fi.Marked v k) (hfinishes : fi.finishes v = false)
    (hfileid : fi'.fileid = fi.fileid) :
    (fi'.ensureFileid diskindexInitialSize).cells[k]? = some (some (-1)) := by
  unfold Marked at h
  cases hnone : fi.fileid with
  | none =>
      rw [hnone] at h
      rw [ensureFileid_of_none (hfileid.trans hnone)]
      rcases h with h | h
      · exact absurd (h.symm.trans hfinishes) (by decide)
      · exact Block.getElem?_filled h
  | some b =>
      rw [hnone] at h
      have hpresent : fi'.fileid = some b := hfileid.trans hnone
      rw [ensureFileid_of_present (by rw [hpresent]; exact Option.some_ne_none _)]
      unfold cells
      rw [hpresent]
      exact h

theorem Marked.own (h : fi.Marked v k) (hfileid : fi'.fileid = fi.fileid) :
    fi'.fileid = none ∨ fi'.cells[k]? = some (some (-1)) := by
  unfold Marked at h
  unfold cells
  rw [hfileid]
  cases hnone : fi.fileid with
  | none => exact .inl rfl
  | some b =>
      rw [hnone] at h
      exact .inr h

/-- **A live recording is looked up.**  `fi` is the index with its flags as
`create_single_file_index` may have changed them. -/
theorem updateNocfgIndex_spec (hm : Indexing.Meets filename count s a)
    (hcompiled : (Bre.compile (dataFilePattern filename)).isSome)
    (h : Inv filename count s.seen fi) (hlive : fi.status.noCfg = true)
    (hvbs : fi.status.notVbs = false) (hfileid : fi.fileid = s.fi.fileid)
    (hscans : (a.visit.cfgFile.isRead && (a.visit.inSchedule || a.visit.hasOwn)) = true →
      s.fi.scans a.visit = true)
    (hfinishes : s.fi.finishes a.visit = (!a.visit.inSchedule && a.visit.hasOwn)) :
    Leaves filename count s.seen a.visit (fi.updateNocfgIndex filename a.visit) := by
  have hread := hm.allReadable
  obtain ⟨fi₁, hcfg, hkept₁, hfiles₁, hpacket₁⟩ := getFiFromCfg_spec fi hm.general
  have hinv₁ := h.congr hkept₁ hfiles₁
  unfold updateNocfgIndex
  rw [hcfg]
  cases hgeneral : a.visit.cfgFile.isRead with
  | false => exact ⟨fi₁, .failed, rfl, hinv₁⟩
  | true =>
      obtain ⟨fi₂, hschedule, hkept₂, hfiles₂, hpacket₂⟩ :=
        parseScheduleForFi_spec fi₁ hm.schedule
      have hkept := hkept₁.trans hkept₂
      have hinv₂ := hinv₁.congr hkept₂ hfiles₂
      have hpacket := hpacket₂ (hpacket₁ hgeneral)
      have hlive₂ : fi₂.status.noCfg = true := (noCfg_of_flags hkept.flags).trans hlive
      have hvbs₂ : fi₂.status.notVbs = false := (notVbs_of_flags hkept.flags).trans hvbs
      dsimp only
      rw [hschedule]
      rw [hgeneral, Bool.true_and] at hscans
      cases hin : a.visit.inSchedule with
      | true =>
          rw [hin, Bool.true_or] at hscans
          rw [hin, Bool.not_true, Bool.false_and] at hfinishes
          refine updateFromSubfolders_spec hcompiled hpacket ?_ hm.drives hread
          refine hinv₂.ready hlive₂ hvbs₂ (fun k hheld => ?_) fun k hnone hbehind => ?_
          · obtain ⟨i, hi⟩ := hheld
            exact ⟨i, hm.grows i k hi⟩
          · refine Marked.ensured (hm.marked (hscans rfl) k hnone ?_) hfinishes
              (hkept.fileid.trans hfileid)
            rw [hfinishes]
            exact hbehind
      | false =>
          dsimp only
          cases hown : a.visit.checkAllDirsForCfg with
          | none =>
              exact ⟨_, .skipped, rfl, hinv₂.mark fun _ => ⟨rfl, rfl, rfl⟩⟩
          | some cfg =>
              have hcfg' : ∀ root, cfg = .settings root →
                  Says count root ∧ ∀ e ∈ root, e ≠ (.packetSize, some 0) := by
                intro root hroot
                obtain ⟨folder, hmem, hfolder⟩ := mem_of_checkAllDirsForCfg hown
                exact hm.own folder root hmem (hfolder.trans hroot)
              have hhas : a.visit.hasOwn = cfg.isRead := by
                rw [Visit.hasOwn, hown]
                rfl
              dsimp only
              rcases getAndUpdateFromOwnCfg_spec fi₂ hcfg' with
                ⟨-, fi₃, heq, hkept₃, hfiles₃⟩ | ⟨hisRead, fi₃, heq, hkept₃, hcount₃, hpacket₃⟩
              · rw [heq]
                exact ⟨fi₃, .failed, rfl, hinv₂.congr hkept₃ hfiles₃⟩
              · rw [hin, hhas, hisRead] at hscans hfinishes
                rw [heq]
                have hvbs₃ : fi₃.status.notVbs = false :=
                  (notVbs_of_flags hkept₃.flags).trans hvbs₂
                have hlive₃ : fi₃.status.noCfg = true :=
                  (noCfg_of_flags hkept₃.flags).trans hlive₂
                have hfileid₃ : fi₃.fileid = s.fi.fileid :=
                  hkept₃.fileid.trans (hkept.fileid.trans hfileid)
                have hfinished : Finished fi₃ fi₃.finishFromCfg := by
                  by_cases hnone : fi₃.fileid = none
                  · exact finishFromCfg_of_none hnone
                  · have hinit : fi₂.status.initialized = true := by
                      by_contra hfresh
                      rw [Bool.not_eq_true] at hfresh
                      exact hnone (hkept₃.fileid.trans (hinv₂.fresh hfresh).1)
                    refine finishFromCfg_of_live hlive₃ ⟨hnone, ?_⟩
                    rw [hkept₃.allocatedFiles, cells_eq_of_fileid hkept₃.fileid]
                    exact (hinv₂.indexes hinit).capacity
                refine updateFromSubfolders_spec hcompiled ?_
                  (hfinished.ready_ensure hcount₃ hvbs₃ fun k hnone hbelow => ?_) hm.drives hread
                · rw [hfinished.packetSize]
                  exact hpacket₃ hpacket
                · refine Marked.own (hm.marked (hscans rfl) k hnone ?_) hfileid₃
                  rw [hfinishes]
                  exact hbelow

theorem Inv.of_fresh {seen : List (Option Folder)} (hinit : fi.status.initialized = false)
    (hfileid : fi.fileid = none) (hfiles : fi.nFiles = 0)
    (hparsed : fi.status.cfgParsed = false) : Inv filename count seen fi where
  fresh _ := ⟨hfileid, hfiles, hparsed⟩
  indexes ht := absurd (hinit.symm.trans ht) (by decide)
  present ht := absurd (hinit.symm.trans ht) (by decide)
  wide ht := absurd (hinit.symm.trans ht) (by decide)
  compiled ht := absurd (hinit.symm.trans ht) (by decide)

theorem cfgParsed_of_own {cfg : CfgContents} {fi₁ : DiskIndex}
    (h : fi.getAndUpdateFromOwnCfg cfg = (fi₁, true)) : fi₁.status.cfgParsed = true := by
  unfold getAndUpdateFromOwnCfg at h
  split at h
  · cases h
  · split at h
    · cases h
    · obtain ⟨rfl, -⟩ := Prod.mk.inj h
      rfl

/-- The first folder decides: without its configuration file the loop is left, and with it
all drives are gone through. -/
theorem visitLoop_first (filename : String) (folders : List (Option Folder)) (n : ℕ)
    (found : Bool) (hparsed : fi.status.cfgParsed = false) :
    match folders.findSome? fun folder => folder.map Folder.cfg with
    | none => visitLoop filename (folders.zipIdx n) found fi = some (.ended fi found)
    | some cfg =>
        ∀ fi₁ ok, fi.getAndUpdateFromOwnCfg cfg = (fi₁, ok) →
          visitLoop filename (folders.zipIdx n) found fi =
            if ok then visitLoop filename (folders.zipIdx n) found fi₁
            else some (.active (fi₁.mark fun s => { s with noCfg := true })) := by
  induction folders generalizing n with
  | nil => rfl
  | cons folder folders ih =>
      cases folder with
      | none => exact ih (n + 1)
      | some folder =>
          intro fi₁ ok hown
          rw [List.zipIdx_cons]
          cases ok with
          | false =>
              rw [visitLoop, hparsed, if_neg Bool.false_ne_true, hown]
              rfl
          | true =>
              have hset : fi₁.status.cfgParsed = true := cfgParsed_of_own hown
              rw [visitLoop, hparsed, if_neg Bool.false_ne_true, hown, if_pos rfl, visitLoop,
                hset, if_pos rfl]

/-- **A recording is looked up that has no index yet.** -/
theorem createSingleFileIndex_spec (hm : Indexing.Meets filename count s a)
    (hinit : fi.status.initialized = false) (hvbs : fi.status.notVbs = false)
    (hnone : fi.fileid = none) (hfiles : fi.nFiles = 0) (hparsed : fi.status.cfgParsed = false)
    (hfileid : fi.fileid = s.fi.fileid) (hinit' : s.fi.status.initialized = false)
    (hvbs' : s.fi.status.notVbs = false) :
    Leaves filename count s.seen a.visit (fi.createSingleFileIndex filename a.visit) := by
  unfold createSingleFileIndex
  split
  next hno => exact ⟨fi, .failed, rfl, Inv.of_fresh hinit hnone hfiles hparsed⟩
  next hyes =>
    have hcompiled : (Bre.compile (dataFilePattern filename)).isSome := by
      rw [← Option.not_isNone, Bool.not_eq_true']
      exact Bool.not_eq_true _ ▸ hyes
    have hfirst := visitLoop_first filename a.visit.folders 0 false hparsed
    rw [show a.visit.drives = a.visit.folders.zipIdx 0 from rfl]
    cases hcfg : a.visit.folders.findSome? fun folder => folder.map Folder.cfg with
    | none =>
        rw [hcfg] at hfirst
        rw [hfirst]
        exact ⟨_, .failed, rfl, Inv.of_fresh hinit hnone hfiles hparsed⟩
    | some cfg =>
        rw [hcfg] at hfirst
        have hcfg' : ∀ root, cfg = .settings root →
            Says count root ∧ ∀ e ∈ root, e ≠ (.packetSize, some 0) := by
          intro root hroot
          obtain ⟨folder, hmem, hsome⟩ := List.exists_of_findSome?_eq_some hcfg
          obtain ⟨d, rfl, hd⟩ := Option.map_eq_some_iff.mp hsome
          exact hm.own d root hmem (hd.trans hroot)
        have hhas : a.visit.hasFirst = cfg.isRead := by
          rw [Visit.hasFirst, hcfg]
          rfl
        rcases getAndUpdateFromOwnCfg_spec fi hcfg' with
          ⟨hisRead, fi₁, heq, hkept, hfiles₁⟩ | ⟨hisRead, fi₁, heq, hkept, hcount, -⟩
        · rw [hfirst fi₁ false heq, if_neg Bool.false_ne_true, Option.bind_some]
          rw [hisRead] at hhas
          refine updateNocfgIndex_spec hm hcompiled ?_ rfl ?_ (hkept.fileid.trans hfileid)
            (fun hgoes => ?_) ?_
          · exact Inv.of_fresh ((initialized_of_flags hkept.flags).trans hinit)
              (hkept.fileid.trans hnone) (hfiles₁.trans hfiles)
              ((cfgParsed_of_flags hkept.flags).trans hparsed)
          · exact (notVbs_of_flags hkept.flags).trans hvbs
          · rw [scans, hvbs', hinit', hhas]
            simpa using hgoes
          · rw [finishes, hinit', hhas]
            rfl
        · rw [hfirst fi₁.finishFromCfg true heq, if_pos rfl]
          rw [hisRead] at hhas
          have hfinished := finishFromCfg_of_none (hkept.fileid.trans hnone)
          have hfinishes : s.fi.finishes a.visit = true := by
            rw [finishes, hinit', hhas]
            rfl
          have hready : Ready filename count a.visit.folders fi₁.finishFromCfg := by
            refine hfinished.ready hcount ((notVbs_of_flags hkept.flags).trans hvbs)
              (hfinished.present (.inl (hkept.fileid.trans hnone))) fun k _ _ => ?_
            exact .inl (hkept.fileid.trans hnone)
          obtain ⟨fi₂, hloop, hs⟩ := visitLoop_spec (n := 0) false
            (Scanned.start hready.toAllocated hready.room) (by rw [hfinished.status]) hready.vbs
            hready.wide (by have := hm.drives; omega) hm.allReadable
          have hany : a.visit.folders.any Option.isSome = true := by
            obtain ⟨folder, hmem, hsome⟩ := List.exists_of_findSome?_eq_some hcfg
            obtain ⟨d, rfl, -⟩ := Option.map_eq_some_iff.mp hsome
            exact List.any_eq_true.mpr ⟨some d, hmem, rfl⟩
          rw [Set.empty_union] at hs
          rw [hloop, hany, Bool.or_true, Option.bind_some]
          exact ⟨_, .scanned, rfl, hready.inv hs hcompiled⟩

/-- Looking whether the folders are still there. -/
theorem foldlM_found (filename : String) (drives : List (Option Folder × ℕ)) (fi : DiskIndex) :
    ∃ fi', drives.foldlM (doToSubfolder filename false) fi = some fi' ∧ Kept fi fi' ∧
      fi'.nFiles = fi.nFiles := by
  induction drives generalizing fi with
  | nil => exact ⟨fi, rfl, ⟨rfl, rfl, rfl⟩, rfl⟩
  | cons drive drives ih =>
      obtain ⟨folder, i⟩ := drive
      cases folder with
      | none => exact ih fi
      | some folder =>
          obtain ⟨fi', hfold, hkept, hfiles⟩ := ih (fi.mark fun s => { s with found := true })
          exact ⟨fi', hfold, hkept.of_mark fun _ => rfl, hfiles⟩

/-- **Any call.** -/
theorem access_spec (hm : Indexing.Meets filename count s a) (h : Inv filename count s.seen fi)
    (hfileid : fi.fileid = s.fi.fileid) (hinit : fi.status.initialized = s.fi.status.initialized)
    (hnoCfg : fi.status.noCfg = s.fi.status.noCfg)
    (hvbs : fi.status.notVbs = s.fi.status.notVbs) :
    Leaves filename count s.seen a.visit (fi.access filename a.opening a.visit) := by
  unfold access
  cases hnot : fi.status.notVbs with
  | true => exact ⟨fi, .skipped, rfl, h⟩
  | false =>
      rw [if_neg Bool.false_ne_true]
      have hnot' : s.fi.status.notVbs = false := hvbs.symm.trans hnot
      cases hready : fi.status.initialized with
      | false =>
          obtain ⟨hnone, hfiles, hparsed⟩ := h.fresh hready
          rw [Bool.not_false, if_pos rfl]
          exact createSingleFileIndex_spec hm hready hnot hnone hfiles hparsed hfileid
            (hinit.symm.trans hready) hnot'
      | true =>
          have hready' : s.fi.status.initialized = true := hinit.symm.trans hready
          rw [Bool.not_true, if_neg Bool.false_ne_true]
          cases hlive : fi.status.noCfg with
          | true =>
              have hlive' : s.fi.status.noCfg = true := hnoCfg.symm.trans hlive
              rw [if_pos rfl]
              refine updateNocfgIndex_spec hm (h.compiled hready) h hlive hnot hfileid
                (fun hgoes => ?_) ?_
              · rw [scans, hnot', hready', hlive']
                simpa using hgoes
              · rw [finishes, hready']
                rfl
          | false =>
              rw [if_neg Bool.false_ne_true]
              split
              · have hsome : (Bre.compile (dataFilePattern filename)).isNone = false := by
                  rw [Option.isNone_eq_false_iff]
                  exact h.compiled hready
                obtain ⟨fi', hfold, hkept, hfiles⟩ := foldlM_found filename a.visit.drives
                   (fi.mark fun s => { s with found := false })
                unfold genericDoToEachSubfolder
                rw [hsome, if_neg Bool.false_ne_true, hfold]
                have hinv : Inv filename count s.seen fi' :=
                  h.congr (hkept.of_mark fun _ => rfl) hfiles
                show Leaves _ _ _ _ (some (if fi'.status.found then _ else _))
                split
                · exact ⟨fi', .skipped, rfl, hinv⟩
                · exact ⟨DiskIndex.cleared, .failed, rfl, Inv.cleared _⟩
              · exact ⟨fi, .skipped, rfl, h⟩

end DiskIndex

/-! ## Runs -/

/-- The index is that of the drives as they were seen. -/
def Indexing.Inv (filename : String) (count : ℕ) (s : Indexing) : Prop :=
  s.fi.Inv filename count s.seen

/-- **One step.** -/
theorem Indexing.next_spec (h : s.Inv filename count) (hm : Indexing.Meets filename count s a) :
    ∃ t, s.next filename a = some t ∧ t.Inv filename count := by
  have hleaves : DiskIndex.Leaves filename count s.seen a.visit
      ((if s.fi.status = slotFree then DiskIndex.added else s.fi).access filename a.opening
        a.visit) := by
    split
    next hfree =>
      have hinit : s.fi.status.initialized = false := by rw [hfree]; rfl
      refine DiskIndex.access_spec hm (.of_fresh rfl rfl rfl rfl) (h.fresh hinit).1.symm ?_ ?_ ?_
      · exact hinit.symm
      · rw [hfree]
        rfl
      · rw [hfree]
        rfl
    next hused => exact DiskIndex.access_spec hm h rfl rfl rfl rfl
  obtain ⟨fi, scan, haccess, hinv⟩ := hleaves
  refine ⟨⟨fi, if scan = .scanned then a.visit.folders else s.seen⟩, ?_, hinv⟩
  unfold Indexing.next
  rw [haccess]
  rfl

/-- What holds in every state of such a run. -/
theorem inv_of_reachable
    (h : (indexing filename).ReachableUnder (Indexing.Meets filename count) s) :
    s.Inv filename count := by
  refine h.invariant (fun s hinit => ?_) fun s a t hinv hm hstep => ?_
  · obtain ⟨hfi, -⟩ := hinit
    unfold Indexing.Inv
    rw [hfi]
    exact .of_fresh rfl rfl rfl rfl
  · obtain ⟨t', hnext, hinv'⟩ := Indexing.next_spec hinv hm
    obtain rfl := Option.some.inj (hnext.symm.trans hstep)
    exact hinv'

/-- The recording before that. -/
def unseen : Indexing := ⟨DiskIndex.added, []⟩

end VlbiStreamer.FuseIndex
