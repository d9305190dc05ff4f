import VlbiStreamer.Library.BasicRegex
import VlbiStreamer.Sender.FileJump
import VlbiStreamer.Sender.Joining

/-!
# Looking for the files of a recording

When a sending event starts, every drive is searched for the files of the recording.
`commonCheckFiles` is that search on one drive: of the names in the directory those that
look like a data file are read back to their number, and the file of that number is set
found.

`Detected` is what the search is for.  `detected_iff` says when it comes about: only for
a recording without files, since a file of the index cannot be set found and no file is
set missing before the search.
-/

namespace VlbiStreamer.Sender

open ActiveFileIndex

/-! ## Names of data files -/

/-- `INDEXING_LENGTH` -/
def indexingLength : ℕ := 8

/-- `sprintf("%s.%08ld", filename, id)`, as characters. -/
def dataFileName (filename : String) (id : ℕ) : List Char :=
  let digits := (toString id).toList
  filename.toList ++ '.' :: List.replicate (indexingLength - digits.length) '0' ++ digits

/-- `regexec` with `^filename.[0-9][0-9][0-9][0-9][0-9][0-9][0-9][0-9]`, where the dot is
any character and nothing is said of the end.  The characters of `filename` stand for
themselves. -/
def matchesDataFile (filename : String) (name : List Char) : Bool :=
  let rest := name.drop filename.toList.length
  filename.toList.isPrefixOf name && decide (indexingLength < rest.length) &&
    ((rest.drop 1).take indexingLength).all Char.isDigit

/-- The number that decimal digits stand for, up to the first other character. -/
def digitsValue (name : List Char) : ℕ :=
  (name.takeWhile Char.isDigit).foldl (fun n c => 10 * n + (c.toNat - '0'.toNat)) 0

/-- `atoi` -/
def atoi : List Char → ℤ
  | [] => 0
  | '-' :: name => -(digitsValue name : ℤ)
  | '+' :: name => digitsValue name
  | c :: name => if Library.isSpace c then atoi name else digitsValue (c :: name)

/-- `atoi(start_of_index)`: the number in the last characters of the name. -/
def readIndex (name : List Char) : ℤ := atoi (name.drop (name.length - indexingLength))

example : readIndex (dataFileName "rec" 42) = 42 := by decide

/-! ## The search -/

/-- A drive. -/
structure Drive where
  id : ℤ
  /-- The names in its directory of the recording, unless that cannot be opened. -/
  dir : Option (List (List Char))
  /-- Whether it has the single file of a recording that was written to one. -/
  hasSingleFile : Bool

/-- What the search reads and writes. -/
structure Search where
  filename : String
  /-- `WRITE_TO_SINGLE_FILE` -/
  singleFile : Bool
  fi : FileIndex
  cumul : ℕ
  cumulFound : ℕ

/-- An `int` where an `unsigned long` is wanted. -/
def unsignedLong (temp : ℤ) : ℕ := (BitVec.ofInt 64 temp).toNat

/-- A data file was found, and `temp` was read from its name. -/
def foundFile (fi : FileIndex) (temp : ℤ) (id : ℤ) : Option (Bool × FileIndex) :=
  -- "Extra files found in dir named!"
  if fi.nFiles ≤ unsignedLong temp then some (false, fi)
  else (fi.afiSetFound (unsignedLong temp) id).map (true, ·)

namespace Search

/-- The loop over the names of a directory. -/
def checkNames (id : ℤ) : List (List Char) → Search → Option Search
  | [], s => some s
  | name :: names, s =>
      if matchesDataFile s.filename name then
        match foundFile s.fi (readIndex name) id with
        | none => none
        | some (found, fi) =>
            checkNames id names
              { s with fi := fi, cumulFound := s.cumulFound + if found then 1 else 0 }
      else checkNames id names s

/-- `common_check_files`; what it returns is not looked at. -/
def commonCheckFiles (d : Drive) (s : Search) : Option Search :=
  if s.singleFile then
    if d.hasSingleFile then
      (s.fi.afiSingleAllFound d.id).map fun fi => { s with fi := fi, cumul := fi.nFiles }
    else some s
  else
    match d.dir with
    | none => some s
    | some names => s.checkNames d.id names

/-- `oper_to_all(opt->diskbranch, BRANCHOP_CHECK_FILES, opt)` -/
def checkAll : List Drive → Search → Option Search
  | [], s => some s
  | d :: drives, s => (s.commonCheckFiles d).bind (checkAll drives)

/-- After `init_cfg` has made the index of a recording with many files. -/
def start (filename : String) (cfg : Cfg) : Search :=
  { filename := filename
    singleFile := false
    fi := openedIndex cfg
    cumul := cfg.cumul
    cumulFound := 0 }

end Search

/-! ## What it is for -/

/-- The drive has the data file of that number. -/
def Drive.holds (filename : String) (d : Drive) (id : ℕ) : Prop :=
  ∃ names, d.dir = some names ∧ dataFileName filename id ∈ names

/-- A sender that comes to the file goes on behind it. -/
def SteppedOver (fi : FileIndex) (id : ℕ) : Prop :=
  ∀ (env : Env) (s s' : SenderState) (fuel : ℕ), env.fi = fi →
    s.st.filesLoaded.toNat = id → s.st.filesLoaded ≤ s.st.nFilesProbed →
    (skipMissing env .skipLoaded fuel).run s = .ok ((), s') → id < s'.st.filesLoaded.toNat

/-- Every file of the recording is found on a drive that holds it, or missing. -/
structure Detected (filename : String) (files : ℕ) (drives : List Drive) (fi : FileIndex) :
    Prop where
  held : ∀ k < files, (∃ d ∈ drives, d.holds filename k) →
    fi.afiIsMissing k = some false ∧ fi.onDisk k = some true ∧
      ∃ d ∈ drives, d.holds filename k ∧ fi.afiGetDiskId k = some d.id
  lost : ∀ k < files, (¬ ∃ d ∈ drives, d.holds filename k) →
    fi.afiIsMissing k = some true ∧ SteppedOver fi k

section Results

variable {filename : String} {fi : FileIndex} {s s' : Search}

/-- **A file of the index cannot be set found**: the assertion of `afi_set_found` is that
it is not one. -/
theorem foundFile_of_lt {temp id : ℤ} (h : unsignedLong temp < fi.nFiles) :
    foundFile fi temp id = none := by
  have hassert : fi.afiSetFound (unsignedLong temp) id = none :=
    if_neg (Nat.not_le.mpr h)
  unfold foundFile
  rw [if_neg (Nat.not_le.mpr h), hassert]
  rfl

/-- What is found is no file of the index. -/
theorem foundFile_of_le {temp id : ℤ} (h : fi.nFiles ≤ unsignedLong temp) :
    foundFile fi temp id = some (false, fi) := if_pos h

/-- A search that comes to its end has found nothing. -/
theorem Search.checkNames_fi {id : ℤ} {names : List (List Char)}
    (h : s.checkNames id names = some s') :
    s'.fi = s.fi ∧ s'.singleFile = s.singleFile := by
  induction names generalizing s with
  | nil =>
      obtain rfl := Option.some.inj h
      exact ⟨rfl, rfl⟩
  | cons name names ih =>
      unfold checkNames at h
      by_cases hmatch : matchesDataFile s.filename name = true
      · rw [if_pos hmatch] at h
        by_cases hfile : s.fi.nFiles ≤ unsignedLong (readIndex name)
        · rw [foundFile_of_le hfile] at h
          exact ih h
        · rw [foundFile_of_lt (Nat.not_le.mp hfile)] at h
          cases h
      · rw [if_neg hmatch] at h
        exact ih h

/-- And neither has the search of all drives. -/
theorem Search.checkAll_fi {drives : List Drive} (hmany : s.singleFile = false)
    (h : s.checkAll drives = some s') : s'.fi = s.fi := by
  induction drives generalizing s with
  | nil =>
      obtain rfl := Option.some.inj h
      rfl
  | cons d drives ih =>
      obtain ⟨s₁, hone, hrest⟩ := Option.bind_eq_some_iff.mp h
      have hsame : s₁.fi = s.fi ∧ s₁.singleFile = s.singleFile := by
        unfold commonCheckFiles at hone
        rw [hmany] at hone
        cases hdir : d.dir with
        | none =>
            rw [hdir] at hone
            obtain rfl := Option.some.inj hone
            exact ⟨rfl, rfl⟩
        | some names =>
            rw [hdir] at hone
            exact checkNames_fi hone
      exact (ih (hsame.2.trans hmany) hrest).trans hsame.1

/-- The search comes to its end when the recording has no files. -/
theorem Search.checkAll_of_zero {drives : List Drive} (hmany : s.singleFile = false)
    (hzero : s.fi.nFiles = 0) : ∃ s', s.checkAll drives = some s' := by
  have hnames : ∀ (id : ℤ) (names : List (List Char)) (s : Search), s.fi.nFiles = 0 →
      ∃ s', s.checkNames id names = some s' := by
    intro id names
    induction names with
    | nil => exact fun s _ => ⟨s, rfl⟩
    | cons name names ih =>
        intro s hzero
        unfold checkNames
        by_cases hmatch : matchesDataFile s.filename name = true
        · rw [if_pos hmatch, foundFile_of_le (by rw [hzero]; exact Nat.zero_le _)]
          exact ih _ hzero
        · rw [if_neg hmatch]
          exact ih s hzero
  induction drives generalizing s with
  | nil => exact ⟨s, rfl⟩
  | cons d drives ih =>
      cases hdir : d.dir with
      | none =>
          have hone : s.commonCheckFiles d = some s := by
            unfold commonCheckFiles
            rw [hmany, hdir]
            rfl
          obtain ⟨s', hs'⟩ := ih hmany hzero
          exact ⟨s', by rw [checkAll, hone]; exact hs'⟩
      | some names =>
          obtain ⟨s₁, hone⟩ := hnames d.id names s hzero
          obtain ⟨hfi, hsingle⟩ := checkNames_fi hone
          have hcheck : s.commonCheckFiles d = some s₁ := by
            unfold commonCheckFiles
            rw [hmany, hdir]
            exact hone
          obtain ⟨s', hs'⟩ := ih (hsingle.trans hmany) (hfi ▸ hzero)
          exact ⟨s', by rw [checkAll, hcheck]; exact hs'⟩

/-- No file of a new index is found or missing. -/
theorem openedIndex_untouched {cfg : Cfg} (h : 0 < cfg.cumul) :
    (openedIndex cfg).afiIsMissing 0 = some false ∧
      (openedIndex cfg).onDisk 0 = some false := by
  have hfirst : (openedIndex cfg).files[0]? = some ⟨0, 0⟩ := by
    simp [openedIndex, FileIndex.afiAddToPackets, afiAdd, h, Nat.ne_of_gt h]
  refine ⟨?_, ?_⟩
  · unfold FileIndex.afiIsMissing
    rw [if_pos (Nat.zero_le _), hfirst]
    rfl
  · unfold FileIndex.onDisk
    rw [hfirst]
    rfl

/-- **The files of a recording are detected exactly if it has none**, whatever drives hold
which of them and in whatever order the drives are searched. -/
theorem detected_iff (filename : String) (cfg : Cfg) (drives : List Drive) :
    (∃ s, (Search.start filename cfg).checkAll drives = some s ∧
      Detected filename cfg.cumul drives s.fi) ↔ cfg.cumul = 0 := by
  constructor
  · rintro ⟨s, hsearch, hdetected⟩
    by_contra hfiles
    have hpos : 0 < cfg.cumul := Nat.pos_of_ne_zero hfiles
    have hfi : s.fi = openedIndex cfg := Search.checkAll_fi rfl hsearch
    obtain ⟨hmissing, hondisk⟩ := openedIndex_untouched hpos
    by_cases hheld : ∃ d ∈ drives, d.holds filename 0
    · obtain ⟨-, hfound, -⟩ := hdetected.held 0 hpos hheld
      rw [hfi, hondisk] at hfound
      cases hfound
    · obtain ⟨hlost, -⟩ := hdetected.lost 0 hpos hheld
      rw [hfi, hmissing] at hlost
      cases hlost
  · intro hzero
    obtain ⟨s, hsearch⟩ : ∃ s, (Search.start filename cfg).checkAll drives = some s :=
      Search.checkAll_of_zero rfl hzero
    refine ⟨s, hsearch, fun k hk => ?_, fun k hk => ?_⟩ <;>
      · rw [hzero] at hk
        cases hk

/-- One drive that holds the only file of a recording. -/
def oneDrive : Drive := ⟨0, some [dataFileName "rec" 0], false⟩

/-- The search is aborted at the first file that it finds. -/
theorem oneDrive_not_detected : ¬ ∀ (filename : String) (cfg : Cfg) (drives : List Drive),
    ∃ s, (Search.start filename cfg).checkAll drives = some s ∧
      Detected filename cfg.cumul drives s.fi := by
  intro hall
  obtain ⟨s, hsearch, -⟩ := hall "rec" ⟨1, 1000⟩ [oneDrive]
  have habort : (Search.start "rec" ⟨1, 1000⟩).checkAll [oneDrive] = none := by decide
  rw [habort] at hsearch
  cases hsearch

end Results

end VlbiStreamer.Sender
