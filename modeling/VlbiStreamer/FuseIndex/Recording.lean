import VlbiStreamer.FuseIndex.Table

/-!
# What the file system finds out about a recording

`create_single_file_index` and `update_nocfg_index` look at the folders of a
recording on all drives, at its configuration file and at the schedule, and
note in the status of its slot what they found.  This module is what they do to
the slot; what they meet on the way is a `Disk`.

They leave a slot occupied and under its name, except that `update_nocfg_index`
clears it when no drive has the folder any more: `survives_updateNocfgIndex`
and `survives_createSingleFileIndex`.
-/

namespace VlbiStreamer.FuseIndex

/-- What `get_and_update_from_own_cfg` meets: there is no such file, it cannot be
parsed, or it is read. -/
inductive CfgAnswer where
  | missing
  | unreadable
  | read
  deriving DecidableEq, Repr

/-- What `fi_update_from_files` meets in one folder. -/
structure FilesAnswer where
  /-- There is a file whose `stat` can be taken. -/
  refstat : Bool
  /-- `realloc` succeeds. -/
  ok : Bool
  deriving DecidableEq, Repr

/-- What one call meets on the drives and in the configuration files. -/
structure Disk where
  nDatadirs : ℕ
  /-- `regcomp` with the name of the recording succeeds. -/
  regcomp : Bool
  /-- `opendir` in `create_single_file_index`. -/
  opendir : ℕ → Bool
  /-- The configuration file in that folder. -/
  ownCfg : ℕ → CfgAnswer
  /-- The files in that folder. -/
  files : ℕ → FilesAnswer
  /-- `get_fi_from_cfg(CFGFILE, fi)` succeeds. -/
  cfgFile : Bool
  /-- `parse_schedule_for_fi` finds the recording. -/
  inSchedule : Bool
  /-- `check_all_dirs_for_cfg` finds a configuration file. -/
  anyCfg : Bool
  /-- That file. -/
  finishedCfg : CfgAnswer
  /-- `opendir` in `generic_do_to_each_subfolder`. -/
  subfolder : ℕ → Bool
  /-- The files in that folder. -/
  subfiles : ℕ → FilesAnswer

/-- No drive has the folder of the recording when the folders are gone through. -/
def Disk.Gone (d : Disk) : Prop := ∀ i < d.nDatadirs, d.subfolder i = false

namespace FileIndex

variable {fi : FileIndex} {d : Disk}

/-- Change the status. -/
def mark (fi : FileIndex) (f : Status → Status) : FileIndex := { fi with status := f fi.status }

@[simp] theorem filename_mark (fi : FileIndex) (f : Status → Status) :
    (fi.mark f).filename = fi.filename := rfl

@[simp] theorem status_mark (fi : FileIndex) (f : Status → Status) :
    (fi.mark f).status = f fi.status := rfl

/-- `fi_update_from_files`, with what it returns. -/
def fiUpdateFromFiles (fi : FileIndex) (answer : FilesAnswer) : FileIndex × Bool :=
  (if answer.refstat then fi.mark fun s => { s with gotRefstat := true } else fi, answer.ok)

/-- `get_and_update_from_own_cfg`. -/
def getAndUpdateFromOwnCfg (fi : FileIndex) : CfgAnswer → FileIndex × Bool
  | .missing => (fi, false)
  | .unreadable => (fi.mark fun s => { s with gotRefstat := true }, false)
  | .read =>
      (fi.mark fun s => { s with gotRefstat := true, noCfg := false, cfgParsed := true }, true)

/-- `generic_do_to_each_subfolder` at a folder that is there; `do_to_folder` is
`fi_update_from_files` if `update` is set and a null pointer otherwise. -/
def visitSubfolder (d : Disk) (update : Bool) (i : ℕ) (fi : FileIndex) : FileIndex × Bool :=
  let fi := fi.mark fun s => { s with found := true }
  if update then fi.fiUpdateFromFiles (d.subfiles i) else (fi, true)

/-- The loop of `generic_do_to_each_subfolder`. -/
def subfolderLoop (d : Disk) (update : Bool) : List ℕ → FileIndex → FileIndex × Bool
  | [], fi => (fi, true)
  | i :: is, fi =>
      if d.subfolder i then
        match visitSubfolder d update i fi with
        | (fi, true) => subfolderLoop d update is fi
        | (fi, false) => (fi, false)
      else subfolderLoop d update is fi

/-- `generic_do_to_each_subfolder`. -/
def genericDoToEachSubfolder (d : Disk) (update : Bool) (fi : FileIndex) : FileIndex × Bool :=
  if d.regcomp then
    subfolderLoop d update (List.range d.nDatadirs) (fi.mark fun s => { s with found := false })
  else (fi, false)

/-- `update_nocfg_index`, from the folders on. -/
def updateFromSubfolders (d : Disk) (fi : FileIndex) : FileIndex × Bool :=
  match genericDoToEachSubfolder d true fi with
  | (fi, false) => (fi, false)
  | (fi, true) =>
      -- the recording seems to have been removed
      if fi.status.found then (fi.mark fun s => { s with initialized := true }, true)
      else (cleared, false)

/-- `update_nocfg_index`. -/
def updateNocfgIndex (d : Disk) (fi : FileIndex) : FileIndex × Bool :=
  if !d.cfgFile then (fi, false)
  else if d.inSchedule then updateFromSubfolders d fi
  else if !d.anyCfg then (fi.mark fun s => { s with notVbs := true }, true)
  else
    match fi.getAndUpdateFromOwnCfg d.finishedCfg with
    | (fi, false) => (fi, false)
    | (fi, true) => updateFromSubfolders d fi

/-- How the loop of `create_single_file_index` ends. -/
inductive Visits where
  /-- All drives were visited. -/
  | ended (fi : FileIndex) (foundAtleastOne : Bool)
  /-- There is no configuration file: the recording is presumed active. -/
  | active (fi : FileIndex)
  | failed (fi : FileIndex)

/-- The loop of `create_single_file_index`. -/
def visitLoop (d : Disk) : List ℕ → Bool → FileIndex → Visits
  | [], found, fi => .ended fi found
  | i :: is, found, fi =>
      if !d.opendir i then visitLoop d is found fi
      else
        match
          if fi.status.cfgParsed then (fi, true) else fi.getAndUpdateFromOwnCfg (d.ownCfg i) with
        | (fi, false) => .active (fi.mark fun s => { s with noCfg := true })
        | (fi, true) =>
            match fi.fiUpdateFromFiles (d.files i) with
            | (fi, false) => .failed fi
            | (fi, true) => visitLoop d is true fi

/-- `create_single_file_index`. -/
def createSingleFileIndex (d : Disk) (fi : FileIndex) : FileIndex × Bool :=
  if !d.regcomp then (fi, false)
  else
    match visitLoop d (List.range d.nDatadirs) false fi with
    | .active fi => updateNocfgIndex d fi
    | .failed fi => (fi, false)
    | .ended fi true => (fi.mark fun s => { s with initialized := true }, true)
    | .ended fi false => (fi.mark fun s => { s with notVbs := true }, false)

/-! ## A slot stays occupied -/

/-- The slot is occupied, and still by this recording. -/
structure Survives (fi fi' : FileIndex) : Prop where
  occupied : fi'.isFree = false
  filename : fi'.filename = fi.filename
  found : fi.status.found = true → fi'.status.found = true

theorem Survives.trans {fi fi' fi'' : FileIndex} (h : Survives fi fi') (h' : Survives fi' fi'') :
    Survives fi fi'' :=
  ⟨h'.occupied, h'.filename.trans h.filename, h'.found ∘ h.found⟩

/-- A flag that going through the folders does not reset. -/
def Known (fi : FileIndex) : Prop :=
  fi.status.noCfg = true ∨ fi.status.cfgParsed = true ∨ fi.status.initialized = true

theorem occupied_of_known (h : fi.Known) : fi.isFree = false := by
  unfold isFree
  rw [beq_eq_false_iff_ne]
  intro hfree
  rw [Known, hfree] at h
  simp [slotFree] at h

/-- The name, such a flag and `STATUS_FOUND` stay. -/
structure Keeps (fi fi' : FileIndex) : Prop where
  filename : fi'.filename = fi.filename
  known : fi.Known → fi'.Known
  found : fi.status.found = true → fi'.status.found = true

theorem Keeps.refl (fi : FileIndex) : Keeps fi fi := ⟨rfl, id, id⟩

theorem Keeps.trans {fi fi' fi'' : FileIndex} (h : Keeps fi fi') (h' : Keeps fi' fi'') :
    Keeps fi fi'' :=
  ⟨h'.filename.trans h.filename, h'.known ∘ h.known, h'.found ∘ h.found⟩

/-- A known slot that keeps its name is still occupied. -/
theorem Keeps.survives {fi' : FileIndex} (h : Keeps fi fi') (hknown : fi.Known) :
    Survives fi fi' :=
  ⟨occupied_of_known (h.known hknown), h.filename, h.found⟩

theorem keeps_fiUpdateFromFiles (fi : FileIndex) (answer : FilesAnswer) :
    Keeps fi (fi.fiUpdateFromFiles answer).1 := by
  unfold fiUpdateFromFiles
  split
  · exact ⟨rfl, id, id⟩
  · exact Keeps.refl fi

theorem visitSubfolder_spec (d : Disk) (update : Bool) (i : ℕ) (fi : FileIndex) :
    Keeps fi (visitSubfolder d update i fi).1 ∧
      (visitSubfolder d update i fi).1.status.found = true := by
  have hset : Keeps fi (fi.mark fun s => { s with found := true }) := ⟨rfl, id, fun _ => rfl⟩
  unfold visitSubfolder
  cases update with
  | false => exact ⟨hset, rfl⟩
  | true =>
      have hkeeps := keeps_fiUpdateFromFiles (fi.mark fun s => { s with found := true })
        (d.subfiles i)
      exact ⟨hset.trans hkeeps, hkeeps.found rfl⟩

theorem keeps_getAndUpdateFromOwnCfg (fi : FileIndex) (answer : CfgAnswer) :
    Keeps fi (fi.getAndUpdateFromOwnCfg answer).1 := by
  cases answer with
  | missing => exact Keeps.refl fi
  | unreadable => exact ⟨rfl, id, id⟩
  | read => exact ⟨rfl, fun _ => .inr (.inl rfl), id⟩

/-- Going through the folders keeps the name and the flags. -/
theorem keeps_subfolderLoop (d : Disk) (update : Bool) (is : List ℕ) (fi : FileIndex) :
    Keeps fi (subfolderLoop d update is fi).1 := by
  induction is generalizing fi with
  | nil => exact Keeps.refl fi
  | cons i is ih =>
      have hvisit := (visitSubfolder_spec d update i fi).1
      unfold subfolderLoop
      split
      · split
        next heq =>
          rw [heq] at hvisit
          exact hvisit.trans (ih _)
        next heq =>
          rw [heq] at hvisit
          exact hvisit
      · exact ih fi

/-- A folder that is there is noted. -/
theorem found_subfolderLoop (d : Disk) (update : Bool) (is : List ℕ) (fi : FileIndex)
    {j : ℕ} (hj : j ∈ is) (hopen : d.subfolder j = true) :
    (subfolderLoop d update is fi).1.status.found = true := by
  induction is generalizing fi with
  | nil => simp at hj
  | cons i is ih =>
      have hfound := (visitSubfolder_spec d update i fi).2
      unfold subfolderLoop
      split
      · split
        next heq =>
          rw [heq] at hfound
          exact (keeps_subfolderLoop d update is _).found hfound
        next heq =>
          rw [heq] at hfound
          exact hfound
      next hclosed =>
        refine ih fi ((List.mem_cons.mp hj).resolve_left ?_)
        rintro rfl
        exact hclosed hopen

/-- Where there is no folder, nothing is done. -/
theorem subfolderLoop_of_gone (d : Disk) (update : Bool) (is : List ℕ) (fi : FileIndex)
    (hgone : ∀ i ∈ is, d.subfolder i = false) : subfolderLoop d update is fi = (fi, true) := by
  induction is with
  | nil => rfl
  | cons i is ih =>
      rw [subfolderLoop, if_neg (by simp [hgone i List.mem_cons_self])]
      exact ih fun j hj => hgone j (List.mem_cons_of_mem _ hj)

/-- A slot after its folders were gone through. -/
theorem genericDoToEachSubfolder_spec (d : Disk) (update : Bool) (hknown : fi.Known) :
    Survives fi (genericDoToEachSubfolder d update fi).1 ∧
        (genericDoToEachSubfolder d update fi).1.Known ∨
      d.Gone ∧ genericDoToEachSubfolder d update fi =
        (fi.mark fun s => { s with found := false }, true) := by
  unfold genericDoToEachSubfolder
  split
  · by_cases hgone : d.Gone
    · exact .inr ⟨hgone, subfolderLoop_of_gone d update _ _ fun i hi =>
        hgone i (List.mem_range.mp hi)⟩
    · have hkeeps := keeps_subfolderLoop d update (List.range d.nDatadirs)
        (fi.mark fun s => { s with found := false })
      have hknown' := hkeeps.known hknown
      refine .inl ⟨⟨occupied_of_known hknown', hkeeps.filename, fun _ => ?_⟩, hknown'⟩
      simp only [Disk.Gone, not_forall] at hgone
      obtain ⟨i, hi, hopen⟩ := hgone
      exact found_subfolderLoop d update _ _ (List.mem_range.mpr hi) (Bool.of_not_eq_false hopen)
  · exact .inl ⟨(Keeps.refl fi).survives hknown, hknown⟩

/-- The slot survives the call, or it is cleared because its folders are gone. -/
def SurvivesOrGone (d : Disk) (fi fi' : FileIndex) : Prop :=
  Survives fi fi' ∨ d.Gone ∧ fi' = cleared

theorem survives_updateFromSubfolders (d : Disk) (hknown : fi.Known)
    (hfound : fi.status.found = true) : SurvivesOrGone d fi (updateFromSubfolders d fi).1 := by
  unfold updateFromSubfolders
  rcases genericDoToEachSubfolder_spec d true hknown with ⟨hs, hknown'⟩ | ⟨hgone, heq⟩
  · split
    next heq =>
      rw [heq] at hs
      exact .inl hs
    next heq =>
      rw [heq] at hs
      rw [if_pos (hs.found hfound)]
      exact .inl ⟨occupied_of_known (.inr (.inr rfl)), hs.filename, hs.found⟩
  · rw [heq]
    exact .inr ⟨hgone, rfl⟩

theorem survives_updateNocfgIndex (d : Disk) (hknown : fi.Known)
    (hfound : fi.status.found = true) : SurvivesOrGone d fi (updateNocfgIndex d fi).1 := by
  have hsame : SurvivesOrGone d fi fi := .inl ((Keeps.refl fi).survives hknown)
  unfold updateNocfgIndex
  split
  · exact hsame
  split
  · exact survives_updateFromSubfolders d hknown hfound
  split
  · exact .inl ⟨occupied_of_known hknown, rfl, id⟩
  have hkeeps := keeps_getAndUpdateFromOwnCfg fi d.finishedCfg
  split
  next heq =>
    rw [heq] at hkeeps
    exact .inl (hkeeps.survives hknown)
  next heq =>
    rw [heq] at hkeeps
    rcases survives_updateFromSubfolders d (hkeeps.known hknown) (hkeeps.found hfound)
      with hs | hgone
    · exact .inl ((hkeeps.survives hknown).trans hs)
    · exact .inr hgone

/-- The slot at the end of the loop of `create_single_file_index`. -/
def Visits.slot : Visits → FileIndex
  | .ended fi _ => fi
  | .active fi => fi
  | .failed fi => fi

theorem survives_fiUpdateFromFiles (answer : FilesAnswer) (h : fi.isFree = false) :
    Survives fi (fi.fiUpdateFromFiles answer).1 := by
  unfold fiUpdateFromFiles
  split
  · exact ⟨by simp [isFree, slotFree, mark], rfl, id⟩
  · exact ⟨h, rfl, id⟩

theorem survives_getAndUpdateFromOwnCfg (answer : CfgAnswer) (h : fi.isFree = false) :
    Survives fi (fi.getAndUpdateFromOwnCfg answer).1 := by
  cases answer with
  | missing => exact ⟨h, rfl, id⟩
  | unreadable => exact ⟨by simp [getAndUpdateFromOwnCfg, isFree, slotFree, mark], rfl, id⟩
  | read => exact ⟨by simp [getAndUpdateFromOwnCfg, isFree, slotFree, mark], rfl, id⟩

/-- The loop of `create_single_file_index` leaves the slot occupied; if it presumes an
active recording, it has noted so. -/
theorem visitLoop_spec (d : Disk) (is : List ℕ) (found : Bool) (h : fi.isFree = false) :
    Survives fi (visitLoop d is found fi).slot ∧
      ∀ fi', visitLoop d is found fi = .active fi' → fi'.Known := by
  induction is generalizing found fi with
  | nil => exact ⟨⟨h, rfl, id⟩, fun fi' hactive => by simp [visitLoop] at hactive⟩
  | cons i is ih =>
      unfold visitLoop
      split
      · exact ih found h
      have hcfg : Survives fi (if fi.status.cfgParsed then (fi, true)
          else fi.getAndUpdateFromOwnCfg (d.ownCfg i)).1 := by
        split
        · exact ⟨h, rfl, id⟩
        · exact survives_getAndUpdateFromOwnCfg _ h
      split
      next heq =>
        rw [heq] at hcfg
        refine ⟨⟨occupied_of_known (.inl rfl), hcfg.filename, hcfg.found⟩, fun fi' hactive => ?_⟩
        obtain rfl := Visits.active.inj hactive
        exact .inl rfl
      next heq =>
        rw [heq] at hcfg
        have hfiles := hcfg.trans (survives_fiUpdateFromFiles (d.files i) hcfg.occupied)
        split
        next heq' =>
          rw [heq'] at hfiles
          exact ⟨hfiles, fun fi' hactive => by cases hactive⟩
        next heq' =>
          rw [heq'] at hfiles
          obtain ⟨hrest, hactive⟩ := ih true hfiles.occupied
          exact ⟨hfiles.trans hrest, hactive⟩

theorem survives_createSingleFileIndex (d : Disk) (h : fi.isFree = false)
    (hfound : fi.status.found = true) :
    SurvivesOrGone d fi (createSingleFileIndex d fi).1 := by
  unfold createSingleFileIndex
  split
  · exact .inl ⟨h, rfl, id⟩
  obtain ⟨hs, hactive⟩ := visitLoop_spec d (List.range d.nDatadirs) false h
  split
  next heq =>
    rw [heq] at hs
    rcases survives_updateNocfgIndex d (hactive _ heq) (hs.found hfound) with hupdate | hgone
    · exact .inl (hs.trans hupdate)
    · exact .inr hgone
  next heq =>
    rw [heq] at hs
    exact .inl hs
  next heq =>
    rw [heq] at hs
    exact .inl ⟨occupied_of_known (.inr (.inr rfl)), hs.filename, hs.found⟩
  next heq =>
    rw [heq] at hs
    exact .inl ⟨by simp [isFree, slotFree, mark], hs.filename, hs.found⟩

end FileIndex

end VlbiStreamer.FuseIndex
