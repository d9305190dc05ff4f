import VlbiStreamer.FuseIndex.Table
import VlbiStreamer.Library.Block
import VlbiStreamer.Sender.FileNames

/-!
# Which drive has which file of a recording

For every recording that it shows, the file system keeps the array `fileid`: which drive has
the file of a number, or `-1`.  This module is the functions that fill it, on all the fields
of `struct file_index` they work with.

* What a call meets on the drives and in the configuration files is a `Visit`.  The entries of
  a folder are in the order of `readdir`.
* `fileid` is a `Block`: `malloc` and `realloc` succeed, and a cell that was never written has
  no value.
* A call has no result (`none`) where the program divides by zero, reads or writes outside
  the array, or doubles the capacity for ever.

`Recording` has the same calls as the table of recordings sees them, by their status only.
-/

namespace VlbiStreamer.FuseIndex

open Library VlbiStreamer.Sender

/-! ## What is met on the drives -/

/-- The settings that `parse_cfg` looks at. -/
inductive CfgName where
  | packetSize
  | cumul
  | totalPackets
  | filesizemb
  | other
  deriving DecidableEq, Repr

/-- A setting; its value is `none` if it has the wrong type. -/
abbrev CfgSetting := CfgName × Option ℕ

/-- A configuration file of one recording, or the general one. -/
inductive CfgContents where
  /-- `stat` fails. -/
  | missing
  /-- `config_read_file` fails. -/
  | unreadable
  | settings (root : List CfgSetting)
  deriving DecidableEq, Repr

/-- An entry of a directory, with the size that `stat` gives. -/
structure DirEntry where
  name : List Char
  stSize : Option ℕ

/-- The folder of the recording on one drive. -/
structure Folder where
  entries : List DirEntry
  cfg : CfgContents

/-- What one call meets. -/
structure Visit where
  /-- By drive; `none` where `opendir` fails. -/
  folders : List (Option Folder)
  /-- `CFGFILE` -/
  cfgFile : CfgContents
  /-- The entry of the recording in the schedule. -/
  schedule : Option (List CfgSetting)

/-- The folders with their `dirindex`, as the `for` loops go through them. -/
def Visit.drives (v : Visit) : List (Option Folder × ℕ) := v.folders.zipIdx

/-- `check_all_dirs_for_cfg`, with the file that it finds. -/
def Visit.checkAllDirsForCfg (v : Visit) : Option CfgContents :=
  v.folders.findSome? fun folder =>
    folder.bind fun folder => if folder.cfg = .missing then none else some folder.cfg

/-! ## The index of a recording -/

/-- `struct file_index`, less what only a lookup needs. -/
structure DiskIndex where
  status : Status
  packetSize : ℕ
  filesizemb : ℕ
  filesize : ℕ
  nPackets : ℕ
  nFiles : ℕ
  allocatedFiles : ℕ
  fileid : Option (Block ℤ)

/-- `DISKINDEX_INITIAL_SIZE` -/
def diskindexInitialSize : ℕ := 128

/-- `(DISKINDEX_INT)dirindex` -/
def diskindexInt (dirindex : ℕ) : ℤ := (BitVec.ofNat 8 dirindex).toInt

/-- An `int` where an `unsigned` is wanted. -/
def unsignedInt (temp : ℤ) : ℕ := (BitVec.ofInt 32 temp).toNat

namespace DiskIndex

/-- `memset(fi, 0, sizeof(struct file_index))` -/
def cleared : DiskIndex := ⟨slotFree, 0, 0, 0, 0, 0, 0, none⟩

/-- `add_file_to_index` -/
def added : DiskIndex := { cleared with status := { slotFree with found := true } }

/-- Change the status. -/
def mark (fi : DiskIndex) (f : Status → Status) : DiskIndex := { fi with status := f fi.status }

/-- The cells of `fileid`. -/
def cells (fi : DiskIndex) : Block ℤ := fi.fileid.getD []

/-! ## Configuration files -/

/-- The field of a setting. -/
def set (fi : DiskIndex) : CfgName → ℕ → DiskIndex
  | .packetSize, v => { fi with packetSize := v }
  | .cumul, v => { fi with nFiles := v }
  | .totalPackets, v => { fi with nPackets := v }
  | .filesizemb, v => { fi with filesizemb := v }
  | .other, _ => fi

/-- `parse_cfg` -/
def parseCfg : List CfgSetting → DiskIndex → DiskIndex × Bool
  | [], fi => (fi, true)
  | (.other, _) :: rest, fi => parseCfg rest fi
  | (name, some v) :: rest, fi => parseCfg rest (fi.set name v)
  | (_, none) :: _, fi => (fi, false)

/-- `get_fi_from_cfg` -/
def getFiFromCfg (fi : DiskIndex) : CfgContents → DiskIndex × Bool
  | .missing => (fi, false)
  | .unreadable => (fi, false)
  | .settings root => parseCfg root fi

/-- `parse_schedule_for_fi` -/
def parseScheduleForFi (fi : DiskIndex) : Option (List CfgSetting) → DiskIndex × Bool
  | none => (fi, false)
  | some root => parseCfg root fi

/-- `realloc(fileid, n)`, which frees the array if `n` is zero. -/
def reallocFileid (fi : DiskIndex) (n : ℕ) : DiskIndex :=
  { fi with fileid := if n = 0 then none else some (fi.cells.realloc n), allocatedFiles := n }

/-- `if(fi->fileid == NULL)`: an array of `-1`. -/
def ensureFileid (fi : DiskIndex) (n : ℕ) : DiskIndex :=
  match fi.fileid with
  | none => { fi with fileid := some (Block.filled n (-1)), allocatedFiles := n }
  | some _ => fi

/-- What follows a configuration file that was read. -/
def finishFromCfg (fi : DiskIndex) : DiskIndex :=
  let fi := fi.ensureFileid fi.nFiles
  let fi :=
    if fi.status.noCfg then
      -- "A session has finished recording it seems"
      (if fi.allocatedFiles ≠ fi.nFiles then fi.reallocFileid fi.nFiles else fi).mark
        fun s => { s with noCfg := false }
    else fi
  fi.mark fun s => { s with cfgParsed := true }

/-- `get_and_update_from_own_cfg` -/
def getAndUpdateFromOwnCfg (fi : DiskIndex) (cfg : CfgContents) : DiskIndex × Bool :=
  if cfg = .missing then (fi, false)
  else
    match (fi.mark fun s => { s with gotRefstat := true }).getFiFromCfg cfg with
    | (fi, false) => (fi, false)
    | (fi, true) => (fi.finishFromCfg, true)

/-! ## Data files -/

/-- The size of a data file is taken over, cut to whole packets. -/
def noteStat (fi : DiskIndex) (stSize : Option ℕ) : DiskIndex :=
  if fi.filesize = 0 ∨ fi.status.gotRefstat = false then
    match stSize with
    | none => fi
    | some size =>
        let fi :=
          if fi.filesize = 0 then
            { fi with filesize := if fi.packetSize ≠ 0 then size - size % fi.packetSize else size }
          else fi
        fi.mark fun s => { s with gotRefstat := true }
  else fi

/-- `if((unsigned)temp >= fi->allocated_files)`: the array is made larger. -/
def grow (fi : DiskIndex) (temp : ℤ) : Option DiskIndex :=
  if fi.allocatedFiles ≤ unsignedInt temp then
    (doubled (unsignedInt temp) fi.allocatedFiles).map fi.reallocFileid
  else some fi

/-- `fi->fileid[temp] = (DISKINDEX_INT)dirindex` -/
def assign (fi : DiskIndex) (temp : ℤ) (dirindex : ℕ) : Option DiskIndex :=
  if temp < 0 then none
  else
    fi.fileid.bind fun b =>
      (b.store temp.toNat (diskindexInt dirindex)).map fun b => { fi with fileid := some b }

/-- A data file is entered. -/
def enter (fi : DiskIndex) (de : DirEntry) (temp : ℤ) (dirindex : ℕ) : Option DiskIndex :=
  ((fi.noteStat de.stSize).grow temp).bind fun fi =>
    let fi :=
      if fi.nFiles ≤ unsignedInt temp then { fi with nFiles := unsignedLong (temp + 1) } else fi
    fi.assign temp dirindex

/-- The body of the loop of `fi_update_from_files`. -/
def updateFromEntry (filename : String) (dirindex : ℕ) (fi : DiskIndex) (de : DirEntry) :
    Option DiskIndex :=
  if regexMatches filename de.name then
    let temp := readIndex de.name
    if fi.nFiles ≤ unsignedLong temp then
      if fi.status.noCfg && !fi.status.notVbs then
        -- "New maximum found for live"
        { fi with nFiles := unsignedLong temp }.enter de temp dirindex
      -- "Extra files found in dir named!"
      else some fi
    else fi.enter de temp dirindex
  else some fi

/-- `fi_update_from_files` -/
def fiUpdateFromFiles (filename : String) (entries : List DirEntry) (dirindex : ℕ)
    (fi : DiskIndex) : Option DiskIndex :=
  entries.foldlM (updateFromEntry filename dirindex) fi

/-- The body of the loop of `generic_do_to_each_subfolder`; `do_to_folder` is
`fi_update_from_files` if `update` is set and a null pointer otherwise. -/
def doToSubfolder (filename : String) (update : Bool) (fi : DiskIndex) :
    Option Folder × ℕ → Option DiskIndex
  | (none, _) => some fi
  | (some folder, i) =>
      let fi := fi.mark fun s => { s with found := true }
      if update then fi.fiUpdateFromFiles filename folder.entries i else some fi

/-- `generic_do_to_each_subfolder` -/
def genericDoToEachSubfolder (filename : String) (v : Visit) (update : Bool) (fi : DiskIndex) :
    Option (DiskIndex × Bool) :=
  if (Bre.compile (dataFilePattern filename)).isNone then some (fi, false)
  else
    (v.drives.foldlM (doToSubfolder filename update)
      (fi.mark fun s => { s with found := false })).map fun fi => (fi, true)

/-! ## The calls -/

/-- What a call comes to. -/
inductive Scan where
  /-- It returns an error. -/
  | failed
  /-- It returns zero and did not look at the data files. -/
  | skipped
  /-- It returns zero and went through the data files. -/
  | scanned
  deriving DecidableEq, Repr

/-- `"Updated filesize of %s to %ld from filesizemb"` -/
def filesizeFromMb (fi : DiskIndex) : Option DiskIndex :=
  if fi.filesize = 0 ∧ fi.filesizemb ≠ 0 then
    if fi.packetSize = 0 then none
    else
      let size := fi.filesizemb * 2 ^ 20
      some { fi with filesize := size - size % fi.packetSize }
  else some fi

/-- `"Updated n_packets to %ld"` -/
def countPackets (fi : DiskIndex) : Option DiskIndex :=
  if fi.status.noCfg then
    if fi.packetSize = 0 then none
    else some { fi with nPackets := fi.nFiles * fi.filesize / fi.packetSize }
  else some fi

/-- `update_nocfg_index`, behind its configuration files. -/
def updateFromSubfolders (filename : String) (v : Visit) (fi : DiskIndex) :
    Option (DiskIndex × Scan) :=
  fi.filesizeFromMb.bind fun fi =>
    (genericDoToEachSubfolder filename v true (fi.ensureFileid diskindexInitialSize)).bind fun
      | (fi, false) => some (fi, .failed)
      | (fi, true) =>
          if fi.status.found then
            fi.countPackets.map fun fi =>
              (fi.mark fun s => { s with initialized := true }, .scanned)
          -- "Recording %s seems to have been removed"
          else some (cleared, .failed)

/-- `update_nocfg_index` -/
def updateNocfgIndex (filename : String) (v : Visit) (fi : DiskIndex) :
    Option (DiskIndex × Scan) :=
  match fi.getFiFromCfg v.cfgFile with
  | (fi, false) => some (fi, .failed)
  | (fi, true) =>
      match fi.parseScheduleForFi v.schedule with
      | (fi, true) => updateFromSubfolders filename v fi
      | (fi, false) =>
          match v.checkAllDirsForCfg with
          | none => some (fi.mark fun s => { s with notVbs := true }, .skipped)
          | some cfg =>
              match fi.getAndUpdateFromOwnCfg cfg with
              | (fi, false) => some (fi, .failed)
              | (fi, true) => updateFromSubfolders filename v fi

/-- How the loop of `create_single_file_index` ends. -/
inductive Walk where
  | ended (fi : DiskIndex) (foundAtleastOne : Bool)
  /-- `"Presuming %s is an active recording"` -/
  | active (fi : DiskIndex)

/-- The loop of `create_single_file_index`. -/
def visitLoop (filename : String) : List (Option Folder × ℕ) → Bool → DiskIndex → Option Walk
  | [], found, fi => some (.ended fi found)
  | (none, _) :: drives, found, fi => visitLoop filename drives found fi
  | (some folder, i) :: drives, _, fi =>
      match if fi.status.cfgParsed then (fi, true) else fi.getAndUpdateFromOwnCfg folder.cfg with
      | (fi, false) => some (.active (fi.mark fun s => { s with noCfg := true }))
      | (fi, true) =>
          (fi.fiUpdateFromFiles filename folder.entries i).bind fun fi =>
            visitLoop filename drives true fi

/-- `create_single_file_index` -/
def createSingleFileIndex (filename : String) (v : Visit) (fi : DiskIndex) :
    Option (DiskIndex × Scan) :=
  if (Bre.compile (dataFilePattern filename)).isNone then some (fi, .failed)
  else
    (visitLoop filename v.drives false fi).bind fun
      | .active fi => updateNocfgIndex filename v fi
      | .ended fi true => some (fi.mark fun s => { s with initialized := true }, .scanned)
      | .ended fi false => some (fi.mark fun s => { s with notVbs := true }, .failed)

/-- Behind the lookup of a name: `vbs_getattr`, and `vbs_open` if `opening` is set. -/
def access (filename : String) (opening : Bool) (v : Visit) (fi : DiskIndex) :
    Option (DiskIndex × Scan) :=
  if fi.status.notVbs then some (fi, .skipped)
  else if !fi.status.initialized then createSingleFileIndex filename v fi
  else if fi.status.noCfg then updateNocfgIndex filename v fi
  else if opening then
    (genericDoToEachSubfolder filename v false fi).map fun (fi, _) =>
      if fi.status.found then (fi, .skipped) else (cleared, .failed)
  else some (fi, .skipped)

end DiskIndex

end VlbiStreamer.FuseIndex
