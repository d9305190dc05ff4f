import Mathlib.Algebra.Order.Ring.Int
import Mathlib.Data.List.Basic

/-!
# The active file index

`active_file_index.c` keeps one `file_index` for every recording that is being
made or sent: how many files and packets it has, and for each file the disk it
is on and its status.  This module is what the functions of that file do to one
`file_index` between taking and giving up its lock.

* `files` is the allocated table of `fileholder` cells.  A function returns
  `none` where the C code fails an assertion, touches a cell outside it or loops
  for ever.
* Status words are `int`s and are combined with `|=` and `&= ~`.
* `realloc` is an argument of the function that calls it: `none` when it fails,
  otherwise the unspecified contents of the new cells.
* A function that waits for an update is one pass up to the wait.
-/

namespace VlbiStreamer.ActiveFileIndex

/-- An `int` that holds flags. -/
abbrev Status := BitVec 32

/-- `AFI_RECORD`: a thread is recording this file. -/
def afiRecord : Status := 1

/-- `AFI_SEND`: a thread is sending this file. -/
def afiSend : Status := 2

/-- `FH_ONDISK`: file is loadable from disk. -/
def fhOndisk : Status := 1

/-- `FH_MISSING`: file is missing from disk and memory. -/
def fhMissing : Status := 2

/-- `FH_INMEM`: file is loaded into memory. -/
def fhInmem : Status := 3

/-- `FH_BUSY`: file is busy being recorded. -/
def fhBusy : Status := 4

/-- `status & flag`, as a condition. -/
def has (status flag : Status) : Bool := status &&& flag != 0

/-- `struct fileholder`. -/
structure Fileholder where
  diskid : Int
  status : Status
  deriving DecidableEq, Repr

/-- `struct file_index`, less its name, its associations and its locks. -/
structure FileIndex where
  status : Status
  packetSize : ℕ
  files : List Fileholder
  nPackets : ℕ
  nFiles : ℕ
  allocatedFiles : ℕ
  deriving DecidableEq, Repr

/-- `INITIAL_SIZE`: init struct to 128 files at start. -/
def initialSize : ℕ := 128

/-- The new `file_index` of `afi_add(name, n_files, status, packet_size)`. -/
def afiAdd (nFiles : ℕ) (status : Status) (packetSize : ℕ) : FileIndex :=
  let allocated := if nFiles ≠ 0 then nFiles else initialSize
  { status := status, packetSize := packetSize
    files := List.replicate allocated ⟨0, 0⟩, nPackets := 0
    nFiles := nFiles, allocatedFiles := allocated }

/-- The bits of an `unsigned long`. -/
def wordBits : ℕ := 64

/-- `sizeof(struct fileholder)` -/
def fileholderSize : ℕ := 8

/-- `while (fi->allocated_files < id) fi->allocated_files <<= 1`.  A word that is
shifted once for each of its bits is zero, and a loop that has come so far without
having enough does not end. -/
def growTo (id : ℕ) : ℕ → ℕ → Option ℕ
  | 0, allocated => if allocated < id then none else some allocated
  | fuel + 1, allocated =>
      if allocated < id then growTo id fuel (allocated * 2 % 2 ^ wordBits) else some allocated

namespace FileIndex

/-- `fi->files[id] = f(fi->files[id])`. -/
def modifyCell (fi : FileIndex) (id : ℕ) (f : Fileholder → Fileholder) :
    Option FileIndex :=
  if id < fi.files.length then some { fi with files := fi.files.modify id f } else none

/-- The same for every file of the index. -/
def modifyCells (fi : FileIndex) (f : Fileholder → Fileholder) : Option FileIndex :=
  if fi.nFiles ≤ fi.files.length then
    some { fi with files := (fi.files.take fi.nFiles).map f ++ fi.files.drop fi.nFiles }
  else none

/-- The first part of `add_file_mutexfree`: make room for `id`.  A table whose size in
bytes does not fit a word is reallocated shorter than `id`. -/
def makeRoom (fi : FileIndex) (id : ℕ) (realloc : Option (ℕ → Fileholder)) :
    Option (Bool × FileIndex) :=
  if id > fi.allocatedFiles then
    match growTo id wordBits fi.allocatedFiles, realloc with
    | none, _ => none
    | some allocated, none => some (false, { fi with allocatedFiles := allocated })
    | some allocated, some new =>
        if allocated * fileholderSize < 2 ^ wordBits then
          some (true, { fi with
            allocatedFiles := allocated
            files := fi.files ++
              (List.range (allocated - fi.files.length)).map fun j => new (fi.files.length + j) })
        else none
  else some (true, fi)

/-- The second part: a file that does not exist yet is counted. -/
def countFile (fi : FileIndex) (id : ℕ) : FileIndex :=
  if fi.nFiles > id then fi else { fi with nFiles := fi.nFiles + 1 }

/-- `add_file_mutexfree(fi, id, diskid, status)` and `afi_add_file`; the
number is the return value. -/
def afiAddFile (fi : FileIndex) (id : ℕ) (diskid : Int) (status : Status)
    (realloc : Option (ℕ → Fileholder)) : Option (Int × FileIndex) :=
  match fi.makeRoom id realloc with
  | none => none
  | some (false, fi) => some (-1, fi)
  | some (true, fi) =>
      ((fi.countFile id).modifyCell id fun _ => ⟨diskid, status⟩).map fun fi => (0, fi)

/-- `afi_update_fh(fi, filenum, status, AFI_ADD_TO_STATUS)`. -/
def addToStatus (fi : FileIndex) (filenum : ℕ) (status : Status) : Option FileIndex :=
  fi.modifyCell filenum fun fh => { fh with status := fh.status ||| status }

/-- `afi_update_fh(fi, filenum, status, AFI_DEL_FROM_STATUS)`. -/
def delFromStatus (fi : FileIndex) (filenum : ℕ) (status : Status) : Option FileIndex :=
  fi.modifyCell filenum fun fh => { fh with status := fh.status &&& ~~~status }

/-- The loop body of `afi_mark_recid_missing`. -/
def markIf (recid : Int) (fh : Fileholder) : Fileholder :=
  if fh.diskid = recid then
    { diskid := -1, status := fh.status &&& ~~~fhOndisk ||| fhMissing }
  else fh

/-- `afi_mark_recid_missing(name, recid)` on the index of that name. -/
def afiMarkRecidMissing (fi : FileIndex) (recid : Int) : Option FileIndex :=
  fi.modifyCells (markIf recid)

/-- What `afi_single_all_found` and `afi_set_found` do to a file. -/
def setFound (diskId : Int) (fh : Fileholder) : Fileholder :=
  { diskid := diskId, status := fh.status &&& ~~~fhMissing ||| fhOndisk }

/-- `afi_single_all_found(fi, disk_id)`. -/
def afiSingleAllFound (fi : FileIndex) (diskId : Int) : Option FileIndex :=
  fi.modifyCells (setFound diskId)

/-- `afi_set_found(fi, file, disk_id)`, with its `assert(fi->n_files <= file)`. -/
def afiSetFound (fi : FileIndex) (file : ℕ) (diskId : Int) : Option FileIndex :=
  if fi.nFiles ≤ file then fi.modifyCell file (setFound diskId) else none

/-- `afi_get_disk_id(fi, file)`, with the same assertion. -/
def afiGetDiskId (fi : FileIndex) (file : ℕ) : Option Int :=
  if fi.nFiles ≤ file then fi.files[file]?.map Fileholder.diskid else none

/-- `afi_set_all_missing(fi)`. -/
def afiSetAllMissing (fi : FileIndex) : Option FileIndex :=
  fi.modifyCells fun _ => { diskid := -1, status := fhMissing }

/-- `afi_is_missing(fi, file_id)`, with its `assert(file_id <= fi->n_files)`. -/
def afiIsMissing (fi : FileIndex) (fileId : ℕ) : Option Bool :=
  if fileId ≤ fi.nFiles then fi.files[fileId]?.map fun fh => has fh.status fhMissing
  else none

/-- `afi_add_to_packets(fi, n)`. -/
def afiAddToPackets (fi : FileIndex) (n : ℕ) : FileIndex :=
  { fi with nPackets := fi.nPackets + n }

/-- The test `fi->files[fileid].status & FH_ONDISK` of `afi_wait_on_file` and
`afi_start_loading`. -/
def onDisk (fi : FileIndex) (fileid : ℕ) : Option Bool :=
  fi.files[fileid]?.map fun fh => has fh.status fhOndisk

/-- What a pass of a function that waits for an update comes to. -/
inductive Wait where
  /-- It returns this value. -/
  | returns (value : Int)
  /-- It sleeps until the index is updated. -/
  | sleeps
  deriving DecidableEq, Repr

/-- One pass of the loop of `afi_wait_on_file(fi, fileid)`. -/
def afiWaitOnFile (fi : FileIndex) (fileid : ℕ) : Option Wait :=
  fi.files[fileid]?.map fun fh =>
    if has fh.status fhOndisk then .returns 0
    else if has fh.status fhMissing then .returns (-1)
    else .sleeps

/-- `mutex_free_afi_wait_on_update(fi)`: only a recording is waited for. -/
def afiWaitOnUpdate (fi : FileIndex) : Wait :=
  if has fi.status afiRecord then .sleeps else .returns (-1)

/-- `afi_start_loading(fi, file_id, in_loading)` up to its wait, with its
`assert(fi->n_files <= file_id)`. -/
def afiStartLoading (fi : FileIndex) (fileId : ℕ) (inLoading : Bool) : Option Wait :=
  if fi.nFiles ≤ fileId then
    fi.files[fileId]?.map fun fh =>
      if has fh.status fhOndisk then .returns 0
      else if has fh.status fhBusy then
        if inLoading then .returns 1 else fi.afiWaitOnUpdate
      else .returns 1
  else none

/-- The loop of `afi_start_loading` once it is woken. -/
def afiStartLoadingWoken (fi : FileIndex) (fileId : ℕ) : Option Wait :=
  fi.files[fileId]?.map fun fh =>
    if has fh.status fhBusy && !has fh.status fhOndisk then fi.afiWaitOnUpdate
    else .returns 0

end FileIndex

end VlbiStreamer.ActiveFileIndex
