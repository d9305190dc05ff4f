import VlbiStreamer.ActiveFileIndex.Index
import VlbiStreamer.Library.Transition

/-!
# The life of a file in the index

The status word of a file is written by the recorder thread, the loader, the
scan of the disks and the error handler.  `StatusOp` lists what they do, one
region under the lock of the index at a time, and `Tracked` remembers for every
file what happened to it: whether it was written, found or marked missing last.

`StatusTrue` is what the readers of the status word rely on.  It does not hold
by itself, because `FH_INMEM = 3` is `FH_ONDISK | FH_MISSING`: a file that is
added for recording, or loaded for sending, shows both (`recording_shows_missing`),
and writing it does not take `FH_MISSING` away again.  `statusTrue_of_reachable`
is the part that is right: the operations that find and miss files.
-/

namespace VlbiStreamer.ActiveFileIndex

open Library

/-! ## The two flags -/

section Flags

variable (s : Status)

/-- `FH_ONDISK` is the lowest bit. -/
theorem has_fhOndisk : has s fhOndisk = s.getLsbD 0 := by
  have hbit : s &&& fhOndisk = if s.getLsbD 0 then BitVec.twoPow 32 0 else 0#32 :=
    BitVec.and_twoPow s 0
  unfold has
  rw [hbit]
  cases s.getLsbD 0 <;> rfl

/-- `FH_MISSING` is the next one. -/
theorem has_fhMissing : has s fhMissing = s.getLsbD 1 := by
  have hbit : s &&& fhMissing = if s.getLsbD 1 then BitVec.twoPow 32 1 else 0#32 :=
    BitVec.and_twoPow s 1
  unfold has
  rw [hbit]
  cases s.getLsbD 1 <;> rfl

/-- **`FH_INMEM` is both of them.** -/
theorem has_or_fhInmem :
    has (s ||| fhInmem) fhMissing = true ∧ has (s ||| fhInmem) fhOndisk = true := by
  rw [has_fhMissing, has_fhOndisk]
  simp [fhInmem]

theorem has_delBusy : has (s &&& ~~~fhBusy) fhMissing = has s fhMissing ∧
    has (s &&& ~~~fhBusy) fhOndisk = has s fhOndisk := by
  simp only [has_fhMissing, has_fhOndisk]
  simp [fhBusy]

theorem has_or_fhOndisk : has (s ||| fhOndisk) fhMissing = has s fhMissing ∧
    has (s ||| fhOndisk) fhOndisk = true := by
  simp only [has_fhMissing, has_fhOndisk]
  simp [fhOndisk]

theorem has_found : has (s &&& ~~~fhMissing ||| fhOndisk) fhMissing = false ∧
    has (s &&& ~~~fhMissing ||| fhOndisk) fhOndisk = true := by
  rw [has_fhMissing, has_fhOndisk]
  simp [fhOndisk, fhMissing]

theorem has_marked : has (s &&& ~~~fhOndisk ||| fhMissing) fhMissing = true ∧
    has (s &&& ~~~fhOndisk ||| fhMissing) fhOndisk = false := by
  rw [has_fhMissing, has_fhOndisk]
  simp [fhOndisk, fhMissing]

end Flags

/-! ## The cells after an operation -/

section Cells

variable {fi fi' : FileIndex} {i id : ℕ} {f : Fileholder → Fileholder} {fh : Fileholder}

/-- One cell changes. -/
theorem modifyCell_getElem? (h : fi.modifyCell id f = some fi') (i : ℕ) :
    fi'.files[i]? = if id = i then fi.files[i]?.map f else fi.files[i]? := by
  unfold FileIndex.modifyCell at h
  by_cases hid : id < fi.files.length
  · rw [if_pos hid] at h
    obtain rfl := Option.some.inj h
    show (fi.files.modify id f)[i]? = _
    rw [List.getElem?_modify]
    split <;> simp
  · rw [if_neg hid] at h
    cases h

/-- The cells of the files of the index change. -/
theorem modifyCells_getElem? (h : fi.modifyCells f = some fi') (i : ℕ) :
    fi'.files[i]? = if i < fi.nFiles then fi.files[i]?.map f else fi.files[i]? := by
  unfold FileIndex.modifyCells at h
  by_cases hn : fi.nFiles ≤ fi.files.length
  · rw [if_pos hn] at h
    obtain rfl := Option.some.inj h
    show ((fi.files.take fi.nFiles).map f ++ fi.files.drop fi.nFiles)[i]? = _
    by_cases hi : i < fi.nFiles
    · rw [if_pos hi, List.getElem?_append_left (by simp; omega), List.getElem?_map,
        List.getElem?_take_of_lt hi]
    · rw [if_neg hi, List.getElem?_append_right (by simp; omega), List.getElem?_drop]
      congr 1
      simp
      omega
  · rw [if_neg hn] at h
    cases h

/-- Counting a file is no change to the cells. -/
theorem countFile_files : (fi.countFile id).files = fi.files := by
  unfold FileIndex.countFile
  split <;> rfl

/-- Making room keeps the cells that exist. -/
theorem makeRoom_getElem? {realloc : Option (ℕ → Fileholder)} {made : Bool}
    (hmake : fi.makeRoom id realloc = some (made, fi')) (hfh : fi.files[i]? = some fh) :
    fi'.files[i]? = some fh := by
  unfold FileIndex.makeRoom at hmake
  split at hmake
  · split at hmake
    · cases hmake
    · cases hmake
      exact hfh
    · split at hmake
      · cases hmake
        rw [List.getElem?_append_left (List.getElem?_eq_some_iff.mp hfh).1]
        exact hfh
      · cases hmake
  · cases hmake
    exact hfh

/-- The cell that changes exists. -/
theorem modifyCell_self (h : fi.modifyCell id f = some fi') :
    ∃ fh, fi.files[id]? = some fh ∧ fi'.files[id]? = some (f fh) := by
  have hcell := modifyCell_getElem? h id
  unfold FileIndex.modifyCell at h
  by_cases hid : id < fi.files.length
  · refine ⟨_, List.getElem?_eq_getElem hid, ?_⟩
    rw [hcell, if_pos rfl, List.getElem?_eq_getElem hid]
    rfl
  · rw [if_neg hid] at h
    cases h

/-- There is room for the file, so that it is entered. -/
def FileIndex.hasRoom (fi : FileIndex) (id : ℕ) (realloc : Option (ℕ → Fileholder)) : Bool :=
  (fi.makeRoom id realloc).any Prod.fst

/-- Adding a file sets its cell, once there is room for it, and no other. -/
theorem afiAddFile_cells {diskid r : Int} {status : Status}
    {realloc : Option (ℕ → Fileholder)}
    (h : fi.afiAddFile id diskid status realloc = some (r, fi')) :
    (fi.hasRoom id realloc = true → fi'.files[id]? = some ⟨diskid, status⟩) ∧
    ∀ {i fh}, fi.files[i]? = some fh → fi'.files[i]? = some fh ∨
      (id = i ∧ fi.hasRoom id realloc = true ∧
        fi'.files[i]? = some ⟨diskid, status⟩) := by
  unfold FileIndex.afiAddFile at h
  unfold FileIndex.hasRoom
  cases hmake : fi.makeRoom id realloc with
  | none =>
      rw [hmake] at h
      cases h
  | some made =>
      obtain ⟨made, fi₁⟩ := made
      rw [hmake] at h
      have hroom : ∀ {i fh}, fi.files[i]? = some fh → fi₁.files[i]? = some fh :=
        makeRoom_getElem? hmake
      cases made with
      | false =>
          obtain ⟨-, rfl⟩ : -1 = r ∧ fi₁ = fi' := by simpa using h
          exact ⟨by simp, fun hfh => .inl (hroom hfh)⟩
      | true =>
          obtain ⟨fi₂, hcell, heq⟩ := Option.map_eq_some_iff.mp h
          obtain ⟨-, rfl⟩ : 0 = r ∧ fi₂ = fi' := by simpa using heq
          obtain ⟨-, -, hself⟩ := modifyCell_self hcell
          refine ⟨fun _ => hself, fun {i fh} hfh => ?_⟩
          by_cases hi : id = i
          · subst hi
            exact .inr ⟨rfl, rfl, hself⟩
          · left
            rw [modifyCell_getElem? hcell i, if_neg hi, countFile_files]
            exact hroom hfh

end Cells

/-! ## Operations and their meaning -/

/-- The status operations of the program. -/
inductive StatusOp where
  /-- `afi_add_file(fi, id, diskid, FH_INMEM | FH_BUSY)`, when the recording of
  a file starts. -/
  | addFile (id : ℕ) (diskid : Int) (realloc : Option (ℕ → Fileholder))
  /-- `afi_update_fh(fi, id, FH_BUSY, AFI_DEL_FROM_STATUS)`, when it was written. -/
  | delBusy (id : ℕ)
  /-- `afi_update_fh(fi, id, FH_ONDISK, AFI_ADD_TO_STATUS)`, right after that. -/
  | addOndisk (id : ℕ)
  /-- `afi_update_fh(fi, id, FH_INMEM, AFI_ADD_TO_STATUS)`, when it was loaded. -/
  | addInmem (id : ℕ)
  /-- `afi_set_found(fi, id, disk_id)`. -/
  | setFound (id : ℕ) (diskId : Int)
  /-- `afi_single_all_found(fi, disk_id)`. -/
  | singleAllFound (diskId : Int)
  /-- `afi_mark_recid_missing(name, recid)`. -/
  | markRecidMissing (recid : Int)
  /-- `afi_set_all_missing(fi)`. -/
  | setAllMissing

/-- The index after an operation; `none` when it does not return. -/
def FileIndex.exec (fi : FileIndex) : StatusOp → Option FileIndex
  | .addFile id diskid realloc =>
      (fi.afiAddFile id diskid (fhInmem ||| fhBusy) realloc).map Prod.snd
  | .delBusy id => fi.delFromStatus id fhBusy
  | .addOndisk id => fi.addToStatus id fhOndisk
  | .addInmem id => fi.addToStatus id fhInmem
  | .setFound id diskId => fi.afiSetFound id diskId
  | .singleAllFound diskId => fi.afiSingleAllFound diskId
  | .markRecidMissing recid => fi.afiMarkRecidMissing recid
  | .setAllMissing => fi.afiSetAllMissing

/-- What can happen to the data of a file. -/
inductive Event where
  | written
  | found
  | markedMissing
  deriving DecidableEq, Repr

/-- What an operation means for the file `i`. -/
def StatusOp.event (fi : FileIndex) (i : ℕ) : StatusOp → Option Event
  | .addOndisk id => if id = i then some .written else none
  | .setFound id _ => if id = i then some .found else none
  | .singleAllFound _ => if i < fi.nFiles then some .found else none
  | .markRecidMissing recid =>
      if i < fi.nFiles ∧ fi.files[i]?.map Fileholder.diskid = some recid then
        some .markedMissing
      else none
  | .setAllMissing => if i < fi.nFiles then some .markedMissing else none
  | _ => none

/-- Does the operation enter the file `i` into the index? -/
def StatusOp.registers (fi : FileIndex) (i : ℕ) : StatusOp → Bool
  | .addFile id _ realloc => id = i && fi.hasRoom id realloc
  | _ => false

/-- An index and what happened to its files. -/
structure Tracked where
  fi : FileIndex
  /-- The latest of {written, found, marked missing}. -/
  latest : ℕ → Option Event
  /-- The file was written or found at some time. -/
  loadable : ℕ → Bool
  /-- The file was announced when the index was made, or added since. -/
  registered : ℕ → Bool

namespace Tracked

/-- The tracked index after an operation that led to `fi'`. -/
def after (t : Tracked) (op : StatusOp) (fi' : FileIndex) : Tracked where
  fi := fi'
  latest i := op.event t.fi i <|> t.latest i
  loadable i := t.loadable i || op.event t.fi i == some .written ||
    op.event t.fi i == some .found
  registered i := t.registered i || op.registers t.fi i

/-- One status operation. -/
inductive Step (t : Tracked) : StatusOp → Tracked → Prop where
  | exec {op : StatusOp} {fi' : FileIndex} : t.fi.exec op = some fi' →
      Step t op (t.after op fi')

/-- `afi_add` has just made the index. -/
def IsNew (t : Tracked) : Prop :=
  ∃ n status packetSize, t = ⟨afiAdd n status packetSize, fun _ => none, fun _ => false,
    fun i => i < n⟩

/-- All sequences of status operations. -/
def system : System Tracked StatusOp where
  init := IsNew
  step := Step

/-- What the readers of the status of file `i` rely on. -/
structure StatusTrue (t : Tracked) (i : ℕ) : Prop where
  /-- `afi_is_missing` says that the file was marked missing last. -/
  missing : ∀ b, t.fi.afiIsMissing i = some b →
    (b = true ↔ t.latest i = some .markedMissing)
  /-- The test for `FH_ONDISK` only succeeds on a file that was written or found. -/
  ondisk : t.fi.onDisk i = some true → t.loadable i = true

/-- The operations after which the two flags still tell the truth: a file is
added or loaded only when its last event was to be marked missing and it was
written or found before, and it is only written when it is not marked missing. -/
def Truthful (t : Tracked) : StatusOp → Prop
  | .addFile id _ _ => t.latest id = some .markedMissing ∧ t.loadable id = true
  | .addInmem id => t.latest id = some .markedMissing ∧ t.loadable id = true
  | .addOndisk id => t.latest id ≠ some .markedMissing
  | _ => True

/-- The flags of the cell of file `i` tell the truth. -/
def CellTrue (t : Tracked) (i : ℕ) : Prop :=
  ∃ fh, t.fi.files[i]? = some fh ∧
    (has fh.status fhMissing = true ↔ t.latest i = some .markedMissing) ∧
    (has fh.status fhOndisk = true → t.loadable i = true)

variable {t : Tracked} {op : StatusOp} {fi' : FileIndex} {i : ℕ} {fh fh' : Fileholder}

theorem CellTrue.statusTrue (h : t.CellTrue i) : t.StatusTrue i := by
  obtain ⟨fh, hfh, hmissing, hondisk⟩ := h
  refine ⟨fun b hb => ?_, fun hdisk => ?_⟩
  · unfold FileIndex.afiIsMissing at hb
    split at hb
    · rw [hfh] at hb
      obtain rfl : has fh.status fhMissing = b := by simpa using hb
      exact hmissing
    · cases hb
  · unfold FileIndex.onDisk at hdisk
    rw [hfh] at hdisk
    exact hondisk (by simpa using hdisk)

/-- A cell whose flags did not change, of a file nothing happened to. -/
theorem CellTrue.keep (h : t.CellTrue i) (hevent : op.event t.fi i = none)
    (hcell : ∀ fh, t.fi.files[i]? = some fh → ∃ fh', fi'.files[i]? = some fh' ∧
      has fh'.status fhMissing = has fh.status fhMissing ∧
      has fh'.status fhOndisk = has fh.status fhOndisk) : (t.after op fi').CellTrue i := by
  obtain ⟨fh, hfh, hmissing, hondisk⟩ := h
  obtain ⟨fh', hfh', hm, hd⟩ := hcell fh hfh
  refine ⟨fh', hfh', ?_, fun hdisk => ?_⟩
  · show has fh'.status fhMissing = true ↔ (op.event t.fi i <|> t.latest i) = _
    rw [hevent, hm]
    exact hmissing
  · have hload := hondisk (hd ▸ hdisk)
    simp [after, hload]

/-- A cell of a file that was found. -/
theorem cellTrue_found (hevent : op.event t.fi i = some .found)
    (hcell : fi'.files[i]? = some fh') (hm : has fh'.status fhMissing = false) :
    (t.after op fi').CellTrue i :=
  ⟨fh', hcell, by simp [after, hevent, hm], by simp [after, hevent]⟩

/-- A cell of a file that was marked missing. -/
theorem cellTrue_marked (hevent : op.event t.fi i = some .markedMissing)
    (hcell : fi'.files[i]? = some fh') (hm : has fh'.status fhMissing = true)
    (hd : has fh'.status fhOndisk = false) : (t.after op fi').CellTrue i :=
  ⟨fh', hcell, by simp [after, hevent, hm], by simp [hd]⟩

/-- A cell that shows both flags is right for a file that was marked missing
after it had been on disk. -/
theorem cellTrue_both (hevent : op.event t.fi i = none)
    (hcell : fi'.files[i]? = some fh') (hm : has fh'.status fhMissing = true)
    (hlatest : t.latest i = some .markedMissing) (hload : t.loadable i = true) :
    (t.after op fi').CellTrue i :=
  ⟨fh', hcell, by simp [after, hevent, hm, hlatest], by simp [after, hload]⟩

/-- A registered file has a cell. -/
def AllTrue (t : Tracked) : Prop := ∀ i, t.registered i = true → t.CellTrue i

/-- An operation on the cells of all files. -/
theorem cellTrue_modifyCells {f : Fileholder → Fileholder} (h : t.CellTrue i)
    (hexec : t.fi.modifyCells f = some fi')
    (hin : i < t.fi.nFiles → ∀ fh, t.fi.files[i]? = some fh → fi'.files[i]? = some (f fh) →
      (t.after op fi').CellTrue i)
    (hevent : ¬ i < t.fi.nFiles → op.event t.fi i = none) : (t.after op fi').CellTrue i := by
  have hcells := modifyCells_getElem? hexec i
  by_cases hi : i < t.fi.nFiles
  · obtain ⟨fh, hfh, -⟩ := h
    rw [if_pos hi, hfh] at hcells
    exact hin hi fh hfh hcells
  · rw [if_neg hi] at hcells
    exact h.keep (hevent hi) fun fh hfh => ⟨fh, hcells.trans hfh, rfl, rfl⟩

/-- An operation on the cell of one file. -/
theorem cellTrue_modifyCell {id : ℕ} {f : Fileholder → Fileholder} (h : t.CellTrue i)
    (hexec : t.fi.modifyCell id f = some fi')
    (hself : id = i → ∀ fh, t.fi.files[i]? = some fh → fi'.files[i]? = some (f fh) →
      (t.after op fi').CellTrue i)
    (hevent : id ≠ i → op.event t.fi i = none) : (t.after op fi').CellTrue i := by
  have hcells := modifyCell_getElem? hexec i
  by_cases hi : id = i
  · obtain ⟨fh, hfh, -⟩ := h
    rw [if_pos hi, hfh] at hcells
    exact hself hi fh hfh hcells
  · rw [if_neg hi] at hcells
    exact h.keep (hevent hi) fun fh hfh => ⟨fh, hcells.trans hfh, rfl, rfl⟩

/-- **Every operation that is `Truthful` keeps the flags true.** -/
theorem Step.allTrue {t' : Tracked} (h : t.AllTrue) (hok : t.Truthful op)
    (hs : Step t op t') : t'.AllTrue := by
  obtain ⟨hexec⟩ := hs
  rename_i fi'
  intro i hreg
  cases op with
  | addFile id diskid realloc =>
      obtain ⟨⟨r, fi₁⟩, hadd, rfl⟩ := Option.map_eq_some_iff.mp hexec
      obtain ⟨hself, hother⟩ := afiAddFile_cells hadd
      have hboth := has_or_fhInmem fhBusy
      rw [BitVec.or_comm] at hboth
      by_cases hi : id = i
      · subst hi
        by_cases hmade : t.fi.hasRoom id realloc = true
        · exact cellTrue_both rfl (hself hmade) hboth.1 hok.1 hok.2
        · have hold : t.registered id = true := by
            simpa [after, StatusOp.registers, hmade] using hreg
          refine (h id hold).keep rfl fun fh hfh => ⟨fh, ?_, rfl, rfl⟩
          rcases hother hfh with hsame | ⟨-, hmade', -⟩
          · exact hsame
          · exact absurd hmade' hmade
      · have hold : t.registered i = true := by
          simpa [after, StatusOp.registers, hi] using hreg
        refine (h i hold).keep rfl fun fh hfh => ⟨fh, ?_, rfl, rfl⟩
        rcases hother hfh with hsame | ⟨hid, -⟩
        · exact hsame
        · exact absurd hid hi
  | delBusy id =>
      have hold : t.registered i = true := by simpa [after, StatusOp.registers] using hreg
      refine cellTrue_modifyCell (h i hold) hexec (fun _ fh hfh hcell => ?_) fun _ => rfl
      refine (h i hold).keep rfl fun fh₀ hfh₀ => ⟨_, hcell, ?_⟩
      obtain rfl := Option.some.inj (hfh.symm.trans hfh₀)
      exact has_delBusy fh.status
  | addOndisk id =>
      have hold : t.registered i = true := by simpa [after, StatusOp.registers] using hreg
      refine cellTrue_modifyCell (h i hold) hexec (fun hid fh hfh hcell => ?_)
        fun hid => by simp [StatusOp.event, hid]
      subst hid
      obtain ⟨hm, -⟩ := has_or_fhOndisk fh.status
      obtain ⟨fh₀, hfh₀, hmissing, -⟩ := h id hold
      obtain rfl := Option.some.inj (hfh.symm.trans hfh₀)
      have hnot : has fh.status fhMissing = false := by
        by_contra hne
        exact hok (hmissing.mp (by simpa using hne))
      exact ⟨_, hcell, by simp [after, StatusOp.event, hm, hnot],
        by simp [after, StatusOp.event]⟩
  | addInmem id =>
      have hold : t.registered i = true := by simpa [after, StatusOp.registers] using hreg
      refine cellTrue_modifyCell (h i hold) hexec (fun hid fh hfh hcell => ?_) fun _ => rfl
      subst hid
      exact cellTrue_both rfl hcell (has_or_fhInmem fh.status).1 hok.1 hok.2
  | setFound id diskId =>
      have hold : t.registered i = true := by simpa [after, StatusOp.registers] using hreg
      have hset : t.fi.modifyCell id (FileIndex.setFound diskId) = some fi' := by
        have hassert : t.fi.afiSetFound id diskId = some fi' := hexec
        unfold FileIndex.afiSetFound at hassert
        by_cases hid : t.fi.nFiles ≤ id
        · rwa [if_pos hid] at hassert
        · rw [if_neg hid] at hassert
          cases hassert
      refine cellTrue_modifyCell (h i hold) hset (fun hid fh hfh hcell => ?_)
        fun hid => by simp [StatusOp.event, hid]
      exact cellTrue_found (by simp [StatusOp.event, hid]) hcell (has_found fh.status).1
  | singleAllFound diskId =>
      have hold : t.registered i = true := by simpa [after, StatusOp.registers] using hreg
      refine cellTrue_modifyCells (h i hold) hexec (fun hi fh hfh hcell => ?_)
        fun hi => by simp [StatusOp.event, hi]
      exact cellTrue_found (by simp [StatusOp.event, hi]) hcell (has_found fh.status).1
  | markRecidMissing recid =>
      have hold : t.registered i = true := by simpa [after, StatusOp.registers] using hreg
      refine cellTrue_modifyCells (h i hold) hexec (fun hi fh hfh hcell => ?_)
        fun hi => by simp [StatusOp.event, hi]
      unfold FileIndex.markIf at hcell
      by_cases hdisk : fh.diskid = recid
      · rw [if_pos hdisk] at hcell
        obtain ⟨hm, hd⟩ := has_marked fh.status
        exact cellTrue_marked (by simp [StatusOp.event, hi, hfh, hdisk]) hcell hm hd
      · rw [if_neg hdisk] at hcell
        refine (h i hold).keep (by simp [StatusOp.event, hfh, hdisk]) fun fh₀ hfh₀ => ?_
        obtain rfl := Option.some.inj (hfh.symm.trans hfh₀)
        exact ⟨fh, hcell, rfl, rfl⟩
  | setAllMissing =>
      have hold : t.registered i = true := by simpa [after, StatusOp.registers] using hreg
      refine cellTrue_modifyCells (h i hold) hexec (fun hi fh hfh hcell => ?_)
        fun hi => by simp [StatusOp.event, hi]
      exact cellTrue_marked (by simp [StatusOp.event, hi]) hcell rfl rfl

/-- **The status of a file tells the truth** in every sequence of `Truthful`
operations. -/
theorem statusTrue_of_reachable (h : system.ReachableUnder Truthful t) :
    ∀ i, t.registered i = true → t.StatusTrue i := by
  have hall : t.AllTrue := by
    refine h.invariant ?_ ?_
    · rintro _ ⟨n, status, packetSize, rfl⟩ i hi
      have hi' : i < n := by simpa using hi
      refine ⟨⟨0, 0⟩, ?_, by simp [has], by simp [has]⟩
      have hne : n ≠ 0 := by omega
      simp [afiAdd, hne, hi']
    · intro t op t' hinv hok hs
      exact Step.allTrue hinv hok hs
  exact fun i hi => (hall i hi).statusTrue

/-- An index of one file, opened for sending. -/
def opened : Tracked :=
  ⟨afiAdd 1 afiSend 5008, fun _ => none, fun _ => false, fun i => i < 1⟩

/-- The file was found on disk 3. -/
def scanned : Tracked :=
  opened.after (.singleAllFound 3) { opened.fi with files := [⟨3, fhOndisk⟩] }

theorem statusTrue_of_reachable_scanned :
    scanned.registered 0 = true ∧ ∀ i, scanned.registered i = true → scanned.StatusTrue i :=
  ⟨rfl, statusTrue_of_reachable
    (.step (.init ⟨1, afiSend, 5008, rfl⟩) (a := .singleAllFound 3) trivial (.exec rfl))⟩

/-- A new recording whose first file is being recorded to disk 2. -/
def recording : FileIndex :=
  { afiAdd 0 afiRecord 5008 with
    nFiles := 1
    files := (List.replicate initialSize ⟨0, 0⟩).modify 0 fun _ => ⟨2, fhInmem ||| fhBusy⟩ }

/-- A recording shows its first file as missing and as loadable before a byte
of it was written. -/
theorem recording_shows_missing :
    ¬ ∀ t, system.Reachable t → ∀ i, t.registered i = true → t.StatusTrue i := by
  intro hall
  have hexec : (afiAdd 0 afiRecord 5008).exec (.addFile 0 2 none) = some recording := by
    simp [FileIndex.exec, FileIndex.afiAddFile, FileIndex.makeRoom, FileIndex.countFile,
      FileIndex.modifyCell, afiAdd, initialSize, recording]
  have hrun := (System.Reachable.init (M := system) ⟨0, afiRecord, 5008, rfl⟩).step
    (Step.exec hexec)
  have hregistered : StatusOp.registers (afiAdd 0 afiRecord 5008) 0 (.addFile 0 2 none) = true := by
    simp [StatusOp.registers, FileIndex.hasRoom, FileIndex.makeRoom]
  have hmissing : recording.afiIsMissing 0 = some true := by
    simp [FileIndex.afiIsMissing, recording, initialSize]
    decide
  have hbad := (hall _ hrun 0 (by simp [after, hregistered])).missing true hmissing
  simp [after, StatusOp.event] at hbad

end Tracked

end VlbiStreamer.ActiveFileIndex
