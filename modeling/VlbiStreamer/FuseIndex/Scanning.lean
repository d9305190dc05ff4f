import Mathlib.Data.Set.Insert
import VlbiStreamer.FuseIndex.DiskIndex

/-!
# Going through the drives

What the functions that fill `fileid` do to it, one lemma each.  An entry of a directory is
`Entered`; `Scanned` is what holds in the middle of going through the drives, of the data
files that were met so far, in whatever order they come.
-/

namespace VlbiStreamer.FuseIndex

open Library VlbiStreamer.Sender

/-! ## Data files on the drives -/

/-- The folder has the data file `k`. -/
def Folder.Has (filename : String) (folder : Folder) (k : ℕ) : Prop :=
  ∃ de ∈ folder.entries, de.name = dataFileName filename k

/-- The drive `i` has the data file `k`. -/
def Holds (filename : String) (folders : List (Option Folder)) (i k : ℕ) : Prop :=
  ∃ folder, folders[i]? = some (some folder) ∧ folder.Has filename k

/-- Some drive has the data file `k`. -/
def Held (filename : String) (folders : List (Option Folder)) (k : ℕ) : Prop :=
  ∃ i, Holds filename folders i k

/-! ## Configuration files -/

/-- A configuration file that can be parsed. -/
def WellTyped (root : List CfgSetting) : Bool :=
  root.all fun e => e.1 = .other || e.2.isSome

namespace DiskIndex

variable {fi : DiskIndex} {root : List CfgSetting} {count : ℕ}

/-- Parsing settings leaves the status and the array alone. -/
theorem parseCfg_frame (root : List CfgSetting) (fi : DiskIndex) :
    (parseCfg root fi).1.status = fi.status ∧
      (parseCfg root fi).1.fileid = fi.fileid ∧
      (parseCfg root fi).1.allocatedFiles = fi.allocatedFiles := by
  induction root generalizing fi with
  | nil => exact ⟨rfl, rfl, rfl⟩
  | cons e root ih =>
      obtain ⟨name, value⟩ := e
      cases name <;> cases value <;> first | exact ⟨rfl, rfl, rfl⟩ | exact ih _

/-- Parsing succeeds if every setting has its type. -/
theorem parseCfg_ok (root : List CfgSetting) (fi : DiskIndex) :
    (parseCfg root fi).2 = WellTyped root := by
  induction root generalizing fi with
  | nil => rfl
  | cons e root ih =>
      obtain ⟨name, value⟩ := e
      cases name <;> cases value <;> first | rfl | exact ih _

/-- Without a count among them, the settings leave `n_files` alone. -/
theorem parseCfg_nFiles (h : ∀ e ∈ root, e.1 ≠ .cumul) :
    (parseCfg root fi).1.nFiles = fi.nFiles := by
  induction root generalizing fi with
  | nil => rfl
  | cons e root ih =>
      obtain ⟨hne, hrest⟩ := List.forall_mem_cons.mp h
      obtain ⟨name, value⟩ := e
      cases name <;> cases value <;> first | exact absurd rfl hne | rfl | exact ih hrest

/-- A count is taken over, the last one there is. -/
theorem parseCfg_count (htyped : WellTyped root = true)
    (hcount : ∀ v, (CfgName.cumul, v) ∈ root → v = some count)
    (h : (∃ v, (CfgName.cumul, v) ∈ root) ∨ fi.nFiles = count) :
    (parseCfg root fi).1.nFiles = count := by
  induction root generalizing fi with
  | nil =>
      rcases h with ⟨v, hv⟩ | h
      · cases hv
      · exact h
  | cons e root ih =>
      have hrest : ∀ v, (CfgName.cumul, v) ∈ root → v = some count := fun v hv =>
        hcount v (List.mem_cons_of_mem _ hv)
      rw [WellTyped, List.all_cons, Bool.and_eq_true] at htyped
      obtain ⟨name, value⟩ := e
      by_cases hname : name = .cumul
      · subst hname
        obtain rfl := hcount value List.mem_cons_self
        exact ih htyped.2 hrest (.inr rfl)
      · have hkeep : (∃ v, (CfgName.cumul, v) ∈ root) ∨ fi.nFiles = count := by
          rcases h with ⟨v, hv⟩ | h
          · rcases List.mem_cons.mp hv with heq | hv
            · exact absurd (Prod.mk.inj heq).1.symm hname
            · exact .inl ⟨v, hv⟩
          · exact .inr h
        cases name <;> cases value <;>
          first | exact absurd rfl hname | exact ih htyped.2 hrest hkeep | simp at htyped

/-- A packet size that is not zero stays so; it is so behind settings that have one. -/
theorem parseCfg_packetSize (hzero : ∀ e ∈ root, e ≠ (.packetSize, some 0))
    (h : 0 < fi.packetSize ∨ (WellTyped root = true ∧ ∃ v, (CfgName.packetSize, v) ∈ root)) :
    0 < (parseCfg root fi).1.packetSize := by
  induction root generalizing fi with
  | nil =>
      rcases h with h | ⟨-, v, hv⟩
      · exact h
      · cases hv
  | cons e root ih =>
      obtain ⟨hne, hrest⟩ := List.forall_mem_cons.mp hzero
      rw [WellTyped, List.all_cons, Bool.and_eq_true] at h
      obtain ⟨name, value⟩ := e
      by_cases hname : name = .packetSize
      · subst hname
        cases value with
        | none =>
            rcases h with h | ⟨htyped, -⟩
            · exact h
            · simp at htyped
        | some size =>
            have hsize : size ≠ 0 := fun hsize => hne (by rw [hsize])
            exact ih hrest (.inl (Nat.pos_of_ne_zero hsize))
      · have hkeep : 0 < fi.packetSize ∨
            (WellTyped root = true ∧ ∃ v, (CfgName.packetSize, v) ∈ root) := by
          rcases h with h | ⟨htyped, v, hv⟩
          · exact .inl h
          · rcases List.mem_cons.mp hv with heq | hv
            · exact absurd (Prod.mk.inj heq).1.symm hname
            · exact .inr ⟨htyped.2, v, hv⟩
        cases name <;> cases value <;>
          first
          | exact absurd rfl hname
          | exact ih hrest hkeep
          | (rcases h with h | ⟨htyped, -⟩
             · exact h
             · simp at htyped)

/-! ## One entry of a directory -/

/-- The flags that going through the drives does not touch. -/
def flags (s : Status) : Status := { s with gotRefstat := true, found := true }

theorem initialized_of_flags {s t : Status} (h : flags s = flags t) :
    s.initialized = t.initialized :=
  show (flags s).initialized = (flags t).initialized from congrArg Status.initialized h

theorem noCfg_of_flags {s t : Status} (h : flags s = flags t) : s.noCfg = t.noCfg :=
  show (flags s).noCfg = (flags t).noCfg from congrArg Status.noCfg h

theorem notVbs_of_flags {s t : Status} (h : flags s = flags t) : s.notVbs = t.notVbs :=
  show (flags s).notVbs = (flags t).notVbs from congrArg Status.notVbs h

theorem cfgParsed_of_flags {s t : Status} (h : flags s = flags t) : s.cfgParsed = t.cfgParsed :=
  show (flags s).cfgParsed = (flags t).cfgParsed from congrArg Status.cfgParsed h

/-- A small number is the same as an `unsigned long`. -/
theorem unsignedLong_natCast {k : ℕ} (h : k < 2 ^ 31) : unsignedLong (k : ℤ) = k := by
  rw [unsignedLong, BitVec.ofInt_natCast, BitVec.toNat_ofNat]
  exact Nat.mod_eq_of_lt (by omega)

/-- And as an `unsigned`. -/
theorem unsignedInt_natCast {k : ℕ} (h : k < 2 ^ 31) : unsignedInt (k : ℤ) = k := by
  rw [unsignedInt, BitVec.ofInt_natCast, BitVec.toNat_ofNat]
  exact Nat.mod_eq_of_lt (by omega)

/-- A drive that fits in a cell. -/
theorem diskindexInt_of_lt {i : ℕ} (h : i < 128) : diskindexInt i = i := by
  rw [diskindexInt, BitVec.toInt_ofNat', Int.bmod_eq_of_le (by omega) (by omega)]

/-- Taking over a size leaves the array alone. -/
theorem noteStat_frame (fi : DiskIndex) (stSize : Option ℕ) :
    flags (fi.noteStat stSize).status = flags fi.status ∧
      (fi.noteStat stSize).packetSize = fi.packetSize ∧
      (fi.noteStat stSize).fileid = fi.fileid ∧
      (fi.noteStat stSize).allocatedFiles = fi.allocatedFiles ∧
      (fi.noteStat stSize).nFiles = fi.nFiles := by
  unfold noteStat
  split
  · cases stSize with
    | none => exact ⟨rfl, rfl, rfl, rfl, rfl⟩
    | some size =>
        dsimp only
        split <;> exact ⟨rfl, rfl, rfl, rfl, rfl⟩
  · exact ⟨rfl, rfl, rfl, rfl, rfl⟩

/-- The array as it is allocated. -/
structure Allocated (fi : DiskIndex) : Prop where
  present : fi.fileid ≠ none
  capacity : fi.allocatedFiles = fi.cells.length

/-- What entering the data file `k` of the drive `i` does. -/
structure Entered (fi : DiskIndex) (k i : ℕ) (fi' : DiskIndex) : Prop extends Allocated fi' where
  flags : flags fi'.status = DiskIndex.flags fi.status
  packetSize : fi'.packetSize = fi.packetSize
  grows : fi.cells.length ≤ fi'.cells.length
  inside : k < fi'.cells.length
  nFiles : fi'.nFiles = max fi.nFiles (k + 1)
  here : fi'.cells[k]? = some (some (i : ℤ))
  other : ∀ j ≠ k, j < fi.cells.length → fi'.cells[j]? = fi.cells[j]?

/-- What making room for the data file `k` does. -/
structure Grown (fi : DiskIndex) (k : ℕ) (fi' : DiskIndex) : Prop extends Allocated fi' where
  status : fi'.status = fi.status
  packetSize : fi'.packetSize = fi.packetSize
  nFiles : fi'.nFiles = fi.nFiles
  grows : fi.cells.length ≤ fi'.cells.length
  inside : k < fi'.cells.length
  kept : ∀ j < fi.cells.length, fi'.cells[j]? = fi.cells[j]?

theorem cells_eq_of_fileid {fi' : DiskIndex} (h : fi'.fileid = fi.fileid) :
    fi'.cells = fi.cells := by
  unfold cells
  rw [h]

/-- **Growing ends**, and keeps what was there. -/
theorem grow_spec {k : ℕ} (hk : k < 2 ^ 31) (h : Allocated fi)
    (hroom : 0 < fi.cells.length ∨ k < fi.cells.length) :
    ∃ fi', fi.grow k = some fi' ∧ Grown fi k fi' := by
  unfold grow
  rw [unsignedInt_natCast hk]
  split
  next hsmall =>
    rw [h.capacity] at hsmall
    obtain ⟨r, hr, hlt, hle⟩ := doubled_spec k fi.allocatedFiles (by rw [h.capacity]; omega)
    rw [hr]
    have hpos : r ≠ 0 := by omega
    have hcells : (fi.reallocFileid r).cells = fi.cells.realloc r := by
      rw [reallocFileid, if_neg hpos]
      rfl
    rw [h.capacity] at hle
    refine ⟨fi.reallocFileid r, rfl, ⟨?_, ?_⟩, rfl, rfl, rfl, ?_, ?_, fun j hj => ?_⟩
    · simp [reallocFileid, hpos]
    · rw [hcells, Block.length_realloc]
      rfl
    · rw [hcells, Block.length_realloc]
      exact hle
    · rw [hcells, Block.length_realloc]
      exact hlt
    · rw [hcells]
      exact Block.getElem?_realloc hj (by omega)
  next hlarge =>
    rw [h.capacity] at hlarge
    exact ⟨fi, rfl, h, rfl, rfl, rfl, le_rfl, by omega, fun _ _ => rfl⟩

/-- A cell inside the array is written. -/
theorem assign_spec {k i : ℕ} (h : Allocated fi) (hk : k < fi.cells.length) (hi : i < 128) :
    fi.assign k i = some { fi with fileid := some (fi.cells.set k (some (i : ℤ))) } := by
  obtain ⟨b, hb⟩ := Option.ne_none_iff_exists'.mp h.present
  have hcells : fi.cells = b := by
    unfold cells
    rw [hb]
    rfl
  rw [hcells] at hk ⊢
  unfold assign
  rw [if_neg (by omega), hb, Int.toNat_natCast, diskindexInt_of_lt hi]
  simp [Block.store_of_lt hk]

/-- **A data file is entered.** -/
theorem enter_spec {k i : ℕ} (de : DirEntry) (hk : k < 2 ^ 31 - 1) (hi : i < 128)
    (h : Allocated fi) (hroom : 0 < fi.cells.length ∨ k < fi.cells.length) :
    ∃ fi', fi.enter de k i = some fi' ∧ Entered fi k i fi' := by
  obtain ⟨hflags, hpacket, hfileid, halloc, hfiles⟩ := noteStat_frame fi de.stSize
  have hcells := cells_eq_of_fileid hfileid
  have hnoted : Allocated (fi.noteStat de.stSize) :=
    ⟨by rw [hfileid]; exact h.present, by rw [halloc, hcells]; exact h.capacity⟩
  obtain ⟨g, hgrow, hg⟩ := grow_spec (k := k) (by omega) hnoted (by rw [hcells]; exact hroom)
  have hgcells : fi.cells.length ≤ g.cells.length := hcells ▸ hg.grows
  have hcount : unsignedLong ((k : ℤ) + 1) = k + 1 := by
    exact_mod_cast unsignedLong_natCast (k := k + 1) (by omega)
  have hmax : (if g.nFiles ≤ unsignedInt k then { g with nFiles := unsignedLong (k + 1) } else g) =
      { g with nFiles := max fi.nFiles (k + 1) } := by
    rw [unsignedInt_natCast (by omega), hcount, hg.nFiles, hfiles]
    split
    next hle => rw [max_eq_right (by omega)]
    next hlt =>
      rw [max_eq_left (by omega), ← hfiles, ← hg.nFiles]
  have henter : fi.enter de k i = some
      { g with nFiles := max fi.nFiles (k + 1)
               fileid := some (g.cells.set k (some (i : ℤ))) } := by
    unfold enter
    rw [hgrow]
    show (if _ then _ else g).assign _ _ = _
    rw [hmax]
    have hcounted : Allocated { g with nFiles := max fi.nFiles (k + 1) } :=
      ⟨hg.present, hg.capacity⟩
    exact assign_spec hcounted hg.inside hi
  refine ⟨_, henter, ⟨Option.some_ne_none _, ?_⟩, ?_, ?_, ?_, ?_, rfl, ?_, fun j hj hlt => ?_⟩
  · show g.allocatedFiles = (g.cells.set k (some (i : ℤ))).length
    rw [List.length_set]
    exact hg.capacity
  · show DiskIndex.flags g.status = _
    rw [hg.status, hflags]
  · show g.packetSize = _
    rw [hg.packetSize, hpacket]
  · show fi.cells.length ≤ (g.cells.set k (some (i : ℤ))).length
    rw [List.length_set]
    exact hgcells
  · show k < (g.cells.set k (some (i : ℤ))).length
    rw [List.length_set]
    exact hg.inside
  · show (g.cells.set k (some (i : ℤ)))[k]? = _
    rw [List.getElem?_set_self hg.inside]
  · show (g.cells.set k (some (i : ℤ)))[j]? = _
    rw [List.getElem?_set_ne hj.symm, hg.kept j (by rw [hcells]; exact hlt), hcells]

/-- The number of files is set to that of the file first, and then behind it. -/
theorem Entered.of_nFiles {fi' : DiskIndex} {k i : ℕ} (hle : fi.nFiles ≤ k)
    (h : Entered { fi with nFiles := k } k i fi') : Entered fi k i fi' where
  toAllocated := h.toAllocated
  flags := h.flags
  packetSize := h.packetSize
  grows := h.grows
  inside := h.inside
  nFiles := by
    rw [h.nFiles]
    show max k (k + 1) = _
    omega
  here := h.here
  other := h.other

/-! ## Going through the drives -/

/-- In the middle of it, from `fi₀` on; `met` are the drives and the numbers of the data files
that were met. -/
structure Scanned (fi₀ : DiskIndex) (met : Set (ℕ × ℕ)) (fi : DiskIndex) : Prop extends
    Allocated fi where
  flags : flags fi.status = DiskIndex.flags fi₀.status
  packetSize : fi.packetSize = fi₀.packetSize
  grows : fi₀.cells.length ≤ fi.cells.length
  room : fi.nFiles ≤ fi.cells.length
  entered : ∀ i k, (i, k) ∈ met → k < fi.nFiles →
    ∃ j, (j, k) ∈ met ∧ fi.cells[k]? = some (some (j : ℤ))
  kept : ∀ k, (∀ i, (i, k) ∉ met) → k < fi₀.cells.length → fi.cells[k]? = fi₀.cells[k]?
  live : fi₀.status.noCfg = true → fi₀.nFiles ≤ fi.nFiles ∧
    (∀ i k, (i, k) ∈ met → k < fi.nFiles) ∧
      (fi.nFiles = fi₀.nFiles ∨ ∃ i k, (i, k) ∈ met ∧ fi.nFiles = k + 1)
  finished : fi₀.status.noCfg = false → fi.nFiles = fi₀.nFiles

section Scanning

variable {fi₀ fi' : DiskIndex} {met : Set (ℕ × ℕ)} {i k : ℕ} {filename : String}

theorem Scanned.start (h : Allocated fi) (hroom : fi.nFiles ≤ fi.cells.length) :
    Scanned fi ∅ fi where
  toAllocated := h
  flags := rfl
  packetSize := rfl
  grows := le_rfl
  room := hroom
  entered _ _ hmem := absurd hmem (Set.notMem_empty _)
  kept _ _ _ := rfl
  live _ := ⟨le_rfl, fun _ _ hmem => absurd hmem (Set.notMem_empty _), .inl rfl⟩
  finished _ := rfl

/-- The flags change that going through the drives may change. -/
theorem Scanned.mark (h : Scanned fi₀ met fi) {f : Status → Status}
    (hf : ∀ s, DiskIndex.flags (f s) = DiskIndex.flags s) : Scanned fi₀ met (fi.mark f) where
  toAllocated := ⟨h.present, h.capacity⟩
  flags := (hf fi.status).trans h.flags
  packetSize := h.packetSize
  grows := h.grows
  room := h.room
  entered := h.entered
  kept := h.kept
  live := h.live
  finished := h.finished

/-- **One more data file was entered.** -/
theorem Scanned.enter (h : Scanned fi₀ met fi) (he : Entered fi k i fi')
    (hcounts : fi₀.status.noCfg = true ∨ k < fi.nFiles) :
    Scanned fi₀ (insert (i, k) met) fi' where
  toAllocated := he.toAllocated
  flags := he.flags.trans h.flags
  packetSize := he.packetSize.trans h.packetSize
  grows := le_trans h.grows he.grows
  room := by
    have hroom := h.room
    have hgrows := he.grows
    have hinside := he.inside
    rw [he.nFiles]
    omega
  entered j l hmem hl := by
    by_cases hlk : l = k
    · subst hlk
      exact ⟨i, Set.mem_insert _ _, he.here⟩
    · have hold : (j, l) ∈ met := by
        rcases Set.mem_insert_iff.mp hmem with heq | hold
        · exact absurd (Prod.mk.inj heq).2 hlk
        · exact hold
      have hbelow : l < fi.nFiles := by
        rcases hcounts with hlive | hk
        · exact (h.live hlive).2.1 j l hold
        · rw [he.nFiles] at hl
          omega
      obtain ⟨d, hd, hcell⟩ := h.entered j l hold hbelow
      refine ⟨d, Set.mem_insert_of_mem _ hd, ?_⟩
      rw [he.other l hlk (lt_of_lt_of_le hbelow h.room), hcell]
  kept l hnone hl := by
    have hlk : l ≠ k := by
      rintro rfl
      exact hnone i (Set.mem_insert _ _)
    rw [he.other l hlk (lt_of_lt_of_le hl h.grows)]
    exact h.kept l (fun j hj => hnone j (Set.mem_insert_of_mem _ hj)) hl
  live hlive := by
    obtain ⟨hle, hall, hlast⟩ := h.live hlive
    rw [he.nFiles]
    refine ⟨by omega, fun j l hmem => ?_, ?_⟩
    · rcases Set.mem_insert_iff.mp hmem with heq | hold
      · obtain ⟨-, rfl⟩ := Prod.mk.inj heq
        omega
      · have := hall j l hold
        omega
    · rcases Nat.lt_or_ge k fi.nFiles with hk | hk
      · rw [max_eq_left (by omega)]
        rcases hlast with hsame | ⟨j, l, hmem, heq⟩
        · exact .inl hsame
        · exact .inr ⟨j, l, Set.mem_insert_of_mem _ hmem, heq⟩
      · rw [max_eq_right (by omega)]
        exact .inr ⟨i, k, Set.mem_insert _ _, rfl⟩
  finished hdone := by
    rcases hcounts with hlive | hk
    · rw [hlive] at hdone
      cases hdone
    · rw [he.nFiles, max_eq_left (by omega)]
      exact h.finished hdone

/-- A data file behind those of a finished recording is passed over. -/
theorem Scanned.skip (h : Scanned fi₀ met fi) (hdone : fi₀.status.noCfg = false)
    (hk : fi.nFiles ≤ k) : Scanned fi₀ (insert (i, k) met) fi where
  toAllocated := h.toAllocated
  flags := h.flags
  packetSize := h.packetSize
  grows := h.grows
  room := h.room
  entered j l hmem hl := by
    rcases Set.mem_insert_iff.mp hmem with heq | hold
    · obtain ⟨-, rfl⟩ := Prod.mk.inj heq
      omega
    · obtain ⟨d, hd, hcell⟩ := h.entered j l hold hl
      exact ⟨d, Set.mem_insert_of_mem _ hd, hcell⟩
  kept l hnone := h.kept l fun j hj => hnone j (Set.mem_insert_of_mem _ hj)
  live hlive := by
    rw [hlive] at hdone
    cases hdone
  finished := h.finished

/-- The entry is a data file that is found, or is not found. -/
def Readable (filename : String) (de : DirEntry) : Prop :=
  (∀ k, de.name = dataFileName filename k →
    k < 10 ^ indexingLength ∧ regexMatches filename de.name = true) ∧
    (regexMatches filename de.name → ∃ k, de.name = dataFileName filename k)

/-- The data files of the drive `i` among these entries. -/
def filesOf (filename : String) (i : ℕ) (entries : List DirEntry) : Set (ℕ × ℕ) :=
  {p | p.1 = i ∧ ∃ de ∈ entries, de.name = dataFileName filename p.2}

/-- **One entry of a directory.** -/
theorem updateFromEntry_spec {de : DirEntry} (h : Scanned fi₀ met fi)
    (hvbs : fi₀.status.notVbs = false) (hwide : fi₀.status.noCfg = true → 0 < fi₀.cells.length)
    (hi : i < 128) (hread : Readable filename de) :
    ∃ fi', fi.updateFromEntry filename i de = some fi' ∧
      Scanned fi₀ (met ∪ filesOf filename i [de]) fi' := by
  have hnoCfg : fi.status.noCfg = fi₀.status.noCfg := noCfg_of_flags h.flags
  have hnotVbs : fi.status.notVbs = false := (notVbs_of_flags h.flags).trans hvbs
  by_cases hfile : ∃ k, de.name = dataFileName filename k
  · obtain ⟨k, hk⟩ := hfile
    obtain ⟨hlt, hmatch⟩ := hread.1 k hk
    have hsmall : k < 2 ^ 31 - 1 := lt_trans hlt (by decide)
    have hindex : readIndex de.name = k := by
      rw [hk, readIndex_dataFileName, Nat.mod_eq_of_lt hlt]
    have hmet : met ∪ filesOf filename i [de] = insert (i, k) met := by
      ext ⟨j, l⟩
      simp only [filesOf, List.mem_singleton, exists_eq_left, Set.mem_union, Set.mem_ofPred_eq,
        Set.mem_insert_iff, Prod.mk.injEq]
      constructor
      · rintro (hold | ⟨rfl, hl⟩)
        · exact .inr hold
        · exact .inl ⟨rfl, eq_of_dataFileName_eq (hl.symm.trans hk)⟩
      · rintro (⟨rfl, rfl⟩ | hold)
        · exact .inr ⟨rfl, hk⟩
        · exact .inl hold
    rw [hmet]
    unfold updateFromEntry
    rw [if_pos hmatch, hindex]
    dsimp only
    rw [unsignedLong_natCast (by omega), hnoCfg, hnotVbs]
    split
    next hle =>
      cases hlive : fi₀.status.noCfg with
      | true =>
          rw [if_pos (by simp)]
          have hnumbered : Allocated { fi with nFiles := k } := ⟨h.present, h.capacity⟩
          obtain ⟨fi', henter, he⟩ := enter_spec de hsmall hi hnumbered
            (.inl (lt_of_lt_of_le (hwide hlive) h.grows))
          exact ⟨fi', henter, h.enter (Entered.of_nFiles hle he) (.inl hlive)⟩
      | false =>
          rw [if_neg (by simp)]
          exact ⟨fi, rfl, h.skip hlive hle⟩
    next hlt =>
      have hinside : k < fi.cells.length := lt_of_lt_of_le (by omega) h.room
      obtain ⟨fi', henter, he⟩ := enter_spec de hsmall hi h.toAllocated (.inr hinside)
      exact ⟨fi', henter, h.enter he (.inr (by omega))⟩
  · have hmatch : ¬ regexMatches filename de.name = true := fun hmatch => hfile (hread.2 hmatch)
    have hmet : met ∪ filesOf filename i [de] = met := by
      refine Set.union_eq_left.mpr ?_
      rintro ⟨j, l⟩ ⟨-, de', hde', hl⟩
      obtain rfl := List.mem_singleton.mp hde'
      exact absurd ⟨l, hl⟩ hfile
    rw [hmet]
    exact ⟨fi, if_neg hmatch, h⟩

/-- **The entries of one directory.** -/
theorem fiUpdateFromFiles_spec {entries : List DirEntry} (h : Scanned fi₀ met fi)
    (hvbs : fi₀.status.notVbs = false) (hwide : fi₀.status.noCfg = true → 0 < fi₀.cells.length)
    (hi : i < 128) (hread : ∀ de ∈ entries, Readable filename de) :
    ∃ fi', fi.fiUpdateFromFiles filename entries i = some fi' ∧
      Scanned fi₀ (met ∪ filesOf filename i entries) fi' := by
  induction entries generalizing fi met with
  | nil =>
      have hmet : met ∪ filesOf filename i [] = met := by
        refine Set.union_eq_left.mpr ?_
        rintro p ⟨-, de, hde, -⟩
        cases hde
      exact ⟨fi, rfl, by rw [hmet]; exact h⟩
  | cons de entries ih =>
      obtain ⟨hde, hrest⟩ := List.forall_mem_cons.mp hread
      obtain ⟨fi₁, hone, h₁⟩ := updateFromEntry_spec h hvbs hwide hi hde
      obtain ⟨fi₂, htwo, h₂⟩ := ih h₁ hrest
      have hmet : met ∪ filesOf filename i [de] ∪ filesOf filename i entries =
          met ∪ filesOf filename i (de :: entries) := by
        rw [Set.union_assoc]
        congr 1
        ext ⟨j, l⟩
        constructor
        · rintro (⟨hj, d, hmem, hd⟩ | ⟨hj, d, hmem, hd⟩)
          · exact ⟨hj, d, List.mem_cons.mpr (.inl (List.mem_singleton.mp hmem)), hd⟩
          · exact ⟨hj, d, List.mem_cons_of_mem _ hmem, hd⟩
        · rintro ⟨hj, d, hmem, hd⟩
          rcases List.mem_cons.mp hmem with hhead | htail
          · exact .inl ⟨hj, d, List.mem_singleton.mpr hhead, hd⟩
          · exact .inr ⟨hj, d, htail, hd⟩
      rw [hmet] at h₂
      refine ⟨fi₂, ?_, h₂⟩
      rw [fiUpdateFromFiles, List.foldlM_cons, hone]
      exact htwo

/-- The data files of these drives, which are numbered from `n` on. -/
def filesFrom (filename : String) (n : ℕ) (folders : List (Option Folder)) : Set (ℕ × ℕ) :=
  {p | ∃ folder, (some folder, p.1) ∈ folders.zipIdx n ∧ folder.Has filename p.2}

theorem filesFrom_nil (n : ℕ) : filesFrom filename n [] = ∅ := by
  refine Set.eq_empty_of_forall_notMem ?_
  rintro p ⟨folder, hmem, -⟩
  cases hmem

theorem filesFrom_none (n : ℕ) (folders : List (Option Folder)) :
    filesFrom filename n (none :: folders) = filesFrom filename (n + 1) folders := by
  ext p
  simp [filesFrom, List.zipIdx_cons]

theorem filesFrom_some (n : ℕ) (folder : Folder) (folders : List (Option Folder)) :
    filesFrom filename n (some folder :: folders) =
      filesOf filename n folder.entries ∪ filesFrom filename (n + 1) folders := by
  ext p
  constructor
  · rintro ⟨d, hmem, hhas⟩
    rcases List.mem_cons.mp hmem with heq | hrest
    · obtain ⟨hd, hn⟩ := Prod.mk.inj heq
      obtain rfl := Option.some.inj hd
      exact .inl ⟨hn, hhas⟩
    · exact .inr ⟨d, hrest, hhas⟩
  · rintro (⟨hn, hhas⟩ | ⟨d, hmem, hhas⟩)
    · exact ⟨folder, List.mem_cons.mpr (.inl (by rw [hn])), hhas⟩
    · exact ⟨d, List.mem_cons_of_mem _ hmem, hhas⟩

theorem mem_filesFrom_zero {folders : List (Option Folder)} :
    (i, k) ∈ filesFrom filename 0 folders ↔ Holds filename folders i k := by
  constructor
  · rintro ⟨folder, hmem, hhas⟩
    exact ⟨folder, List.mem_zipIdx_iff_getElem?.mp hmem, hhas⟩
  · rintro ⟨folder, hget, hhas⟩
    exact ⟨folder, List.mem_zipIdx_iff_getElem?.mpr hget, hhas⟩

/-- The folders hold nothing that cannot be read. -/
def AllReadable (filename : String) (folders : List (Option Folder)) : Prop :=
  ∀ folder, some folder ∈ folders → ∀ de ∈ folder.entries, Readable filename de

/-- **The folders of all drives**, of which any may be missing. -/
theorem doToSubfolders_spec {folders : List (Option Folder)} {n : ℕ} (h : Scanned fi₀ met fi)
    (hvbs : fi₀.status.notVbs = false) (hwide : fi₀.status.noCfg = true → 0 < fi₀.cells.length)
    (hn : n + folders.length ≤ 128) (hread : AllReadable filename folders) :
    ∃ fi', (folders.zipIdx n).foldlM (doToSubfolder filename true) fi = some fi' ∧
      Scanned fi₀ (met ∪ filesFrom filename n folders) fi' := by
  induction folders generalizing n fi met with
  | nil => exact ⟨fi, rfl, by rw [filesFrom_nil, Set.union_empty]; exact h⟩
  | cons folder folders ih =>
      have hrest : AllReadable filename folders := fun d hd =>
        hread d (List.mem_cons_of_mem _ hd)
      rw [List.length_cons] at hn
      cases folder with
      | none =>
          obtain ⟨fi', hfold, h'⟩ := ih (n := n + 1) h (by omega) hrest
          rw [filesFrom_none]
          exact ⟨fi', hfold, h'⟩
      | some folder =>
          obtain ⟨fi₁, hone, h₁⟩ := fiUpdateFromFiles_spec (i := n)
            (h.mark (f := fun s => { s with found := true }) fun _ => rfl) hvbs hwide (by omega)
            (hread folder List.mem_cons_self)
          obtain ⟨fi', hfold, h'⟩ := ih (n := n + 1) h₁ (by omega) hrest
          rw [filesFrom_some, ← Set.union_assoc]
          refine ⟨fi', ?_, h'⟩
          have hstep : doToSubfolder filename true fi (some folder, n) = some fi₁ := hone
          rw [List.zipIdx_cons, List.foldlM_cons, hstep]
          exact hfold

/-- With the configuration file parsed, `create_single_file_index` goes through all drives. -/
theorem visitLoop_spec {folders : List (Option Folder)} {n : ℕ} (found : Bool)
    (h : Scanned fi₀ met fi) (hparsed : fi₀.status.cfgParsed = true)
    (hvbs : fi₀.status.notVbs = false) (hwide : fi₀.status.noCfg = true → 0 < fi₀.cells.length)
    (hn : n + folders.length ≤ 128) (hread : AllReadable filename folders) :
    ∃ fi', visitLoop filename (folders.zipIdx n) found fi =
        some (.ended fi' (found || folders.any Option.isSome)) ∧
      Scanned fi₀ (met ∪ filesFrom filename n folders) fi' := by
  induction folders generalizing n fi met found with
  | nil =>
      refine ⟨fi, ?_, by rw [filesFrom_nil, Set.union_empty]; exact h⟩
      rw [List.any_nil, Bool.or_false]
      rfl
  | cons folder folders ih =>
      have hrest : AllReadable filename folders := fun d hd =>
        hread d (List.mem_cons_of_mem _ hd)
      rw [List.length_cons] at hn
      cases folder with
      | none =>
          obtain ⟨fi', hloop, h'⟩ := ih (n := n + 1) found h (by omega) hrest
          rw [filesFrom_none]
          exact ⟨fi', hloop, h'⟩
      | some folder =>
          obtain ⟨fi₁, hone, h₁⟩ := fiUpdateFromFiles_spec (i := n) h hvbs hwide (by omega)
            (hread folder List.mem_cons_self)
          obtain ⟨fi', hloop, h'⟩ := ih (n := n + 1) true h₁ (by omega) hrest
          rw [filesFrom_some, ← Set.union_assoc]
          refine ⟨fi', ?_, h'⟩
          have hcfg : fi.status.cfgParsed = true := (cfgParsed_of_flags h.flags).trans hparsed
          rw [List.zipIdx_cons, visitLoop, hcfg]
          simp only [if_true, hone, Option.bind_some, hloop]
          simp

end Scanning

end DiskIndex

end VlbiStreamer.FuseIndex
