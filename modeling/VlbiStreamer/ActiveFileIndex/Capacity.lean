import Mathlib.Data.List.Induction
import VlbiStreamer.ActiveFileIndex.Lifecycle

/-!
# The capacity of the file table

`add_file_mutexfree` makes room for a file when its id is beyond the allocated
cells, counts it when its id is not counted yet, and writes its cell.  Each of the
three takes the id and the two counters in its own way.

* `Outcome.Right` is what the table is trusted with: it has the cells it says it
  has, the last file that was entered under an id is in its cell, and a call that
  fails changes nothing.  `right_iff_fits` is exactly when a sequence of calls keeps
  to that: a file whose id is the number of allocated cells is written behind them,
  and a `realloc` that fails leaves them counted.
* The buffer threads of a recording enter their files in any order.
  `registers_iff` is exactly which orders are counted right: none but the increasing
  one, and that one only up to the first 128 files.
-/

namespace VlbiStreamer.ActiveFileIndex

open Library

/-! ## Growing -/

section Growing

variable {id a b k fuel : ℕ}

/-- The loop ends with the first doubling that is enough. -/
theorem growTo_eq (hk : k ≤ fuel) (hless : ∀ j < k, a * 2 ^ j < id) (hid : id ≤ a * 2 ^ k)
    (hword : a * 2 ^ k < 2 ^ wordBits) : growTo id fuel a = some (a * 2 ^ k) := by
  induction k generalizing fuel a with
  | zero =>
      have hnot : ¬ a < id := by simpa using hid
      cases fuel <;> simp [growTo, hnot]
  | succ k ih =>
      obtain ⟨fuel, rfl⟩ : ∃ f, fuel = f + 1 := ⟨fuel - 1, by omega⟩
      have hfirst : a < id := by simpa using hless 0 (Nat.succ_pos k)
      have hdouble : ∀ j, a * 2 * 2 ^ j = a * 2 ^ (j + 1) := fun j => by
        rw [Nat.pow_succ', Nat.mul_assoc]
      have hnowrap : a * 2 % 2 ^ wordBits = a * 2 := by
        have htwo : 2 ^ 1 ≤ 2 ^ (k + 1) := Nat.pow_le_pow_right (by omega) (Nat.succ_pos k)
        exact Nat.mod_eq_of_lt (Nat.lt_of_le_of_lt (Nat.mul_le_mul_left a htwo) hword)
      rw [growTo, if_pos hfirst, hnowrap, ← hdouble k]
      refine ih (by omega) (fun j hj => ?_) ?_ ?_
      · rw [hdouble]
        exact hless (j + 1) (by omega)
      · rw [hdouble]
        exact hid
      · rw [hdouble]
        exact hword

/-- The loop only ends with enough. -/
theorem le_of_growTo (h : growTo id fuel a = some b) : id ≤ b := by
  induction fuel generalizing a with
  | zero =>
      by_cases hid : a < id <;> simp [growTo, hid] at h
      omega
  | succ fuel ih =>
      by_cases hid : a < id
      · rw [growTo, if_pos hid] at h
        exact ih h
      · rw [growTo, if_neg hid] at h
        obtain rfl := Option.some.inj h
        omega

/-- What it ends with is a doubling, when its bytes can be counted. -/
theorem growTo_doubling (h : growTo id fuel a = some b) (hid : a < id)
    (hbytes : b * fileholderSize < 2 ^ wordBits) :
    ∃ k, a * 2 ^ k < id ∧ b = a * 2 ^ (k + 1) := by
  induction fuel generalizing a with
  | zero => simp [growTo, hid] at h
  | succ fuel ih =>
      rw [growTo, if_pos hid] at h
      have hle := le_of_growTo h
      -- a word that overflows was already more than half of all words, and so is `id`
      have hnowrap : a * 2 % 2 ^ wordBits = a * 2 := by
        refine Nat.mod_eq_of_lt ?_
        unfold fileholderSize wordBits at hbytes
        unfold wordBits
        omega
      rw [hnowrap] at h
      by_cases hmore : a * 2 < id
      · obtain ⟨k, hk, rfl⟩ := ih h hmore
        refine ⟨k + 1, ?_, ?_⟩
        · rwa [Nat.pow_succ', ← Nat.mul_assoc]
        · rw [Nat.pow_succ' (n := k + 1), ← Nat.mul_assoc]
      · refine ⟨0, by simpa using hid, ?_⟩
        cases fuel <;> simp [growTo, hmore] at h <;> omega

/-- An id between two doublings gets the larger one, when its bytes can be counted. -/
theorem growTo_of_between (hlo : a * 2 ^ k < id) (hhi : id < a * 2 ^ (k + 1))
    (hbytes : a * 2 ^ (k + 1) * fileholderSize < 2 ^ wordBits) :
    growTo id wordBits a = some (a * 2 ^ (k + 1)) := by
  have ha : 0 < a := by
    by_contra hzero
    obtain rfl : a = 0 := by omega
    omega
  have hword : a * 2 ^ (k + 1) < 2 ^ wordBits :=
    Nat.lt_of_le_of_lt (Nat.le_mul_of_pos_right _ (by decide)) hbytes
  refine growTo_eq ?_ (fun j hj => ?_) (Nat.le_of_lt hhi) hword
  · have hpow : 2 ^ (k + 1) < 2 ^ wordBits :=
      Nat.lt_of_le_of_lt (Nat.le_mul_of_pos_left _ ha) hword
    exact Nat.le_of_lt ((Nat.pow_lt_pow_iff_right (by decide)).mp hpow)
  · have hmono : 2 ^ j ≤ 2 ^ k := Nat.pow_le_pow_right (by decide) (by omega)
    exact Nat.lt_of_le_of_lt (Nat.mul_le_mul_left a hmono) hlo

end Growing

/-! ## Making room -/

/-- The index after `realloc` has made it `allocated` cells. -/
def FileIndex.reallocated (fi : FileIndex) (allocated : ℕ) (new : ℕ → Fileholder) : FileIndex :=
  { fi with
    allocatedFiles := allocated
    files := fi.files ++
      (List.range (allocated - fi.files.length)).map fun j => new (fi.files.length + j) }

section MakingRoom

variable {fi : FileIndex} {id allocated : ℕ} {realloc : Option (ℕ → Fileholder)}
  {new : ℕ → Fileholder}

theorem FileIndex.reallocated_length (h : fi.files.length ≤ allocated) :
    (fi.reallocated allocated new).files.length = allocated := by
  simp [reallocated]
  omega

theorem makeRoom_of_le (h : id ≤ fi.allocatedFiles) :
    fi.makeRoom id realloc = some (true, fi) := by
  unfold FileIndex.makeRoom
  rw [if_neg (by omega)]

variable (hgt : fi.allocatedFiles < id)
include hgt

theorem makeRoom_of_endless (hgrow : growTo id wordBits fi.allocatedFiles = none) :
    fi.makeRoom id realloc = none := by
  unfold FileIndex.makeRoom
  rw [if_pos hgt, hgrow]

theorem makeRoom_of_failed (hgrow : growTo id wordBits fi.allocatedFiles = some allocated) :
    fi.makeRoom id none = some (false, { fi with allocatedFiles := allocated }) := by
  unfold FileIndex.makeRoom
  rw [if_pos hgt, hgrow]

theorem makeRoom_of_large (hgrow : growTo id wordBits fi.allocatedFiles = some allocated)
    (hbytes : ¬ allocated * fileholderSize < 2 ^ wordBits) :
    fi.makeRoom id (some new) = none := by
  unfold FileIndex.makeRoom
  rw [if_pos hgt, hgrow]
  dsimp only
  rw [if_neg hbytes]

theorem makeRoom_of_grown (hgrow : growTo id wordBits fi.allocatedFiles = some allocated)
    (hbytes : allocated * fileholderSize < 2 ^ wordBits) :
    fi.makeRoom id (some new) = some (true, fi.reallocated allocated new) := by
  unfold FileIndex.makeRoom
  rw [if_pos hgt, hgrow]
  dsimp only
  rw [if_pos hbytes]
  rfl

end MakingRoom

/-! ## A sequence of calls -/

/-- The arguments of `afi_add_file`, and what `realloc` answers it. -/
structure AddFile where
  id : ℕ
  diskid : Int
  status : Status
  realloc : Option (ℕ → Fileholder)

/-- What the call writes. -/
def AddFile.fh (c : AddFile) : Fileholder := ⟨c.diskid, c.status⟩

/-- The index, and what its callers know about it. -/
structure Table where
  fi : FileIndex
  /-- What the last call that returned 0 has entered under an id. -/
  entered : ℕ → Option Fileholder
  /-- The index before the last call, when that call returned -1. -/
  failed : Option FileIndex

/-- Where a sequence of calls has come to. -/
inductive Outcome where
  | table (t : Table)
  /-- The last call wrote outside of the cells, or it does not return. -/
  | lost

/-- `afi_add_file`, as its callers see it. -/
def Table.call (t : Table) (c : AddFile) : Outcome :=
  match t.fi.afiAddFile c.id c.diskid c.status c.realloc with
  | none => .lost
  | some (r, fi) =>
      if r = 0 then .table ⟨fi, Function.update t.entered c.id (some c.fh), none⟩
      else .table ⟨fi, t.entered, some t.fi⟩

/-- The table after `afi_add(n_files)`. -/
def newTable (nFiles : ℕ) (status : Status) (packetSize : ℕ) : Table :=
  ⟨afiAdd nFiles status packetSize, fun _ => none, none⟩

/-- What the table is trusted with. -/
structure Table.Right (t : Table) : Prop where
  /-- `allocated_files` is the number of cells that are really allocated. -/
  allocated : t.fi.allocatedFiles = t.fi.files.length
  /-- What was entered last is in its cell, which is one of them. -/
  cells : ∀ i fh, t.entered i = some fh →
    i < t.fi.allocatedFiles ∧ t.fi.files[i]? = some fh
  /-- A call that returned -1 has changed nothing. -/
  failed : ∀ fi, t.failed = some fi → t.fi = fi

/-- There is a cell for the id, or it lies strictly between two doublings of the
allocated cells, of which the larger one can be allocated. -/
def Table.Fits (t : Table) (c : AddFile) : Prop :=
  c.id < t.fi.allocatedFiles ∨ (c.realloc.isSome ∧ ∃ k,
    t.fi.allocatedFiles * 2 ^ k < c.id ∧ c.id < t.fi.allocatedFiles * 2 ^ (k + 1) ∧
    t.fi.allocatedFiles * 2 ^ (k + 1) * fileholderSize < 2 ^ wordBits)

namespace Outcome

/-- A sequence ends with the call that is lost. -/
def next : Outcome → AddFile → Option Outcome
  | table t, c => some (t.call c)
  | lost, _ => none

def Right : Outcome → Prop
  | table t => t.Right
  | lost => False

def Fits : Outcome → AddFile → Prop
  | table t, c => t.Fits c
  | lost, _ => False

end Outcome

namespace Table

variable {t : Table} {c : AddFile} {fi : FileIndex}

/-- A call that finds room is right, when there is a cell for the id and the cells that
were there before have stayed. -/
theorem Right.call (h : t.Right) (hroom : t.fi.makeRoom c.id c.realloc = some (true, fi))
    (hallocated : fi.allocatedFiles = fi.files.length) (hid : c.id < fi.files.length) :
    (t.call c).Right := by
  have hkeep : ∀ {i fh}, t.fi.files[i]? = some fh → fi.files[i]? = some fh :=
    makeRoom_getElem? hroom
  have hcountAllocated : (fi.countFile c.id).allocatedFiles = fi.allocatedFiles := by
    unfold FileIndex.countFile
    split <;> rfl
  have hcell : (fi.countFile c.id).modifyCell c.id (fun _ => c.fh) =
      some { fi.countFile c.id with files := fi.files.modify c.id fun _ => c.fh } := by
    unfold FileIndex.modifyCell
    rw [countFile_files, if_pos hid]
  have hcall : t.call c = .table ⟨{ fi.countFile c.id with
      files := fi.files.modify c.id fun _ => c.fh },
      Function.update t.entered c.id (some c.fh), none⟩ := by
    have hadd : t.fi.afiAddFile c.id c.diskid c.status c.realloc = some (0,
        { fi.countFile c.id with files := fi.files.modify c.id fun _ => c.fh }) := by
      unfold FileIndex.afiAddFile
      rw [hroom]
      exact congrArg (Option.map _) hcell
    unfold Table.call
    rw [hadd]
    rfl
  rw [hcall]
  refine ⟨?_, fun i fh hfh => ?_, fun fi' hfi' => nomatch hfi'⟩
  · show (fi.countFile c.id).allocatedFiles = (fi.files.modify c.id fun _ => c.fh).length
    rw [hcountAllocated, List.length_modify, hallocated]
  · show i < (fi.countFile c.id).allocatedFiles ∧
      (fi.files.modify c.id fun _ => c.fh)[i]? = some fh
    rw [hcountAllocated, hallocated]
    have hmodify := List.getElem?_modify (fun _ => c.fh) c.id fi.files i
    by_cases hi : c.id = i
    · subst hi
      obtain rfl : c.fh = fh := by simpa using hfh
      refine ⟨hid, ?_⟩
      rw [hmodify, List.getElem?_eq_getElem hid]
      simp
    · have hold : t.entered i = some fh := by
        simpa [Function.update_of_ne (Ne.symm hi)] using hfh
      obtain ⟨-, hfiles⟩ := h.cells i fh hold
      have hfiles' := hkeep hfiles
      refine ⟨(List.getElem?_eq_some_iff.mp hfiles').1, ?_⟩
      rw [hmodify, hfiles']
      simp [hi]

/-- A call that finds no cell for its id is lost. -/
theorem call_of_ge (hroom : t.fi.makeRoom c.id c.realloc = some (true, fi))
    (hid : fi.files.length ≤ c.id) : t.call c = .lost := by
  have hcell : (fi.countFile c.id).modifyCell c.id (fun _ => ⟨c.diskid, c.status⟩) = none := by
    unfold FileIndex.modifyCell
    rw [countFile_files, if_neg (by omega)]
  unfold Table.call FileIndex.afiAddFile
  rw [hroom]
  dsimp only
  rw [hcell]
  rfl

/-- A call that finds no room has counted cells that there are not. -/
theorem call_of_failed (hroom : t.fi.makeRoom c.id c.realloc = some (false, fi)) :
    t.call c = .table ⟨fi, t.entered, some t.fi⟩ := by
  unfold Table.call FileIndex.afiAddFile
  rw [hroom]
  rfl

/-- A call whose loop does not end, or whose table is too large, is lost. -/
theorem call_of_none (hroom : t.fi.makeRoom c.id c.realloc = none) : t.call c = .lost := by
  unfold Table.call FileIndex.afiAddFile
  rw [hroom]

/-- An id up to the number of cells makes no room. -/
theorem right_call_of_le (h : t.Right) (hle : c.id ≤ t.fi.allocatedFiles) :
    (t.call c).Right ↔ c.id < t.fi.allocatedFiles := by
  have hroom : t.fi.makeRoom c.id c.realloc = some (true, t.fi) := makeRoom_of_le hle
  by_cases hlt : c.id < t.fi.allocatedFiles
  · exact ⟨fun _ => hlt, fun _ => h.call hroom h.allocated (h.allocated ▸ hlt)⟩
  · -- the test for room is `>`, so that the first id without a cell passes
    rw [call_of_ge hroom (by rw [← h.allocated]; omega)]
    exact ⟨False.elim, hlt⟩

/-- A larger id makes room, which has to be more than enough. -/
theorem right_call_of_gt (h : t.Right) (hgt : t.fi.allocatedFiles < c.id) :
    (t.call c).Right ↔ c.realloc.isSome ∧ ∃ k,
      t.fi.allocatedFiles * 2 ^ k < c.id ∧ c.id < t.fi.allocatedFiles * 2 ^ (k + 1) ∧
      t.fi.allocatedFiles * 2 ^ (k + 1) * fileholderSize < 2 ^ wordBits := by
  cases hgrow : growTo c.id wordBits t.fi.allocatedFiles with
  | none =>
      rw [call_of_none (makeRoom_of_endless hgt hgrow)]
      refine ⟨False.elim, fun ⟨_, k, hlo, hhi, hbytes⟩ => ?_⟩
      rw [growTo_of_between hlo hhi hbytes] at hgrow
      cases hgrow
  | some allocated =>
      have henough := le_of_growTo hgrow
      cases hrealloc : c.realloc with
      | none =>
          have hroom := makeRoom_of_failed hgt hgrow
          rw [call_of_failed (hrealloc ▸ hroom)]
          refine ⟨fun hright => ?_, fun ⟨hsome, _⟩ => nomatch hsome⟩
          -- the counter has grown before the allocation was tried
          have hsame := congrArg FileIndex.allocatedFiles (hright.failed _ rfl)
          dsimp only at hsame
          omega
      | some new =>
          by_cases hbytes : allocated * fileholderSize < 2 ^ wordBits
          · have hroom : t.fi.makeRoom c.id (some new) =
                some (true, t.fi.reallocated allocated new) := makeRoom_of_grown hgt hgrow hbytes
            obtain ⟨k, hlo, rfl⟩ := growTo_doubling hgrow hgt hbytes
            have hlength : (t.fi.reallocated _ new).files.length =
                t.fi.allocatedFiles * 2 ^ (k + 1) := FileIndex.reallocated_length
              (h.allocated ▸ Nat.le_trans (Nat.le_of_lt hgt) henough)
            by_cases hhi : c.id < t.fi.allocatedFiles * 2 ^ (k + 1)
            · refine ⟨fun _ => ⟨rfl, k, hlo, hhi, hbytes⟩, fun _ => ?_⟩
              exact h.call (hrealloc ▸ hroom) hlength.symm (hlength.symm ▸ hhi)
            · -- enough is not more than enough: the id may be the number of cells
              rw [call_of_ge (hrealloc ▸ hroom) (hlength.symm ▸ Nat.le_of_not_lt hhi)]
              refine ⟨False.elim, fun ⟨_, k', hlo', hhi', hbytes'⟩ => ?_⟩
              rw [growTo_of_between hlo' hhi' hbytes'] at hgrow
              have heq := Option.some.inj hgrow
              omega
          · rw [call_of_none (hrealloc ▸ makeRoom_of_large hgt hgrow hbytes)]
            refine ⟨False.elim, fun ⟨_, k, hlo, hhi, hbytes'⟩ => ?_⟩
            rw [growTo_of_between hlo hhi hbytes'] at hgrow
            obtain rfl := Option.some.inj hgrow
            exact hbytes hbytes'

/-- **A call is right exactly if its id fits.** -/
theorem right_call_iff (h : t.Right) : (t.call c).Right ↔ t.Fits c := by
  unfold Fits
  by_cases hle : c.id ≤ t.fi.allocatedFiles
  · rw [right_call_of_le h hle]
    refine ⟨.inl, ?_⟩
    rintro (hlt | ⟨-, k, hlo, -⟩)
    · exact hlt
    · have hmore := Nat.le_mul_of_pos_right t.fi.allocatedFiles (Nat.two_pow_pos k)
      omega
  · rw [right_call_of_gt h (by omega)]
    refine ⟨.inr, ?_⟩
    rintro (hlt | hgrown)
    · exact absurd hlt (by omega)
    · exact hgrown

end Table

/-- A new table is right. -/
theorem newTable_right (nFiles : ℕ) (status : Status) (packetSize : ℕ) :
    (newTable nFiles status packetSize).Right where
  allocated := by simp [newTable, afiAdd]
  cells _ _ hfh := nomatch hfh
  failed _ hfi := nomatch hfi

/-- **The table is right after every call exactly if every id fits**, for every
recording and every sequence of calls, whatever `realloc` answers. -/
theorem right_iff_fits (nFiles : ℕ) (status : Status) (packetSize : ℕ) (calls : List AddFile) :
    System.AllFrom Outcome.Right Outcome.next (.table (newTable nFiles status packetSize))
        calls ↔
      System.OkFrom Outcome.Fits Outcome.next (.table (newTable nFiles status packetSize))
        calls := by
  have hnew : (Outcome.table (newTable nFiles status packetSize)).Right :=
    newTable_right nFiles status packetSize
  refine System.allFrom_iff_okFrom (fun o c ho => ?_) hnew
  cases o with
  | table t => exact ⟨t.call c, rfl, Table.right_call_iff ho⟩
  | lost => exact ho.elim

/-- The file with id 128 of a recording is written behind its 128 cells. -/
theorem first_128_overflow :
    ¬ ∀ (nFiles : ℕ) (status : Status) (packetSize : ℕ) (calls : List AddFile),
      System.AllFrom Outcome.Right Outcome.next (.table (newTable nFiles status packetSize))
        calls := by
  intro hall
  obtain ⟨-, hright⟩ := hall 0 afiRecord 5008 [⟨128, 2, fhInmem ||| fhBusy, none⟩]
  have hlost : (newTable 0 afiRecord 5008).call ⟨128, 2, fhInmem ||| fhBusy, none⟩ = .lost := by
    have hroom : (afiAdd 0 afiRecord 5008).makeRoom 128 none =
        some (true, afiAdd 0 afiRecord 5008) := makeRoom_of_le (by simp [afiAdd, initialSize])
    exact Table.call_of_ge hroom (by simp [afiAdd, initialSize])
  have hbad := hright (.lost) (congrArg some hlost)
  exact hbad

/-! ## The order of registration -/

/-- A buffer thread registers its file, whatever comes of it. -/
def register (fi : FileIndex) (c : AddFile) : Option FileIndex :=
  (fi.afiAddFile c.id c.diskid c.status c.realloc).map Prod.snd

/-- The files of a recording are registered: all of them are counted and have their
cells, and whatever was registered is seen by those who look at `n_files` meanwhile. -/
structure Registers (fi : FileIndex) (calls : List AddFile) : Prop where
  all : ∃ fi', System.runFrom register fi calls = some fi' ∧ fi'.nFiles = calls.length ∧
    ∀ c ∈ calls, fi'.files[c.id]? = some c.fh
  seen : ∀ done rest, calls = done ++ rest →
    ∃ fi', System.runFrom register fi done = some fi' ∧ ∀ c ∈ done, c.id < fi'.nFiles

/-- What the index of a new recording is after the first files in their order. -/
structure Counted (fi : FileIndex) (calls : List AddFile) : Prop where
  nFiles : fi.nFiles = calls.length
  allocated : fi.allocatedFiles = initialSize
  length : fi.files.length = initialSize
  cells : ∀ c ∈ calls, c.id < fi.nFiles ∧ fi.files[c.id]? = some c.fh

section Order

variable {fi fi' : FileIndex} {c : AddFile} {calls : List AddFile} {status : Status}
  {packetSize : ℕ}

/-- A call counts one file at most. -/
theorem register_nFiles_le (h : register fi c = some fi') : fi'.nFiles ≤ fi.nFiles + 1 := by
  obtain ⟨⟨r, fi₂⟩, hadd, rfl⟩ := Option.map_eq_some_iff.mp h
  unfold FileIndex.afiAddFile at hadd
  cases hroom : fi.makeRoom c.id c.realloc with
  | none =>
      rw [hroom] at hadd
      cases hadd
  | some made =>
      obtain ⟨made, fi₁⟩ := made
      rw [hroom] at hadd
      have hsame : fi₁.nFiles = fi.nFiles := by
        unfold FileIndex.makeRoom at hroom
        split at hroom
        · split at hroom
          · cases hroom
          · cases hroom
            rfl
          · split at hroom <;> cases hroom
            rfl
        · cases hroom
          rfl
      cases made with
      | false =>
          cases hadd
          exact Nat.le_trans (Nat.le_of_eq hsame) (Nat.le_succ _)
      | true =>
          obtain ⟨fi₃, hcell, heq⟩ := Option.map_eq_some_iff.mp hadd
          cases heq
          unfold FileIndex.modifyCell at hcell
          split at hcell
          · cases hcell
            show (fi₁.countFile c.id).nFiles ≤ fi.nFiles + 1
            unfold FileIndex.countFile
            split
            · omega
            · show fi₁.nFiles + 1 ≤ fi.nFiles + 1
              omega
          · cases hcell

/-- The next file in order gets the next cell. -/
theorem Counted.register (h : Counted fi calls) (hid : c.id = calls.length)
    (hlt : calls.length < initialSize) :
    ∃ fi', register fi c = some fi' ∧ Counted fi' (calls ++ [c]) := by
  have hroom : fi.makeRoom c.id c.realloc = some (true, fi) :=
    makeRoom_of_le (by rw [h.allocated]; omega)
  have hcount : fi.countFile c.id = { fi with nFiles := fi.nFiles + 1 } := by
    unfold FileIndex.countFile
    rw [if_neg (by rw [h.nFiles]; omega)]
  have hin : c.id < fi.files.length := by rw [h.length]; omega
  refine ⟨{ fi with nFiles := fi.nFiles + 1, files := fi.files.modify c.id fun _ => c.fh },
    ?_, ?_⟩
  · unfold ActiveFileIndex.register FileIndex.afiAddFile
    rw [hroom]
    dsimp only
    rw [hcount]
    unfold FileIndex.modifyCell
    rw [if_pos hin]
    rfl
  · refine ⟨by simp [h.nFiles], h.allocated, by simp [h.length], fun c' hc' => ?_⟩
    show c'.id < fi.nFiles + 1 ∧ (fi.files.modify c.id fun _ => c.fh)[c'.id]? = some c'.fh
    have hmodify := List.getElem?_modify (fun _ => c.fh) c.id fi.files c'.id
    rcases List.mem_append.mp hc' with hold | hnew
    · obtain ⟨hlt', hcell⟩ := h.cells c' hold
      have hne : c.id ≠ c'.id := by
        rw [h.nFiles] at hlt'
        omega
      refine ⟨by omega, ?_⟩
      rw [hmodify, hcell]
      simp [hne]
    · obtain rfl := List.mem_singleton.mp hnew
      refine ⟨by rw [h.nFiles]; omega, ?_⟩
      rw [hmodify, List.getElem?_eq_getElem hin]
      simp

theorem runFrom_concat {done : List AddFile} {start : FileIndex} :
    System.runFrom register start (done ++ [c]) =
      (System.runFrom register start done).bind (register · c) := by
  rw [System.runFrom_append]
  congr 1
  funext fi
  show (register fi c).bind _ = _
  cases register fi c <;> rfl

/-- Files that come in order are counted in order, as long as there are cells. -/
theorem counted_of_inOrder (hids : calls.map AddFile.id = List.range calls.length)
    (hlen : calls.length ≤ initialSize) :
    ∃ fi, System.runFrom register (afiAdd 0 status packetSize) calls = some fi ∧
      Counted fi calls := by
  induction calls using List.reverseRecOn with
  | nil =>
      exact ⟨_, rfl, rfl, rfl, by simp [afiAdd], fun c hc => absurd hc List.not_mem_nil⟩
  | append_singleton done c ih =>
      have hsplit : done.map AddFile.id ++ [c.id] =
          List.range done.length ++ [done.length] := by
        simpa [List.range_succ] using hids
      obtain ⟨hdone, hlast⟩ := List.append_inj' hsplit rfl
      rw [List.length_append, List.length_singleton] at hlen
      obtain ⟨fi, hrun, hcounted⟩ := ih hdone (by omega)
      obtain ⟨fi', hnext, hcounted'⟩ := hcounted.register (by simpa using hlast) hlen
      refine ⟨fi', ?_, hcounted'⟩
      rw [runFrom_concat, hrun]
      exact hnext

/-- Where every registered file is seen, the next one to come is the next in order. -/
theorem inOrder_of_seen {start : FileIndex} (hstart : start = afiAdd 0 status packetSize)
    (hnodup : (calls.map AddFile.id).Nodup)
    (hseen : ∀ done rest, calls = done ++ rest → ∃ fi',
      System.runFrom register start done = some fi' ∧ ∀ c ∈ done, c.id < fi'.nFiles) :
    calls.map AddFile.id = List.range calls.length ∧ calls.length ≤ initialSize := by
  subst hstart
  induction calls using List.reverseRecOn with
  | nil => exact ⟨rfl, Nat.zero_le _⟩
  | append_singleton done c ih =>
      rw [List.map_append, List.nodup_append] at hnodup
      obtain ⟨hnodupDone, -, hfresh⟩ := hnodup
      obtain ⟨hids, hlen⟩ := ih hnodupDone fun done' rest h =>
        hseen done' (rest ++ [c]) (by rw [h, List.append_assoc])
      obtain ⟨fi, hrun, hcounted⟩ : ∃ fi, System.runFrom register
          (afiAdd 0 status packetSize) done = some fi ∧ Counted fi done :=
        counted_of_inOrder hids hlen
      obtain ⟨fi', hrun', hlast⟩ := hseen (done ++ [c]) [] (by simp)
      rw [runFrom_concat, hrun] at hrun'
      -- the id is new, and it is counted after this call
      have hge : done.length ≤ c.id := by
        by_contra hlt
        have hmem : c.id ∈ done.map AddFile.id := by
          rw [hids, List.mem_range]
          omega
        exact hfresh _ hmem _ (by simp) rfl
      have hle : c.id < fi.nFiles + 1 :=
        Nat.lt_of_lt_of_le (hlast c (by simp)) (register_nFiles_le hrun')
      have hid : c.id = done.length := by
        rw [hcounted.nFiles] at hle
        omega
      -- and it has a cell
      have hcell : done.length ≠ initialSize := by
        intro hfull
        have hroom : fi.makeRoom c.id c.realloc = some (true, fi) :=
          makeRoom_of_le (by rw [hcounted.allocated]; omega)
        have hlost : fi.afiAddFile c.id c.diskid c.status c.realloc = none := by
          unfold FileIndex.afiAddFile
          rw [hroom]
          dsimp only
          unfold FileIndex.modifyCell
          rw [countFile_files, if_neg (by rw [hcounted.length]; omega)]
          rfl
        have hnone : register fi c = none := congrArg (Option.map Prod.snd) hlost
        rw [Option.bind_some, hnone] at hrun'
        cases hrun'
      rw [List.length_append, List.length_singleton, List.map_append, hids, List.range_succ]
      exact ⟨by simp [hid], by omega⟩

/-- **The files of a recording are registered exactly if they come in increasing
order**, and there are not more of them than the 128 cells of a new index. -/
theorem registers_iff {k : ℕ} (h : (calls.map AddFile.id).Perm (List.range k)) :
    Registers (afiAdd 0 status packetSize) calls ↔
      calls.map AddFile.id = List.range k ∧ k ≤ initialSize := by
  obtain rfl : calls.length = k := by simpa using h.length_eq
  constructor
  · intro hreg
    exact inOrder_of_seen rfl (h.nodup_iff.mpr List.nodup_range) hreg.seen
  · rintro ⟨hids, hlen⟩
    obtain ⟨fi, hrun, hcounted⟩ := counted_of_inOrder hids hlen
    refine ⟨⟨fi, hrun, hcounted.nFiles, fun c hc => (hcounted.cells c hc).2⟩, ?_⟩
    rintro done rest rfl
    rw [List.length_append] at hlen
    have hdone : done.map AddFile.id = List.range done.length := by
      rw [List.map_append, List.length_append, List.range_add] at hids
      exact (List.append_inj hids (by simp)).1
    obtain ⟨fi', hrun', hcounted'⟩ := counted_of_inOrder hdone (by omega)
    exact ⟨fi', hrun', fun c hc => (hcounted'.cells c hc).1⟩

end Order

/-- The buffer thread with the second file gets its recorder first. -/
def swapped : List AddFile := [⟨1, 2, fhInmem ||| fhBusy, none⟩, ⟨0, 3, fhInmem ||| fhBusy, none⟩]

/-- The first two files of a recording in their order. -/
def ordered : List AddFile := [⟨0, 3, fhInmem ||| fhBusy, none⟩, ⟨1, 2, fhInmem ||| fhBusy, none⟩]

theorem registers_iff_ordered : Registers (afiAdd 0 afiRecord 5008) ordered :=
  (registers_iff (k := 2) (List.Perm.refl _)).mpr ⟨rfl, by decide⟩

/-- The second file is not counted when it comes first. -/
theorem registers_swapped : ¬ ∀ (k : ℕ) (calls : List AddFile),
    (calls.map AddFile.id).Perm (List.range k) → Registers (afiAdd 0 afiRecord 5008) calls := by
  intro hall
  have hreg := hall 2 swapped (List.Perm.swap 0 1 [])
  obtain ⟨hids, -⟩ := inOrder_of_seen rfl (by decide) hreg.seen
  exact absurd hids (by decide)

end VlbiStreamer.ActiveFileIndex
