import VlbiStreamer.Library.LinearProbing
import Mathlib.Data.Fin.Basic

/-!
# The table of recordings of the file system

`vbs_fs.c` shows the recordings on all drives as one directory.  What it knows
about a recording is a `file_index` in a table of `max_files` slots, in which
`vbs_hashfunction` looks names up.

* `Table n` is `vbs_data->fis` for `max_files = n`.  A slot is free when its
  status has no flag, which is what `memset` leaves.
* `Answer` is what `vbs_hashfunction` returns.  It also has what is no return:
  `strcmp` with the name of a slot that has none, and a probe that goes on when
  its fuel is used up.
* `slots` is the table as linear probing knows it, and `vbsHashfunction_stopsAt`
  and `vbsHashfunction_full` are what the probe does there.
-/

namespace VlbiStreamer.FuseIndex

open Library.LinearProbing

/-- The bytes of a C string, without the final zero. -/
abbrev Name := List UInt8

/-- The flags of `status` that are ever set. -/
structure Status where
  gotRefstat : Bool
  initialized : Bool
  noCfg : Bool
  notVbs : Bool
  found : Bool
  cfgParsed : Bool
  deriving DecidableEq, Repr

/-- `STATUS_SLOTFREE`. -/
def slotFree : Status := ⟨false, false, false, false, false, false⟩

/-- `struct file_index`: what the lookup of a recording reads. -/
structure FileIndex where
  filename : Option Name
  status : Status
  deriving DecidableEq, Repr

/-- `fi->status == STATUS_SLOTFREE`. -/
def FileIndex.isFree (fi : FileIndex) : Bool := fi.status == slotFree

/-- `memset(fi, 0, sizeof(struct file_index))`. -/
def cleared : FileIndex := ⟨none, slotFree⟩

@[simp] theorem isFree_cleared : cleared.isFree = true := rfl

/-- `vbs_data->fis`, with `max_files = n`. -/
abbrev Table (n : ℕ) := Fin n → FileIndex

/-- What `vbs_hashfunction` returns. -/
inductive Answer (n : ℕ) where
  | slot (value : Fin n)
  | minusOne
  /-- `strcmp` is called with a null pointer. -/
  | nullName
  /-- The probe has not ended. -/
  | endless
  deriving DecidableEq, Repr

variable {n : ℕ}

namespace Table

/-- `vbs_init` allocates the table. -/
def empty (n : ℕ) : Table n := fun _ => cleared

/-- `clear_recording(&fis[i])`. -/
def clearRecording (t : Table n) (i : Fin n) : Table n := Function.update t i cleared

/-- `add_file_to_index(filename, i, vbs_data)`. -/
def addFileToIndex (t : Table n) (filename : Name) (i : Fin n) : Table n :=
  Function.update t i ⟨some filename, { (t i).status with found := true }⟩

/-- Every occupied slot has a name. -/
def Named (t : Table n) : Prop := ∀ i, (t i).isFree = false → (t i).filename ≠ none

/-- The names by slot. -/
def slots (t : Table n) (i : Fin n) : Option Name :=
  if (t i).isFree then none else (t i).filename

/-- The name has a slot. -/
def Stored (t : Table n) (key : Name) : Prop := ∃ i, t.slots i = some key

variable {t : Table n} {key : Name} {i : Fin n} {goneover : Bool}

@[simp] theorem slots_empty : slots (empty n) = fun _ => none := rfl

theorem named_empty : Named (empty n) := fun i h => by simp [empty] at h

theorem Named.slots_eq_none_iff (h : t.Named) : t.slots i = none ↔ (t i).isFree = true := by
  unfold slots
  cases hfree : (t i).isFree with
  | true => simp
  | false => simpa using h i hfree

theorem slots_eq_some_iff :
    t.slots i = some key ↔ (t i).isFree = false ∧ (t i).filename = some key := by
  unfold slots
  cases (t i).isFree <;> simp

theorem slots_update (t : Table n) (i : Fin n) (fi : FileIndex) :
    slots (Function.update t i fi) =
      Function.update t.slots i (if fi.isFree then none else fi.filename) := by
  funext j
  by_cases h : j = i
  · subst h
    simp [slots]
  · simp [slots, h]

theorem slots_addFileToIndex (t : Table n) (name : Name) (i : Fin n) :
    (t.addFileToIndex name i).slots = Function.update t.slots i (some name) := by
  rw [addFileToIndex, slots_update]
  simp [FileIndex.isFree, slotFree]

theorem slots_clearRecording (t : Table n) (i : Fin n) :
    (t.clearRecording i).slots = Function.update t.slots i none := by
  rw [clearRecording, slots_update]
  rfl

/-! ## The probe -/

/-- `sum`: the bytes of the key, added up in a `uint64_t`. -/
def byteSum (key : Name) : ℕ := key.foldl (fun sum byte => (sum + byte.toNat) % 2 ^ 64) 0

/-- `sum % vbs_data->max_files`. -/
def home [NeZero n] (key : Name) : Fin n := Fin.ofNat n (byteSum key)

variable [NeZero n]

/-- The loop of `vbs_hashfunction`. -/
def probe (t : Table n) (key : Name) : ℕ → Fin n → Bool → Answer n
  | 0, _, _ => .endless
  | fuel + 1, value, goneover =>
      if (t value).isFree then .slot value
      else match (t value).filename with
        | none => .nullName
        | some name =>
            if name = key then .slot value
            else if h : value.val + 1 < n then probe t key fuel ⟨value.val + 1, h⟩ goneover
            -- going over the end of the table a second time gives up
            else if goneover then .minusOne
            else probe t key fuel 0 true

/-- `vbs_hashfunction(key, vbs_data, get_not_set)`. -/
def vbsHashfunction (t : Table n) (key : Name) (getNotSet : Bool) : Answer n :=
  if key = [] then .minusOne
  else if (t (home key)).isFree then
    if getNotSet then .minusOne else .slot (home key)
  else probe t key (2 * n) (home key) false

/-- The probe ends. -/
theorem probe_ne_endless (fuel : ℕ) (value : Fin n) (goneover : Bool)
    (hfuel : n - value.val + (if goneover then 0 else n) ≤ fuel) :
    t.probe key fuel value goneover ≠ .endless := by
  induction fuel generalizing value goneover with
  | zero => omega
  | succ fuel ih =>
      unfold probe
      split
      · simp
      · split
        · simp
        · split
          · simp
          · split
            next h => exact ih _ _ (by simp only; omega)
            next h =>
              split
              · simp
              next hover => exact ih _ _ (by simp [hover] at hfuel ⊢; omega)

/-- Every call of `vbs_hashfunction` ends. -/
theorem vbsHashfunction_ne_endless (t : Table n) (key : Name) (getNotSet : Bool) :
    t.vbsHashfunction key getNotSet ≠ .endless := by
  unfold vbsHashfunction
  split
  · simp
  · split
    · split <;> simp
    · exact probe_ne_endless _ _ _ (by simp only [Bool.false_eq_true, if_false]; omega)

/-- The probe ends at a slot that is free or has the key. -/
theorem probe_stop (fuel : ℕ) (h : t.Named) (hstop : t.slots i = none ∨ t.slots i = some key) :
    t.probe key (fuel + 1) i goneover = .slot i := by
  unfold probe
  rcases hstop with hfree | hkey
  · rw [if_pos (h.slots_eq_none_iff.mp hfree)]
  · obtain ⟨hfree, hname⟩ := slots_eq_some_iff.mp hkey
    simp [hfree, hname]

/-- It goes on at a slot that has another name. -/
theorem probe_pass (fuel : ℕ) (h : t.Named) (hfree : t.slots i ≠ none)
    (hkey : t.slots i ≠ some key) :
    t.probe key (fuel + 1) i goneover =
      if h : i.val + 1 < n then t.probe key fuel ⟨i.val + 1, h⟩ goneover
      else if goneover then .minusOne else t.probe key fuel 0 true := by
  have hocc : (t i).isFree = false := by
    rw [ne_eq, h.slots_eq_none_iff] at hfree
    simpa using hfree
  obtain ⟨name, hname⟩ := Option.ne_none_iff_exists'.mp (h i hocc)
  have hne : name ≠ key := fun heq => hkey (slots_eq_some_iff.mpr ⟨hocc, heq ▸ hname⟩)
  rw [probe]
  simp [hocc, hname, hne]

/-- The probe climbs to the slot where it ends. -/
theorem probe_climb (h : t.Named) (hstop : t.slots i = none ∨ t.slots i = some key)
    (fuel : ℕ) (value : Fin n) (hle : value ≤ i)
    (hpass : ∀ j, value ≤ j → j < i → t.slots j ≠ none ∧ t.slots j ≠ some key)
    (hfuel : i.val - value.val < fuel) :
    t.probe key fuel value goneover = .slot i := by
  induction fuel generalizing value with
  | zero => omega
  | succ fuel ih =>
      rcases eq_or_lt_of_le hle with heq | hlt
      · subst heq
        exact probe_stop fuel h hstop
      · have hsucc : value.val + 1 < n := by
          have := i.isLt
          have : value.val < i.val := hlt
          omega
        obtain ⟨hfree, hkey⟩ := hpass value le_rfl hlt
        rw [probe_pass fuel h hfree hkey, dif_pos hsucc]
        have hlt' : value.val < i.val := hlt
        refine ih _ (Fin.le_def.mpr (by simp only; omega)) (fun j hj => hpass j ?_) ?_
        · exact le_trans (Fin.le_def.mpr (by simp only; omega)) hj
        · simp only
          omega

/-- Otherwise it goes over the end of the table. -/
theorem probe_over (h : t.Named) (fuel rest : ℕ) (value : Fin n)
    (hpass : ∀ j, value ≤ j → t.slots j ≠ none ∧ t.slots j ≠ some key)
    (hfuel : fuel = n - value.val + rest) :
    t.probe key fuel value goneover =
      if goneover then .minusOne else t.probe key rest 0 true := by
  induction fuel generalizing value with
  | zero => omega
  | succ fuel ih =>
      obtain ⟨hfree, hkey⟩ := hpass value le_rfl
      rw [probe_pass fuel h hfree hkey]
      by_cases hsucc : value.val + 1 < n
      · rw [dif_pos hsucc]
        refine ih _ (fun j hj => hpass j ?_) (by simp only; omega)
        exact le_trans (Fin.le_def.mpr (by simp only; omega)) hj
      · rw [dif_neg hsucc]
        have : fuel = rest := by omega
        rw [this]

/-! ## What a lookup answers -/

/-- The answer where the walk for the key ends. -/
theorem vbsHashfunction_stopsAt (h : t.Named) (hkey : key ≠ [])
    (hs : StopsAt t.slots key (home key) i) (getNotSet : Bool) :
    t.vbsHashfunction key getNotSet =
      if getNotSet ∧ t.slots (home key) = none then .minusOne else .slot i := by
  unfold vbsHashfunction
  rw [if_neg hkey]
  by_cases hfree : (t (home key)).isFree = true
  · have hnone : t.slots (home key) = none := h.slots_eq_none_iff.mpr hfree
    obtain rfl := hs.unique (StopsAt.of_free hnone)
    cases getNotSet <;> simp [hfree, hnone]
  · have hsome : t.slots (home key) ≠ none := fun hnone =>
      hfree (h.slots_eq_none_iff.mp hnone)
    rw [if_neg hfree, if_neg (fun hand => hsome hand.2)]
    have hpass : ∀ j, steps (home key) j < steps (home key) i →
        t.slots j ≠ none ∧ t.slots j ≠ some key := hs.passes
    by_cases hle : home key ≤ i
    · -- the walk does not leave the table
      refine probe_climb h hs.stops _ _ hle (fun j hj hji => hpass j ?_) ?_
      · simp only [steps, if_pos hj, if_pos hle]
        have : j.val < i.val := hji
        have : (home key).val ≤ j.val := hj
        omega
      · omega
    · -- the walk goes over the end of the table once and climbs from its start
      have hlt : i.val < (home key : Fin n).val := not_le.mp hle
      rw [probe_over h _ (n + (home key : Fin n).val) _ (fun j hj => hpass j ?_) (by omega)]
      · rw [if_neg (by simp)]
        refine probe_climb h hs.stops _ _ (Fin.zero_le _) (fun j _ hji => hpass j ?_) ?_
        · have hji' : j.val < i.val := hji
          have hj : ¬ home key ≤ j := fun hle' => absurd (Fin.le_def.mp hle') (by omega)
          simp only [steps, if_neg hj, if_neg hle]
          omega
        · simp only [Fin.val_zero]
          omega
      · simp only [steps, if_pos hj, if_neg hle]
        have : (home key : Fin n).val ≤ j.val := hj
        omega

/-- The answer where every slot has another name. -/
theorem vbsHashfunction_full (h : t.Named)
    (hfull : ∀ j, t.slots j ≠ none ∧ t.slots j ≠ some key) (getNotSet : Bool) :
    t.vbsHashfunction key getNotSet = .minusOne := by
  unfold vbsHashfunction
  split
  · rfl
  · have hocc : ¬ (t (home key)).isFree = true := fun hfree =>
      (hfull (home key)).1 (h.slots_eq_none_iff.mpr hfree)
    rw [if_neg hocc, probe_over h _ (n + (home key : Fin n).val) _ (fun j _ => hfull j) (by omega),
      if_neg (by simp), probe_over h _ (home key : Fin n).val 0 (fun j _ => hfull j) (by simp),
      if_pos rfl]

end Table

end VlbiStreamer.FuseIndex
