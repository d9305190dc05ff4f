import VlbiStreamer.Config.CheckMode
import VlbiStreamer.Config.EventStart

/-!
# What a configuration gives

A configuration is read setting by setting: each one that is taken assigns its value, so
that the last one counts, and the first one that is not taken ends the reading.  Only a
name that is not known still has an effect there, as the bits of the name before it are
cleared.

`setFromRoot_reading` states this for `set_from_root`, with the division at its end, and
`drivesLoop_eq` for the files of a recording: one is read, and of all others only what
the check stores is left.

No string that is read from a file is `NULL`, which is the assumption `FromFile`.
-/

namespace VlbiStreamer.Config

/-! ## One setting -/

/-- A configuration that was read from a file. -/
def FromFile (root : List Setting) : Prop := ∀ s ∈ root, s.value ≠ .string none

instance (root : List Setting) : Decidable (FromFile root) :=
  inferInstanceAs (Decidable (∀ s ∈ root, s.value ≠ .string none))

/-- What a ready system has on its drive. -/
theorem fromFile_ready {root : List Setting} (h : FromFile root) (i : ℕ) (name : Option String)
    (root' : List Setting) (hsome : (Env.ready root).configs i name = some root') :
    FromFile root' := by
  obtain hnone | hroot := configs_ready root name i
  · exact absurd (hnone.symm.trans hsome) nofun
  · injection hroot.symm.trans hsome with heq
    exact heq ▸ h

/-- The values that a key takes. -/
def Key.reads : Key → Value → Bool
  | uint64 _, .int64 _ | startingTime, .int64 _ => true
  | int _, .int _ | boolean _, .int _ | filesizemb, .int _ | record, .int _ => true
  | str _, .string (some _) => true
  | writer, .string (some s) => (writerChoices.lookup s).isSome
  | capture, .string (some s) => (captureChoices.lookup s).isSome
  | datatype, .string (some s) => (datatypeChoices.lookup s).isSome
  | _, _ => false

/-- The options with another name in the bits of a mask. -/
def named (mask : BitVec 64) (choices : List (String × (Opt → Opt))) (opt : Opt)
    (s : String) : Opt :=
  match choices.lookup s with
  | some choose => choose (opt.clearBits mask)
  | none => opt.clearBits mask

/-- What a key assigns. -/
def Key.assigned : Key → Opt → Value → Opt
  | uint64 f, opt, .int64 v => f.set v opt
  | int f, opt, .int v => f.set v opt
  | str f, opt, .string (some s) => f.set (some s) opt
  | boolean flag, opt, .int v => if v = 1 then opt.setBits flag else opt.clearBits flag
  | filesizemb, opt, .int v => { opt with filesize := Opt.long v * meg }
  | record, opt, .int v => if v = 1 then opt.clearBits readmode else opt.setBits readmode
  | startingTime, opt, .int64 v => { opt with startingTime := v }
  | writer, opt, .string (some s) => named lockerRec writerChoices opt s
  | capture, opt, .string (some s) => named lockerCapture captureChoices opt s
  | datatype, opt, .string (some s) => named lockerDatatype datatypeChoices opt s
  | _, opt, _ => opt

/-- The settings that are taken. -/
def Setting.reads (logToFile : String → Bool) (s : Setting) : Bool :=
  if s.name = "logfile" then !unopened logToFile s
  else if s.name = "filesize" then s.value.type = .int64
  else (keys.lookup s.name).all (·.reads s.value)

/-- What a setting assigns. -/
def assigned (opt : Opt) (s : Setting) : Opt :=
  match keys.lookup s.name with
  | some key => key.assigned opt s.value
  | none => opt

/-- A name is read into the bits of its mask. -/
theorem cfgNames_reading (mask : BitVec 64) (choices : List (String × (Opt → Opt)))
    (names : List (BitVec 64 × String)) (opt : Opt) (s : String) :
    cfgNames mask choices names .read opt (.string (some s)) =
      if (choices.lookup s).isSome then .next (named mask choices opt s) (.string (some s))
      else .fail (named mask choices opt s) := by
  simp only [cfgNames, Mode.read, Bool.false_eq_true, if_false, named]
  cases choices.lookup s <;> rfl

/-- The reading of a key. -/
theorem Key.handle_reading (key : Key) (opt : Opt) (v : Value) (h : v ≠ .string none) :
    key.handle .read opt v =
      if key.reads v then .next (key.assigned opt v) v else .fail (key.assigned opt v) := by
  cases v with
  | string v =>
    cases v with
    | none => exact absurd rfl h
    | some s =>
      cases key with
      | writer | capture | datatype =>
        simp only [handle, Config.writer, Config.capture, Config.datatype, cfgNames_reading]
        rfl
      | _ => rfl
  | _ => cases key <;> rfl

/-- **The reading of a setting.** -/
theorem handle_reading (logToFile : String → Bool) (opt : Opt) (s : Setting)
    (h : s.value ≠ .string none) :
    handle logToFile .read opt s =
      if s.reads logToFile then .next (assigned opt s) s.value else .fail (assigned opt s) := by
  obtain ⟨name, v⟩ := s
  by_cases hlog : name = "logfile"
  · subst hlog
    have hassigned : assigned opt ⟨"logfile", v⟩ = opt := by simp [assigned]
    rw [hassigned]
    cases v with
    | string v =>
      cases v with
      | none => exact absurd rfl h
      | some path =>
        cases ho : logToFile path <;> simp [handle, logfile, Setting.reads, unopened, ho]
    | _ => simp [handle, logfile, Setting.reads, unopened]
  by_cases hsize : name = "filesize"
  · subst hsize
    have hassigned : assigned opt ⟨"filesize", v⟩ = opt := by simp [assigned]
    rw [hassigned]
    cases v <;> rfl
  cases hkey : keys.lookup name with
  | none => simp [handle, handleKey, hlog, hsize, hkey, Setting.reads, assigned]
  | some key =>
    simp [handle, handleKey, hlog, hsize, hkey, Setting.reads, assigned,
      key.handle_reading opt v h]

/-! ## A group -/

section Group

variable (logToFile : String → Bool)

/-- The options after the settings up to the first one that is not taken. -/
def assigning : Opt → List Setting → Opt
  | opt, [] => opt
  | opt, s :: rest =>
      if s.reads logToFile then assigning (assigned opt s) rest else assigned opt s

/-- The last `filesize`. -/
def filesizeGiven (root : List Setting) : Option (BitVec 64) :=
  root.foldl (fun found s => filesizeRead .read s found) none

/-- All settings are taken. -/
def accepted (root : List Setting) : Bool := root.all (·.reads logToFile)

/-- A `filesize` is divided by zero. -/
def dividesByZero (opt : Opt) (root : List Setting) : Bool :=
  accepted logToFile root && (filesizeGiven root).isSome &&
    ((assigning logToFile opt root).packetSize = 0 ||
      (assigning logToFile opt root).bufDivision = 0)

/-- The options that a configuration gives. -/
def given (opt : Opt) (root : List Setting) : Opt :=
  match accepted logToFile root, filesizeGiven root with
  | true, some filesize => { assigning logToFile opt root with
      bufNumElems := (filesize / (assigning logToFile opt root).packetSize).setWidth 32
      doWStuffEvery := filesize / Opt.long (assigning logToFile opt root).bufDivision }
  | _, _ => assigning logToFile opt root

variable {logToFile}

theorem settingsLoop_reading {root : List Setting} (hfile : FromFile root) (opt : Opt)
    (found : Option (BitVec 64)) :
    settingsLoop logToFile .read opt found root =
      if accepted logToFile root then
        .finished (assigning logToFile opt root)
          (root.foldl (fun found s => filesizeRead .read s found) found) root
      else .failed (assigning logToFile opt root) := by
  induction root generalizing opt found with
  | nil => rfl
  | cons s rest ih =>
    have hrest := ih (fun t ht => hfile t (List.mem_cons_of_mem s ht)) (assigned opt s)
      (filesizeRead .read s found)
    rw [settingsLoop, handle_reading logToFile opt s (hfile s List.mem_cons_self)]
    cases hs : s.reads logToFile with
    | false => simp [accepted, assigning, hs]
    | true =>
      have haccepted : accepted logToFile (s :: rest) = accepted logToFile rest := by
        simp [accepted, hs]
      simp only [if_true, hrest, haccepted, assigning, hs, List.foldl_cons]
      cases accepted logToFile rest <;> rfl

/-- **A configuration that is read** gives its values, unless its `filesize` is divided by
zero. -/
theorem setFromRoot_reading {root : List Setting} (hfile : FromFile root) (opt : Opt) :
    setFromRoot logToFile .read opt root =
      if dividesByZero logToFile opt root then .crashed .divideByZero
      else .returned (if accepted logToFile root then 0 else -1) (given logToFile opt root)
        root := by
  rw [setFromRoot, settingsLoop_reading hfile opt none]
  unfold dividesByZero given filesizeGiven
  cases accepted logToFile root with
  | false => rfl
  | true =>
    cases hsize : root.foldl (fun found s => filesizeRead .read s found) none with
    | none => simp
    | some filesize =>
      simp only [if_true, long_eq_zero_iff]
      by_cases hp : (assigning logToFile opt root).packetSize = 0
      · rw [if_pos hp, if_pos (by simp [hp])]
      by_cases hd : (assigning logToFile opt root).bufDivision = 0
      · rw [if_neg hp, if_pos hd, if_pos (by simp [hd])]
      · rw [if_neg hp, if_neg hd, if_neg (by simpa using ⟨hp, hd⟩)]

end Group

/-! ## The option that nobody reads -/

/-- A name only changes bits. -/
theorem named_offsetOnwrite {mask : BitVec 64} {choices : List (String × (Opt → Opt))}
    (h : ∀ c ∈ choices, ∀ opt, (c.2 opt).offsetOnwrite = opt.offsetOnwrite) (opt : Opt)
    (s : String) : (named mask choices opt s).offsetOnwrite = opt.offsetOnwrite := by
  unfold named
  cases hs : choices.lookup s with
  | none => rfl
  | some choose =>
    obtain ⟨before, after, heq, -⟩ := List.lookup_eq_some_iff.mp hs
    exact h (s, choose) (by simp [heq]) (opt.clearBits mask)

/-- The fields that a key sets are others than `offset_onwrite`. -/
def Key.LeavesOffsetOnwrite : Key → Prop
  | uint64 f => ∀ v opt, (f.set v opt).offsetOnwrite = opt.offsetOnwrite
  | int f => ∀ v opt, (f.set v opt).offsetOnwrite = opt.offsetOnwrite
  | str f => ∀ v opt, (f.set v opt).offsetOnwrite = opt.offsetOnwrite
  | _ => True

theorem leavesOffsetOnwrite_of_mem : ∀ p ∈ keys, p.2.LeavesOffsetOnwrite := by
  simp [keys, Key.LeavesOffsetOnwrite, packetSizeField]

/-- A key assigns to its own field, to the bits, or to two fields by name. -/
theorem Key.LeavesOffsetOnwrite.assigned {key : Key} (h : key.LeavesOffsetOnwrite) (opt : Opt)
    (v : Value) : (key.assigned opt v).offsetOnwrite = opt.offsetOnwrite := by
  unfold Key.assigned
  split
  · exact h _ opt
  · exact h _ opt
  · exact h _ opt
  · split <;> rfl
  · rfl
  · split <;> rfl
  · rfl
  · exact named_offsetOnwrite (by simp [writerChoices, Opt.setBits, Opt.clearBits]) opt _
  · exact named_offsetOnwrite (by simp [captureChoices, Opt.setBits]) opt _
  · exact named_offsetOnwrite (by simp [datatypeChoices, Opt.setBits]) opt _
  · rfl

theorem assigned_offsetOnwrite (opt : Opt) (s : Setting) :
    (assigned opt s).offsetOnwrite = opt.offsetOnwrite := by
  unfold assigned
  cases hkey : keys.lookup s.name with
  | none => rfl
  | some key => exact (leavesOffsetOnwrite_of_mem _ (mem_of_lookup hkey)).assigned opt s.value

/-- **No configuration gives an `offset_onwrite`.** -/
theorem given_offsetOnwrite (logToFile : String → Bool) (opt : Opt) (root : List Setting) :
    (given logToFile opt root).offsetOnwrite = opt.offsetOnwrite := by
  have hassigning : (assigning logToFile opt root).offsetOnwrite = opt.offsetOnwrite := by
    induction root generalizing opt with
    | nil => rfl
    | cons s rest ih =>
      rw [assigning]
      split
      · rw [ih, assigned_offsetOnwrite]
      · exact assigned_offsetOnwrite opt s
  rw [← hassigning]
  unfold given
  split <;> rfl

/-- An event has the `offset_onwrite` of the default options, and these have 0. -/
theorem scheduled_offsetOnwrite {logToFile : String → Bool} {fresh : String} {default opt : Opt}
    {entry : List Setting} (hentry : FromFile entry)
    (h : addRecording logToFile fresh default entry = .scheduled opt) :
    opt.offsetOnwrite = default.offsetOnwrite := by
  have hgiven := given_offsetOnwrite logToFile (freshOpt fresh default) entry
  rw [addRecording, setFromRoot_reading hentry] at h
  split at h
  · cases h
  · rename_i ret opt₁ root heq
    split at heq
    · cases heq
    · injection heq with hret hopt
      subst hopt
      split at h
      · cases h
      · split at h <;> injection h with h <;> exact h ▸ hgiven

/-! ## The files of a recording -/

section Drives

/-- The drives from `i` on. -/
def drivesFrom (opt : Opt) (i : ℕ) : List ℕ := List.range' i (opt.nDrives.toInt.toNat - i)

/-- The first configuration from drive `i` on, with its drive. -/
def firstConfig (configs : ℕ → Option String → Option (List Setting)) (opt : Opt) (i : ℕ) :
    Option (ℕ × List Setting) :=
  (drivesFrom opt i).findSome? fun j => (configs j opt.filename).map (j, ·)

/-- The settings that pass the check in the configurations from drive `i` on. -/
def laterSettings (logToFile : String → Bool)
    (configs : ℕ → Option String → Option (List Setting)) (opt : Opt) (i : ℕ) : List Setting :=
  ((drivesFrom opt i).filterMap (configs · opt.filename)).flatMap (passed logToFile opt)

variable {env : Env} {opt : Opt}

theorem drivesFrom_eq_nil {i : ℕ} (h : ¬ (i : ℤ) < opt.nDrives.toInt) : drivesFrom opt i = [] := by
  have hlen : opt.nDrives.toInt.toNat - i = 0 := by omega
  rw [drivesFrom, hlen, List.range'_zero]

theorem drivesFrom_eq_cons {i : ℕ} (h : (i : ℤ) < opt.nDrives.toInt) :
    drivesFrom opt i = i :: drivesFrom opt (i + 1) := by
  have hlen : opt.nDrives.toInt.toNat - i = opt.nDrives.toInt.toNat - (i + 1) + 1 := by omega
  rw [drivesFrom, hlen, List.range'_succ]
  rfl

/-- **All further configurations are checked.**  What is left of them is what the check
stores. -/
theorem drivesLoop_checked {opt' : Opt} (h : opt.Alike opt') (i : ℕ) :
    drivesLoop env i true opt' =
      if (laterSettings env.logToFile env.configs opt i).any (nullString opt) then
        .crashed .nullString
      else .finished true ((laterSettings env.logToFile env.configs opt i).foldl stored opt') := by
  induction hk : opt.nDrives.toInt.toNat - i generalizing i opt' with
  | zero =>
    have hi : ¬ (i : ℤ) < opt.nDrives.toInt := by omega
    rw [drivesLoop_end (by rwa [h.nDrives_eq]), laterSettings, drivesFrom_eq_nil hi]
    rfl
  | succ k ih =>
    have hi : (i : ℤ) < opt.nDrives.toInt := by omega
    have hi' : (i : ℤ) < opt'.nDrives.toInt := by rwa [h.nDrives_eq]
    cases hconfig : env.configs i opt.filename with
    | none =>
      have hlater : laterSettings env.logToFile env.configs opt i =
          laterSettings env.logToFile env.configs opt (i + 1) := by
        simp only [laterSettings, drivesFrom_eq_cons hi, List.filterMap_cons, hconfig]
      rw [drivesLoop_none hi' (by rwa [h.filename_eq]), hlater]
      exact ih h (i + 1) (by omega)
    | some root =>
      have hlater : laterSettings env.logToFile env.configs opt i =
          passed env.logToFile opt root ++ laterSettings env.logToFile env.configs opt (i + 1) := by
        simp only [laterSettings, drivesFrom_eq_cons hi, List.filterMap_cons, hconfig,
          List.flatMap_cons]
      have hsome : env.configs i opt'.filename = some root := by rwa [h.filename_eq]
      have hcheck : setFromRoot env.logToFile .checking opt' root = _ := setFromRoot_checking h
      rw [hlater, List.any_append, List.foldl_append]
      cases hnull : (passed env.logToFile opt root).any (nullString opt) with
      | true =>
        rw [hnull, if_pos rfl] at hcheck
        rw [drivesLoop_check_crash hi' hsome hcheck]
        rfl
      | false =>
        rw [hnull, if_neg Bool.false_ne_true] at hcheck
        rw [drivesLoop_check hi' hsome hcheck, Bool.false_or]
        exact ih (h.foldl_stored _) (i + 1) (by omega)

/-- The configuration that is read is on one of the drives. -/
theorem firstConfig_eq_some {i j : ℕ} {root : List Setting}
    (h : firstConfig env.configs opt i = some (j, root)) :
    (j : ℤ) < opt.nDrives.toInt ∧ env.configs j opt.filename = some root := by
  obtain ⟨j', hj', hmap⟩ := List.exists_of_findSome?_eq_some h
  obtain ⟨root', hroot, heq⟩ := Option.map_eq_some_iff.mp hmap
  injection heq with hj hroot'
  subst hj hroot'
  have hrange := List.mem_range'_1.mp hj'
  exact ⟨by omega, hroot⟩

/-- A configuration on one of the drives is found, or another one before it. -/
theorem firstConfig_isSome {i j : ℕ} {root : List Setting} (hij : i ≤ j)
    (hj : (j : ℤ) < opt.nDrives.toInt) (hroot : env.configs j opt.filename = some root) :
    (firstConfig env.configs opt i).isSome := by
  have hmem : j ∈ drivesFrom opt i := List.mem_range'_1.mpr ⟨hij, by omega⟩
  exact List.findSome?_isSome_iff.mpr ⟨j, hmem, by simp [hroot]⟩

/-- The drives without a configuration are passed over. -/
theorem drivesLoop_first (i : ℕ) :
    drivesLoop env i false opt =
      match firstConfig env.configs opt i with
      | some (j, _) => drivesLoop env j false opt
      | none => .finished false opt := by
  induction hk : opt.nDrives.toInt.toNat - i generalizing i with
  | zero =>
    have hi : ¬ (i : ℤ) < opt.nDrives.toInt := by omega
    rw [drivesLoop_end hi, firstConfig, drivesFrom_eq_nil hi]
    rfl
  | succ k ih =>
    have hi : (i : ℤ) < opt.nDrives.toInt := by omega
    rw [firstConfig, drivesFrom_eq_cons hi, List.findSome?_cons]
    cases hconfig : env.configs i opt.filename with
    | none =>
      rw [drivesLoop_none hi hconfig]
      exact ih (i + 1) (by omega)
    | some root => rfl

/-- The options of a reader after the first configuration. -/
def firstLoaded (logToFile : String → Bool) (opt : Opt) (root : List Setting) : Opt :=
  { given logToFile opt root with
    bufNumElems := ((given logToFile opt root).filesize /
      (given logToFile opt root).packetSize).setWidth 32 }

/-- The configuration of a recording is read from drive `j`, and the others are checked. -/
def loadFrom (env : Env) (opt : Opt) (j : ℕ) (root : List Setting) : Drives :=
  let loaded := firstLoaded env.logToFile opt root
  let later := laterSettings env.logToFile env.configs loaded (j + 1)
  if dividesByZero env.logToFile opt root then .crashed .divideByZero
  else if !env.indexed then .notIndexed (given env.logToFile opt root)
  else if loaded.packetSize = 0 then .crashed .divideByZero
  else if later.any (nullString loaded) then .crashed .nullString
  else .finished true (later.foldl stored loaded)

/-- **The files of a recording.**  The first configuration is read, the others are
checked. -/
theorem drivesLoop_eq
    (hfiles : ∀ i name root, env.configs i name = some root → FromFile root) :
    drivesLoop env 0 false opt =
      match firstConfig env.configs opt 0 with
      | none => .finished false opt
      | some (j, root) => loadFrom env opt j root := by
  rw [drivesLoop_first]
  cases hfirst : firstConfig env.configs opt 0 with
  | none => rfl
  | some p =>
    obtain ⟨j, root⟩ := p
    obtain ⟨hj, hsome⟩ := firstConfig_eq_some hfirst
    have hread : setFromRoot env.logToFile .read opt root = _ :=
      setFromRoot_reading (hfiles j opt.filename root hsome) opt
    dsimp only [loadFrom]
    cases hdiv : dividesByZero env.logToFile opt root with
    | true =>
      rw [hdiv, if_pos rfl] at hread
      rw [drivesLoop_read_crash hj hsome hread]
      rfl
    | false =>
      rw [hdiv, if_neg Bool.false_ne_true] at hread
      rw [drivesLoop_read hj hsome hread, if_neg Bool.false_ne_true]
      congr 2
      exact drivesLoop_checked (Opt.Alike.refl _) (j + 1)

end Drives

end VlbiStreamer.Config
