import VlbiStreamer.Config.Options

/-!
# The start of an event

`add_recording` puts the entry of a schedule over the default options.  When its time has
come, `start_event` prepares the event with `init_cfg`, which for a reader goes through the
configuration files of the recording, and computes the number of packets in a file.

What the rest of the program and of the system answer is an `Env`: the configuration files
that are found, whether the file index takes the recording, and whether the last part of
`start_event` (memory, mutexes and the thread) succeeds.
-/

namespace VlbiStreamer.Config

/-- What an event meets when it is started. -/
structure Env where
  /-- `log_to_file` can open the file. -/
  logToFile : String → Bool
  /-- The configuration of a recording on a drive, where it can be read. -/
  configs : ℕ → Option String → Option (List Setting)
  /-- `afi_add` returns an index. -/
  indexed : Bool
  /-- The packet size in the index of a recording that is live. -/
  live : Option String → Option (BitVec 64)
  /-- What `start_event` does at its end succeeds. -/
  launched : Bool

/-! ## The schedule -/

/-- What a schedule entry comes to. -/
inductive Added where
  /-- The event waits for its start. -/
  | scheduled (opt : Opt)
  /-- `"Broken schedule config. Not scheduling"` -/
  | refused
  | crashed (reason : Crash)

/-- The default options after `clear_pointers`; the two strings have memory that holds `fresh`. -/
def freshOpt (fresh : String) (default : Opt) : Opt :=
  { default with
    filename := some fresh
    addressToBindTo := none
    hostname := none
    disk2fileoutput := some fresh }

/-- `add_recording`, for an entry of the schedule. -/
def addRecording (logToFile : String → Bool) (fresh : String) (default : Opt)
    (root : List Setting) : Added :=
  match setFromRoot logToFile .read (freshOpt fresh default) root with
  | .crashed reason => .crashed reason
  | .returned ret opt _ =>
      if ret ≠ 0 then .refused
      else if opt.has captureWDisk2file then .scheduled opt
      else .scheduled { opt with disk2fileoutput := none }

/-! ## The files of a recording -/

/-- What the loop over the drives comes to. -/
inductive Drives where
  /-- All drives were looked at. -/
  | finished (found : Bool) (opt : Opt)
  /-- `break`, as there is no index. -/
  | notIndexed (opt : Opt)
  | crashed (reason : Crash)

/-- A drive has a number that is an `int`. -/
theorem lt_of_lt_toInt {i : ℕ} {n : BitVec 32} (h : (i : ℤ) < n.toInt) : i < 2 ^ 31 := by
  have hn : n.toInt < 2 ^ 31 := BitVec.toInt_lt
  omega

/-- The loop of `init_cfg`, from drive `i`.  The first configuration is read and all others
are checked; `n_drives` is looked up in each round. -/
def drivesLoop (env : Env) (i : ℕ) (found : Bool) (opt : Opt) : Drives :=
  if h : (i : ℤ) < opt.nDrives.toInt then
    have : i < 2 ^ 31 := lt_of_lt_toInt h
    match env.configs i opt.filename with
    | none => drivesLoop env (i + 1) found opt
    | some root =>
        if found then
          -- a discrepancy is only logged
          match setFromRoot env.logToFile .checking opt root with
          | .crashed reason => .crashed reason
          | .returned _ opt _ => drivesLoop env (i + 1) true opt
        else
          match setFromRoot env.logToFile .read opt root with
          | .crashed reason => .crashed reason
          | .returned _ opt _ =>
              if !env.indexed then .notIndexed opt
              else if opt.packetSize = 0 then .crashed .divideByZero
              else drivesLoop env (i + 1) true
                { opt with bufNumElems := (opt.filesize / opt.packetSize).setWidth 32 }
  else .finished found opt
termination_by 2 ^ 31 - i
decreasing_by all_goals omega

/-! ## `init_cfg` -/

/-- What `init_cfg` and `start_event` come to. -/
inductive Step where
  | returned (ret : ℤ) (opt : Opt)
  | crashed (reason : Crash)

/-- `WRITEND_USES_DIRECTIO` -/
def Opt.writendUsesDirectio (opt : Opt) : Bool := opt.has (recAio ||| recDef)

/-- The condition of the branch for a single file. -/
def Opt.aligns (opt : Opt) : Bool := opt.has writeToSingleFile && opt.writendUsesDirectio

/-- `opt->packet_size - opt->offset` -/
def Opt.payload (opt : Opt) : BitVec 64 := opt.packetSize - Opt.long opt.offset

/-- `while (opt->buf_num_elems > 0 && CALC_BUFSIZE_FROM_OPT(opt) % BLOCK_ALIGN != 0)
opt->buf_num_elems--;` -/
def alignedElems (payload : BitVec 64) : ℕ → ℕ
  | 0 => 0
  | n + 1 =>
      if BitVec.ofNat 64 (n + 1) * payload % 4096 ≠ 0 then alignedElems payload n else n + 1

/-- The branch for a single file, which has to write whole blocks. -/
def alignSingleFile (ret : ℤ) (opt : Opt) : Step :=
  if opt.aligns then
    if opt.payload = 0 then .crashed .divideByZero
    else
      let bufNumElems := alignedElems opt.payload
        ((opt.filesize / opt.payload).setWidth 32 : BitVec 32).toNat
      let opt := { opt with bufNumElems := BitVec.ofNat 32 bufNumElems }
      if bufNumElems = 0 then .returned (-1) opt
      else .returned ret { opt with filesize := BitVec.ofNat 64 bufNumElems * opt.payload }
  else .returned ret opt

/-- `init_cfg` after its loop over the drives. -/
def Drives.thenAlign (env : Env) : Drives → Step
  | .crashed reason => .crashed reason
  | .notIndexed opt => alignSingleFile (-1) opt
  | .finished true opt => alignSingleFile 0 opt
  | .finished false opt =>
      match env.live opt.filename with
      | some packetSize => alignSingleFile 0 { opt with packetSize := packetSize }
      | none => alignSingleFile (-1) opt

/-- `init_cfg` -/
def initCfg (env : Env) (opt : Opt) : Step :=
  if opt.has readmode then (drivesLoop env 0 false opt).thenAlign env
  else alignSingleFile (if env.indexed then 0 else -1) opt

/-! ## `start_event` -/

/-- What the size of the files is divided by. -/
def Opt.divisor (opt : Opt) : BitVec 64 :=
  if opt.has readmode ∧ opt.offsetOnwrite ≠ 0 then opt.packetSize + Opt.long opt.offsetOnwrite
  else opt.packetSize

/-- `start_event` after `init_cfg`. -/
def Step.thenLaunch (launched : Bool) : Step → Step
  | .crashed reason => .crashed reason
  | .returned ret opt =>
      if ret ≠ 0 then .returned (-1) opt
      else if opt.divisor = 0 then .crashed .divideByZero
      else .returned (if launched then 0 else -1)
        { opt with bufNumElems := (opt.filesize / opt.divisor).setWidth 32 }

/-- `start_event` -/
def startEvent (env : Env) (opt : Opt) : Step :=
  (if opt.has captureWLocalsocket then .returned 0 opt else initCfg env opt).thenLaunch
    env.launched

/-- Only the `int` 0 is the `long` 0. -/
theorem long_eq_zero_iff (x : BitVec 32) : Opt.long x = 0 ↔ x = 0 := by
  rw [← BitVec.toInt_inj, ← BitVec.toInt_inj, Opt.long, BitVec.toInt_signExtend_of_le (by decide)]
  rfl

/-- An `int` that is not negative keeps its value. -/
theorem toNat_long {x : BitVec 32} (h : 0 ≤ x.toInt) : (Opt.long x).toNat = x.toInt.toNat := by
  have hlong : (Opt.long x).toInt = x.toInt := BitVec.toInt_signExtend_of_le (by decide)
  rw [BitVec.toInt_eq_toNat_cond] at hlong
  have hlt := (Opt.long x).isLt
  split at hlong <;> omega

/-! ## Rounds of the loop over the drives -/

section Rounds

variable {env : Env} {i : ℕ} {found : Bool} {opt opt' : Opt} {root root' : List Setting} {ret : ℤ}

theorem drivesLoop_end (h : ¬ (i : ℤ) < opt.nDrives.toInt) :
    drivesLoop env i found opt = .finished found opt := by
  rw [drivesLoop, dif_neg h]

theorem drivesLoop_none (h : (i : ℤ) < opt.nDrives.toInt)
    (hnone : env.configs i opt.filename = none) :
    drivesLoop env i found opt = drivesLoop env (i + 1) found opt := by
  rw [drivesLoop, dif_pos h, hnone]

theorem drivesLoop_check (h : (i : ℤ) < opt.nDrives.toInt)
    (hsome : env.configs i opt.filename = some root)
    (hcheck : setFromRoot env.logToFile .checking opt root = .returned ret opt' root') :
    drivesLoop env i true opt = drivesLoop env (i + 1) true opt' := by
  rw [drivesLoop, dif_pos h, hsome]
  simp only [if_true, hcheck]

theorem drivesLoop_check_crash {reason : Crash} (h : (i : ℤ) < opt.nDrives.toInt)
    (hsome : env.configs i opt.filename = some root)
    (hcheck : setFromRoot env.logToFile .checking opt root = .crashed reason) :
    drivesLoop env i true opt = .crashed reason := by
  rw [drivesLoop, dif_pos h, hsome]
  simp only [if_true, hcheck]

theorem drivesLoop_read_crash {reason : Crash} (h : (i : ℤ) < opt.nDrives.toInt)
    (hsome : env.configs i opt.filename = some root)
    (hread : setFromRoot env.logToFile .read opt root = .crashed reason) :
    drivesLoop env i false opt = .crashed reason := by
  rw [drivesLoop, dif_pos h, hsome]
  simp only [Bool.false_eq_true, if_false, hread]

theorem drivesLoop_read (h : (i : ℤ) < opt.nDrives.toInt)
    (hsome : env.configs i opt.filename = some root)
    (hread : setFromRoot env.logToFile .read opt root = .returned ret opt' root') :
    drivesLoop env i false opt =
      if !env.indexed then .notIndexed opt'
      else if opt'.packetSize = 0 then .crashed .divideByZero
      else drivesLoop env (i + 1) true
        { opt' with bufNumElems := (opt'.filesize / opt'.packetSize).setWidth 32 } := by
  rw [drivesLoop, dif_pos h, hsome]
  simp only [Bool.false_eq_true, if_false, hread]

/-- Configurations that agree with the options leave them, on whatever drives they are. -/
theorem drivesLoop_agree
    (hconfigs : ∀ i, env.configs i opt.filename = none ∨ env.configs i opt.filename = some root)
    (hcheck : setFromRoot env.logToFile .checking opt root = .returned ret opt root) (i : ℕ) :
    drivesLoop env i true opt = .finished true opt := by
  induction hk : (opt.nDrives.toInt - i).toNat generalizing i with
  | zero => exact drivesLoop_end (by omega)
  | succ k ih =>
    have hi : (i : ℤ) < opt.nDrives.toInt := by omega
    have hrest := ih (i + 1) (by omega)
    obtain hnone | hsome := hconfigs i
    · rw [drivesLoop_none hi hnone, hrest]
    · rw [drivesLoop_check hi hsome hcheck, hrest]

end Rounds

/-! ## Whole blocks -/

/-- The smallest number of packets that are whole blocks together. -/
def blockElems (payload : ℕ) : ℕ := 4096 / Nat.gcd 4096 payload

theorem blockElems_dvd_iff (payload n : ℕ) : blockElems payload ∣ n ↔ 4096 ∣ n * payload := by
  have hg : 0 < Nat.gcd 4096 payload := Nat.gcd_pos_of_pos_left payload (by decide)
  have hblock : Nat.gcd 4096 payload * blockElems payload = 4096 :=
    Nat.mul_div_cancel' (Nat.gcd_dvd_left 4096 payload)
  calc blockElems payload ∣ n
      ↔ Nat.gcd 4096 payload * blockElems payload ∣ Nat.gcd 4096 payload * n :=
        (Nat.mul_dvd_mul_iff_left hg).symm
    _ ↔ 4096 ∣ n * Nat.gcd 4096 payload := by rw [hblock, Nat.mul_comm]
    _ ↔ 4096 ∣ n * payload := Nat.dvd_mul_gcd_iff_dvd_mul

/-- **The loop for a single file** leaves the largest number of packets that are whole
blocks. -/
theorem alignedElems_eq (payload : BitVec 64) (n : ℕ) (h : n * payload.toNat < 2 ^ 64) :
    alignedElems payload n = n / blockElems payload.toNat * blockElems payload.toNat := by
  induction n with
  | zero => simp [alignedElems]
  | succ n ih =>
    have hlt : n * payload.toNat < 2 ^ 64 :=
      Nat.lt_of_le_of_lt (Nat.mul_le_mul_right _ (Nat.le_succ n)) h
    have hblocks : BitVec.ofNat 64 (n + 1) * payload % 4096 = 0 ↔
        blockElems payload.toNat ∣ n + 1 := by
      have hbytes : (BitVec.ofNat 64 (n + 1) * payload).toNat = (n + 1) * payload.toNat := by
        simp only [BitVec.toNat_mul, BitVec.toNat_ofNat, Nat.mod_mul_mod]
        exact Nat.mod_eq_of_lt h
      rw [blockElems_dvd_iff, Nat.dvd_iff_mod_eq_zero, ← hbytes, ← BitVec.toNat_inj]
      rfl
    rw [alignedElems]
    by_cases hd : blockElems payload.toNat ∣ n + 1
    · rw [if_neg (not_not.mpr (hblocks.mpr hd)), Nat.div_mul_cancel hd]
    · rw [if_pos (mt hblocks.mp hd), ih hlt, Nat.succ_div_of_not_dvd hd]

/-- The packets of a single file. -/
def Opt.keptElems (opt : Opt) : ℕ :=
  opt.filesize.toNat / opt.payload.toNat % 2 ^ 32 / blockElems opt.payload.toNat *
    blockElems opt.payload.toNat

/-- The size of a file when its packets are counted. -/
def Opt.fileBytes (opt : Opt) : ℕ :=
  if opt.aligns then opt.keptElems * opt.payload.toNat else opt.filesize.toNat

/-- No more bytes are kept than the configured size. -/
theorem Opt.keptElems_mul_le (opt : Opt) :
    opt.keptElems * opt.payload.toNat ≤ opt.filesize.toNat :=
  calc opt.keptElems * opt.payload.toNat
      ≤ opt.filesize.toNat / opt.payload.toNat % 2 ^ 32 * opt.payload.toNat :=
        Nat.mul_le_mul_right _ (Nat.div_mul_le_self _ _)
    _ ≤ opt.filesize.toNat / opt.payload.toNat * opt.payload.toNat :=
        Nat.mul_le_mul_right _ (Nat.mod_le _ _)
    _ ≤ opt.filesize.toNat := Nat.div_mul_le_self _ _

theorem Opt.fileBytes_le (opt : Opt) : opt.fileBytes ≤ opt.filesize.toNat := by
  unfold fileBytes
  split
  · exact opt.keptElems_mul_le
  · exact Nat.le_refl _

/-- The loop for a single file leaves `keptElems`. -/
theorem alignedElems_filesize (opt : Opt) :
    alignedElems opt.payload ((opt.filesize / opt.payload).setWidth 32 : BitVec 32).toNat =
      opt.keptElems := by
  have hn : ((opt.filesize / opt.payload).setWidth 32 : BitVec 32).toNat =
      opt.filesize.toNat / opt.payload.toNat % 2 ^ 32 := by simp
  have hlt : opt.filesize.toNat / opt.payload.toNat % 2 ^ 32 * opt.payload.toNat < 2 ^ 64 :=
    Nat.lt_of_le_of_lt
      (Nat.le_trans (Nat.mul_le_mul_right _ (Nat.mod_le _ _)) (Nat.div_mul_le_self _ _))
      opt.filesize.isLt
  rw [hn, alignedElems_eq opt.payload _ hlt, Opt.keptElems]

/-- **The branch for a single file** cuts the file down to whole blocks. -/
theorem alignSingleFile_of_aligns {opt : Opt} (ret : ℤ) (ha : opt.aligns) :
    alignSingleFile ret opt =
      if opt.payload = 0 then .crashed .divideByZero
      else if opt.keptElems = 0 then .returned (-1) { opt with bufNumElems := 0 }
      else .returned ret { opt with
        filesize := BitVec.ofNat 64 opt.fileBytes
        bufNumElems := BitVec.ofNat 32 opt.keptElems } := by
  have hbytes : BitVec.ofNat 64 opt.keptElems * opt.payload = BitVec.ofNat 64 opt.fileBytes := by
    apply BitVec.eq_of_toNat_eq
    simp [Opt.fileBytes, ha]
  simp only [alignSingleFile, ha, if_true, alignedElems_filesize]
  by_cases hk : opt.keptElems = 0
  · simp only [hk, if_true]
    rfl
  · simp only [hk, if_false, ← hbytes]
    rfl

/-- The options of an event that runs. -/
def Opt.running (opt : Opt) : Opt :=
  { opt with
    filesize := BitVec.ofNat 64 opt.fileBytes
    bufNumElems := BitVec.ofNat 32 (opt.fileBytes / opt.divisor.toNat) }

/-- The number of packets is that of the bytes in a file. -/
theorem ofNat_div (n : ℕ) (d : BitVec 64) (h : n < 2 ^ 64) :
    (BitVec.ofNat 64 n / d).setWidth 32 = BitVec.ofNat 32 (n / d.toNat) := by
  apply BitVec.eq_of_toNat_eq
  simp only [BitVec.toNat_setWidth, BitVec.toNat_udiv, BitVec.toNat_ofNat]
  rw [Nat.mod_eq_of_lt h]

/-- **The start of an event whose options are loaded.** -/
theorem alignSingleFile_thenLaunch (launched : Bool) (opt : Opt) :
    (alignSingleFile 0 opt).thenLaunch launched =
      if opt.aligns ∧ opt.payload = 0 then .crashed .divideByZero
      else if opt.aligns ∧ opt.keptElems = 0 then .returned (-1) { opt with bufNumElems := 0 }
      else if opt.divisor = 0 then .crashed .divideByZero
      else .returned (if launched then 0 else -1) opt.running := by
  have hlt : opt.fileBytes < 2 ^ 64 := Nat.lt_of_le_of_lt opt.fileBytes_le opt.filesize.isLt
  by_cases ha : opt.aligns
  · rw [alignSingleFile_of_aligns 0 ha]
    simp only [ha, true_and]
    split
    · rfl
    · split
      · rfl
      · rw [Opt.running, ← ofNat_div _ _ hlt]
        rfl
  · have hsize : BitVec.ofNat 64 opt.fileBytes = opt.filesize := by simp [Opt.fileBytes, ha]
    have halign : alignSingleFile 0 opt = .returned 0 opt := by simp [alignSingleFile, ha]
    rw [halign, Opt.running, ← ofNat_div _ _ hlt, hsize]
    simp [Step.thenLaunch, ha]

/-- The options of an event that runs are those it was loaded with, as the loaded options
pass all tests. -/
theorem eq_running_of_returned {launched : Bool} {opt opt' : Opt}
    (h : (alignSingleFile 0 opt).thenLaunch launched = .returned 0 opt') : opt' = opt.running := by
  rw [alignSingleFile_thenLaunch] at h
  split at h
  · exact nomatch h
  · split at h
    · injection h with hret
      exact absurd hret (by decide)
    · split at h
      · exact nomatch h
      · injection h with hret hopt
        exact hopt.symm

/-- An event with a packet in its files runs. -/
theorem alignSingleFile_thenLaunch_of_pos {launched : Bool} {opt : Opt}
    (h : 0 < opt.fileBytes / opt.divisor.toNat) :
    (alignSingleFile 0 opt).thenLaunch launched =
      .returned (if launched then 0 else -1) opt.running := by
  have hbytes : opt.fileBytes ≠ 0 := by
    intro h0
    simp [h0] at h
  have hdivisor : opt.divisor ≠ 0 := by
    intro h0
    simp [h0] at h
  have hkept : ¬ (opt.aligns ∧ opt.keptElems = 0) := by
    rintro ⟨ha, hk⟩
    simp [Opt.fileBytes, ha, hk] at hbytes
  have hpayload : ¬ (opt.aligns ∧ opt.payload = 0) := by
    rintro ⟨ha, hp⟩
    simp [Opt.fileBytes, ha, hp] at hbytes
  rw [alignSingleFile_thenLaunch, if_neg hpayload, if_neg hkept, if_neg hdivisor]

@[simp]
theorem Opt.running_bufNumElems (opt : Opt) :
    opt.running.bufNumElems.toNat = opt.fileBytes / opt.divisor.toNat % 2 ^ 32 := by
  simp [running]

/-- An event that is not loaded is not launched. -/
theorem alignSingleFile_thenLaunch_of_error (launched : Bool) (opt : Opt) :
    (opt.aligns ∧ opt.payload = 0 ∧
        (alignSingleFile (-1) opt).thenLaunch launched = .crashed .divideByZero) ∨
      (¬ (opt.aligns ∧ opt.payload = 0) ∧
        ∃ opt', (alignSingleFile (-1) opt).thenLaunch launched = .returned (-1) opt') := by
  by_cases ha : opt.aligns
  · rw [alignSingleFile_of_aligns (-1) ha]
    by_cases hp : opt.payload = 0
    · exact .inl ⟨ha, hp, by simp [hp, Step.thenLaunch]⟩
    · refine .inr ⟨fun h => hp h.2, ?_⟩
      by_cases hk : opt.keptElems = 0
      · exact ⟨_, by simp only [hp, hk, if_false, if_true]; rfl⟩
      · exact ⟨_, by simp only [hp, hk, if_false]; rfl⟩
  · exact .inr ⟨fun h => ha h.1, opt, by simp [alignSingleFile, ha, Step.thenLaunch]⟩

/-! ## A system that is ready -/

/-- A system where all succeeds, with one configuration on the first drive. -/
def Env.ready (root : List Setting) : Env where
  logToFile _ := true
  configs i _ := if i = 0 then some root else none
  indexed := true
  live _ := none
  launched := true

/-- Files of 128 MB for packets of 5008 bytes, the first 8 of which can be left out. -/
def offsetOpt : Opt :=
  { clearAndDefault with filesize := 128 * meg, packetSize := 5008, offset := 8 }

/-- The drive of a recording has its configuration. -/
theorem configs_ready (root : List Setting) (name : Option String) (i : ℕ) :
    (Env.ready root).configs i name = none ∨ (Env.ready root).configs i name = some root := by
  by_cases hi : i = 0
  · exact .inr (if_pos hi)
  · exact .inl (if_neg hi)

end VlbiStreamer.Config
