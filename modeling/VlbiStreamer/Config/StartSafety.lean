import VlbiStreamer.Config.Reading

/-!
# Is the start of an event safe?

The memory buffers are as large as the `filesize` of the default options.  An event fills
them with `buf_num_elems` packets of its own `packet_size`, and both come from a schedule
entry and, for a reader, from the configuration of the recording.  `StartsSafely` asks
that nothing is divided by zero on the way, and that the packets of an event that runs
fit into a buffer.

No value of an entry is looked at before it is used.  `startsSafely_iff` says which ones
are safe: it looks at the values that count in the end, and asks for what the code takes
for granted.
-/

namespace VlbiStreamer.Config

/-! ## Safety -/

/-- The packets of an event stay inside a buffer of the default options. -/
structure Fits (default opt : Opt) : Prop where
  elems_pos : 1 ≤ opt.bufNumElems.toNat
  offset_nonneg : 0 ≤ opt.offset.toInt
  offset_lt : opt.offset.toInt < opt.packetSize.toNat
  bytes_le : opt.bufNumElems.toNat * opt.packetSize.toNat ≤ default.filesize.toNat

/-- What `start_event` may come to. -/
def Step.Safe (default : Opt) : Step → Prop
  | .crashed reason => reason ≠ .divideByZero
  | .returned ret opt => ret = 0 → Fits default opt

/-- An entry is scheduled and started without a division by zero, and only runs with
packets that fit, whether or not it gets its index and its thread. -/
def StartsSafely (env : Env) (fresh : String) (default : Opt) (entry : List Setting) : Prop :=
  ∀ indexed launched : Bool,
    match addRecording env.logToFile fresh default entry with
    | .crashed reason => reason ≠ .divideByZero
    | .refused => True
    | .scheduled opt => (startEvent { env with indexed, launched } opt).Safe default

/-! ## The values that are safe -/

/-- Files of so many bytes have packets that fit: there is room for a packet, the offset is
in it, and the bytes of whole packets are not more than the files of the default options.
Bytes are counted up to `2 ^ 32` packets, then from 0 again. -/
structure Runs (default opt : Opt) (bytes : ℕ) : Prop where
  offset_nonneg : 0 ≤ opt.offset.toInt
  offset_lt : opt.offset.toInt < opt.packetSize.toNat
  packet_le : opt.packetSize.toNat ≤ bytes % (opt.packetSize.toNat * 2 ^ 32)
  whole_le : bytes % (opt.packetSize.toNat * 2 ^ 32) - bytes % opt.packetSize.toNat ≤
    default.filesize.toNat

/-- The options of an event that is not refused for want of whole blocks. -/
structure Startable (default opt : Opt) : Prop where
  payload : opt.aligns → opt.payload ≠ 0
  runs : opt.aligns ∧ opt.keptElems = 0 ∨ Runs default opt opt.fileBytes

/-- The settings of the further configurations that pass their check, after that of drive
`j`. -/
def checkedSettings (env : Env) (opt : Opt) (j : ℕ) (root : List Setting) : List Setting :=
  laterSettings env.logToFile env.configs (firstLoaded env.logToFile opt root) (j + 1)

/-- The options of a reader that finds its recording: the configuration on the first drive
that has one counts, and of the others what their check stores. -/
structure Loadable (env : Env) (default opt : Opt) (j : ℕ) (root : List Setting) : Prop where
  divides : dividesByZero env.logToFile opt root = false
  packetSize : (firstLoaded env.logToFile opt root).packetSize ≠ 0
  payload : (firstLoaded env.logToFile opt root).aligns →
    (firstLoaded env.logToFile opt root).payload ≠ 0
  startable :
    (checkedSettings env opt j root).any (nullString (firstLoaded env.logToFile opt root)) ∨
      Startable default
        ((checkedSettings env opt j root).foldl stored (firstLoaded env.logToFile opt root))

/-- The options of an event that starts. -/
def Ready (env : Env) (default opt : Opt) : Prop :=
  if opt.has captureWLocalsocket then Runs default opt opt.filesize.toNat
  else if ¬ opt.has readmode then Startable default opt
  else
    match firstConfig env.configs opt 0 with
    | none =>
        match env.live opt.filename with
        | some packetSize => Startable default { opt with packetSize := packetSize }
        | none => opt.aligns → opt.payload ≠ 0
    | some (j, root) => Loadable env default opt j root

/-- The options that an entry gives. -/
def entryOpt (logToFile : String → Bool) (fresh : String) (default : Opt)
    (entry : List Setting) : Opt :=
  let opt := given logToFile (freshOpt fresh default) entry
  if opt.has captureWDisk2file then opt else { opt with disk2fileoutput := none }

/-! ## The start -/

section Start

variable {env : Env} {default opt : Opt}

/-- Packets that fit have a size. -/
theorem Runs.packetSize_ne_zero {bytes : ℕ} (h : Runs default opt bytes) :
    opt.packetSize ≠ 0 := by
  intro h0
  have hsize : opt.packetSize.toNat = 0 := congrArg BitVec.toNat h0
  have hnonneg := h.offset_nonneg
  have hlt := h.offset_lt
  omega

/-- The bytes of the packets that are counted. -/
theorem div_mod_mul (n p m : ℕ) : n / p % m * p = n % (p * m) - n % p := by
  rw [Nat.mod_mul, Nat.add_sub_cancel_left, Nat.mul_comm]

/-- A packet is counted when there is room for it. -/
theorem div_mod_pos_iff {n p m : ℕ} (hp : 0 < p) : 1 ≤ n / p % m ↔ p ≤ n % (p * m) := by
  have hrest : n % p < p := Nat.mod_lt n hp
  rw [Nat.mod_mul]
  constructor
  · intro h
    exact Nat.le_trans (Nat.le_mul_of_pos_right p h) (Nat.le_add_left _ _)
  · intro h
    refine Nat.pos_of_ne_zero fun h0 => ?_
    rw [h0] at h
    omega

/-- An event fits when its number of packets is that of a file. -/
theorem fits_iff {opt' : Opt} {bytes : ℕ} (hoffset : opt'.offset = opt.offset)
    (hsize : opt'.packetSize = opt.packetSize)
    (helems : opt'.bufNumElems.toNat = bytes / opt.packetSize.toNat % 2 ^ 32) :
    Fits default opt' ↔ Runs default opt bytes := by
  have hbytes := div_mod_mul bytes opt.packetSize.toNat (2 ^ 32)
  constructor
  · rintro ⟨hpos, hnonneg, hlt, hle⟩
    rw [hoffset] at hnonneg
    rw [hoffset, hsize] at hlt
    rw [helems, hsize, hbytes] at hle
    rw [helems, div_mod_pos_iff (by omega)] at hpos
    exact ⟨hnonneg, hlt, hpos, hle⟩
  · rintro ⟨hnonneg, hlt, hpos, hle⟩
    constructor
    · rwa [helems, div_mod_pos_iff (by omega)]
    · rwa [hoffset]
    · rwa [hoffset, hsize]
    · rwa [helems, hsize, hbytes]

/-- Without an `offset_onwrite` the size of the files is divided by that of the packets. -/
theorem divisor_eq (honwrite : opt.offsetOnwrite = 0) : opt.divisor = opt.packetSize :=
  if_neg fun h => h.2 honwrite

/-- An event fits when its options are those that run. -/
theorem fits_running_iff (honwrite : opt.offsetOnwrite = 0) :
    Fits default opt.running ↔ Runs default opt opt.fileBytes :=
  fits_iff rfl rfl (by rw [Opt.running_bufNumElems, divisor_eq honwrite])

/-- The launch of an event from the local socket, which loads nothing. -/
theorem safe_thenLaunch_iff (honwrite : opt.offsetOnwrite = 0) :
    (∀ launched : Bool, ((Step.returned 0 opt).thenLaunch launched).Safe default) ↔
      Runs default opt opt.filesize.toNat := by
  have hlaunch : ∀ launched : Bool, (Step.returned 0 opt).thenLaunch launched =
      if opt.packetSize = 0 then .crashed .divideByZero
      else .returned (if launched then 0 else -1)
        { opt with bufNumElems := (opt.filesize / opt.packetSize).setWidth 32 } := by
    intro launched
    simp only [Step.thenLaunch, divisor_eq honwrite]
    rfl
  have hfits : Fits default
      { opt with bufNumElems := (opt.filesize / opt.packetSize).setWidth 32 } ↔
        Runs default opt opt.filesize.toNat := fits_iff rfl rfl (by simp)
  simp only [hlaunch]
  constructor
  · intro h
    have hsafe := h true
    by_cases hp : opt.packetSize = 0
    · rw [if_pos hp] at hsafe
      exact absurd rfl hsafe
    · rw [if_neg hp] at hsafe
      exact hfits.mp (hsafe rfl)
  · intro h launched
    rw [if_neg h.packetSize_ne_zero]
    exact fun _ => hfits.mpr h

/-- **The launch of a loaded event** is safe when its options are startable. -/
theorem safe_alignSingleFile_iff (honwrite : opt.offsetOnwrite = 0) :
    (∀ launched : Bool,
        ((alignSingleFile 0 opt).thenLaunch launched).Safe default) ↔
      Startable default opt := by
  simp only [alignSingleFile_thenLaunch, divisor_eq honwrite]
  constructor
  · intro h
    have hsafe := h true
    by_cases hp : opt.aligns ∧ opt.payload = 0
    · rw [if_pos hp] at hsafe
      exact absurd rfl hsafe
    refine ⟨fun ha h0 => hp ⟨ha, h0⟩, ?_⟩
    by_cases hk : opt.aligns ∧ opt.keptElems = 0
    · exact .inl hk
    rw [if_neg hp, if_neg hk] at hsafe
    by_cases hd : opt.packetSize = 0
    · rw [if_pos hd] at hsafe
      exact absurd rfl hsafe
    · rw [if_neg hd] at hsafe
      exact .inr ((fits_running_iff honwrite).mp (hsafe rfl))
  · rintro ⟨hp, hruns⟩ launched
    rw [if_neg (fun h => hp h.1 h.2)]
    by_cases hk : opt.aligns ∧ opt.keptElems = 0
    · rw [if_pos hk]
      exact fun h => absurd h (by decide)
    · have hruns' := hruns.resolve_left hk
      rw [if_neg hk, if_neg hruns'.packetSize_ne_zero]
      exact fun _ => (fits_running_iff honwrite).mpr hruns'

/-- An event that is not loaded is not launched, and only the branch for a single file can
divide by zero. -/
theorem safe_alignSingleFile_error_iff {launched : Bool} :
    ((alignSingleFile (-1) opt).thenLaunch launched).Safe default ↔
      (opt.aligns → opt.payload ≠ 0) := by
  obtain ⟨ha, hp, hcrash⟩ | ⟨hno, opt', hret⟩ :=
    alignSingleFile_thenLaunch_of_error launched opt
  · rw [hcrash]
    exact ⟨fun h => absurd rfl h, fun h => absurd hp (h ha)⟩
  · rw [hret]
    exact ⟨fun _ ha hp => hno ⟨ha, hp⟩, fun _ h => absurd h (by decide)⟩

/-- A reader without a configuration sends a recording that is live, or nothing. -/
theorem safe_notFound_iff (honwrite : opt.offsetOnwrite = 0) :
    (∀ indexed launched : Bool, (((Drives.finished false opt).thenAlign
        { env with indexed, launched }).thenLaunch launched).Safe default) ↔
      match env.live opt.filename with
      | some packetSize => Startable default { opt with packetSize := packetSize }
      | none => opt.aligns → opt.payload ≠ 0 := by
  simp only [Drives.thenAlign]
  cases env.live opt.filename with
  | none =>
    constructor
    · exact fun h => safe_alignSingleFile_error_iff.mp (h true true)
    · exact fun h _ _ => safe_alignSingleFile_error_iff.mpr h
  | some packetSize =>
    exact Iff.trans ⟨fun h => h true, fun h _ => h⟩ (safe_alignSingleFile_iff honwrite)

section Load

variable {j : ℕ} {root : List Setting}

/-- Without its index a reader stops after the first configuration. -/
theorem loadFrom_notIndexed (launched : Bool)
    (hdiv : dividesByZero env.logToFile opt root = false) :
    loadFrom { env with indexed := false, launched } opt j root =
      .notIndexed (given env.logToFile opt root) := by
  simp [loadFrom, hdiv]

/-- With its index it goes on to the other configurations. -/
theorem loadFrom_indexed (launched : Bool)
    (hdiv : dividesByZero env.logToFile opt root = false) :
    loadFrom { env with indexed := true, launched } opt j root =
      if (firstLoaded env.logToFile opt root).packetSize = 0 then .crashed .divideByZero
      else if (checkedSettings env opt j root).any (nullString (firstLoaded env.logToFile opt root))
        then .crashed .nullString
      else .finished true
        ((checkedSettings env opt j root).foldl stored (firstLoaded env.logToFile opt root)) := by
  simp only [loadFrom, hdiv, Bool.false_eq_true, if_false, Bool.not_true]
  rfl

/-- No configuration of a recording gives an `offset_onwrite`. -/
theorem loaded_offsetOnwrite (honwrite : opt.offsetOnwrite = 0) :
    ((checkedSettings env opt j root).foldl stored
      (firstLoaded env.logToFile opt root)).offsetOnwrite = 0 := by
  rw [((Opt.Alike.refl _).foldl_stored _).offsetOnwrite_eq]
  exact (given_offsetOnwrite env.logToFile opt root).trans honwrite

/-- A reader that has found its recording. -/
theorem safe_loadFrom_iff (honwrite : opt.offsetOnwrite = 0) :
    (∀ indexed launched : Bool, (((loadFrom { env with indexed, launched } opt j root).thenAlign
        { env with indexed, launched }).thenLaunch launched).Safe default) ↔
      Loadable env default opt j root := by
  have hstart : _ ↔ Startable default _ :=
    safe_alignSingleFile_iff (@loaded_offsetOnwrite env opt j root honwrite)
  constructor
  · intro h
    have hdiv : dividesByZero env.logToFile opt root = false := by
      by_contra hdiv
      have hsafe := h true true
      rw [loadFrom, if_pos (by simpa using hdiv)] at hsafe
      exact absurd rfl hsafe
    have hsafe := h false true
    rw [loadFrom_notIndexed true hdiv] at hsafe
    have hpayload : (given env.logToFile opt root).aligns →
        (given env.logToFile opt root).payload ≠ 0 := safe_alignSingleFile_error_iff.mp hsafe
    replace hsafe := h true
    simp only [loadFrom_indexed _ hdiv] at hsafe
    by_cases hp : (firstLoaded env.logToFile opt root).packetSize = 0
    · simp only [if_pos hp] at hsafe
      exact absurd rfl (hsafe true)
    refine ⟨hdiv, hp, hpayload, ?_⟩
    simp only [if_neg hp] at hsafe
    by_cases hnull : (checkedSettings env opt j root).any
        (nullString (firstLoaded env.logToFile opt root))
    · exact .inl hnull
    · simp only [if_neg hnull] at hsafe
      exact .inr (hstart.mp hsafe)
  · rintro ⟨hdiv, hp, hpayload, hstartable⟩ indexed launched
    cases indexed with
    | false =>
      rw [loadFrom_notIndexed launched hdiv]
      exact safe_alignSingleFile_error_iff.mpr hpayload
    | true =>
      rw [loadFrom_indexed launched hdiv, if_neg hp]
      by_cases hnull : (checkedSettings env opt j root).any
          (nullString (firstLoaded env.logToFile opt root))
      · rw [if_pos hnull]
        exact fun h => nomatch h
      · rw [if_neg hnull]
        exact hstart.mpr (hstartable.resolve_left hnull) launched

end Load

/-- **The start of an event** is safe when its options are ready. -/
theorem safe_startEvent_iff (honwrite : opt.offsetOnwrite = 0)
    (hfiles : ∀ i name root, env.configs i name = some root → FromFile root) :
    (∀ indexed launched : Bool,
        (startEvent { env with indexed, launched } opt).Safe default) ↔
      Ready env default opt := by
  unfold Ready
  by_cases hlocal : opt.has captureWLocalsocket
  · rw [if_pos hlocal]
    simp only [startEvent, if_pos hlocal]
    exact Iff.trans ⟨fun h => h true, fun h _ => h⟩ (safe_thenLaunch_iff honwrite)
  rw [if_neg hlocal]
  simp only [startEvent, if_neg hlocal, initCfg]
  by_cases hread : opt.has readmode
  · rw [if_neg (not_not.mpr hread)]
    simp only [if_pos hread, fun indexed launched : Bool =>
      @drivesLoop_eq { env with indexed, launched } opt hfiles]
    cases firstConfig env.configs opt 0 with
    | none => exact safe_notFound_iff honwrite
    | some p => exact safe_loadFrom_iff honwrite
  · -- a recorder: without an index the branch for a single file is still taken
    rw [if_pos hread]
    simp only [if_neg hread]
    constructor
    · exact fun h => (safe_alignSingleFile_iff honwrite).mp (h true)
    · intro h indexed launched
      cases indexed with
      | true => exact (safe_alignSingleFile_iff honwrite).mpr h launched
      | false => exact safe_alignSingleFile_error_iff.mpr h.payload

end Start

/-! ## From the schedule to the start -/

/-- An entry that is accepted is scheduled with the options it gives. -/
theorem addRecording_of_accepted {logToFile : String → Bool} {entry : List Setting}
    (haccepted : accepted logToFile entry) (hentry : FromFile entry) (fresh : String)
    (default : Opt) :
    addRecording logToFile fresh default entry =
      if dividesByZero logToFile (freshOpt fresh default) entry then .crashed .divideByZero
      else .scheduled (entryOpt logToFile fresh default entry) := by
  rw [addRecording, setFromRoot_reading hentry, haccepted]
  cases dividesByZero logToFile (freshOpt fresh default) entry with
  | true => rfl
  | false =>
    simp only [Bool.false_eq_true, if_false, if_true, ne_eq, not_true_eq_false, entryOpt]
    split <;> rfl

/-- No entry gives an `offset_onwrite`. -/
theorem entryOpt_offsetOnwrite (logToFile : String → Bool) (fresh : String) (default : Opt)
    (entry : List Setting) :
    (entryOpt logToFile fresh default entry).offsetOnwrite = default.offsetOnwrite := by
  have hgiven := given_offsetOnwrite logToFile (freshOpt fresh default) entry
  rw [entryOpt]
  split <;> exact hgiven

/-- **When an entry starts safely.**  Its own `filesize`, if it has one, is not divided by
zero, and the values that count in the end are those of an event that is ready.  The default
options have the `offset_onwrite` of `clear_and_default`. -/
theorem startsSafely_iff (env : Env) (fresh : String) (default : Opt) (entry : List Setting)
    (honwrite : default.offsetOnwrite = 0) (haccepted : accepted env.logToFile entry)
    (hentry : FromFile entry)
    (hfiles : ∀ i name root, env.configs i name = some root → FromFile root) :
    StartsSafely env fresh default entry ↔
      dividesByZero env.logToFile (freshOpt fresh default) entry = false ∧
        Ready env default (entryOpt env.logToFile fresh default entry) := by
  unfold StartsSafely
  rw [addRecording_of_accepted haccepted hentry]
  cases dividesByZero env.logToFile (freshOpt fresh default) entry with
  | true =>
    constructor
    · exact fun h => absurd rfl (h true true)
    · exact fun h => absurd h.1 (by decide)
  | false =>
    simp only [Bool.false_eq_true, if_false, true_and]
    exact safe_startEvent_iff ((entryOpt_offsetOnwrite _ _ _ _).trans honwrite) hfiles

/-! ## Two entries -/

/-- Default options that the daemon can use: `logical` is what
`check_default_options_for_nonlogicals` asks for, and `onwrite` is left from
`clear_and_default`. -/
structure ValidDefault (default : Opt) : Prop where
  packetSize_pos : 0 < default.packetSize.toNat
  packetSize_le : default.packetSize.toNat ≤ default.filesize.toNat
  offset_nonneg : 0 ≤ default.offset.toInt
  offset_lt : default.offset.toInt < default.packetSize.toNat
  logical : default.aligns = false
  onwrite : default.offsetOnwrite = 0

/-- As long as the packets of a file can be counted, whole packets have to fit. -/
theorem runs_iff {default opt : Opt} {bytes : ℕ} (hcount : bytes < opt.packetSize.toNat * 2 ^ 32) :
    Runs default opt bytes ↔
      0 ≤ opt.offset.toInt ∧ opt.offset.toInt < opt.packetSize.toNat ∧
        opt.packetSize.toNat ≤ bytes ∧
        bytes - bytes % opt.packetSize.toNat ≤ default.filesize.toNat := by
  have hbytes := Nat.mod_eq_of_lt hcount
  constructor
  · rintro ⟨hnonneg, hlt, hpos, hle⟩
    rw [hbytes] at hpos hle
    exact ⟨hnonneg, hlt, hpos, hle⟩
  · rintro ⟨hnonneg, hlt, hpos, hle⟩
    rw [← hbytes] at hpos
    exact ⟨hnonneg, hlt, hpos, hbytes.symm ▸ hle⟩

/-- A recording of small packets. -/
theorem small_packets_startsSafely :
    StartsSafely (Env.ready []) "" offsetOpt
      [⟨"record", .int 1⟩, ⟨"packet_size", .int64 1024⟩, ⟨"filename", .string (some "exp1")⟩] := by
  refine (startsSafely_iff _ _ _ _ rfl (by decide) (by decide) (fromFile_ready (by decide))).mpr
    ⟨by decide, ?_⟩
  rw [Ready, if_neg (by decide), if_pos (by decide)]
  refine ⟨by decide, .inr ((runs_iff (by decide)).mpr ?_)⟩
  decide

/-- An entry with the old `filesize` divides by `buf_division`, which nobody has set. -/
theorem filesize_not_startsSafely :
    ¬ ∀ (env : Env) (fresh : String) (default : Opt) (entry : List Setting),
      ValidDefault default → accepted env.logToFile entry → FromFile entry →
      (∀ i name root, env.configs i name = some root → FromFile root) →
      StartsSafely env fresh default entry := by
  intro h
  have hvalid : ValidDefault offsetOpt :=
    ⟨by decide, by decide, by decide, by decide, by decide, rfl⟩
  have hcrash : addRecording (fun _ => true) "" offsetOpt [⟨"filesize", .int64 (128 * meg)⟩] =
      .crashed .divideByZero := rfl
  have hsafe := h (Env.ready []) "" offsetOpt [⟨"filesize", .int64 (128 * meg)⟩] hvalid
    (by decide) (by decide) (fromFile_ready (by decide)) true true
  rw [show (Env.ready []).logToFile = fun _ => true from rfl, hcrash] at hsafe
  exact hsafe rfl

end VlbiStreamer.Config
