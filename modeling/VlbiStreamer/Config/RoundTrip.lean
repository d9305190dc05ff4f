import Mathlib.Data.Nat.ModEq
import VlbiStreamer.Config.Reading

/-!
# From the recorder to the reader

A recorder leaves a configuration with its files, which `stub_rec_cfg` fills in, and a
reader of the recording takes its options from there.  Both compute the number of packets in
a file from the size of the files, so that the reader finds in each file what the recorder
put there.

Where the writer strips leading bytes from the packets, the packets on disk are smaller than
those that were received.  `stub_rec_cfg` leaves the difference in `offset_onwrite`, which
`start_event` adds again.  But `set_from_root` has no such key, and the option stays what
it was: `roundTrips_iff` says when the reader finds the files of the recorder all the
same.
-/

namespace VlbiStreamer.Config

/-! ## The configuration of a recording -/

/-- `stub_rec_cfg`, with `SIMPLE_BUFCACL_SINGLEFILE`. -/
def stubRecCfg (opt : Opt) : List Setting :=
  (if opt.has canStripBytes then
      [⟨"packet_size", .int64 opt.payload⟩, ⟨"offset_onwrite", .int opt.offset⟩]
    else [⟨"packet_size", .int64 opt.packetSize⟩]) ++
  [⟨"cumul", .int64 opt.cumul⟩, ⟨"total_packets", .int64 opt.totalPackets⟩,
    ⟨"buf_division", .int opt.bufDivision⟩]

/-- The size of a packet in the configuration of a recording. -/
def Opt.recordedSize (opt : Opt) : BitVec 64 :=
  if opt.has canStripBytes then opt.payload else opt.packetSize

/-- The options of a reader after the configuration of a recording. -/
def Opt.reading (recorder reader : Opt) : Opt :=
  { reader with
    packetSize := recorder.recordedSize
    cumul := recorder.cumul
    totalPackets := recorder.totalPackets
    bufDivision := recorder.bufDivision }

/-- The same after the number of packets is set. -/
def Opt.loaded (recorder reader : Opt) : Opt :=
  { recorder.reading reader with
    bufNumElems := (reader.filesize / recorder.recordedSize).setWidth 32 }

/-- **What is read of a recording.** -/
theorem setFromRoot_stubRecCfg (logToFile : String → Bool) (recorder reader : Opt) :
    setFromRoot logToFile .read reader (stubRecCfg recorder) =
      .returned 0 (recorder.reading reader) (stubRecCfg recorder) := by
  unfold stubRecCfg Opt.reading Opt.recordedSize
  cases recorder.has canStripBytes <;> rfl

/-- A second configuration of the same recording changes nothing. -/
theorem setFromRoot_stubRecCfg_checking (logToFile : String → Bool) (recorder reader : Opt) :
    setFromRoot logToFile .checking (recorder.loaded reader) (stubRecCfg recorder) =
      .returned 0 (recorder.loaded reader) (stubRecCfg recorder) := by
  unfold stubRecCfg Opt.loaded Opt.reading Opt.recordedSize
  cases recorder.has canStripBytes <;>
    simp [setFromRoot, settingsLoop, handle, handleKey, keys, List.lookup_cons, Key.handle,
      cfgFullUint64, cfgFullInt, Mode.checking, packetSizeField, filesizeRead]

/-! ## Recorder and reader -/

/-- `re->write` is `writev_write`, for the options that the recording entities were prepared
with.  It is the only writer that leaves out the first `offset` bytes of each packet. -/
def strips (recs : Opt) : Bool := recs.optbits &&& lockerRec = recWritev

/-- The bytes of a packet that are written. -/
def bytesWritten (recs opt : Opt) : BitVec 64 :=
  if strips recs then opt.payload else opt.packetSize

/-- A recorder that was started. -/
structure Records (env : Env) (recorder started : Opt) : Prop where
  record : recorder.has readmode = false
  network : recorder.has captureWLocalsocket = false
  offset_nonneg : 0 ≤ recorder.offset.toInt
  offset_lt : recorder.offset.toInt < recorder.packetSize.toNat
  packetSize_le : recorder.packetSize.toNat ≤ recorder.filesize.toNat
  start : startEvent env recorder = .returned 0 started

/-- A reader of files of the same size, when the recorder has left its configuration on one
of the drives at least, and the system lets the reader start. -/
structure Reads (env : Env) (recorder finished reader : Opt) : Prop where
  read : reader.has readmode = true
  network : reader.has captureWLocalsocket = false
  filesize_eq : reader.filesize = recorder.filesize
  configs : ∀ i, env.configs i reader.filename = none ∨
    env.configs i reader.filename = some (stubRecCfg finished)
  present : ∃ i : ℕ, (i : ℤ) < reader.nDrives.toInt ∧
    env.configs i reader.filename = some (stubRecCfg finished)
  indexed : env.indexed = true
  launched : env.launched = true

/-- The options of a recorder at its end: the files and the packets are counted. -/
def Opt.counted (cumul totalPackets : BitVec 64) (started : Opt) : Opt :=
  { started with cumul, totalPackets }

/-- The reader starts with the packets in a file, the bytes of a packet and the counts of the
recorder. -/
def RoundTrips (env : Env) (recs recorder finished reader : Opt) : Prop :=
  ∃ opt, startEvent env reader = .returned 0 opt ∧
    opt.bufNumElems = finished.bufNumElems ∧
    opt.bufNumElems.toNat = recorder.filesize.toNat / recorder.packetSize.toNat ∧
    opt.packetSize = bytesWritten recs finished ∧
    opt.cumul = finished.cumul ∧ opt.totalPackets = finished.totalPackets

/-- The packets that a file is configured for. -/
def Opt.fileElems (opt : Opt) : ℕ := opt.filesize.toNat / opt.packetSize.toNat

/-- The file of a reader has room for so many packets, and for no further one.  The packets
are counted modulo `2 ^ 32`, so that the rest of the file may also have room for a multiple of
that. -/
structure Opt.Holds (opt : Opt) (n : ℕ) : Prop where
  divisor_pos : 0 < opt.divisor.toNat
  bytes_le : n * opt.divisor.toNat ≤ opt.fileBytes
  full : (opt.fileBytes - n * opt.divisor.toNat) / opt.divisor.toNat % 2 ^ 32 = 0

/-- When the reader finds what the recorder has written: the bit for stripping is set for a
writer that strips, or nothing is stripped; the packets of a file can be counted, and the
recorder has room for all of them where it cuts its file to whole blocks; and a file has room
for as many packets of the size that is read. -/
structure Agree (recs recorder reader : Opt) : Prop where
  bytes : recorder.has canStripBytes = strips recs ∨ recorder.offset = 0
  elems_lt : recorder.fileElems < 2 ^ 32
  recorded : recorder.fileElems * recorder.packetSize.toNat ≤ recorder.fileBytes
  read : (recorder.reading reader).Holds recorder.fileElems

/-! ## The two starts -/

/-- The recorder runs with the options it was configured with. -/
theorem Records.started_eq {env : Env} {recorder started : Opt}
    (h : Records env recorder started) : started = recorder.running := by
  have hstart := h.start
  rw [startEvent, if_neg (by simp [h.network]), initCfg, if_neg (by simp [h.record])] at hstart
  cases hindexed : env.indexed with
  | true => exact eq_running_of_returned (by simpa [hindexed] using hstart)
  | false =>
    -- `afi_add` has failed, and -1 is what is left of the start
    simp only [hindexed, Bool.false_eq_true, if_false] at hstart
    obtain ⟨-, -, hcrash⟩ | ⟨-, opt, hret⟩ :=
      alignSingleFile_thenLaunch_of_error env.launched recorder
    · rw [hcrash] at hstart
      exact nomatch hstart
    · rw [hret] at hstart
      injection hstart with hret
      exact absurd hret (by decide)

section Reads

variable {env : Env} {recorder finished reader : Opt}

/-- The loop reads the first configuration that it finds. -/
theorem Reads.drivesLoop_eq (h : Reads env recorder finished reader)
    (hsize : finished.recordedSize ≠ 0) :
    drivesLoop env 0 false reader = .finished true (finished.loaded reader) := by
  obtain ⟨k, hk, hpresent⟩ := h.present
  obtain ⟨⟨j, root⟩, hfirst⟩ := Option.isSome_iff_exists.mp
    (firstConfig_isSome (Nat.zero_le k) hk hpresent)
  obtain ⟨hj, hroot⟩ := firstConfig_eq_some hfirst
  -- all configurations on the drives are that of the recording
  have hsome : env.configs j reader.filename = some (stubRecCfg finished) :=
    (h.configs j).resolve_left (by simp [hroot])
  rw [drivesLoop_first, hfirst]
  dsimp only
  rw [drivesLoop_read hj hsome (setFromRoot_stubRecCfg env.logToFile finished reader), h.indexed,
    Bool.not_true, if_neg Bool.false_ne_true,
    if_neg (show (finished.reading reader).packetSize ≠ 0 from hsize)]
  refine drivesLoop_agree ?_
    (setFromRoot_stubRecCfg_checking env.logToFile finished reader) (j + 1)
  exact h.configs

/-- **The start of the reader** is that of an event with the options of the recording. -/
theorem Reads.startEvent_eq (h : Reads env recorder finished reader)
    (hsize : finished.recordedSize ≠ 0) :
    startEvent env reader =
      (alignSingleFile 0 (finished.loaded reader)).thenLaunch env.launched := by
  rw [startEvent, if_neg (by simp [h.network]), initCfg, if_pos h.read, h.drivesLoop_eq hsize,
    Drives.thenAlign]

end Reads

/-! ## The round trip -/

/-- The size of a packet that is stripped. -/
theorem payload_toNat {opt : Opt} (hnonneg : 0 ≤ opt.offset.toInt)
    (hlt : opt.offset.toInt < opt.packetSize.toNat) :
    opt.payload.toNat = opt.packetSize.toNat - opt.offset.toInt.toNat := by
  have hoffset := toNat_long hnonneg
  have hle : Opt.long opt.offset ≤ opt.packetSize := by
    rw [BitVec.le_def, hoffset]
    omega
  rw [Opt.payload, BitVec.toNat_sub_of_le hle, hoffset]

/-- A packet loses bytes on the way to the disk only when the offset is not 0. -/
theorem payload_eq_packetSize_iff (opt : Opt) : opt.payload = opt.packetSize ↔ opt.offset = 0 := by
  rw [← long_eq_zero_iff, Opt.payload]
  bv_omega

/-- The configuration has the bytes that were written. -/
theorem recordedSize_eq_bytesWritten_iff (recs opt : Opt) :
    opt.recordedSize = bytesWritten recs opt ↔
      opt.has canStripBytes = strips recs ∨ opt.offset = 0 := by
  unfold Opt.recordedSize bytesWritten
  cases opt.has canStripBytes <;> cases strips recs <;>
    simp [payload_eq_packetSize_iff, eq_comm (a := opt.packetSize)]

/-- A packet in the configuration has a byte at least. -/
theorem Records.recordedSize_ne_zero {env : Env} {recorder started : Opt}
    (h : Records env recorder started) : recorder.recordedSize ≠ 0 := by
  have hnonneg := h.offset_nonneg
  have hlt := h.offset_lt
  have hoffset := toNat_long hnonneg
  unfold Opt.recordedSize Opt.payload
  split <;> bv_omega

/-- The quotient modulo `m` of what is divided. -/
theorem div_mod_eq_iff {a d m n : ℕ} (hd : 0 < d) (hm : 0 < m) :
    a / d % m = n ↔ n < m ∧ n * d ≤ a ∧ (a - n * d) / d % m = 0 := by
  have hsub : (a - n * d) / d = a / d - n := by rw [Nat.mul_comm, Nat.sub_mul_div]
  rw [hsub, ← Nat.le_div_iff_mul_le hd, ← Nat.dvd_iff_mod_eq_zero]
  constructor
  · rintro rfl
    exact ⟨Nat.mod_lt _ hm, Nat.mod_le _ _, Nat.dvd_sub_mod (a / d)⟩
  · rintro ⟨hlt, hle, hdvd⟩
    have hmod : n % m = a / d % m := (Nat.modEq_iff_dvd' hle).mpr hdvd
    rw [← hmod, Nat.mod_eq_of_lt hlt]

/-- The recorder puts the configured number of packets into a file. -/
theorem recorded_iff {opt : Opt} (h : 0 < opt.packetSize.toNat) :
    opt.fileBytes / opt.packetSize.toNat % 2 ^ 32 = opt.fileElems ↔
      opt.fileElems < 2 ^ 32 ∧ opt.fileElems * opt.packetSize.toNat ≤ opt.fileBytes := by
  rw [div_mod_eq_iff h (by decide)]
  -- a file is not larger than configured, so there is never room for more packets
  have hle : opt.fileBytes / opt.packetSize.toNat ≤ opt.fileElems :=
    Nat.div_le_div_right opt.fileBytes_le
  have hfull :
      (opt.fileBytes - opt.fileElems * opt.packetSize.toNat) / opt.packetSize.toNat = 0 := by
    rw [Nat.mul_comm, Nat.sub_mul_div, Nat.sub_eq_zero_of_le hle]
  simp [hfull]

/-- The reader finds that number. -/
theorem holds_iff {opt : Opt} {n : ℕ} (hpos : 0 < n) (hlt : n < 2 ^ 32) :
    opt.fileBytes / opt.divisor.toNat % 2 ^ 32 = n ↔ opt.Holds n := by
  constructor
  · intro h
    have hdivisor : 0 < opt.divisor.toNat := Nat.pos_of_ne_zero fun h0 => by
      simp only [h0, Nat.div_zero, Nat.zero_mod] at h
      omega
    obtain ⟨-, hle, hfull⟩ := (div_mod_eq_iff hdivisor (by decide)).mp h
    exact ⟨hdivisor, hle, hfull⟩
  · rintro ⟨hdivisor, hle, hfull⟩
    exact (div_mod_eq_iff hdivisor (by decide)).mpr ⟨hlt, hle, hfull⟩

/-- **When a reader starts with what the recorder has written.** -/
theorem roundTrips_iff {env env' : Env} {recs recorder started reader : Opt}
    (cumul totalPackets : BitVec 64) (hrec : Records env recorder started)
    (hread : Reads env' recorder (started.counted cumul totalPackets) reader) :
    RoundTrips env' recs recorder (started.counted cumul totalPackets) reader ↔
      Agree recs recorder reader := by
  obtain rfl := hrec.started_eq
  have hstart := hread.startEvent_eq hrec.recordedSize_ne_zero
  have hsize : 0 < recorder.packetSize.toNat := by
    have hlt := hrec.offset_lt
    have hnonneg := hrec.offset_nonneg
    omega
  have hn : 0 < recorder.fileElems := Nat.div_pos hrec.packetSize_le hsize
  have hdivisor : recorder.divisor = recorder.packetSize := by simp [Opt.divisor, hrec.record]
  set finished := recorder.running.counted cumul totalPackets
  set loaded := finished.loaded reader
  set read := recorder.reading reader
  have hwritten : finished.bufNumElems.toNat =
      recorder.fileBytes / recorder.packetSize.toNat % 2 ^ 32 :=
    hdivisor ▸ recorder.running_bufNumElems
  have hloaded : loaded.running.bufNumElems.toNat =
      read.fileBytes / read.divisor.toNat % 2 ^ 32 := loaded.running_bufNumElems
  have hbytes : finished.recordedSize = bytesWritten recs finished ↔ _ :=
    recordedSize_eq_bytesWritten_iff recs finished
  constructor
  · rintro ⟨opt, hopt, helems, hcount, hwhole, -, -⟩
    obtain rfl := eq_running_of_returned (hstart ▸ hopt)
    obtain ⟨hlt, hle⟩ := (recorded_iff hsize).mp (by rw [← hwritten, ← helems]; exact hcount)
    exact ⟨hbytes.mp hwhole, hlt, hle, (holds_iff hn hlt).mp (hloaded ▸ hcount)⟩
  · intro h
    have hrecorded := (recorded_iff hsize).mpr ⟨h.elems_lt, h.recorded⟩
    have hholds : read.fileBytes / read.divisor.toNat % 2 ^ 32 = recorder.fileElems :=
      (holds_iff hn h.elems_lt).mpr h.read
    have hpos : 0 < loaded.fileBytes / loaded.divisor.toNat :=
      Nat.div_pos (Nat.le_trans (Nat.le_mul_of_pos_left _ hn) h.read.bytes_le) h.read.divisor_pos
    refine ⟨loaded.running, ?_, ?_, hloaded.trans hholds, hbytes.mpr h.bytes, rfl, rfl⟩
    · rw [hstart, alignSingleFile_thenLaunch_of_pos hpos, if_pos hread.launched]
    · apply BitVec.eq_of_toNat_eq
      rw [hloaded, hwritten, hholds, hrecorded]

/-- The bytes of a file besides its packets, when `o` bytes of each packet are left out. -/
theorem sub_div_mul_sub {n p o : ℕ} (h : o ≤ p) :
    n - n / p * (p - o) = n % p + n / p * o := by
  have hsplit : n / p * (p - o) + n / p * o = n / p * p := by
    rw [← Nat.mul_add, Nat.sub_add_cancel h]
  have hmod := Nat.div_add_mod' n p
  omega

/-- A file of stripped packets holds no other number of them, when the bytes that are left
make up no further packet. -/
theorem holds_div_iff {opt : Opt} {p o : ℕ} (h : o < p) (hdivisor : opt.divisor.toNat = p - o) :
    opt.Holds (opt.fileBytes / p) ↔
      (opt.fileBytes % p + opt.fileBytes / p * o) / (p - o) % 2 ^ 32 = 0 := by
  have hrest := sub_div_mul_sub (n := opt.fileBytes) (Nat.le_of_lt h)
  constructor
  · rintro ⟨-, -, hfull⟩
    rwa [hdivisor, hrest] at hfull
  · intro hfull
    have hle : opt.fileBytes / p * (p - o) ≤ opt.fileBytes :=
      calc opt.fileBytes / p * (p - o)
          ≤ opt.fileBytes / p * p := Nat.mul_le_mul_left _ (Nat.sub_le p o)
        _ ≤ opt.fileBytes := Nat.div_mul_le_self _ _
    refine ⟨?_, ?_, ?_⟩
    · rw [hdivisor]
      omega
    · rwa [hdivisor]
    · rwa [hdivisor, hrest]

/-- Without single files and without an `offset_onwrite`, the bytes that are stripped in a file
count: together with its rest they must not make up another packet. -/
theorem agree_iff {recs recorder reader : Opt} (hnonneg : 0 ≤ recorder.offset.toInt)
    (hlt : recorder.offset.toInt < recorder.packetSize.toNat)
    (hrecorder : recorder.aligns = false) (hreader : reader.aligns = false)
    (honwrite : reader.offsetOnwrite = 0) (hsize : reader.filesize = recorder.filesize) :
    Agree recs recorder reader ↔
      (recorder.has canStripBytes = strips recs ∨ recorder.offset = 0) ∧
        recorder.fileElems < 2 ^ 32 ∧
        (recorder.has canStripBytes →
          (recorder.filesize.toNat % recorder.packetSize.toNat +
            recorder.fileElems * recorder.offset.toInt.toNat) /
              (recorder.packetSize.toNat - recorder.offset.toInt.toNat) % 2 ^ 32 = 0) := by
  have hbytes : recorder.fileBytes = recorder.filesize.toNat := by
    simp [Opt.fileBytes, hrecorder]
  have hrecorded : recorder.fileElems * recorder.packetSize.toNat ≤ recorder.fileBytes :=
    hbytes ▸ Nat.div_mul_le_self _ _
  set read := recorder.reading reader
  have haligns : read.aligns = false := hreader
  have hbytes' : read.fileBytes = recorder.filesize.toNat := by
    rw [← hsize]
    exact if_neg (by simp [haligns])
  have hdivisor : read.divisor = recorder.recordedSize := if_neg fun h => h.2 honwrite
  have helems : recorder.fileElems = read.fileBytes / recorder.packetSize.toNat := by
    rw [hbytes', Opt.fileElems]
  have hread : read.Holds recorder.fileElems ↔
      (recorder.has canStripBytes →
        (recorder.filesize.toNat % recorder.packetSize.toNat +
          recorder.fileElems * recorder.offset.toInt.toNat) /
            (recorder.packetSize.toNat - recorder.offset.toInt.toNat) % 2 ^ 32 = 0) := by
    rw [helems, ← hbytes']
    cases hstrip : recorder.has canStripBytes with
    | false =>
      have hwhole : recorder.recordedSize = recorder.packetSize := if_neg (by simp [hstrip])
      have hsize : 0 < recorder.packetSize.toNat := by omega
      have hholds : read.Holds (read.fileBytes / recorder.packetSize.toNat) ↔ _ :=
        holds_div_iff hsize (by rw [hdivisor, hwhole, Nat.sub_zero])
      simp [hholds, Nat.div_eq_of_lt (Nat.mod_lt read.fileBytes hsize)]
    | true =>
      have hwhole : recorder.recordedSize = recorder.payload := if_pos hstrip
      have hlt' : recorder.offset.toInt.toNat < recorder.packetSize.toNat := by omega
      have hholds : read.Holds (read.fileBytes / recorder.packetSize.toNat) ↔ _ :=
        holds_div_iff hlt' (by rw [hdivisor, hwhole, payload_toNat hnonneg hlt])
      simp [hholds]
  constructor
  · exact fun h => ⟨h.bytes, h.elems_lt, hread.mp h.read⟩
  · rintro ⟨hstrip, hcount, hrest⟩
    exact ⟨hstrip, hcount, hrecorded, hread.mpr hrest⟩

/-! ## Two recordings -/

/-- `writer = "writev"` -/
def writevOpt : Opt := (offsetOpt.clearBits lockerRec).setBits (recWritev ||| canStripBytes)

/-- With the default writer nothing is stripped, whatever the offset is. -/
theorem whole_packets_roundTrip :
    RoundTrips (Env.ready (stubRecCfg (offsetOpt.running.counted 3 80400))) offsetOpt offsetOpt
      (offsetOpt.running.counted 3 80400) (offsetOpt.setBits readmode) := by
  have hrec : Records (Env.ready []) offsetOpt offsetOpt.running :=
    ⟨by decide, by decide, by decide, by decide, by decide, rfl⟩
  have hread : Reads (Env.ready (stubRecCfg (offsetOpt.running.counted 3 80400))) offsetOpt
      (offsetOpt.running.counted 3 80400) (offsetOpt.setBits readmode) :=
    ⟨by decide, by decide, rfl, configs_ready _ _, ⟨0, by decide, rfl⟩, rfl, rfl⟩
  exact (roundTrips_iff 3 80400 hrec hread).mpr
    ⟨by decide, by decide, by decide, by decide, by decide, by decide⟩

/-- A reader of a recording that was stripped finds too many packets in each file. -/
theorem stripped_not_roundTrips :
    ¬ ∀ (env env' : Env) (recs recorder started reader : Opt) (cumul totalPackets : BitVec 64),
      Records env recorder started →
      Reads env' recorder (started.counted cumul totalPackets) reader →
      RoundTrips env' recs recorder (started.counted cumul totalPackets) reader := by
  intro h
  have hrec : Records (Env.ready []) writevOpt writevOpt.running :=
    ⟨by decide, by decide, by decide, by decide, by decide, rfl⟩
  have hread : Reads (Env.ready (stubRecCfg (writevOpt.running.counted 3 80400))) writevOpt
      (writevOpt.running.counted 3 80400) (writevOpt.setBits readmode) :=
    ⟨by decide, by decide, rfl, configs_ready _ _, ⟨0, by decide, rfl⟩, rfl, rfl⟩
  obtain ⟨opt, hopt, -, hn, -⟩ := h _ _ writevOpt _ _ _ 3 80400 hrec hread
  rw [hread.startEvent_eq (by decide)] at hopt
  obtain rfl := eq_running_of_returned hopt
  rw [Opt.running_bufNumElems] at hn
  exact absurd hn (by decide)

end VlbiStreamer.Config
