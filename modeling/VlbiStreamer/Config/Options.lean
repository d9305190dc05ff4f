import Mathlib.Algebra.Order.Ring.Int
import Mathlib.Data.List.Basic
import Mathlib.Data.Int.Notation

/-!
# Options and their configuration

`set_from_root` goes through the settings of a configuration group.  It reads each one
into the options, writes the option into it, or only checks that the two are equal, as
its two flags say.  Most settings belong to one of four families, which are macros in
the source and definitions with parameters here; the others have a definition of their
own.

* A setting that is recognised is looked up in `keys`, which lists them in the order of
  the source.  One with another name is passed over.
* Values are as `libconfig` keeps them.  A string may be `NULL`, as long as it was never
  set.
* The build is the one with `libaio` and the rate limiter.
-/

namespace VlbiStreamer.Config

/-- `B(x)` -/
def bit (x : ℕ) : BitVec 64 := 1#64 <<< x

/-! ## Options -/

def lockerRec : BitVec 64 := 0x0000000000000ff0
def recAio : BitVec 64 := bit 4
def recDummy : BitVec 64 := bit 5
def recDef : BitVec 64 := bit 6
def recSplicer : BitVec 64 := bit 7
def recWritev : BitVec 64 := bit 8
def recSendfile : BitVec 64 := bit 9
def writerDummy : BitVec 64 := bit 1
def lockerCapture : BitVec 64 := 0x0000000000fff000
def captureWFanout : BitVec 64 := bit 12
def captureWUdpstream : BitVec 64 := bit 13
def captureWDisk2file : BitVec 64 := bit 14
def captureWDummy : BitVec 64 := bit 15
def captureWTcpstream : BitVec 64 := bit 16
def captureWTcpsplice : BitVec 64 := bit 17
def captureWLocalsocket : BitVec 64 := bit 18
def captureWMultistream : BitVec 64 := bit 19
def verbose : BitVec 64 := bit 25
def useRxRing : BitVec 64 := bit 28
def canStripBytes : BitVec 64 := bit 30
def waitStartOnMetadata : BitVec 64 := bit 31
def lockerDatatype : BitVec 64 := 0x000000ff00000000
def datatypeUnknown : BitVec 64 := bit 32
def datatypeVdif : BitVec 64 := bit 33
def datatypeMark5b : BitVec 64 := bit 34
def datatypeUdpmon : BitVec 64 := bit 35
def datatypeMark5bnet : BitVec 64 := bit 36
def forceSocketReacquire : BitVec 64 := bit 40
def useTcpSocket : BitVec 64 := bit 41
def connectBeforeSending : BitVec 64 := bit 42
def writeToSingleFile : BitVec 64 := bit 43
def asyncWrite : BitVec 64 := bit 46
def readmode : BitVec 64 := bit 47
def useHugepage : BitVec 64 := bit 48
def useLargestTransac : BitVec 64 := bit 49

/-- `MEG` -/
def meg : BitVec 64 := bit 20

/-- The fields of `struct opt_s` that can be configured, and those that are computed
from them. -/
structure Opt where
  filename : Option String
  cumul : BitVec 64
  lastPacket : BitVec 64
  addressToBindTo : Option String
  optbits : BitVec 64
  time : BitVec 64
  port : BitVec 32
  minmem : BitVec 64
  maxmem : BitVec 64
  nThreads : BitVec 32
  nDrives : BitVec 32
  rate : BitVec 32
  offset : BitVec 32
  offsetOnwrite : BitVec 32
  disk2fileoutput : Option String
  doWStuffEvery : BitVec 64
  waitNanoseconds : BitVec 32
  /-- `starting_time.tv_sec` -/
  startingTime : BitVec 64
  filesize : BitVec 64
  packetSize : BitVec 64
  /-- An `unsigned int`, as all others of this width are `int`s. -/
  bufNumElems : BitVec 32
  bufDivision : BitVec 32
  hostname : Option String
  totalPackets : BitVec 64
  streamMultiply : BitVec 32
  deriving DecidableEq

namespace Opt

/-- `opt->optbits & flag`, as a condition. -/
def has (opt : Opt) (flag : BitVec 64) : Bool := opt.optbits &&& flag != 0

/-- `opt->optbits |= flag` -/
def setBits (opt : Opt) (flag : BitVec 64) : Opt := { opt with optbits := opt.optbits ||| flag }

/-- `opt->optbits &= ~flag` -/
def clearBits (opt : Opt) (flag : BitVec 64) : Opt :=
  { opt with optbits := opt.optbits &&& ~~~flag }

/-- An `int` where a `long` is wanted. -/
def long (x : BitVec 32) : BitVec 64 := x.signExtend 64

/-- `opt->packet_size * opt->buf_num_elems` -/
def bufferBytes (opt : Opt) : BitVec 64 := opt.packetSize * opt.bufNumElems.setWidth 64

end Opt

/-- `BUFFER_SIMPLE | SIMPLE_BUFFER` -/
def simpleBuffer : BitVec 64 := bit 2 ||| bit 27

/-- `clear_and_default` -/
def clearAndDefault : Opt where
  filename := none
  cumul := 0
  lastPacket := 0
  addressToBindTo := none
  optbits := captureWUdpstream ||| datatypeUnknown ||| recDef ||| simpleBuffer
  time := 0
  port := 2222
  minmem := 4
  maxmem := 12
  nThreads := 0
  nDrives := 1
  rate := 10000
  offset := 0
  offsetOnwrite := 0
  disk2fileoutput := none
  doWStuffEvery := 16777216
  waitNanoseconds := 0
  startingTime := 0
  filesize := 0
  packetSize := 8192
  bufNumElems := 0
  bufDivision := 0
  hostname := none
  totalPackets := 0
  streamMultiply := 1

/-- A field of the options. -/
structure Field (α : Type) where
  get : Opt → α
  set : α → Opt → Opt

/-! ## Settings -/

/-- The value of a setting: of one of the types that are recognised, or of another one. -/
inductive Value where
  | int (v : BitVec 32)
  | int64 (v : BitVec 64)
  | string (v : Option String)
  | other
  deriving DecidableEq, Repr

/-- A setting of a group. -/
structure Setting where
  name : String
  value : Value
  deriving DecidableEq, Repr

/-- The flags of `set_from_root`. -/
structure Mode where
  check : Bool
  write : Bool
  deriving DecidableEq, Repr

/-- Read the settings. -/
def Mode.read : Mode := ⟨false, false⟩

/-- Check the settings. -/
def Mode.checking : Mode := ⟨true, false⟩

/-- Write the settings. -/
def Mode.writing : Mode := ⟨false, true⟩

/-- A signal that ends the program. -/
inductive Crash where
  /-- A string function is given `NULL`. -/
  | nullString
  | divideByZero
  deriving DecidableEq, Repr

/-- What a setting comes to. -/
inductive Handled where
  /-- The loop goes on, and the setting has this value. -/
  | next (opt : Opt) (value : Value)
  /-- `return -1` -/
  | fail (opt : Opt)
  | crash (reason : Crash)

/-! ## The four families -/

/-- `CFG_FULL_UINT64` -/
def cfgFullUint64 (f : Field (BitVec 64)) (m : Mode) (opt : Opt) : Value → Handled
  | .int64 v =>
      if m.check then if v ≠ f.get opt then .fail opt else .next opt (.int64 v)
      else if m.write then .next opt (.int64 (f.get opt))
      else .next (f.set v opt) (.int64 v)
  | _ => .fail opt

/-- `CFG_FULL_INT` -/
def cfgFullInt (f : Field (BitVec 32)) (m : Mode) (opt : Opt) : Value → Handled
  | .int v =>
      if m.check then if v ≠ f.get opt then .fail opt else .next opt (.int v)
      else if m.write then .next opt (.int (f.get opt))
      else .next (f.set v opt) (.int v)
  | _ => .fail opt

/-- `CFG_FULL_STR` -/
def cfgFullStr (f : Field (Option String)) (m : Mode) (opt : Opt) : Value → Handled
  | .string v =>
      if m.check then
        match v, f.get opt with
        | some s, some t => if s ≠ t then .fail opt else .next opt (.string v)
        | _, _ => .crash .nullString
      else if m.write then .next opt (.string (f.get opt))
      else
        match v with
        | some s => .next (f.set (some s) opt) (.string v)
        | none => .fail opt
  | _ => .fail opt

/-- `CFG_FULL_BOOLEAN` -/
def cfgFullBoolean (flag : BitVec 64) (m : Mode) (opt : Opt) : Value → Handled
  | .int v =>
      if m.check then
        if (v = 1 ∧ opt.has flag) ∨ (v = 0 ∧ ¬ opt.has flag) then .fail opt
        else .next opt (.int v)
      else if m.write then .next opt (.int (if opt.has flag then 1 else 0))
      else .next (if v = 1 then opt.setBits flag else opt.clearBits flag) (.int v)
  | _ => .fail opt

/-! ## The others -/

/-- The branch of `filesizemb`. -/
def filesizemb (m : Mode) (opt : Opt) : Value → Handled
  | .int v =>
      if m.write then .next opt (.int ((opt.bufferBytes / meg).setWidth 32))
      else .next { opt with filesize := Opt.long v * meg } (.int v)
  | _ => .fail opt

/-- The branch of `record`. -/
def record (m : Mode) (opt : Opt) : Value → Handled
  | .int v =>
      if m.check then
        if v ≠ 0 ∧ opt.has readmode then .fail opt
        else if v = 0 ∧ ¬ opt.has readmode then .fail opt
        else .next opt (.int v)
      else if m.write then .next opt (.int (if opt.has readmode then 0 else 1))
      else .next (if v = 1 then opt.clearBits readmode else opt.setBits readmode) (.int v)
  | _ => .fail opt

/-- The branch of `starting_time`. -/
def startingTime (m : Mode) (opt : Opt) : Value → Handled
  | .int64 v =>
      if m.write then .next opt (.int64 opt.startingTime)
      else .next { opt with startingTime := v } (.int64 v)
  | _ => .fail opt

/-- A branch that keeps one of several names in the bits of a mask: what each name sets, and
the name of each pattern. -/
def cfgNames (mask : BitVec 64) (choices : List (String × (Opt → Opt)))
    (names : List (BitVec 64 × String)) (m : Mode) (opt : Opt) : Value → Handled
  | .string v =>
      if m.check then .next opt (.string v)
      else if m.write then
        match names.lookup (opt.optbits &&& mask) with
        | some s => .next opt (.string (some s))
        | none => .fail opt
      else
        match v with
        | none => .crash .nullString
        | some s =>
            match choices.lookup s with
            | some choose => .next (choose (opt.clearBits mask)) (.string v)
            | none => .fail (opt.clearBits mask)
  | _ => .fail opt

/-- What the names of the writers set. -/
def writerChoices : List (String × (Opt → Opt)) :=
  [("def", fun opt => (opt.setBits recDef).clearBits asyncWrite),
    ("aio", fun opt => opt.setBits (recAio ||| asyncWrite)),
    ("splice", fun opt => ((opt.setBits recSplicer).clearBits asyncWrite).setBits canStripBytes),
    ("dummy", fun opt => (opt.setBits (recDummy ||| writerDummy)).clearBits asyncWrite),
    ("writev", fun opt => ((opt.setBits recWritev).clearBits asyncWrite).setBits canStripBytes),
    ("sendfile", fun opt => (opt.setBits recSendfile).clearBits asyncWrite)]

/-- The branch of `writer`. -/
def writer : Mode → Opt → Value → Handled :=
  cfgNames lockerRec writerChoices
    [(recDef, "def"), (recAio, "aio"), (recWritev, "writev"), (recSplicer, "splice"),
      (recDummy, "dummy"), (recSendfile, "sendfile")]

/-- What the names of the captures set. -/
def captureChoices : List (String × (Opt → Opt)) :=
  [("fanout", fun opt => opt.setBits captureWFanout),
    ("udpstream", fun opt => opt.setBits captureWUdpstream),
    ("disk2file", fun opt => (opt.setBits captureWDisk2file).setBits readmode),
    ("dummy", fun opt => opt.setBits captureWDummy),
    ("tcpstream", fun opt => opt.setBits captureWTcpstream),
    ("multistream", fun opt => opt.setBits captureWMultistream),
    ("tcpsplice", fun opt => opt.setBits captureWTcpsplice)]

/-- The branch of `capture`. -/
def capture : Mode → Opt → Value → Handled :=
  cfgNames lockerCapture captureChoices
    [(captureWFanout, "fanout"), (captureWUdpstream, "udpstream"),
      (captureWDisk2file, "disk2file"), (captureWDummy, "dummy"),
      (captureWTcpstream, "tcpstream"), (captureWMultistream, "multistream"),
      (captureWTcpsplice, "tcpsplice")]

/-- What the names of the data types set. -/
def datatypeChoices : List (String × (Opt → Opt)) :=
  [("unknown", fun opt => opt.setBits datatypeUnknown),
    ("vdif", fun opt => opt.setBits datatypeVdif),
    ("mark5bnet", fun opt => opt.setBits datatypeMark5bnet),
    ("mark5b", fun opt => opt.setBits datatypeMark5b),
    ("udpmon", fun opt => opt.setBits datatypeUdpmon)]

/-- The branch of `datatype`. -/
def datatype : Mode → Opt → Value → Handled :=
  cfgNames lockerDatatype datatypeChoices
    [(datatypeUnknown, "unknown"), (datatypeVdif, "vdif"), (datatypeMark5b, "mark5b"),
      (datatypeUdpmon, "udpmon"), (datatypeMark5bnet, "mark5bnet")]

/-! ## All of them -/

/-- What a recognised name stands for. -/
inductive Key where
  | uint64 (f : Field (BitVec 64))
  | int (f : Field (BitVec 32))
  | str (f : Field (Option String))
  | boolean (flag : BitVec 64)
  | filesizemb
  | record
  | startingTime
  | writer
  | capture
  | datatype

/-- The branch of a recognised setting. -/
def Key.handle : Key → Mode → Opt → Value → Handled
  | uint64 f => cfgFullUint64 f
  | int f => cfgFullInt f
  | str f => cfgFullStr f
  | boolean flag => cfgFullBoolean flag
  | filesizemb => Config.filesizemb
  | record => Config.record
  | startingTime => Config.startingTime
  | writer => Config.writer
  | capture => Config.capture
  | datatype => Config.datatype

/-- `opt->packet_size` -/
def packetSizeField : Field (BitVec 64) :=
  ⟨Opt.packetSize, fun v opt => { opt with packetSize := v }⟩

/-- The names of the second chain of `set_from_root`; `"buf_elem_size"` is `"Legacy" stuff`. -/
def keys : List (String × Key) :=
  [("filesizemb", .filesizemb),
    ("buf_elem_size", .uint64 packetSizeField),
    ("record", .record),
    ("starting_time", .startingTime),
    ("writer", .writer),
    ("capture", .capture),
    ("datatype", .datatype),
    ("use_largest_transac", .boolean useLargestTransac),
    ("use_hugepage", .boolean useHugepage),
    ("use_rx_ring", .boolean useRxRing),
    ("verbose", .boolean verbose),
    ("wait_start_on_metadata", .boolean waitStartOnMetadata),
    ("force_socket_reacquire", .boolean forceSocketReacquire),
    ("use_tcp_socket", .boolean useTcpSocket),
    ("connect_before_sending", .boolean connectBeforeSending),
    ("write_to_single_file", .boolean writeToSingleFile),
    ("filename", .str ⟨Opt.filename, fun v opt => { opt with filename := v }⟩),
    ("cumul", .uint64 ⟨Opt.cumul, fun v opt => { opt with cumul := v }⟩),
    ("address_to_bind_to",
      .str ⟨Opt.addressToBindTo, fun v opt => { opt with addressToBindTo := v }⟩),
    ("disk2fileoutput",
      .str ⟨Opt.disk2fileoutput, fun v opt => { opt with disk2fileoutput := v }⟩),
    ("optbits", .uint64 ⟨Opt.optbits, fun v opt => { opt with optbits := v }⟩),
    ("last_packet", .uint64 ⟨Opt.lastPacket, fun v opt => { opt with lastPacket := v }⟩),
    ("time", .uint64 ⟨Opt.time, fun v opt => { opt with time := v }⟩),
    ("port", .int ⟨Opt.port, fun v opt => { opt with port := v }⟩),
    ("stream_multiply", .int ⟨Opt.streamMultiply, fun v opt => { opt with streamMultiply := v }⟩),
    ("minmem", .uint64 ⟨Opt.minmem, fun v opt => { opt with minmem := v }⟩),
    ("maxmem", .uint64 ⟨Opt.maxmem, fun v opt => { opt with maxmem := v }⟩),
    ("n_threads", .int ⟨Opt.nThreads, fun v opt => { opt with nThreads := v }⟩),
    ("n_drives", .int ⟨Opt.nDrives, fun v opt => { opt with nDrives := v }⟩),
    ("offset", .int ⟨Opt.offset, fun v opt => { opt with offset := v }⟩),
    ("rate", .int ⟨Opt.rate, fun v opt => { opt with rate := v }⟩),
    ("do_w_stuff_every",
      .uint64 ⟨Opt.doWStuffEvery, fun v opt => { opt with doWStuffEvery := v }⟩),
    ("wait_nanoseconds",
      .int ⟨Opt.waitNanoseconds, fun v opt => { opt with waitNanoseconds := v }⟩),
    ("packet_size", .uint64 packetSizeField),
    ("buf_num_elems", .int ⟨Opt.bufNumElems, fun v opt => { opt with bufNumElems := v }⟩),
    ("buf_division", .int ⟨Opt.bufDivision, fun v opt => { opt with bufDivision := v }⟩),
    ("hostname", .str ⟨Opt.hostname, fun v opt => { opt with hostname := v }⟩),
    ("total_packets", .uint64 ⟨Opt.totalPackets, fun v opt => { opt with totalPackets := v }⟩)]

/-- The second chain: a setting that is not recognised is passed over. -/
def handleKey (m : Mode) (opt : Opt) (s : Setting) : Handled :=
  match keys.lookup s.name with
  | some key => key.handle m opt s.value
  | none => .next opt s.value

/-! ## Types -/

/-- The types of settings that are recognised, and all others. -/
inductive ConfigType where
  | int
  | int64
  | string
  | other
  deriving DecidableEq, Repr

/-- `config_setting_type` -/
def Value.type : Value → ConfigType
  | int _ => .int
  | int64 _ => .int64
  | string _ => .string
  | other => .other

/-- The type that the branch of a key asks for. -/
def Key.type : Key → ConfigType
  | uint64 _ | startingTime => .int64
  | int _ | boolean _ | filesizemb | record => .int
  | str _ | writer | capture | datatype => .string

/-- A setting has the right type, when it is recognised. -/
def Setting.wellTyped (s : Setting) : Bool :=
  if s.name = "logfile" then s.value.type = .string
  else if s.name = "filesize" then s.value.type = .int64
  else (keys.lookup s.name).all (s.value.type = ·.type)

theorem Value.exists_int_of_type {v : Value} (h : v.type = .int) : ∃ w, v = .int w := by
  cases v <;> simp_all [type]

theorem Value.exists_int64_of_type {v : Value} (h : v.type = .int64) : ∃ w, v = .int64 w := by
  cases v <;> simp_all [type]

theorem Value.exists_string_of_type {v : Value} (h : v.type = .string) :
    ∃ w, v = .string w := by
  cases v <;> simp_all [type]

/-- A branch refuses a value of another type than its own. -/
theorem Key.handle_of_type_ne {key : Key} {v : Value} (m : Mode) (opt : Opt)
    (h : v.type ≠ key.type) : key.handle m opt v = .fail opt := by
  cases key <;> cases v <;> first | rfl | exact absurd rfl h

/-! ## `set_from_root` -/

/-- What the loop of `set_from_root` has come to. -/
inductive LoopResult where
  /-- All settings were handled; `filesize` is that of a setting that was read. -/
  | finished (opt : Opt) (filesize : Option (BitVec 64)) (root : List Setting)
  /-- `return -1` -/
  | failed (opt : Opt)
  | crashed (reason : Crash)

/-- What `set_from_root` comes to; with 0, the settings that it leaves. -/
inductive Result where
  | returned (ret : ℤ) (opt : Opt) (root : List Setting)
  | crashed (reason : Crash)

section SetFromRoot

-- Whether `log_to_file` can open the file.
variable (logToFile : String → Bool)

/-- `"logfile"` -/
def logfile (opt : Opt) : Value → Handled
  | .string (some path) => if logToFile path then .next opt (.string (some path)) else .fail opt
  | _ => .fail opt

/-- `"filesize"`: a check of it ends in `return -1`, whatever it compares. -/
def filesize (m : Mode) (opt : Opt) : Value → Handled
  | .int64 v =>
      if m.check then .fail opt
      else if m.write then .next opt (.int64 opt.bufferBytes)
      else .next opt (.int64 v)
  | _ => .fail opt

/-- The body of the loop: both chains. -/
def handle (m : Mode) (opt : Opt) (s : Setting) : Handled :=
  if s.name = "logfile" then logfile logToFile opt s.value
  else if s.name = "filesize" then filesize m opt s.value
  else handleKey m opt s

/-- `filesize`, when the setting was read. -/
def filesizeRead (m : Mode) (s : Setting) (found : Option (BitVec 64)) : Option (BitVec 64) :=
  match s.value with
  | .int64 v => if s.name = "filesize" ∧ m = .read then some v else found
  | _ => found

/-- A setting of a wrong type ends the loop. -/
theorem handle_of_not_wellTyped {m : Mode} {opt : Opt} {s : Setting}
    (h : s.wellTyped = false) : handle logToFile m opt s = .fail opt := by
  obtain ⟨name, v⟩ := s
  by_cases hlog : name = "logfile"
  · subst hlog
    cases v <;> first | rfl | simp [Setting.wellTyped, Value.type] at h
  by_cases hsize : name = "filesize"
  · subst hsize
    cases v <;> first | rfl | simp [Setting.wellTyped, Value.type] at h
  cases hkey : keys.lookup name with
  | none => simp [Setting.wellTyped, hlog, hsize, hkey] at h
  | some key =>
    have hv : v.type ≠ key.type := by simpa [Setting.wellTyped, hlog, hsize, hkey] using h
    simp [handle, handleKey, hlog, hsize, hkey, Key.handle_of_type_ne m opt hv]

/-- The loop of `set_from_root`. -/
def settingsLoop (m : Mode) : Opt → Option (BitVec 64) → List Setting → LoopResult
  | opt, found, [] => .finished opt found []
  | opt, found, s :: rest =>
      match handle logToFile m opt s with
      | .crash reason => .crashed reason
      | .fail opt => .failed opt
      | .next opt value =>
          match settingsLoop m opt (filesizeRead m s found) rest with
          | .finished opt found rest => .finished opt found (⟨s.name, value⟩ :: rest)
          | result => result

/-- `set_from_root(opt, root, check, write)` -/
def setFromRoot (m : Mode) (opt : Opt) (root : List Setting) : Result :=
  match settingsLoop logToFile m opt none root with
  | .crashed reason => .crashed reason
  | .failed opt => .returned (-1) opt root
  | .finished opt none root => .returned 0 opt root
  | .finished opt (some filesize) root =>
      if opt.packetSize = 0 then .crashed .divideByZero
      else if Opt.long opt.bufDivision = 0 then .crashed .divideByZero
      else .returned 0 { opt with
          bufNumElems := (filesize / opt.packetSize).setWidth 32
          doWStuffEvery := filesize / Opt.long opt.bufDivision } root

end SetFromRoot

end VlbiStreamer.Config
