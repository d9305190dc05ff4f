import VlbiStreamer.Metadata.Vdif
import VlbiStreamer.Datatypes.HeaderTime

/-!
# Checking a stream

`vbs_metadata -m check` goes over the packets of a stream with an inspector for its
format.  For VDIF and for Mark5B it compares every frame with the one before, and
learns the number of frames in a second at the first change of the second.

* `Inspector.loop` is the loop of `main`.
* `discrepancies` is what the two inspectors have in common.  What they log of it is
  kept in the order in which it is logged.
* A Mark5B frame comes in two packets; the second has no header and is passed over,
  unless it begins like one.

`vdifCheck_eq` and `mark5bCheck_eq` reduce a whole check to the stamps of the headers.
-/

namespace VlbiStreamer.Metadata

open Library Receiver Datatypes

/-! ## The comparison -/

/-- What is logged of a broken packet. -/
inductive Inconsistency where
  /-- `previous framenum was .. and now is ..` -/
  | framenum (previous now : ℤ)
  /-- `Missing last frame of last packet as packets_per_second is .. and last frames
  number was ..` -/
  | lastFrame (packetsPerSecond last : ℤ)
  /-- `last frames second is .. and now its ..` -/
  | second (previous now : ℤ)
  /-- `last frames day is .. and now its ..` -/
  | day (previous now : ℤ)
  /-- `mark5bnet framenum was .. and now is ..` -/
  | netFramenum (previous now : ℤ)
  deriving DecidableEq, Repr

/-- What the inspectors compare of a frame: its number, its second, and its day or
reference epoch. -/
@[ext] structure Stamp where
  framenum : ℤ
  second : ℤ
  day : ℤ
  deriving DecidableEq, Repr

/-- `packets_per_second` after the first change of the second. -/
def learn (packetsPerSecond : ℤ) (previous now : Stamp) : ℤ :=
  if packetsPerSecond = 0 ∧ previous.second ≠ now.second then previous.framenum + 1
  else packetsPerSecond

/-- The comparison of `vdif_discrepancy` and `mark5b_discrepancy`. -/
def discrepancies (packetsPerSecond : ℤ) (previous now : Stamp) : List Inconsistency :=
  if now.framenum ≠ previous.framenum + 1 then
    if ¬ now.second = previous.second + 1 then [.framenum previous.framenum now.framenum]
    else if previous.framenum ≠ packetsPerSecond - 1 then
      [.lastFrame packetsPerSecond previous.framenum]
    else []
  else
    (if previous.second ≠ now.second then [.second previous.second now.second] else []) ++
      if previous.day ≠ now.day then [.day previous.day now.day] else []

/-! ## The loop -/

/-- The functions of an inspector; `none` ends the program with an error or, from
`packetMove`, is the end of the stream. -/
structure Inspector (Element : Type) where
  packetMove : Element → Option Element
  metadataIncrement : Element → Element
  checkForDiscrepancy : Element → Option Element

/-- The loop of `main`, for so many packets at most. -/
def Inspector.loop {Element : Type} (I : Inspector Element) : ℕ → Element → Option Element
  | 0, _ => none
  | n + 1, cce => do
      let cce ← I.checkForDiscrepancy cce
      match I.packetMove cce with
      | none => some (I.metadataIncrement cce)
      | some cce => I.loop n (I.metadataIncrement cce)

section Loop

variable {Element : Type} {I : Inspector Element} {cce cce' next : Element} {n : ℕ}

/-- At the end of the stream. -/
theorem Inspector.loop_end (hcheck : I.checkForDiscrepancy cce = some cce')
    (hmove : I.packetMove cce' = none) :
    I.loop (n + 1) cce = some (I.metadataIncrement cce') := by
  rw [Inspector.loop, hcheck]
  simp only [Option.bind_eq_bind, Option.bind_some, hmove]

/-- On to the next packet. -/
theorem Inspector.loop_next (hcheck : I.checkForDiscrepancy cce = some cce')
    (hmove : I.packetMove cce' = some next) :
    I.loop (n + 1) cce = I.loop n (I.metadataIncrement next) := by
  rw [Inspector.loop, hcheck]
  simp only [Option.bind_eq_bind, Option.bind_some, hmove]

end Loop

/-! ## VDIF -/

/-- `common_control_element` with the metadata of a VDIF frame and of the one before.
The stream is what is still to be read. -/
structure VdifElement where
  buffer : Bytes
  stream : List Bytes
  initialized : Bool
  packetsPerSecond : ℤ
  ms : MetadataVdif
  prevMs : MetadataVdif
  logged : List Inconsistency

/-- What is compared of a VDIF frame. -/
def MetadataVdif.stamp (ms : MetadataVdif) : Stamp :=
  ⟨ms.framenum, ms.secFromReferenceEpoch, ms.referenceEpoch⟩

namespace VdifElement

def packetMove (cce : VdifElement) : Option VdifElement :=
  match cce.stream with
  | [] => none
  | packet :: stream => some { cce with buffer := packet, stream := stream }

/-- `vdif_metadata_increment` -/
def metadataIncrement (cce : VdifElement) : VdifElement :=
  { cce with ms := copyVdifmetadata cce.buffer cce.ms }

/-- `vdif_printmetadata` -/
def printmetadata (cce : VdifElement) : VdifElement :=
  if cce.initialized then cce
  else { cce with ms := copyVdifmetadata cce.buffer cce.ms, initialized := true }

/-- `vdif_discrepancy` -/
def discrepancy (cce : VdifElement) : Option VdifElement :=
  if ¬ cce.initialized then
    let cce := cce.printmetadata
    some { cce with prevMs := cce.ms }
  else
    let packetsPerSecond := learn cce.packetsPerSecond cce.prevMs.stamp cce.ms.stamp
    some { cce with
      packetsPerSecond := packetsPerSecond
      logged := cce.logged ++ discrepancies packetsPerSecond cce.prevMs.stamp cce.ms.stamp
      prevMs := cce.ms }

end VdifElement

/-- `init_vdif_data` -/
def vdifInspector : Inspector VdifElement :=
  ⟨VdifElement.packetMove, VdifElement.metadataIncrement, VdifElement.discrepancy⟩

/-- The first packet has been read. -/
def VdifElement.initial (packet : Bytes) (stream : List Bytes) : VdifElement :=
  ⟨packet, stream, false, 0, .zero, .zero, []⟩

/-- The check of a VDIF stream. -/
def vdifCheck (packet : Bytes) (stream : List Bytes) : Option VdifElement :=
  vdifInspector.loop (stream.length + 1) (.initial packet stream)

/-! ## Mark5B -/

/-- `MARK5BSYNCWORD` -/
def mark5bSyncword : BitVec 32 := 0xABADDEED

/-- `syncword_check` -/
def syncwordCheck (buffer : Bytes) : Bool := word32 buffer 0 = mark5bSyncword

/-- `USERSPEC_FROM_MARK5B` -/
def userspecFromMark5b (buf : Bytes) : BitVec 32 := (word32 buf 4 &&& 0xffff0000) >>> 16

/-- `CRC_FROM_MARK5B` -/
def crcFromMark5b (buf : Bytes) : BitVec 32 := word32 buf 12 &&& 0x0000ffff

/-- `NETFRAMENUM_FROM_MARK5BNET` -/
def netframenumFromMark5bnet (buf : Bytes) : BitVec 32 := word32 buf 4

/-- `struct metadata_mark5b` -/
structure MetadataMark5b where
  userspecified : ℤ
  syncword : ℤ
  count : ℤ
  framenum : ℤ
  m5netframenum : ℤ
  dayOfYear : ℤ
  secondOfDay : ℤ
  crcc : ℤ
  deriving DecidableEq, Repr

/-- What is compared of a Mark5B frame. -/
def MetadataMark5b.stamp (ms : MetadataMark5b) : Stamp :=
  ⟨ms.framenum, ms.secondOfDay, ms.dayOfYear⟩

/-- `common_control_element` with the metadata of a Mark5B frame and of the one before;
`net` is `DATATYPE_MARK5BNET`, and `offset` stays `0`. -/
structure Mark5bElement where
  net : Bool
  buffer : Bytes
  stream : List Bytes
  netoffset : ℕ
  initialized : Bool
  packetsPerSecond : ℤ
  ms : MetadataMark5b
  prevMs : MetadataMark5b
  logged : List Inconsistency

namespace Mark5bElement

/-- `POINT_TO_THE_RIGHT_DIRECTION` -/
def point (cce : Mark5bElement) : Bytes := fun x => cce.buffer (cce.netoffset + x)

def packetMove (cce : Mark5bElement) : Option Mark5bElement :=
  match cce.stream with
  | [] => none
  | packet :: stream => some { cce with buffer := packet, stream := stream }

/-- `copy_m5metadata` -/
def copyM5metadata (cce : Mark5bElement) (ms : MetadataMark5b) : MetadataMark5b :=
  let (_, second, day) := getSecAndDayFromMark5b cce.point
  { count := if cce.net then getseqMark5bNet cce.buffer else ms.count
    secondOfDay := second
    dayOfYear := day
    userspecified := (userspecFromMark5b cce.point).toInt
    crcc := (crcFromMark5b cce.point).toInt
    framenum := (framenumFromMark5b cce.point).toNat
    syncword := (word32 cce.point 0).toInt
    m5netframenum := if cce.net then (netframenumFromMark5bnet cce.buffer).toNat else -1 }

/-- `mark5b_metadata_increment` -/
def metadataIncrement (cce : Mark5bElement) : Mark5bElement :=
  if syncwordCheck cce.point then { cce with ms := cce.copyM5metadata cce.ms } else cce

/-- `check_m5metadata` -/
def checkM5metadata (cce : Mark5bElement) : Option Mark5bElement :=
  let cce := { cce with netoffset := if cce.net then 8 else 0 }
  let ready := fun cce : Mark5bElement =>
    { cce with initialized := true, ms := cce.copyM5metadata cce.ms }
  if syncwordCheck cce.point then some (ready cce)
  else
    let cce := cce.packetMove.getD cce
    if syncwordCheck cce.point then some (ready cce) else none

/-- `mark5_printmetadata` -/
def printmetadata (cce : Mark5bElement) : Option Mark5bElement :=
  if cce.initialized then some cce else cce.checkM5metadata

/-- `mark5b_discrepancy` -/
def discrepancy (cce : Mark5bElement) : Option Mark5bElement :=
  if ¬ cce.initialized then do
    let cce ← cce.printmetadata
    return { cce with prevMs := cce.ms }
  else if ¬ syncwordCheck cce.point then
    let now : ℤ := (netframenumFromMark5bnet cce.buffer).toNat
    some { cce with
      logged := cce.logged ++
        if cce.net ∧ now ≠ cce.prevMs.m5netframenum + 1 then
          [.netFramenum cce.prevMs.m5netframenum now]
        else [] }
  else
    let packetsPerSecond := learn cce.packetsPerSecond cce.prevMs.stamp cce.ms.stamp
    some { cce with
      packetsPerSecond := packetsPerSecond
      logged := cce.logged ++
        (if cce.net ∧ cce.ms.m5netframenum ≠ cce.prevMs.m5netframenum + 2 then
          [.netFramenum cce.prevMs.m5netframenum cce.ms.m5netframenum]
        else []) ++
        discrepancies packetsPerSecond cce.prevMs.stamp cce.ms.stamp
      prevMs := cce.ms }

end Mark5bElement

/-- `init_mark5b_data` -/
def mark5bInspector : Inspector Mark5bElement :=
  ⟨Mark5bElement.packetMove, Mark5bElement.metadataIncrement, Mark5bElement.discrepancy⟩

/-- Metadata before anything is read. -/
def MetadataMark5b.zero : MetadataMark5b := ⟨0, 0, 0, 0, 0, 0, 0, 0⟩

/-- The first packet has been read. -/
def Mark5bElement.initial (net : Bool) (packet : Bytes) (stream : List Bytes) : Mark5bElement :=
  ⟨net, packet, stream, 0, false, 0, .zero, .zero, []⟩

/-- The check of a Mark5B stream. -/
def mark5bCheck (net : Bool) (packet : Bytes) (stream : List Bytes) : Option Mark5bElement :=
  mark5bInspector.loop (stream.length + 1) (.initial net packet stream)

/-! ## The stamps of a stream -/

/-- What is logged of the frames `l` after one that is stamped `previous`. -/
def reports : ℤ → Stamp → List Stamp → List Inconsistency
  | _, _, [] => []
  | packetsPerSecond, previous, now :: l =>
      discrepancies (learn packetsPerSecond previous now) previous now ++
        reports (learn packetsPerSecond previous now) now l

/-- The stamp in a VDIF header. -/
def vdifStamp (packet : Bytes) : Stamp :=
  ⟨framenumFromVdif packet, (getVdifSeconds packet).toInt, 0⟩

/-- The stamp in a Mark5B header. -/
def mark5bStamp (packet : Bytes) : Stamp :=
  ⟨(framenumFromMark5b packet).toNat, (getSecAndDayFromMark5b packet).2.1,
    (getSecAndDayFromMark5b packet).2.2⟩

section Loops

variable {packet : Bytes} {stream : List Bytes}

theorem stamp_copyVdifmetadata {ms : MetadataVdif} (h : ms.referenceEpoch = 0) :
    (copyVdifmetadata packet ms).stamp = vdifStamp packet := by
  unfold MetadataVdif.stamp vdifStamp
  ext
  · rfl
  · rfl
  · exact h

/-- The inspector after a packet. -/
def VdifElement.after (cce : VdifElement) : VdifElement :=
  { cce with
    packetsPerSecond := learn cce.packetsPerSecond cce.prevMs.stamp cce.ms.stamp
    logged := cce.logged ++ discrepancies
      (learn cce.packetsPerSecond cce.prevMs.stamp cce.ms.stamp) cce.prevMs.stamp cce.ms.stamp
    prevMs := cce.ms }

theorem VdifElement.discrepancy_of_initialized {cce : VdifElement}
    (h : cce.initialized = true) : cce.discrepancy = some cce.after := by
  unfold VdifElement.discrepancy
  rw [if_neg (not_not.mpr h)]
  rfl

/-- From the second packet on, the check compares the stamps. -/
theorem vdifInspector_loop (cce : VdifElement) (hinit : cce.initialized = true)
    (hepoch : cce.ms.referenceEpoch = 0) (hms : cce.ms.stamp = vdifStamp cce.buffer) :
    (vdifInspector.loop (cce.stream.length + 1) cce).map VdifElement.logged =
      some (cce.logged ++ reports cce.packetsPerSecond cce.prevMs.stamp
        (vdifStamp cce.buffer :: cce.stream.map vdifStamp)) := by
  generalize hstream : cce.stream = stream
  induction stream generalizing cce with
  | nil =>
      have hend : cce.after.packetMove = none := by
        rw [VdifElement.packetMove, show cce.after.stream = [] from hstream]
      rw [Inspector.loop_end (VdifElement.discrepancy_of_initialized hinit) hend]
      show some (_ ++ _) = some (_ ++ (_ ++ []))
      rw [hms, List.append_nil]
  | cons packet stream ih =>
      have hmove : cce.after.packetMove =
          some { cce.after with buffer := packet, stream := stream } := by
        rw [VdifElement.packetMove, show cce.after.stream = packet :: stream from hstream]
      rw [List.length_cons,
        Inspector.loop_next (VdifElement.discrepancy_of_initialized hinit) hmove]
      refine (ih (VdifElement.metadataIncrement { cce.after with
        buffer := packet
        stream := stream }) hinit hepoch (stamp_copyVdifmetadata hepoch) rfl).trans ?_
      show some (_ ++ _ ++ _) = some (_ ++ (_ ++ _))
      rw [List.append_assoc, ← hms]
      rfl

/-- **The check of a VDIF stream** compares the stamps of its frames. -/
theorem vdifCheck_eq : (vdifCheck packet stream).map VdifElement.logged =
    some (reports 0 (vdifStamp packet) (stream.map vdifStamp)) := by
  cases stream with
  | nil => rfl
  | cons second stream =>
      exact vdifInspector_loop
        ⟨second, stream, true, 0, copyVdifmetadata second (copyVdifmetadata packet .zero),
          copyVdifmetadata packet .zero, []⟩
        rfl rfl (stamp_copyVdifmetadata rfl)

/-- A Mark5B stream that is read from the start of its buffer. -/
structure Mark5bElement.Plain (cce : Mark5bElement) : Prop where
  net : cce.net = false
  netoffset : cce.netoffset = 0

theorem Mark5bElement.Plain.point {cce : Mark5bElement} (h : cce.Plain) :
    cce.point = cce.buffer := by
  funext x
  rw [Mark5bElement.point, h.netoffset, Nat.zero_add]

theorem Mark5bElement.Plain.stamp_copy {cce : Mark5bElement} (h : cce.Plain)
    (ms : MetadataMark5b) : (cce.copyM5metadata ms).stamp = mark5bStamp cce.buffer := by
  unfold Mark5bElement.copyM5metadata
  rw [h.point]
  rfl

/-- The inspector after a packet. -/
def Mark5bElement.after (cce : Mark5bElement) : Mark5bElement :=
  if syncwordCheck cce.buffer then
    { cce with
      packetsPerSecond := learn cce.packetsPerSecond cce.prevMs.stamp cce.ms.stamp
      logged := cce.logged ++ discrepancies
        (learn cce.packetsPerSecond cce.prevMs.stamp cce.ms.stamp) cce.prevMs.stamp cce.ms.stamp
      prevMs := cce.ms }
  else cce

theorem Mark5bElement.Plain.discrepancy {cce : Mark5bElement} (h : cce.Plain)
    (hinit : cce.initialized = true) : cce.discrepancy = some cce.after := by
  unfold Mark5bElement.discrepancy Mark5bElement.after
  rw [if_neg (not_not.mpr hinit), h.point]
  by_cases hsync : syncwordCheck cce.buffer = true
  · simp only [hsync, not_true, if_false, if_true, h.net, Bool.false_eq_true, false_and,
      List.append_nil]
  · simp only [hsync, not_false_eq_true, if_true, Bool.false_eq_true, if_false, h.net, false_and,
      List.append_nil]
    rw [← h.net]

/-- What is logged of a packet. -/
theorem Mark5bElement.after_logged {cce : Mark5bElement} {l : List Bytes}
    (hms : syncwordCheck cce.buffer → cce.ms.stamp = mark5bStamp cce.buffer) :
    cce.after.logged ++ reports cce.after.packetsPerSecond cce.after.prevMs.stamp
        ((l.filter syncwordCheck).map mark5bStamp) =
      cce.logged ++ reports cce.packetsPerSecond cce.prevMs.stamp
        (((cce.buffer :: l).filter syncwordCheck).map mark5bStamp) := by
  unfold Mark5bElement.after
  by_cases hsync : syncwordCheck cce.buffer = true
  · rw [if_pos hsync, List.filter_cons_of_pos hsync, List.map_cons, ← hms hsync,
      List.append_assoc]
    rfl
  · rw [if_neg hsync, List.filter_cons_of_neg hsync]

theorem Mark5bElement.Plain.after {cce : Mark5bElement} (h : cce.Plain) : cce.after.Plain := by
  unfold Mark5bElement.after
  split <;> exact ⟨h.net, h.netoffset⟩

theorem Mark5bElement.after_initialized (cce : Mark5bElement) :
    cce.after.initialized = cce.initialized := by
  unfold Mark5bElement.after
  split <;> rfl

theorem Mark5bElement.after_stream (cce : Mark5bElement) : cce.after.stream = cce.stream := by
  unfold Mark5bElement.after
  split <;> rfl

/-- `mark5b_metadata_increment` reads a header. -/
theorem Mark5bElement.Plain.increment {cce : Mark5bElement} (h : cce.Plain) :
    cce.metadataIncrement = { cce with ms := cce.metadataIncrement.ms } ∧
      (syncwordCheck cce.buffer → cce.metadataIncrement.ms.stamp = mark5bStamp cce.buffer) := by
  unfold Mark5bElement.metadataIncrement
  rw [h.point]
  by_cases hsync : syncwordCheck cce.buffer = true
  · rw [if_pos hsync]
    exact ⟨rfl, fun _ => h.stamp_copy _⟩
  · rw [if_neg hsync]
    exact ⟨rfl, fun h => absurd h hsync⟩

/-- From the second packet on, the check compares the stamps of the headers. -/
theorem mark5bInspector_loop (cce : Mark5bElement) (hplain : cce.Plain)
    (hinit : cce.initialized = true)
    (hms : syncwordCheck cce.buffer → cce.ms.stamp = mark5bStamp cce.buffer) :
    (mark5bInspector.loop (cce.stream.length + 1) cce).map Mark5bElement.logged =
      some (cce.logged ++ reports cce.packetsPerSecond cce.prevMs.stamp
        (((cce.buffer :: cce.stream).filter syncwordCheck).map mark5bStamp)) := by
  generalize hstream : cce.stream = stream
  induction stream generalizing cce with
  | nil =>
      have hend : cce.after.packetMove = none := by
        rw [Mark5bElement.packetMove, cce.after_stream, hstream]
      rw [Inspector.loop_end (hplain.discrepancy hinit) hend, ← Mark5bElement.after_logged hms]
      show some cce.after.metadataIncrement.logged = _
      rw [hplain.after.increment.1]
      exact congrArg some (List.append_nil _).symm
  | cons packet stream ih =>
      have hmove : cce.after.packetMove =
          some { cce.after with buffer := packet, stream := stream } := by
        rw [Mark5bElement.packetMove, cce.after_stream, hstream]
      rw [Inspector.loop_next (hplain.discrepancy hinit) hmove, ← Mark5bElement.after_logged hms]
      generalize hnext : ({ cce.after with buffer := packet, stream := stream } : Mark5bElement) =
        next
      have hplain' : next.Plain := by
        rw [← hnext]
        exact ⟨hplain.after.net, hplain.after.netoffset⟩
      obtain ⟨hframe, hstamp⟩ := hplain'.increment
      refine (ih next.metadataIncrement ?_ ?_ ?_ ?_).trans ?_
      · rw [hframe]
        exact ⟨hplain'.net, hplain'.netoffset⟩
      · rw [hframe, ← hnext]
        exact cce.after_initialized.trans hinit
      · rw [hframe]
        exact hstamp
      · rw [hframe, ← hnext]
      · rw [hframe, ← hnext]

/-- The inspector after the first header. -/
def Mark5bElement.started (packet : Bytes) (stream : List Bytes) : Mark5bElement :=
  let ms := (Mark5bElement.initial false packet stream).copyM5metadata .zero
  { Mark5bElement.initial false packet stream with
    initialized := true
    ms := ms
    prevMs := ms }

theorem Mark5bElement.discrepancy_initial (hsync : syncwordCheck packet) :
    (Mark5bElement.initial false packet stream).discrepancy =
      some (.started packet stream) := by
  have hplain : (Mark5bElement.initial false packet stream).Plain := ⟨rfl, rfl⟩
  have hpoint : syncwordCheck (Mark5bElement.initial false packet stream).point := by
    rw [hplain.point]
    exact hsync
  have hcheck : (Mark5bElement.initial false packet stream).printmetadata =
      some { Mark5bElement.initial false packet stream with
        initialized := true
        ms := (Mark5bElement.initial false packet stream).copyM5metadata .zero } := if_pos hpoint
  show (Mark5bElement.initial false packet stream).printmetadata.bind _ = _
  rw [hcheck]
  rfl

/-- **The check of a Mark5B stream** compares the stamps of what begins like a header. -/
theorem mark5bCheck_eq (hsync : syncwordCheck packet) :
    (mark5bCheck false packet stream).map Mark5bElement.logged =
      some (reports 0 (mark5bStamp packet) ((stream.filter syncwordCheck).map mark5bStamp)) := by
  have hinitial : (Mark5bElement.initial false packet stream).Plain := ⟨rfl, rfl⟩
  have hfirst : (Mark5bElement.started packet stream).prevMs.stamp = mark5bStamp packet :=
    hinitial.stamp_copy .zero
  unfold mark5bCheck
  cases stream with
  | nil =>
      have hplain : (Mark5bElement.started packet []).Plain := ⟨rfl, rfl⟩
      rw [Inspector.loop_end (Mark5bElement.discrepancy_initial hsync) rfl]
      show some (Mark5bElement.started packet []).metadataIncrement.logged = _
      rw [hplain.increment.1]
      rfl
  | cons second stream =>
      have hmove : (Mark5bElement.started packet (second :: stream)).packetMove =
          some { Mark5bElement.started packet (second :: stream) with
            buffer := second
            stream := stream } := rfl
      rw [List.length_cons,
        Inspector.loop_next (Mark5bElement.discrepancy_initial hsync) hmove, ← hfirst]
      generalize hnext : ({ Mark5bElement.started packet (second :: stream) with
        buffer := second
        stream := stream } : Mark5bElement) = next
      have hplain : next.Plain := by
        rw [← hnext]
        exact ⟨rfl, rfl⟩
      obtain ⟨hframe, hstamp⟩ := hplain.increment
      have hstream : next.metadataIncrement.stream = stream := by rw [hframe, ← hnext]
      have hloop := mark5bInspector_loop next.metadataIncrement
        (by rw [hframe]; exact ⟨hplain.net, hplain.netoffset⟩)
        (by rw [hframe, ← hnext]; rfl) (by rw [hframe]; exact hstamp)
      rw [hstream] at hloop
      refine hloop.trans ?_
      rw [hframe, ← hnext]
      rfl

end Loops

end VlbiStreamer.Metadata
