import VlbiStreamer.Datatypes.HeaderFields

/-!
# The metadata of a VDIF frame

`vbs_metadata` decodes the four words of a VDIF header into a `metadata_vdif`, one
macro for every field.

* `copyVdifmetadata` is the decoder with its macros.
* `VdifHeader` has the fields of the format, and `encode` puts them into the words.

`decodes_iff` says for which fields the decoder yields what was encoded.
-/

namespace VlbiStreamer.Metadata

open Library Receiver Datatypes

/-! ## The decoder -/

section Macros

variable (buf : Bytes)

/-- `GET_VDIF_CHANNELS` -/
def getVdifChannels : BitVec 32 := (0x1F000000 &&& word32be buf 8) >>> 24

/-- `GET_VDIF_FRAME_LENGTH` -/
def getVdifFrameLength : BitVec 32 := 0x00FFFFFF &&& word32be buf 8

/-- `GET_VDIF_DATATYPE` -/
def getVdifDatatype : BitVec 32 := (0x80000000 &&& word32be buf 12) >>> 31

/-- `GET_VDIF_BITS_PER_SAMPLE` -/
def getVdifBitsPerSample : BitVec 32 := (0xEC000000 &&& word32be buf 12) >>> 26

/-- `GET_VDIF_THREAD_ID` -/
def getVdifThreadId : BitVec 32 := (0x03FF0000 &&& word32be buf 12) >>> 16

/-- `GET_VDIF_STATION_ID` -/
def getVdifStationId : BitVec 32 := (0x0000FFFF &&& word32be buf 12) >>> 16

/-- `GET_VALID_BIT` -/
def getValidBit : BitVec 32 := (0x80000000 &&& word32be buf 0) >>> 31

/-- `GET_LEGACY_BIT` -/
def getLegacyBit : BitVec 32 := (0x40000000 &&& word32be buf 0) >>> 30

end Macros

/-- `struct metadata_vdif` -/
structure MetadataVdif where
  initialized : ℤ
  validData : ℤ
  legacyMode : ℤ
  secFromReferenceEpoch : ℤ
  referenceEpoch : ℤ
  syncword : ℤ
  vdifVersion : ℤ
  framenum : ℤ
  log2NumChannels : ℤ
  dataFrameLength8byteUnits : ℤ
  realOrComplex : ℤ
  bitsPerSample : ℤ
  threadId : ℤ
  stationId : ℤ
  deriving DecidableEq, Repr

/-- `copy_vdifmetadata` -/
def copyVdifmetadata (buffer : Bytes) (ms : MetadataVdif) : MetadataVdif :=
  { ms with
    secFromReferenceEpoch := (getVdifSeconds buffer).toInt
    framenum := framenumFromVdif buffer
    validData := (getValidBit buffer).toInt
    legacyMode := (getLegacyBit buffer).toInt
    vdifVersion := (getVdifSeconds buffer).toInt
    log2NumChannels := (getVdifChannels buffer).toInt
    dataFrameLength8byteUnits := (getVdifFrameLength buffer).toInt
    realOrComplex := (getVdifDatatype buffer).toInt
    bitsPerSample := (getVdifBitsPerSample buffer).toInt
    threadId := (getVdifThreadId buffer).toInt
    stationId := (getVdifStationId buffer).toInt }

/-! ## The format -/

/-- The fields of a VDIF header. -/
structure VdifHeader where
  invalid : BitVec 1
  legacy : BitVec 1
  second : BitVec 30
  unassigned : BitVec 2
  referenceEpoch : BitVec 6
  framenum : BitVec 24
  version : BitVec 3
  log2Channels : BitVec 5
  frameLength : BitVec 24
  complex : BitVec 1
  bitsPerSample : BitVec 5
  threadId : BitVec 10
  stationId : BitVec 16

/-- A frame with such a header. -/
def VdifHeader.encode (h : VdifHeader) (frame : Bytes) : Bytes :=
  let frame := setWord32be frame 0 (h.invalid ++ h.legacy ++ h.second)
  let frame := setWord32be frame 4 (h.unassigned ++ h.referenceEpoch ++ h.framenum)
  let frame := setWord32be frame 8 (h.version ++ h.log2Channels ++ h.frameLength)
  setWord32be frame 12 (h.complex ++ h.bitsPerSample ++ h.threadId ++ h.stationId)

/-- Every field is what was encoded. -/
structure MetadataVdif.Decodes (ms : MetadataVdif) (h : VdifHeader) : Prop where
  validData : ms.validData = h.invalid.toNat
  legacyMode : ms.legacyMode = h.legacy.toNat
  second : ms.secFromReferenceEpoch = h.second.toNat
  referenceEpoch : ms.referenceEpoch = h.referenceEpoch.toNat
  framenum : ms.framenum = h.framenum.toNat
  version : ms.vdifVersion = h.version.toNat
  log2Channels : ms.log2NumChannels = h.log2Channels.toNat
  frameLength : ms.dataFrameLength8byteUnits = h.frameLength.toNat
  complex : ms.realOrComplex = h.complex.toNat
  bitsPerSample : ms.bitsPerSample = h.bitsPerSample.toNat
  threadId : ms.threadId = h.threadId.toNat
  stationId : ms.stationId = h.stationId.toNat

section Decoding

variable {h : VdifHeader} {frame : Bytes} {ms : MetadataVdif}

theorem word32be_encode₀ :
    word32be (h.encode frame) 0 = h.invalid ++ h.legacy ++ h.second := by
  unfold VdifHeader.encode
  rw [word32be_setWord32be_of_disjoint (by omega), word32be_setWord32be_of_disjoint (by omega),
    word32be_setWord32be_of_disjoint (by omega), word32be_setWord32be]

theorem word32be_encode₄ :
    word32be (h.encode frame) 4 = h.unassigned ++ h.referenceEpoch ++ h.framenum := by
  unfold VdifHeader.encode
  rw [word32be_setWord32be_of_disjoint (by omega), word32be_setWord32be_of_disjoint (by omega),
    word32be_setWord32be]

theorem word32be_encode₈ :
    word32be (h.encode frame) 8 = h.version ++ h.log2Channels ++ h.frameLength := by
  unfold VdifHeader.encode
  rw [word32be_setWord32be_of_disjoint (by omega), word32be_setWord32be]

theorem word32be_encode₁₂ : word32be (h.encode frame) 12 =
    h.complex ++ h.bitsPerSample ++ h.threadId ++ h.stationId := by
  unfold VdifHeader.encode
  rw [word32be_setWord32be]

/-- A macro with the mask of its field reads the field. -/
theorem toInt_field {w : BitVec 32} {j k : ℕ} {x : BitVec k} (hk : k < 32)
    (hx : w.extractLsb' j k = x) : ((mask 32 j k &&& w) >>> j).toInt = x.toNat := by
  have hfield := toNat_and_mask_ushiftRight (j := j) w hk.le
  have hlt := x.isLt
  have hpow : 2 ^ k ≤ 2 ^ 31 := Nat.pow_le_pow_right (by omega) (by omega)
  rw [hx] at hfield
  rw [BitVec.and_comm, BitVec.toInt_eq_toNat_of_lt (by omega), hfield]

/-- So does one for the low bits of a word. -/
theorem toInt_lowField {w : BitVec 32} {k : ℕ} {x : BitVec k} (hk : k < 32)
    (hx : w.extractLsb' 0 k = x) : (mask 32 0 k &&& w).toInt = x.toNat := by
  have hfield := toInt_field hk hx
  rwa [BitVec.ushiftRight_zero] at hfield

/-! One macro after the other. -/

theorem getVdifSeconds_encode : (getVdifSeconds (h.encode frame)).toInt = h.second.toNat := by
  refine toInt_lowField (w := word32be (h.encode frame) 0) (k := 30) (by omega) ?_
  rw [word32be_encode₀]
  exact BitVec.extractLsb'_append_eq_right

theorem getValidBit_encode : (getValidBit (h.encode frame)).toInt = h.invalid.toNat := by
  refine toInt_field (w := word32be (h.encode frame) 0) (j := 31) (k := 1) (by omega) ?_
  rw [word32be_encode₀, BitVec.extractLsb'_append_eq_of_le (by omega)]
  exact BitVec.extractLsb'_append_eq_left

theorem getLegacyBit_encode : (getLegacyBit (h.encode frame)).toInt = h.legacy.toNat := by
  refine toInt_field (w := word32be (h.encode frame) 0) (j := 30) (k := 1) (by omega) ?_
  rw [word32be_encode₀, BitVec.extractLsb'_append_eq_of_le (by omega)]
  exact BitVec.extractLsb'_append_eq_right

theorem framenumFromVdif_encode : framenumFromVdif (h.encode frame) = h.framenum.toNat := by
  have hlow : (word32be (h.encode frame) 4).extractLsb' 0 24 = h.framenum := by
    rw [word32be_encode₄]
    exact BitVec.extractLsb'_append_eq_right
  have hmask : (word32be (h.encode frame) 4 &&& 0x00ffffff).toNat = _ :=
    toNat_and_mask_ushiftRight (j := 0) (k := 24) (word32be (h.encode frame) 4) (by omega)
  rw [framenumFromVdif, hmask, hlow]

theorem getVdifChannels_encode :
    (getVdifChannels (h.encode frame)).toInt = h.log2Channels.toNat := by
  refine toInt_field (w := word32be (h.encode frame) 8) (j := 24) (k := 5) (by omega) ?_
  rw [word32be_encode₈, BitVec.extractLsb'_append_eq_of_le (by omega)]
  exact BitVec.extractLsb'_append_eq_right

theorem getVdifFrameLength_encode :
    (getVdifFrameLength (h.encode frame)).toInt = h.frameLength.toNat := by
  refine toInt_lowField (w := word32be (h.encode frame) 8) (k := 24) (by omega) ?_
  rw [word32be_encode₈]
  exact BitVec.extractLsb'_append_eq_right

theorem getVdifDatatype_encode :
    (getVdifDatatype (h.encode frame)).toInt = h.complex.toNat := by
  refine toInt_field (w := word32be (h.encode frame) 12) (j := 31) (k := 1) (by omega) ?_
  rw [word32be_encode₁₂, BitVec.extractLsb'_append_eq_of_le (by omega),
    BitVec.extractLsb'_append_eq_of_le (by omega)]
  exact BitVec.extractLsb'_append_eq_left

theorem getVdifThreadId_encode :
    (getVdifThreadId (h.encode frame)).toInt = h.threadId.toNat := by
  refine toInt_field (w := word32be (h.encode frame) 12) (j := 16) (k := 10) (by omega) ?_
  rw [word32be_encode₁₂, BitVec.extractLsb'_append_eq_of_le (by omega)]
  exact BitVec.extractLsb'_append_eq_right

/-- The mask of the bits per sample has the bit above them and lacks one of theirs. -/
theorem getVdifBitsPerSample_encode : (getVdifBitsPerSample (h.encode frame)).toInt =
    2 ^ 5 * h.complex.toNat + (0b11011 &&& h.bitsPerSample).toNat := by
  have hhigh : (word32be (h.encode frame) 12).extractLsb' 26 6 =
      h.complex ++ h.bitsPerSample := by
    rw [word32be_encode₁₂, BitVec.extractLsb'_append_eq_of_le (by omega),
      BitVec.extractLsb'_append_eq_of_le (by omega)]
    exact BitVec.extractLsb'_eq_self
  have hshift : word32be (h.encode frame) 12 >>> 26 =
      (h.complex ++ h.bitsPerSample : BitVec 6).setWidth 32 := by
    rw [← hhigh]
    exact ushiftRight_eq_field _ rfl
  have hmask : getVdifBitsPerSample (h.encode frame) =
      ((1#1 ++ 0b11011#5) &&& (h.complex ++ h.bitsPerSample : BitVec 6)).setWidth 32 := by
    rw [getVdifBitsPerSample, BitVec.ushiftRight_and_distrib, hshift, BitVec.setWidth_and]
    rfl
  have hlow := (0b11011 &&& h.bitsPerSample).isLt
  have hbit := h.complex.isLt
  have hnat : (getVdifBitsPerSample (h.encode frame)).toNat =
      2 ^ 5 * h.complex.toNat + (0b11011 &&& h.bitsPerSample).toNat := by
    rw [hmask, BitVec.and_append, show 1#1 &&& h.complex = h.complex from BitVec.allOnes_and,
      BitVec.toNat_setWidth, toNat_append]
    exact Nat.mod_eq_of_lt (by omega)
  rw [BitVec.toInt_eq_toNat_of_lt (by omega), hnat]
  push_cast
  rfl

/-- The mask of the station has none of the bits that the shift leaves. -/
theorem getVdifStationId_eq (buf : Bytes) : getVdifStationId buf = 0 := by
  rw [getVdifStationId, BitVec.ushiftRight_and_distrib]
  exact BitVec.zero_and

/-- **What the decoder yields**. -/
theorem copyVdifmetadata_encode : copyVdifmetadata (h.encode frame) ms =
    { ms with
      secFromReferenceEpoch := h.second.toNat
      framenum := h.framenum.toNat
      validData := h.invalid.toNat
      legacyMode := h.legacy.toNat
      vdifVersion := h.second.toNat
      log2NumChannels := h.log2Channels.toNat
      dataFrameLength8byteUnits := h.frameLength.toNat
      realOrComplex := h.complex.toNat
      bitsPerSample := 2 ^ 5 * h.complex.toNat + (0b11011 &&& h.bitsPerSample).toNat
      threadId := h.threadId.toNat
      stationId := 0 } := by
  unfold copyVdifmetadata
  rw [getVdifSeconds_encode, framenumFromVdif_encode, getValidBit_encode, getLegacyBit_encode,
    getVdifChannels_encode, getVdifFrameLength_encode, getVdifDatatype_encode,
    getVdifBitsPerSample_encode, getVdifThreadId_encode, getVdifStationId_eq]
  rfl

/-- The bits per sample are read right in a frame of real samples without their third
bit. -/
theorem bitsPerSample_eq_iff (complex : BitVec 1) (bits : BitVec 5) :
    2 ^ 5 * complex.toNat + (0b11011 &&& bits).toNat = bits.toNat ↔
      complex = 0 ∧ bits.getLsbD 2 = false := by
  decide +revert

/-- **What is encoded is decoded** by `copy_vdifmetadata` exactly for these fields. -/
theorem decodes_iff (h : VdifHeader) (frame : Bytes) (ms : MetadataVdif) :
    (copyVdifmetadata (h.encode frame) ms).Decodes h ↔
      h.version.toNat = h.second.toNat ∧ h.stationId = 0 ∧
      ms.referenceEpoch = h.referenceEpoch.toNat ∧ h.complex = 0 ∧
      h.bitsPerSample.getLsbD 2 = false := by
  rw [copyVdifmetadata_encode]
  constructor
  · intro hdec
    have hversion : (h.second.toNat : ℤ) = h.version.toNat := hdec.version
    have hstation : (0 : ℤ) = h.stationId.toNat := hdec.stationId
    have hbits : 2 ^ 5 * (h.complex.toNat : ℤ) + (0b11011 &&& h.bitsPerSample).toNat =
      h.bitsPerSample.toNat := hdec.bitsPerSample
    refine ⟨by omega, ?_, hdec.referenceEpoch, ?_⟩
    · apply BitVec.eq_of_toNat_eq
      exact (Int.natCast_inj.mp hstation).symm
    · exact (bitsPerSample_eq_iff _ _).mp (by exact_mod_cast hbits)
  · rintro ⟨hversion, hstation, hepoch, hbits⟩
    exact
      { validData := rfl
        legacyMode := rfl
        second := rfl
        referenceEpoch := hepoch
        framenum := rfl
        version := congrArg Nat.cast hversion.symm
        log2Channels := rfl
        frameLength := rfl
        complex := rfl
        bitsPerSample := congrArg Nat.cast ((bitsPerSample_eq_iff _ _).mpr hbits)
        threadId := rfl
        stationId := by rw [hstation]; rfl }

end Decoding

/-- The header of a frame with `second` and otherwise nothing. -/
def exampleHeader : VdifHeader where
  invalid := 0
  legacy := 0
  second := 1
  unassigned := 0
  referenceEpoch := 0
  framenum := 0
  version := 0
  log2Channels := 0
  frameLength := 0
  complex := 0
  bitsPerSample := 0
  threadId := 0
  stationId := 0

/-- What `init_vdif_data` begins with. -/
def MetadataVdif.zero : MetadataVdif := ⟨0, 0, 0, 0, 0, 0, 0, 0, 0, 0, 0, 0, 0, 0⟩

/-- **The version is the second.** -/
theorem version_is_second :
    ¬ ∀ (h : VdifHeader) (frame : Bytes) (ms : MetadataVdif),
      (copyVdifmetadata (h.encode frame) ms).Decodes h := by
  intro hall
  have hversion := (hall exampleHeader (fun _ => 0) .zero).version
  rw [copyVdifmetadata_encode] at hversion
  exact absurd hversion (by decide)

end VlbiStreamer.Metadata
