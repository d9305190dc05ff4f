import Mathlib.Data.List.Perm.Basic
import Mathlib.Data.List.Perm.Subperm
import VlbiStreamer.Recorder.SingleFile

/-!
# Turns in a single file

The threads of the buffers take turns: `InOrder` says that the chunks come to the file one
after the other, each at its place, and that `next_fd_id_to_write` counts them.

Nothing but the release of a recorder moves the turn on, and it does so whatever came before
it.  `Sound` is the condition on a step under which the turn is right: a failure is neither
taken for success nor answered with a release, and what is counted is in the file.  The bytes
of a request that failed need not be there: another attempt writes the chunk once more, from
its place on.
-/

namespace VlbiStreamer.Recorder

open Library

variable {ι : Type} {d : Setup} {s t : SingleFile ι} {i j : ι} {b b' : Buffer}

/-! ## The property and the condition -/

/-- The chunks are written in their order. -/
structure InOrder (d : Setup) (s : SingleFile ι) : Prop where
  next : s.next = s.written.length
  /-- Every chunk that has been written has been written once. -/
  written : s.written = List.range s.next
  /-- While a chunk is written, the chunks before it have been written. -/
  turn : ∀ i, (s.buffers i).stand = .writing → s.written = List.range (s.buffers i).fileid
  placed : ∀ k ∈ s.written, ∀ n, s.sizes k = some n →
    Holds s.file (k * d.calcBufsize) (d.chunk k n)
  /-- Nothing else is in the file. -/
  only : ∀ x k j, s.file x = some (k, j) → ∃ n m, s.sizes k = some n ∧
    x = k * d.calcBufsize + m ∧ (d.bytes 0 n)[m]? = some j

/-- Another attempt has the bytes of this one: their count survives `savedif`. -/
def Buffer.Retries (b : Buffer) : Prop := b.savedif.signExtend 64 = b.size

/-- The first `count` bytes of request `n` are in the file. -/
def SingleFile.Landed (d : Setup) (s : SingleFile ι) (b : Buffer) (n : Option ℕ) (count : ℕ) :
    Prop :=
  ∀ m ∈ n, ∀ flight ∈ (s.flights b.recer)[m]?,
    Holds s.file flight.place ((d.bytes flight.start count).map fun x => (flight.chunk, x))

/-- The condition on a step. -/
def Sound (d : Setup) (s : SingleFile ι) : FileAction ι → Prop
  | .fill _ _ diff => (d.bytes 0 diff.toNat).length ≤ d.calcBufsize ∧
      (d.opt.writend = .recWritev → d.opt.packetSize ∣ diff.toNat)
  | .acquire i _ err =>
      (err = 0 → d.opt.writend.seeks = false → ∀ k < (s.buffers i).fileid, ∀ n ∈ s.sizes k,
        (d.bytes 0 n).length = d.calcBufsize) ∧
      (err ≠ 0 → err ≠ enospc ∧ (s.buffers i).Retries)
  | .write i ret put =>
      let b := s.buffers i
      0 ≤ ret ∧ ret ≤ b.sbuf.diff.toNat ∧
      (d.opt.asyncWrite = false → put = (d.bytes b.sbuf.bufoffset.toNat ret.toNat).length)
  | .check i n ret =>
      (Call.check ret).Told ∧ (checkRet ret < 0 → (s.buffers i).Retries) ∧
      (0 < checkRet ret → s.Landed d (s.buffers i) n (checkRet ret).toNat)
  | .pass _ | .noRecer _ | .land _ _ _ | .release _ => True

instance (b : Buffer) : Decidable b.Retries := inferInstanceAs (Decidable (_ = _))

instance (s : SingleFile ι) (b : Buffer) (n : Option ℕ) (count : ℕ) :
    Decidable (s.Landed d b n count) := by
  unfold SingleFile.Landed Holds
  infer_instance

instance (s : SingleFile ι) (a : FileAction ι) : Decidable (Sound d s a) := by
  cases a <;> unfold Sound <;> infer_instance

/-! ## The invariant -/

/-- The thread has a chunk. -/
def Stand.active : Stand → Bool
  | .trying | .acquiring | .writing | .releasing => true
  | .sleeping | .stopped => false

/-- The thread has waited for its turn. -/
def Stand.turn : Stand → Bool
  | .acquiring | .writing | .releasing => true
  | .sleeping | .trying | .stopped => false

/-- The thread holds a recorder. -/
def Stand.inside : Stand → Bool
  | .writing | .releasing => true
  | .sleeping | .trying | .acquiring | .stopped => false

theorem Stand.turn_of_inside {st : Stand} (h : st.inside = true) : st.turn = true := by
  cases st <;> first | rfl | cases h

theorem Stand.active_of_turn {st : Stand} (h : st.turn = true) : st.active = true := by
  cases st <;> first | rfl | cases h

/-- The bytes of the first `n` chunks. -/
def Setup.total (d : Setup) (sizes : ℕ → Option ℕ) (n : ℕ) : ℕ :=
  ((List.range n).map fun k => (d.bytes 0 ((sizes k).getD 0)).length).sum

/-- The places of the buffer that a request is about. -/
def Flight.places (flight : Flight) : List ℕ := List.range' flight.start flight.count

/-- What has become of the requests of an attempt: those for the places `told` were reported,
and their bytes are in the file; each of the others is with the kernel. -/
structure Underway (d : Setup) (s : SingleFile ι) (b : Buffer) (told : List ℕ) : Prop where
  taken : told.length = b.taken
  nodup : (told ++ (s.flights b.recer).flatMap Flight.places).Nodup
  below : ∀ x ∈ told ++ (s.flights b.recer).flatMap Flight.places, x < b.sbuf.bufoffset.toNat
  held : ∀ x ∈ told, s.file (b.fileid * d.calcBufsize + x) = some (b.fileid, x)
  flights : ∀ flight ∈ s.flights b.recer, flight.chunk = b.fileid ∧ 0 < flight.count ∧
    flight.place = b.fileid * d.calcBufsize + flight.start

/-- What has been done of the chunk of a thread that holds a recorder. -/
structure Progress (d : Setup) (s : SingleFile ι) (b : Buffer) : Prop where
  nonneg : 0 ≤ b.sbuf.bufoffset
  sum : b.sbuf.bufoffset.toNat + b.sbuf.diff.toNat = b.size.toNat
  aligned : d.opt.writend = .recWritev → d.opt.packetSize ∣ b.sbuf.bufoffset.toNat
  place : s.place d b = b.fileid * d.calcBufsize + (d.bytes 0 b.sbuf.bufoffset.toNat).length
  total : d.opt.writend.seeks = false → d.total s.sizes b.fileid = b.fileid * d.calcBufsize
  sync : d.opt.asyncWrite = false → b.taken = b.sbuf.bufoffset.toNat ∧
    Holds s.file (b.fileid * d.calcBufsize) (d.chunk b.fileid b.sbuf.bufoffset.toNat)
  async : d.opt.asyncWrite = true → b.taken + b.sbuf.asyncdiff.toNat = b.size.toNat ∧
    ∃ told, Underway d s b told

/-- What holds between the steps. -/
structure Turns (d : Setup) (s : SingleFile ι) : Prop where
  written : s.written = List.range s.next
  handed : ∀ k < s.next, s.sizes k ≠ none
  fits : ∀ k n, s.sizes k = some n → (d.bytes 0 n).length ≤ d.calcBufsize ∧
    (d.opt.writend = .recWritev → d.opt.packetSize ∣ n)
  active : ∀ i, (s.buffers i).stand.active = true →
    s.sizes (s.buffers i).fileid = some (s.buffers i).size.toNat ∧ s.next ≤ (s.buffers i).fileid
  distinct : ∀ i j, (s.buffers i).stand.active = true → (s.buffers j).stand.active = true →
    (s.buffers i).fileid = (s.buffers j).fileid → i = j
  turn : ∀ i, (s.buffers i).stand.turn = true → (s.buffers i).fileid = s.next
  outside : ∀ i, (s.buffers i).stand = .trying ∨ (s.buffers i).stand = .acquiring →
    (s.buffers i).sbuf.diff = (s.buffers i).size ∧ (s.buffers i).sbuf.bufoffset = 0
  progress : ∀ i, (s.buffers i).stand.inside = true → Progress d s (s.buffers i)
  finished : ∀ i, (s.buffers i).stand = .releasing → (s.buffers i).size.toNat ≤ (s.buffers i).taken
  /-- Only the recorder of a thread that is writing has requests in its queue. -/
  flying : ∀ r, s.flights r ≠ [] → d.opt.asyncWrite = true ∧
    ∃ i, (s.buffers i).stand.inside = true ∧ (s.buffers i).recer = r
  idle : d.opt.writend.seeks = false → (∀ i, (s.buffers i).stand.inside = false) →
    s.position = d.total s.sizes s.next
  placed : ∀ k < s.next, ∀ n, s.sizes k = some n →
    Holds s.file (k * d.calcBufsize) (d.chunk k n)
  only : ∀ x k j, s.file x = some (k, j) → ∃ n m, s.sizes k = some n ∧
    x = k * d.calcBufsize + m ∧ (d.bytes 0 n)[m]? = some j

theorem Turns.inOrder (h : Turns d s) : InOrder d s where
  next := by rw [h.written, List.length_range]
  written := h.written
  turn := fun i hwriting => by
    rw [h.turn i (by rw [hwriting]; rfl)]
    exact h.written
  placed := fun k hk => h.placed k (List.mem_range.mp (h.written ▸ hk))
  only := h.only

theorem Setup.total_succ (d : Setup) (sizes : ℕ → Option ℕ) (n : ℕ) :
    d.total sizes (n + 1) = d.total sizes n + (d.bytes 0 ((sizes n).getD 0)).length := by
  rw [total, List.range_succ, List.map_append, List.sum_append]
  rfl

theorem Setup.total_congr {sizes sizes' : ℕ → Option ℕ} {n : ℕ} (h : ∀ k < n, sizes' k = sizes k) :
    d.total sizes' n = d.total sizes n := by
  unfold total
  congr 1
  exact List.map_congr_left fun k hk => by rw [h k (List.mem_range.mp hk)]

theorem Setup.total_eq {sizes : ℕ → Option ℕ} {n : ℕ} (hsome : ∀ k < n, sizes k ≠ none)
    (h : ∀ k < n, ∀ m, sizes k = some m → (d.bytes 0 m).length = d.calcBufsize) :
    d.total sizes n = n * d.calcBufsize := by
  induction n with
  | zero => exact (Nat.zero_mul _).symm
  | succ n ih =>
      obtain ⟨m, hm⟩ := Option.ne_none_iff_exists'.mp (hsome n (Nat.lt_succ_self n))
      have hbefore := ih (fun k hk => hsome k (Nat.lt_succ_of_lt hk))
        fun k hk => h k (Nat.lt_succ_of_lt hk)
      rw [total_succ, hbefore, hm, Option.getD_some, h n (Nat.lt_succ_self n) m hm,
        Nat.succ_mul]

/-! ## The chunks in the file -/

theorem Setup.length_chunk (d : Setup) (k n : ℕ) : (d.chunk k n).length = (d.bytes 0 n).length :=
  List.length_map _

/-- Chunks that fit do not touch. -/
theorem Setup.beside {k k' n : ℕ} (hne : k ≠ k') (hfits : (d.bytes 0 n).length ≤ d.calcBufsize)
    {m len : ℕ} (hlen : m + len ≤ d.calcBufsize) :
    (k' * d.calcBufsize + m) + len ≤ k * d.calcBufsize ∨
      k * d.calcBufsize + (d.chunk k n).length ≤ k' * d.calcBufsize + m := by
  rw [length_chunk]
  rcases Nat.lt_or_gt_of_ne hne with hlt | hgt
  · have hmul := Nat.mul_le_mul_right d.calcBufsize (Nat.succ_le_of_lt hlt)
    rw [Nat.succ_mul] at hmul
    exact .inr (by omega)
  · have hmul := Nat.mul_le_mul_right d.calcBufsize (Nat.succ_le_of_lt hgt)
    rw [Nat.succ_mul] at hmul
    exact .inl (by omega)

/-! ## One write -/

section OneWrite

variable {o : Opt} {sbuf : Sbuf} {req : Request} {ret : ℤ} {start count put : ℕ}

/-- Where all of a chunk is taken and no more than the buffer has, it was data. -/
theorem origcount_eq (h : simpleWriteBytes o sbuf = some req) (hpos : 0 < req.count.toNat)
    (hle : req.count.toNat ≤ sbuf.diff.toNat) : req.origcount = req.count := by
  unfold simpleWriteBytes at h
  dsimp only at h
  generalize (if writeLimit o < sbuf.diff then writeLimit o else sbuf.diff) = count at h
  split at h
  · have horig : req.origcount = sbuf.diff := by
      simp only [simpleEndTransaction, Option.ite_none_left_eq_some, Option.some.injEq] at h
      obtain ⟨-, rfl⟩ := h
      rfl
    rcases simpleEndTransaction_le h with hcount | hzero
    · rw [horig] at hcount ⊢
      exact BitVec.eq_of_toNat_eq (Nat.le_antisymm hcount hle)
    · omega
  · obtain rfl := Option.some.inj h
    rfl

/-- A write that is answered with bytes of the buffer moves the buffer on by these. -/
theorem writeAnswered_advance (h : simpleWriteBytes o sbuf = some req) (hret : 0 ≤ ret)
    (hle : ret ≤ sbuf.diff.toNat) : ∃ diff : BitVec 64,
    writeAnswered req sbuf ret =
      (0, { sbuf with diff := diff, bufoffset := sbuf.bufoffset + ret }) ∧
    ret.toNat + diff.toNat = sbuf.diff.toNat := by
  obtain ⟨n, rfl⟩ := Int.eq_ofNat_of_zero_le hret
  have hlt := sbuf.diff.isLt
  have hofInt : (BitVec.ofInt 64 (n : ℤ)).toNat = n := by
    rw [BitVec.toNat_ofInt]
    omega
  rw [writeAnswered, if_neg (by unfold eof; omega), if_neg (by omega)]
  split
  next hzero =>
    refine ⟨sbuf.diff, ?_, by omega⟩
    rw [hzero, Int.add_zero]
  next hne =>
    split
    · refine ⟨sbuf.diff - BitVec.ofInt 64 n, rfl, ?_⟩
      rw [BitVec.toNat_sub_of_le (by rw [BitVec.le_def, hofInt]; omega), hofInt, Int.toNat_natCast]
      omega
    next hcount =>
      have hcount : req.count.toNat = n := by rw [← not_not.mp hcount, hofInt]
      have horig : req.origcount.toNat = n := by
        rw [origcount_eq h (by omega) (by omega), hcount]
      refine ⟨sbuf.diff - req.origcount, ?_, ?_⟩
      · rw [horig]
      · rw [BitVec.toNat_sub_of_le (by rw [BitVec.le_def, horig]; omega), horig, Int.toNat_natCast]
        omega

/-- As an `int` an answer is not larger. -/
theorem checkRet_le (hret : 0 ≤ ret) : checkRet ret ≤ ret := by
  rw [checkRet, BitVec.toInt_ofInt, Int.bmod_def]
  omega

/-- A check that reports bytes of the buffer. -/
theorem sbufCheck_advance (hret : 0 ≤ checkRet ret) (hle : checkRet ret ≤ sbuf.asyncdiff.toNat) :
    ∃ asyncdiff : BitVec 64,
      sbufCheck sbuf ret = (0, { sbuf with asyncdiff := asyncdiff }) ∧
      (checkRet ret).toNat + asyncdiff.toNat = sbuf.asyncdiff.toNat := by
  unfold sbufCheck
  generalize checkRet ret = r at *
  have hlt := sbuf.asyncdiff.isLt
  dsimp only
  split
  next hpos =>
    have hofInt : (BitVec.ofInt 64 r).toNat = r.toNat := by
      rw [BitVec.toNat_ofInt]
      omega
    refine ⟨sbuf.asyncdiff - BitVec.ofInt 64 r, rfl, ?_⟩
    rw [BitVec.toNat_sub_of_le (by rw [BitVec.le_def, hofInt]; omega), hofInt]
    omega
  next hpos =>
    rw [if_neg (by unfold aioEndOfFile; omega), if_pos (by omega)]
    exact ⟨sbuf.asyncdiff, rfl, by omega⟩

/-- `writev_write` is asked for whole packets while there are some. -/
theorem Setup.count_aligned (d : Setup) (hwritev : d.opt.writend = .recWritev)
    (h : simpleWriteBytes d.opt sbuf = some req) (hdvd : d.opt.packetSize ∣ sbuf.diff.toNat) :
    d.opt.packetSize ∣ req.count.toNat ∧ req.count.toNat ≤ sbuf.diff.toNat := by
  have hlimit : (writeLimit d.opt).toNat =
      d.opt.doWStuffEvery / d.opt.packetSize * d.opt.packetSize := by
    have hle := Nat.div_mul_le_self d.opt.doWStuffEvery d.opt.packetSize
    have hbounded := d.bounded
    simp only [writeLimit, hwritev, BitVec.toNat_ofNat]
    exact Nat.mod_eq_of_lt (by omega)
  simp only [simpleWriteBytes, hwritev, Backend.usesDirectio, Bool.false_eq_true, and_false,
    if_false, Option.some.injEq] at h
  obtain rfl := h
  dsimp only
  split
  next hlt =>
    rw [hlimit]
    refine ⟨Nat.dvd_mul_left _ _, ?_⟩
    rw [BitVec.lt_def, hlimit] at hlt
    exact hlt.le
  · exact ⟨hdvd, le_rfl⟩

/-- What is brought to the file is a part of what is left of the buffer. -/
theorem Setup.take_bytes (h : simpleWriteBytes d.opt sbuf = some req)
    (hdvd : d.opt.writend = .recWritev → d.opt.packetSize ∣ sbuf.diff.toNat)
    (hcount : put ≤ (d.bytes start req.count.toNat).length)
    (hdiff : put ≤ (d.bytes start sbuf.diff.toNat).length) :
    (d.bytes start req.count.toNat).take put = (d.bytes start sbuf.diff.toNat).take put := by
  by_cases hwritev : d.opt.writend = .recWritev
  · obtain ⟨haligned, hle⟩ := d.count_aligned hwritev h (hdvd hwritev)
    obtain ⟨rest, hrest⟩ := Nat.exists_eq_add_of_le hle
    rw [hrest, Setup.bytes_add fun _ => haligned, List.take_append_of_le_length hcount]
  · rw [Setup.bytes, if_neg hwritev, List.length_map, List.length_range] at hcount hdiff
    rw [Setup.bytes, Setup.bytes, if_neg hwritev, if_neg hwritev, ← List.map_take, ← List.map_take,
      List.take_range, List.take_range, Nat.min_eq_left hcount, Nat.min_eq_left hdiff]

end OneWrite

/-! ## The requests -/

section Requests

variable {told : List ℕ} {flight : Flight} {start count n : ℕ}

/-- The back end of `ASYNC_WRITE` writes the bytes of a buffer as they are. -/
theorem Setup.bytes_async (hasync : d.opt.asyncWrite = true) :
    d.bytes start count = List.range' start count := by
  have hother : d.opt.writend ≠ .recWritev := by
    rw [d.async hasync]
    decide
  rw [Setup.bytes, if_neg hother, List.range'_eq_map_range]

/-- A stretch of the buffer is in the file. -/
theorem holds_range' {file : ℕ → Option (ℕ × ℕ)} {pos k : ℕ} :
    Holds file pos ((List.range' start count).map fun x => (k, x)) ↔
      ∀ x < count, file (pos + x) = some (k, start + x) := by
  unfold Holds
  rw [List.length_map, List.length_range']
  refine forall₂_congr fun x hx => ?_
  rw [List.getElem?_map, List.getElem?_range' hx, Option.map_some, Nat.one_mul]

namespace Underway

theorem congr (h : Underway d s b told) (hfile : t.file = s.file)
    (hflights : t.flights b.recer = s.flights b.recer) : Underway d t b told where
  taken := h.taken
  nodup := by rw [hflights]; exact h.nodup
  below := by rw [hflights]; exact h.below
  held := by rw [hfile]; exact h.held
  flights := by rw [hflights]; exact h.flights

/-- An attempt without requests. -/
theorem begins (hnone : s.flights b.recer = []) (htaken : b.taken = 0) : Underway d s b [] where
  taken := htaken.symm
  nodup := by rw [hnone]; exact List.nodup_nil
  below := by rw [hnone]; exact fun x hx => absurd hx List.not_mem_nil
  held := fun x hx => absurd hx List.not_mem_nil
  flights := by rw [hnone]; exact fun flight hflight => absurd hflight List.not_mem_nil

/-- Nothing is submitted and nothing reported. -/
theorem still (h : Underway d s b told) (hfile : t.file = s.file)
    (hb' : b'.recer = b.recer ∧ b'.fileid = b.fileid ∧ b'.taken = b.taken ∧
      b'.sbuf.bufoffset.toNat = b.sbuf.bufoffset.toNat)
    (hflights : t.flights b.recer = s.flights b.recer) : Underway d t b' told := by
  obtain ⟨hrecer, hfileid, htaken, hoffset⟩ := hb'
  constructor
  case taken => rw [htaken]; exact h.taken
  case nodup => rw [hrecer, hflights]; exact h.nodup
  case below => rw [hrecer, hflights, hoffset]; exact h.below
  case held => rw [hfile, hfileid]; exact h.held
  case flights => rw [hrecer, hflights, hfileid]; exact h.flights

/-- One more request. -/
theorem submit (h : Underway d s b told) (hpos : 0 < n)
    (hplace : s.place d b = b.fileid * d.calcBufsize + b.sbuf.bufoffset.toNat)
    (hflights : t.flights b.recer =
      s.flights b.recer ++ [⟨b.fileid, b.sbuf.bufoffset.toNat, n, s.place d b⟩])
    (hfile : t.file = s.file)
    (hb' : b'.recer = b.recer ∧ b'.fileid = b.fileid ∧ b'.taken = b.taken)
    (hoffset : b'.sbuf.bufoffset.toNat = b.sbuf.bufoffset.toNat + n) : Underway d t b' told := by
  obtain ⟨hrecer, hfileid, htaken⟩ := hb'
  have hplaces : told ++ (t.flights b'.recer).flatMap Flight.places =
      told ++ (s.flights b.recer).flatMap Flight.places ++
        List.range' b.sbuf.bufoffset.toNat n := by
    rw [hrecer, hflights, List.flatMap_append, List.flatMap_singleton, List.append_assoc]
    rfl
  constructor
  case taken => rw [htaken]; exact h.taken
  case nodup =>
    rw [hplaces]
    refine List.nodup_append.mpr ⟨h.nodup, List.nodup_range', fun x hx y hy heq => ?_⟩
    -- the new places are behind the old ones
    have hbelow := h.below x hx
    have hbehind := (List.mem_range'_1.mp hy).1
    omega
  case below =>
    rw [hplaces, hoffset]
    intro x hx
    rcases List.mem_append.mp hx with hx | hx
    · exact Nat.lt_add_right n (h.below x hx)
    · exact (List.mem_range'_1.mp hx).2
  case held => rw [hfile, hfileid]; exact h.held
  case flights =>
    rw [hrecer, hflights, hfileid]
    intro flight hflight
    rcases List.mem_append.mp hflight with hold | hnew
    · exact h.flights flight hold
    · obtain rfl := List.mem_singleton.mp hnew
      exact ⟨rfl, hpos, hplace⟩

/-- The kernel writes a part of a request. -/
theorem land (h : Underway d s b told) (hmem : flight ∈ s.flights b.recer)
    (hflights : t.flights = s.flights)
    (hfile : t.file = overwrite s.file flight.place
      ((List.range' flight.start count).map fun x => (flight.chunk, x))) :
    Underway d t b told := by
  obtain ⟨hchunk, -, hplace⟩ := h.flights flight hmem
  refine ⟨h.taken, by rw [hflights]; exact h.nodup, by rw [hflights]; exact h.below,
    fun x hx => ?_, by rw [hflights]; exact h.flights⟩
  rw [hfile, overwrite, List.length_map, List.length_range']
  split
  next hwithin =>
    -- what is written over it is the same
    rw [List.getElem?_map, List.getElem?_range' (by omega), Option.map_some, Nat.one_mul, hchunk]
    congr 2
    omega
  · exact h.held x hx

/-- A request is reported, and what is counted of it is in the file. -/
theorem report (h : Underway d s b told) (hflight : (s.flights b.recer)[n]? = some flight)
    (hcount : count ≤ flight.count)
    (hheld : ∀ x < count, s.file (flight.place + x) = some (flight.chunk, flight.start + x))
    (hflights : t.flights b.recer = (s.flights b.recer).eraseIdx n) (hfile : t.file = s.file)
    (hb' : b'.recer = b.recer ∧ b'.fileid = b.fileid ∧
      b'.sbuf.bufoffset.toNat = b.sbuf.bufoffset.toNat)
    (htaken : b'.taken = b.taken + count) :
    Underway d t b' (told ++ List.range' flight.start count) := by
  obtain ⟨hrecer, hfileid, hoffset⟩ := hb'
  obtain ⟨hlt, heq⟩ := List.getElem?_eq_some_iff.mp hflight
  have hmem : flight ∈ s.flights b.recer := List.mem_of_getElem? hflight
  have hperm : (s.flights b.recer).Perm (flight :: (s.flights b.recer).eraseIdx n) := by
    rw [← heq]
    exact (List.getElem_cons_eraseIdx_perm hlt).symm
  have hsublist : (told ++ List.range' flight.start count ++
      ((s.flights b.recer).eraseIdx n).flatMap Flight.places).Sublist
      (told ++ (flight :: (s.flights b.recer).eraseIdx n).flatMap Flight.places) := by
    rw [List.append_assoc, List.flatMap_cons]
    refine (List.Sublist.refl told).append (List.Sublist.append ?_ (List.Sublist.refl _))
    exact (List.range'_sublist_right (s := flight.start)).mpr hcount
  have hbefore : (told ++ (s.flights b.recer).flatMap Flight.places).Perm
      (told ++ (flight :: (s.flights b.recer).eraseIdx n).flatMap Flight.places) :=
    (hperm.flatMap_right _).append_left told
  constructor
  case taken => rw [List.length_append, List.length_range', h.taken, htaken]
  case nodup =>
    rw [hrecer, hflights]
    exact (hbefore.nodup_iff.mp h.nodup).sublist hsublist
  case below =>
    rw [hrecer, hflights, hoffset]
    exact fun x hx => h.below x (hbefore.mem_iff.mpr (hsublist.subset hx))
  case held =>
    intro x hx
    rw [hfile, hfileid]
    rcases List.mem_append.mp hx with hold | hnew
    · exact h.held x hold
    · obtain ⟨hchunk, -, hplace⟩ := h.flights flight hmem
      have hbounds := List.mem_range'_1.mp hnew
      have hthere := hheld (x - flight.start) (by omega)
      rw [hplace, hchunk, Nat.add_assoc, Nat.add_sub_cancel' hbounds.1] at hthere
      exact hthere
  case flights =>
    rw [hrecer, hflights, hfileid]
    exact fun flight' hflight' => h.flights flight' (List.mem_of_mem_eraseIdx hflight')

/-- No more is reported or with the kernel than was submitted. -/
theorem length_le (h : Underway d s b told) :
    b.taken + ((s.flights b.recer).flatMap Flight.places).length ≤ b.sbuf.bufoffset.toNat := by
  have hsubperm := h.nodup.subperm fun x hx => List.mem_range.mpr (h.below x hx)
  have hlength := hsubperm.length_le
  rwa [List.length_append, h.taken, List.length_range] at hlength

/-- Once all that was submitted is reported, it is in the file and the queue is empty. -/
theorem whole (h : Underway d s b told) (hall : b.sbuf.bufoffset.toNat ≤ b.taken) :
    s.flights b.recer = [] ∧
    ∀ x < b.sbuf.bufoffset.toNat, s.file (b.fileid * d.calcBufsize + x) = some (b.fileid, x) := by
  constructor
  · have hlength := h.length_le
    have hnone : (s.flights b.recer).flatMap Flight.places = [] :=
      List.eq_nil_of_length_eq_zero (by omega)
    refine List.eq_nil_iff_forall_not_mem.mpr fun flight hflight => ?_
    have hplaces := List.flatMap_eq_nil_iff.mp hnone flight hflight
    have hpos := (h.flights flight hflight).2.1
    rw [Flight.places, List.range'_eq_nil_iff] at hplaces
    omega
  · intro x hx
    have htold := (List.nodup_append.mp h.nodup).1.subperm fun y hy =>
      List.mem_range.mpr (h.below y (List.mem_append_left _ hy))
    have hperm := htold.perm_of_length_le (by rw [List.length_range, h.taken]; exact hall)
    exact h.held x (hperm.mem_iff.mpr (List.mem_range.mpr hx))

/-- `check` reports what is in the file. -/
theorem check {n : Option ℕ} {ret : ℤ} (h : Underway d s b told)
    (hasync : d.opt.asyncWrite = true) (hret : 0 ≤ ret) (hnonneg : 0 ≤ checkRet ret)
    (hreports : s.Reports b n ret)
    (hlanded : 0 < checkRet ret → s.Landed d b n (checkRet ret).toNat)
    (hfile : t.file = s.file) (hflights : t.flights = (s.reap b n).flights)
    (hb' : b'.recer = b.recer ∧ b'.fileid = b.fileid ∧
      b'.sbuf.bufoffset.toNat = b.sbuf.bufoffset.toNat)
    (htaken : b'.taken = b.taken + (checkRet ret).toNat) : ∃ told, Underway d t b' told := by
  have hle := checkRet_le hret
  cases n with
  | none =>
      have hzero : ret ≤ 0 := hreports
      refine ⟨told, h.still hfile ⟨hb'.1, hb'.2.1, ?_, hb'.2.2⟩ (congrFun hflights _)⟩
      omega
  | some n =>
      obtain ⟨flight, hflight, hcount⟩ := hreports
      refine ⟨_, h.report hflight (show (checkRet ret).toNat ≤ flight.count by omega) ?_ ?_
        hfile hb' htaken⟩
      · by_cases hpos : 0 < checkRet ret
        · have hheld := hlanded hpos n rfl flight hflight
          rwa [Setup.bytes_async hasync, holds_range'] at hheld
        · intro x hx
          omega
      · rw [hflights]
        exact Function.update_self _ _ _

end Underway

end Requests

/-! ## What a step leaves -/

/-- What was done of a chunk does not depend on the other threads and the later chunks. -/
theorem Progress.congr (h : Progress d s b) (hfile : t.file = s.file)
    (hposition : t.position = s.position)
    (htotal : d.total t.sizes b.fileid = d.total s.sizes b.fileid)
    (hflights : t.flights b.recer = s.flights b.recer) : Progress d t b :=
  { h with
    place := by
      rw [SingleFile.place, hposition]
      exact h.place
    total := by
      rw [htotal]
      exact h.total
    sync := by
      rw [hfile]
      exact h.sync
    async := fun hasync => by
      obtain ⟨htaken, told, hunderway⟩ := h.async hasync
      exact ⟨htaken, told, hunderway.congr hfile hflights⟩ }

namespace Turns

/-- Two threads do not have a turn at the same time. -/
theorem eq_of_turn (h : Turns d s) (hi : (s.buffers i).stand.turn = true)
    (hj : (s.buffers j).stand.turn = true) : i = j :=
  h.distinct i j (Stand.active_of_turn hi) (Stand.active_of_turn hj)
    ((h.turn i hi).trans (h.turn j hj).symm)

/-- The other threads do not hold a recorder. -/
theorem others (h : Turns d s) (hi : (s.buffers i).stand.turn = true) (hne : j ≠ i) :
    (s.buffers j).stand.inside = false := by
  rw [Bool.eq_false_iff]
  exact fun hj => hne (h.eq_of_turn (Stand.turn_of_inside hj) hi)

/-- The buffer of a chunk is what has been written and what is left. -/
theorem bytes_size (h : Progress d s b) : d.bytes 0 b.size.toNat =
    d.bytes 0 b.sbuf.bufoffset.toNat ++ d.bytes b.sbuf.bufoffset.toNat b.sbuf.diff.toNat := by
  rw [← h.sum, Setup.bytes_add h.aligned, Nat.zero_add]

/-- What is left of a buffer of whole packets are whole packets. -/
theorem left_aligned (h : Turns d s) (hactive : (s.buffers i).stand.active = true)
    (hp : Progress d s (s.buffers i)) (hwritev : d.opt.writend = .recWritev) :
    d.opt.packetSize ∣ (s.buffers i).sbuf.diff.toNat := by
  have hsize := (h.fits _ _ (h.active i hactive).1).2 hwritev
  rw [← hp.sum] at hsize
  exact (Nat.dvd_add_right (hp.aligned hwritev)).mp hsize

/-- The chunks stay where they are, and what comes to the file comes to its place. -/
structure Keeps (d : Setup) (s : SingleFile ι) (file : ℕ → Option (ℕ × ℕ)) : Prop where
  placed : ∀ k < s.next, ∀ n, s.sizes k = some n →
    Holds file (k * d.calcBufsize) (d.chunk k n)
  only : ∀ x k j, file x = some (k, j) → ∃ n m, s.sizes k = some n ∧
    x = k * d.calcBufsize + m ∧ (d.bytes 0 n)[m]? = some j

theorem keeps (h : Turns d s) : Keeps d s s.file := ⟨h.placed, h.only⟩

/-- A part of the chunk whose turn it is comes to the file. -/
theorem brings (h : Turns d s) (hturn : (s.buffers i).stand.turn = true) {before l rest : List ℕ}
    (hsize : d.bytes 0 (s.buffers i).size.toNat = before ++ l ++ rest) :
    Keeps d s (overwrite s.file ((s.buffers i).fileid * d.calcBufsize + before.length)
      (l.map fun x => ((s.buffers i).fileid, x))) := by
  have hactive := h.active i (Stand.active_of_turn hturn)
  have hfileid := h.turn i hturn
  have hfits := (h.fits _ _ hactive.1).1
  rw [hsize, List.length_append, List.length_append] at hfits
  refine ⟨fun k hk n hn => ?_, fun x k j hthere => ?_⟩
  · refine (h.placed k hk n hn).overwrite ?_
    rw [List.length_map]
    exact Setup.beside (by omega) (h.fits k n hn).1 (by omega)
  · rcases overwrite_some hthere with hold | ⟨m, rfl, hm⟩
    · exact h.only x k j hold
    · clear hthere
      rw [List.getElem?_map, Option.map_eq_some_iff] at hm
      obtain ⟨x, hx, heq⟩ := hm
      obtain ⟨rfl, rfl⟩ := Prod.mk.inj heq
      refine ⟨_, before.length + m, hactive.1, Nat.add_assoc _ _ _, ?_⟩
      rw [hsize, List.append_assoc, List.getElem?_append_right (Nat.le_add_right _ _),
        Nat.add_sub_cancel_left, List.getElem?_append_left (List.getElem?_eq_some_iff.mp hx).1]
      exact hx

theorem start (h : s.Starts) : Turns d s := by
  have hactive : ∀ i, (s.buffers i).stand.active = true → False := fun i hi => by
    rw [h.buffers i] at hi
    cases hi
  have hinside : ∀ i, (s.buffers i).stand.inside = true → False := fun i hi =>
    hactive i (Stand.active_of_turn (Stand.turn_of_inside hi))
  constructor
  case written =>
    rw [h.written, h.next]
    rfl
  case handed =>
    rw [h.next]
    exact fun k hk => absurd hk (Nat.not_lt_zero k)
  case fits =>
    intro k n hn
    rw [h.sizes] at hn
    cases hn
  case active =>
    exact fun i hi => (hactive i hi).elim
  case distinct =>
    exact fun i _ hi => (hactive i hi).elim
  case turn =>
    exact fun i hi => (hactive i (Stand.active_of_turn hi)).elim
  case outside =>
    exact fun i hi => (hactive i (by rcases hi with hi | hi <;> rw [hi] <;> rfl)).elim
  case progress =>
    exact fun i hi => (hinside i hi).elim
  case finished =>
    exact fun i hi => (hactive i (by rw [hi]; rfl)).elim
  case flying =>
    exact fun r hr => absurd (h.flights r) hr
  case idle =>
    intro _ _
    rw [h.position, h.next]
    rfl
  case placed =>
    rw [h.next]
    exact fun k hk => absurd hk (Nat.not_lt_zero k)
  case only =>
    intro x k j hx
    rw [h.file] at hx
    cases hx

variable [DecidableEq ι]

/-- What holds of the buffers and of the new one. -/
theorem forall_of_update (hbuffers : t.buffers = Function.update s.buffers i b')
    (p : ι → Buffer → Prop) (hself : p i b') (hother : ∀ j, p j (s.buffers j)) :
    ∀ j, p j (t.buffers j) := by
  rw [hbuffers]
  exact (Function.forall_update_iff _ p).mpr ⟨hself, fun j _ => hother j⟩

/-- One thread takes a step in which no chunk is finished and none comes. -/
theorem update (h : Turns d s) (hbuffers : t.buffers = Function.update s.buffers i b')
    (hnext : t.next = s.next) (hwritten : t.written = s.written) (hsizes : t.sizes = s.sizes)
    (hactive : b'.stand.active = true → (s.buffers i).stand.active = true ∧
      b'.fileid = (s.buffers i).fileid ∧ b'.size = (s.buffers i).size)
    (hturn : b'.stand.turn = true → b'.fileid = s.next)
    (houtside : b'.stand = .trying ∨ b'.stand = .acquiring →
      b'.sbuf.diff = b'.size ∧ b'.sbuf.bufoffset = 0)
    (hprogress : b'.stand.inside = true → Progress d t b')
    (hfinished : b'.stand = .releasing → b'.size.toNat ≤ b'.taken)
    (hflying : ∀ r, t.flights r ≠ [] → d.opt.asyncWrite = true ∧
      (b'.stand.inside = true ∧ b'.recer = r ∨
        ∃ j ≠ i, (s.buffers j).stand.inside = true ∧ (s.buffers j).recer = r))
    (hothers : ∀ j ≠ i, (s.buffers j).stand.inside = true → Progress d t (s.buffers j))
    (hidle : d.opt.writend.seeks = false → b'.stand.inside = false →
      (∀ j ≠ i, (s.buffers j).stand.inside = false) → t.position = d.total s.sizes s.next)
    (hkeeps : Keeps d s t.file) : Turns d t := by
  have hall := forall_of_update hbuffers
  have hfrom : ∀ j, (t.buffers j).stand.active = true → (s.buffers j).stand.active = true ∧
      (t.buffers j).fileid = (s.buffers j).fileid ∧ (t.buffers j).size = (s.buffers j).size :=
    hall (fun j b => b.stand.active = true → (s.buffers j).stand.active = true ∧
      b.fileid = (s.buffers j).fileid ∧ b.size = (s.buffers j).size) hactive
      fun j hj => ⟨hj, rfl, rfl⟩
  constructor
  case written =>
    rw [hwritten, hnext]
    exact h.written
  case handed =>
    rw [hnext, hsizes]
    exact h.handed
  case fits =>
    rw [hsizes]
    exact h.fits
  case active =>
    intro j hj
    obtain ⟨hj, hfileid, hsize⟩ := hfrom j hj
    rw [hsizes, hnext, hfileid, hsize]
    exact h.active j hj
  case distinct =>
    intro j j' hj hj' heq
    obtain ⟨hj, hfileid, -⟩ := hfrom j hj
    obtain ⟨hj', hfileid', -⟩ := hfrom j' hj'
    exact h.distinct j j' hj hj' (hfileid.symm.trans (heq.trans hfileid'))
  case turn =>
    rw [hnext]
    exact hall (fun j b => b.stand.turn = true → b.fileid = s.next) hturn h.turn
  case outside =>
    exact hall (fun j b => b.stand = .trying ∨ b.stand = .acquiring →
      b.sbuf.diff = b.size ∧ b.sbuf.bufoffset = 0) houtside h.outside
  case progress =>
    rw [hbuffers]
    exact (Function.forall_update_iff _ fun j b => b.stand.inside = true → Progress d t b).mpr
      ⟨hprogress, hothers⟩
  case finished =>
    exact hall (fun j b => b.stand = .releasing → b.size.toNat ≤ b.taken) hfinished h.finished
  case flying =>
    intro r hr
    obtain ⟨hasync, ⟨hinside, hrecer⟩ | ⟨j, hij, hinside, hrecer⟩⟩ := hflying r hr
    · refine ⟨hasync, i, ?_⟩
      rw [hbuffers, Function.update_self]
      exact ⟨hinside, hrecer⟩
    · refine ⟨hasync, j, ?_⟩
      rw [hbuffers, Function.update_of_ne hij]
      exact ⟨hinside, hrecer⟩
  case idle =>
    intro hseeks hnone
    rw [hbuffers] at hnone
    obtain ⟨hself, hother⟩ :=
      (Function.forall_update_iff _ fun _ (b : Buffer) => b.stand.inside = false).mp hnone
    rw [hsizes, hnext]
    exact hidle hseeks hself hother
  case placed =>
    rw [hnext, hsizes]
    exact hkeeps.placed
  case only =>
    rw [hsizes]
    exact hkeeps.only

omit [DecidableEq ι] in
/-- The queues are empty but for the one of a thread that holds a recorder. -/
theorem flights_nil (h : Turns d s) (hturn : (s.buffers i).stand.turn = true) {r : ℕ}
    (hr : (s.buffers i).stand.inside = true → (s.buffers i).recer ≠ r) : s.flights r = [] := by
  by_contra hne
  obtain ⟨-, j, hj, hrecer⟩ := h.flying r hne
  obtain rfl := h.eq_of_turn (Stand.turn_of_inside hj) hturn
  exact hr hj hrecer

/-- A thread that holds no recorder takes a step that leaves the file alone. -/
theorem quiet (h : Turns d s) (houter : (s.buffers i).stand.inside = false)
    (hbuffers : t.buffers = Function.update s.buffers i b')
    (hsame : t.next = s.next ∧ t.written = s.written ∧ t.sizes = s.sizes ∧ t.file = s.file ∧
      t.position = s.position ∧ t.flights = s.flights)
    (hactive : b'.stand.active = true → (s.buffers i).stand.active = true ∧
      b'.fileid = (s.buffers i).fileid ∧ b'.size = (s.buffers i).size)
    (hturn : b'.stand.turn = true → b'.fileid = s.next)
    (houtside : b'.stand = .trying ∨ b'.stand = .acquiring →
      b'.sbuf.diff = b'.size ∧ b'.sbuf.bufoffset = 0)
    (hinside : b'.stand.inside = false) : Turns d t := by
  obtain ⟨hnext, hwritten, hsizes, hfile, hposition, hflights⟩ := hsame
  refine h.update hbuffers hnext hwritten hsizes hactive hturn houtside ?_ ?_ ?_ ?_ ?_
    (hfile ▸ h.keeps)
  · intro hb'
    rw [hinside] at hb'
    cases hb'
  · intro hreleasing
    rw [hreleasing] at hinside
    cases hinside
  · intro r hr
    rw [hflights] at hr
    obtain ⟨hasync, j, hj, hrecer⟩ := h.flying r hr
    refine ⟨hasync, .inr ⟨j, fun hij => ?_, hj, hrecer⟩⟩
    rw [hij, houter] at hj
    cases hj
  · exact fun j _ hj => (h.progress j hj).congr hfile hposition (by rw [hsizes]) (by rw [hflights])
  · intro hseeks _ hothers
    rw [hposition]
    refine h.idle hseeks fun j => ?_
    by_cases hij : j = i
    · rw [hij]
      exact houter
    · exact hothers j hij

theorem pass (h : Turns d s) (hstep : s.pass i = some t) : Turns d t := by
  simp only [SingleFile.pass, Option.ite_none_right_eq_some, Option.some.injEq] at hstep
  obtain ⟨⟨hstand, hle⟩, rfl⟩ := hstep
  have hactive : (s.buffers i).stand.active = true := by rw [hstand]; rfl
  refine h.quiet (i := i) (by rw [hstand]; rfl) rfl ⟨rfl, rfl, rfl, rfl, rfl, rfl⟩
    (fun _ => ⟨hactive, rfl, rfl⟩) (fun _ => ?_) (fun _ => h.outside i (.inl hstand)) rfl
  exact Nat.le_antisymm hle (h.active i hactive).2

theorem noRecer (h : Turns d s) (hstep : s.noRecer i = some t) : Turns d t := by
  simp only [SingleFile.noRecer, Option.ite_none_right_eq_some, Option.some.injEq] at hstep
  obtain ⟨hstand, rfl⟩ := hstep
  exact h.quiet (i := i) (by rw [hstand]; rfl) rfl ⟨rfl, rfl, rfl, rfl, rfl, rfl⟩
    (fun hactive => by cases hactive) (fun hturn => by cases hturn)
    (fun hout => by rcases hout with hout | hout <;> cases hout) rfl

/-- A recorder could not be acquired, and the attempt can be made again. -/
theorem notAcquired (h : Turns d s) (hstand : (s.buffers i).stand = .acquiring)
    (hretries : (s.buffers i).Retries)
    (hbuffers : t.buffers = Function.update s.buffers i (s.buffers i).failed)
    (hsame : t.next = s.next ∧ t.written = s.written ∧ t.sizes = s.sizes ∧ t.file = s.file ∧
      t.position = s.position ∧ t.flights = s.flights) : Turns d t :=
  h.quiet (by rw [hstand]; rfl) hbuffers hsame
    (fun _ => ⟨by rw [hstand]; rfl, rfl, rfl⟩) (fun hturn => by cases hturn)
    (fun _ => ⟨hretries, rfl⟩) rfl

/-- A request failed, and the attempt can be made again: with the other recorder its bytes come
to the same places. -/
theorem requestFailed (h : Turns d s) (hinside : (s.buffers i).stand.inside = true)
    (hasync : d.opt.asyncWrite = true) (hretries : (s.buffers i).Retries)
    (hb : b.fileid = (s.buffers i).fileid ∧ b.size = (s.buffers i).size ∧
      b.savedif = (s.buffers i).savedif)
    (hbuffers : t.buffers = Function.update s.buffers i b.failed)
    (hsame : t.next = s.next ∧ t.written = s.written ∧ t.sizes = s.sizes ∧ t.file = s.file)
    (hflights : ∀ r, t.flights r = []) : Turns d t := by
  obtain ⟨hfileid, hsize, hsavedif⟩ := hb
  obtain ⟨hnext, hwritten, hsizes, hfile⟩ := hsame
  have hturn := Stand.turn_of_inside hinside
  refine h.update hbuffers hnext hwritten hsizes
    (fun _ => ⟨Stand.active_of_turn hturn, hfileid, hsize⟩) (fun hturn' => by cases hturn')
    (fun _ => ⟨?_, rfl⟩) (fun hinside' => by cases hinside')
    (fun hreleasing => by cases hreleasing) (fun r hr => absurd (hflights r) hr) ?_ ?_
    (hfile ▸ h.keeps)
  · show b.savedif.signExtend 64 = b.size
    rw [hsavedif, hsize]
    exact hretries
  · intro j hij hj
    rw [h.others hturn hij] at hj
    cases hj
  · intro hseeks
    rw [d.async hasync] at hseeks
    cases hseeks

end Turns

/-! ## The loop that writes -/

theorem Buffer.looped_eq (d : Setup) (b : Buffer) :
    ∃ st : Stand, st.inside = true ∧ b.looped d = { b with stand := st } ∧
      (st = .releasing → (d.opt.asyncWrite = true → b.sbuf.asyncdiff = 0) ∧
        (d.opt.asyncWrite = false → b.sbuf.diff = 0)) := by
  unfold Buffer.looped
  generalize hdone : (if d.opt.asyncWrite = true then !b.due && decide (b.sbuf.asyncdiff = 0)
    else decide (b.sbuf.diff = 0)) = done
  cases done with
  | true =>
      refine ⟨.releasing, rfl, rfl, fun _ => ⟨fun hasync => ?_, fun hsync => ?_⟩⟩
      · rw [if_pos hasync, Bool.and_eq_true, decide_eq_true_iff] at hdone
        exact hdone.2
      · rw [hsync, if_neg Bool.false_ne_true, decide_eq_true_iff] at hdone
        exact hdone
  | false => exact ⟨.writing, rfl, rfl, fun hreleasing => by cases hreleasing⟩

/-- When the loop ends, all of the buffer is taken. -/
theorem Progress.all_taken (h : Progress d s b)
    (hasync : d.opt.asyncWrite = true → b.sbuf.asyncdiff = 0)
    (hsync : d.opt.asyncWrite = false → b.sbuf.diff = 0) : b.size.toNat ≤ b.taken := by
  cases hcase : d.opt.asyncWrite with
  | true =>
      have hsum := (h.async hcase).1
      rw [hasync hcase] at hsum
      exact hsum.ge
  | false =>
      have hsum := h.sum
      rw [hsync hcase, ← (h.sync hcase).1] at hsum
      exact hsum.ge

/-- Then it is in the file. -/
theorem Progress.all_held (h : Progress d s b) (hall : b.size.toNat ≤ b.taken) :
    b.sbuf.bufoffset.toNat = b.size.toNat ∧
    Holds s.file (b.fileid * d.calcBufsize) (d.chunk b.fileid b.size.toNat) ∧
    (d.opt.asyncWrite = true → s.flights b.recer = []) := by
  have hsum := h.sum
  cases hcase : d.opt.asyncWrite with
  | true =>
      obtain ⟨-, told, hunderway⟩ := h.async hcase
      obtain ⟨hnone, hheld⟩ := hunderway.whole (by omega)
      have hoffset : b.sbuf.bufoffset.toNat = b.size.toNat := by
        have hle := hunderway.length_le
        omega
      refine ⟨hoffset, ?_, fun _ => hnone⟩
      rw [Setup.chunk, Setup.bytes_async hcase, ← hoffset, holds_range']
      exact fun x hx => (hheld x hx).trans (by rw [Nat.zero_add])
  | false =>
      obtain ⟨htaken, hheld⟩ := h.sync hcase
      have hoffset : b.sbuf.bufoffset.toNat = b.size.toNat := by omega
      exact ⟨hoffset, hoffset ▸ hheld, fun hasync => by cases hasync⟩

/-- A write is answered with `n` bytes, and the thread moves on by them. -/
structure Answered (b b' : Buffer) (n : ℕ) : Prop where
  fileid : b'.fileid = b.fileid
  size : b'.size = b.size
  recer : b'.recer = b.recer
  bufoffset : b'.sbuf.bufoffset = b.sbuf.bufoffset + n
  diff : n + b'.sbuf.diff.toNat = b.sbuf.diff.toNat

theorem Answered.toNat {n : ℕ} (h : Answered b b' n) (hnonneg : 0 ≤ b.sbuf.bufoffset) :
    b'.sbuf.bufoffset.toNat = b.sbuf.bufoffset.toNat + n := by
  rw [h.bufoffset]
  omega

/-- What has been done of the chunk then. -/
theorem Answered.progress {n : ℕ} (h : Answered b b' n) (hp : Progress d s b)
    (haligned : d.opt.writend = .recWritev → d.opt.packetSize ∣ n) (hsizes : t.sizes = s.sizes)
    (hplace : t.place d b' = s.place d b + (d.bytes b.sbuf.bufoffset.toNat n).length)
    (hsync : d.opt.asyncWrite = false → b'.taken = b'.sbuf.bufoffset.toNat ∧
      Holds t.file (b'.fileid * d.calcBufsize) (d.chunk b'.fileid b'.sbuf.bufoffset.toNat))
    (hasync : d.opt.asyncWrite = true → b'.taken + b'.sbuf.asyncdiff.toNat = b'.size.toNat ∧
      ∃ told, Underway d t b' told) : Progress d t b' where
  nonneg := by
    rw [h.bufoffset]
    have hnonneg := hp.nonneg
    omega
  sum := by
    rw [h.toNat hp.nonneg, h.size, Nat.add_assoc, h.diff]
    exact hp.sum
  aligned hwritev := by
    rw [h.toNat hp.nonneg]
    exact Nat.dvd_add (hp.aligned hwritev) (haligned hwritev)
  place := by
    rw [hplace, hp.place, h.fileid, h.toNat hp.nonneg, Setup.bytes_add hp.aligned, Nat.zero_add,
      List.length_append, Nat.add_assoc]
  total hseeks := by
    rw [hsizes, h.fileid]
    exact hp.total hseeks
  sync := hsync
  async := hasync

/-- The bytes of the chunk, with those of an answer. -/
theorem Answered.bytes_size {n : ℕ} (h : Answered b b' n) (hp : Progress d s b)
    (haligned : d.opt.writend = .recWritev → d.opt.packetSize ∣ n) : d.bytes 0 b.size.toNat =
      d.bytes 0 b.sbuf.bufoffset.toNat ++ d.bytes b.sbuf.bufoffset.toNat n ++
        d.bytes (b.sbuf.bufoffset.toNat + n) b'.sbuf.diff.toNat := by
  rw [Turns.bytes_size hp, ← h.diff, Setup.bytes_add haligned, List.append_assoc]

namespace Turns

variable [DecidableEq ι]

/-- A thread goes on with its chunk. -/
theorem goOn (h : Turns d s) (hstand : (s.buffers i).stand.turn = true)
    (hb : b.fileid = (s.buffers i).fileid ∧ b.size = (s.buffers i).size)
    (hbuffers : t.buffers = Function.update s.buffers i (b.looped d))
    (hsame : t.next = s.next ∧ t.written = s.written ∧ t.sizes = s.sizes)
    (hprogress : Progress d t b)
    (hflying : ∀ r, t.flights r ≠ [] → d.opt.asyncWrite = true ∧ b.recer = r)
    (hkeeps : Keeps d s t.file) : Turns d t := by
  obtain ⟨hnext, hwritten, hsizes⟩ := hsame
  obtain ⟨st, hinside, hlooped, hdone⟩ := b.looped_eq d
  rw [hlooped] at hbuffers
  refine h.update hbuffers hnext hwritten hsizes (fun _ => ⟨Stand.active_of_turn hstand, hb⟩)
    (fun _ => hb.1.trans (h.turn i hstand)) ?_ (fun _ => ?_) ?_ (fun r hr => ?_) ?_ ?_ hkeeps
  · rintro (rfl | rfl) <;> cases hinside
  · refine ⟨hprogress.nonneg, hprogress.sum, hprogress.aligned, hprogress.place, hprogress.total,
      hprogress.sync, fun hasync => ?_⟩
    obtain ⟨htaken, told, hunderway⟩ := hprogress.async hasync
    exact ⟨htaken, told, hunderway.1, hunderway.2, hunderway.3, hunderway.4, hunderway.5⟩
  · intro hreleasing
    obtain ⟨hasync, hsync⟩ := hdone hreleasing
    exact hprogress.all_taken hasync hsync
  · obtain ⟨hasync, hrecer⟩ := hflying r hr
    exact ⟨hasync, .inl ⟨hinside, hrecer⟩⟩
  · intro j hij hj
    rw [h.others hstand hij] at hj
    cases hj
  · intro _ hself
    rw [hinside] at hself
    cases hself

theorem acquire {r : ℕ} {err : ℤ} (h : Turns d s) (hsound : Sound d s (.acquire i r err))
    (hstep : s.acquire d i r err = some t) : Turns d t := by
  obtain ⟨hplaces, hfails⟩ := hsound
  simp only [SingleFile.acquire, Option.ite_none_right_eq_some] at hstep
  obtain ⟨⟨hstand, -, -⟩, hstep⟩ := hstep
  have hturn : (s.buffers i).stand.turn = true := by rw [hstand]; rfl
  have houtside := h.outside i (.inr hstand)
  split at hstep
  next herr =>
    obtain rfl := Option.some.inj hstep
    have hnone : ∀ r, s.flights r = [] := fun r =>
      h.flights_nil hturn fun hinside => by rw [hstand] at hinside; cases hinside
    refine h.goOn hturn ?hb rfl ⟨rfl, rfl, rfl⟩ ?_ (fun r' hr' => absurd (hnone r') hr') h.keeps
    case hb => exact ⟨rfl, rfl⟩
    have hoffset : (s.buffers i).sbuf.bufoffset.toNat = 0 := by rw [houtside.2]; rfl
    have htotal : d.opt.writend.seeks = false →
        d.total s.sizes (s.buffers i).fileid = (s.buffers i).fileid * d.calcBufsize := by
      intro hseeks
      refine Setup.total_eq (fun k hk => h.handed k ?_) (hplaces herr hseeks)
      rwa [← h.turn i hturn]
    refine ⟨houtside.2.ge, ?_, fun _ => ?_, ?_, htotal, fun _ => ⟨hoffset.symm, ?_⟩,
      fun _ => ⟨?_, [], .begins (hnone r) rfl⟩⟩
    · show (s.buffers i).sbuf.bufoffset.toNat + (s.buffers i).sbuf.diff.toNat = _
      rw [hoffset, houtside.1, Nat.zero_add]
    · show _ ∣ (s.buffers i).sbuf.bufoffset.toNat
      rw [hoffset]
      exact Nat.dvd_zero _
    · show (if d.opt.writend.seeks then d.calcBufsize * (s.buffers i).fileid else s.position) =
        (s.buffers i).fileid * d.calcBufsize + (d.bytes 0 (s.buffers i).sbuf.bufoffset.toNat).length
      rw [hoffset, Setup.bytes_zero, List.length_nil, Nat.add_zero]
      cases hseeks : d.opt.writend.seeks with
      | true => exact Nat.mul_comm _ _
      | false =>
          -- no other thread is writing
          have hidle : ∀ j, (s.buffers j).stand.inside = false := by
            intro j
            by_cases hij : j = i
            · rw [hij, hstand]
              rfl
            · exact h.others hturn hij
          show s.position = _
          rw [h.idle hseeks hidle, ← h.turn i hturn]
          exact htotal hseeks
    · show Holds s.file _ (d.chunk _ (s.buffers i).sbuf.bufoffset.toNat)
      rw [hoffset, Setup.chunk, Setup.bytes_zero]
      exact .nil
    · show 0 + (s.buffers i).sbuf.diff.toNat = _
      rw [houtside.1, Nat.zero_add]
  next herr =>
    obtain ⟨hspace, hretries⟩ := hfails herr
    obtain rfl := Option.some.inj hstep
    rw [SingleFile.handleError, if_neg hspace]
    exact h.notAcquired hstand hretries rfl ⟨rfl, rfl, rfl, rfl, rfl, rfl⟩

/-- A write brings the bytes to the file that it is answered with. -/
theorem wrote {count n put : ℕ} (h : Turns d s) (hinside : (s.buffers i).stand.inside = true)
    (hsync : d.opt.asyncWrite = false) (hn : Answered (s.buffers i) b n)
    (haligned : d.opt.writend = .recWritev → d.opt.packetSize ∣ n)
    (htaken : b.taken = (s.buffers i).taken + n)
    (hoffset : b.offset = (s.buffers i).offset +
      (d.bytes (s.buffers i).sbuf.bufoffset.toNat n).length)
    (hput : put = (d.bytes (s.buffers i).sbuf.bufoffset.toNat n).length)
    (hbrought : (d.bytes (s.buffers i).sbuf.bufoffset.toNat count).take put =
      d.bytes (s.buffers i).sbuf.bufoffset.toNat n) :
    Turns d ((s.bring d (s.buffers i) count put).become i (b.looped d)) := by
  have hturn := Stand.turn_of_inside hinside
  have hp := h.progress i hinside
  have hfile : (s.bring d (s.buffers i) count put).file = overwrite s.file
      ((s.buffers i).fileid * d.calcBufsize +
        (d.bytes 0 (s.buffers i).sbuf.bufoffset.toNat).length)
      ((d.bytes (s.buffers i).sbuf.bufoffset.toNat n).map fun x => ((s.buffers i).fileid, x)) := by
    rw [← hp.place, ← hbrought]
    rfl
  refine h.goOn hturn ⟨hn.fileid, hn.size⟩ rfl ⟨rfl, rfl, rfl⟩ ?_ (fun r hr => ?_) ?_
  · refine hn.progress hp haligned rfl ?_ (fun _ => ⟨?_, ?_⟩) fun hasync => ?_
    · show (if d.opt.writend.seeks then b.offset else
          if d.opt.writend.seeks then s.position else s.position + put) = _
      rw [SingleFile.place]
      cases d.opt.writend.seeks with
      | true => exact hoffset
      | false => exact congrArg (s.position + ·) hput
    · rw [htaken, (hp.sync hsync).1, hn.toNat hp.nonneg]
    · show Holds (s.bring d (s.buffers i) count put).file _ _
      rw [hfile, hn.fileid, hn.toNat hp.nonneg, Setup.chunk, Setup.bytes_add hp.aligned,
        Nat.zero_add, List.map_append]
      refine ((hp.sync hsync).2.overwrite (.inr ?_)).append ?_
      · rw [Setup.length_chunk]
      · rw [Setup.length_chunk]
        exact .overwrite_self
    · rw [hsync] at hasync
      cases hasync
  · have hasync := (h.flying r hr).1
    rw [hsync] at hasync
    cases hasync
  · show Keeps d s (s.bring d (s.buffers i) count put).file
    rw [hfile]
    exact h.brings hturn (hn.bytes_size hp haligned)

/-- A request is submitted. -/
theorem submitted {n : ℕ} (h : Turns d s) (hinside : (s.buffers i).stand.inside = true)
    (hasync : d.opt.asyncWrite = true) (hn : Answered (s.buffers i) b n)
    (hsame : b.taken = (s.buffers i).taken ∧ b.sbuf.asyncdiff = (s.buffers i).sbuf.asyncdiff)
    (hoffset : b.offset = (s.buffers i).offset +
      (d.bytes (s.buffers i).sbuf.bufoffset.toNat n).length) :
    Turns d ((if 0 < n then s.submit d (s.buffers i) n else s).become i (b.looped d)) := by
  have hturn := Stand.turn_of_inside hinside
  have hp := h.progress i hinside
  obtain ⟨htaken, hasyncdiff⟩ := hsame
  obtain ⟨hsum, told, hunderway⟩ := hp.async hasync
  have hseeks : d.opt.writend.seeks = true := by
    rw [d.async hasync]
    rfl
  have haligned : d.opt.writend = .recWritev → d.opt.packetSize ∣ n := by
    rw [d.async hasync]
    exact fun hwritev => by cases hwritev
  have hplace : s.place d (s.buffers i) =
      (s.buffers i).fileid * d.calcBufsize + (s.buffers i).sbuf.bufoffset.toNat := by
    rw [hp.place, Setup.bytes_async hasync, List.length_range']
  have hmoved : ∀ t : SingleFile ι, t.place d b =
      s.place d (s.buffers i) + (d.bytes (s.buffers i).sbuf.bufoffset.toNat n).length := by
    intro t
    rw [SingleFile.place, SingleFile.place, hseeks]
    exact hoffset
  have htold : b.taken + b.sbuf.asyncdiff.toNat = b.size.toNat := by
    rw [htaken, hasyncdiff, hn.size]
    exact hsum
  have hothers : ∀ r, s.flights r ≠ [] → b.recer = r := by
    intro r hr
    by_contra hne
    exact hr (h.flights_nil hturn fun _ => hn.recer ▸ hne)
  by_cases hpos : 0 < n
  · rw [if_pos hpos]
    refine h.goOn hturn ⟨hn.fileid, hn.size⟩ rfl ⟨rfl, rfl, rfl⟩ ?_ (fun r hr => ⟨hasync, ?_⟩)
      h.keeps
    · refine hn.progress hp haligned rfl (hmoved _) (fun hsync => ?_) fun _ => ⟨htold, told, ?_⟩
      · rw [hasync] at hsync
        cases hsync
      · refine hunderway.submit hpos hplace ?_ rfl ⟨hn.recer, hn.fileid, htaken⟩
          (hn.toNat hp.nonneg)
        exact Function.update_self _ _ _
    · by_contra hne
      change Function.update s.flights (s.buffers i).recer _ r ≠ [] at hr
      rw [Function.update_of_ne fun heq => hne (hn.recer.trans heq.symm)] at hr
      exact hne (hothers r hr)
  · rw [if_neg hpos]
    obtain rfl : n = 0 := by omega
    refine h.goOn hturn ⟨hn.fileid, hn.size⟩ rfl ⟨rfl, rfl, rfl⟩ ?_
      (fun r hr => ⟨hasync, hothers r hr⟩) h.keeps
    refine hn.progress hp haligned rfl (hmoved _) (fun hsync => ?_) fun _ => ⟨htold, told, ?_⟩
    · rw [hasync] at hsync
      cases hsync
    · exact hunderway.still rfl ⟨hn.recer, hn.fileid, htaken, hn.toNat hp.nonneg⟩ rfl

theorem write {ret : ℤ} {put : ℕ} (h : Turns d s) (hsound : Sound d s (.write i ret put))
    (hstep : s.write d i ret put = some t) : Turns d t := by
  obtain ⟨hret, hle, hall⟩ := hsound
  simp only [SingleFile.write, Option.ite_none_right_eq_some] at hstep
  obtain ⟨⟨hstand, -, -⟩, hstep⟩ := hstep
  have hinside : (s.buffers i).stand.inside = true := by rw [hstand]; rfl
  have hp := h.progress i hinside
  have hleft := h.left_aligned (Stand.active_of_turn (Stand.turn_of_inside hinside)) hp
  split at hstep
  · cases hstep
  next req hreq =>
    simp only [Option.ite_none_right_eq_some] at hstep
    obtain ⟨⟨htakes, hput, -⟩, hstep⟩ := hstep
    obtain ⟨diff, hanswer, hsum⟩ := writeAnswered_advance hreq hret hle
    obtain ⟨n, rfl⟩ := Int.eq_ofNat_of_zero_le hret
    rw [Int.toNat_natCast] at hstep hsum hall
    rw [hanswer] at hstep
    cases hcase : d.opt.asyncWrite with
    | true =>
        rw [hcase] at hstep
        simp only [if_true, Int.natCast_pos] at hstep
        obtain rfl := Option.some.inj hstep
        exact h.submitted hinside hcase ⟨rfl, rfl, rfl, rfl, hsum⟩ ⟨rfl, rfl⟩ rfl
    | false =>
        have hput' := hall hcase
        have haligned : d.opt.writend = .recWritev → d.opt.packetSize ∣ n := by
          intro hwritev
          rw [Int.natCast_inj.mp (htakes.2.2.1 hwritev hret)]
          exact (d.count_aligned hwritev hreq (hleft hwritev)).1
        rw [hcase] at hstep
        simp only [if_true, Bool.false_eq_true, if_false] at hstep
        obtain rfl := Option.some.inj hstep
        refine h.wrote hinside hcase ⟨rfl, rfl, rfl, rfl, hsum⟩ haligned rfl rfl hput' ?_
        have hbegins : d.bytes (s.buffers i).sbuf.bufoffset.toNat (s.buffers i).sbuf.diff.toNat =
            d.bytes (s.buffers i).sbuf.bufoffset.toNat n ++
              d.bytes ((s.buffers i).sbuf.bufoffset.toNat + n) diff.toNat := by
          rw [← hsum]
          exact Setup.bytes_add haligned
        rw [Setup.take_bytes hreq hleft hput (by rw [hbegins, hput']; simp), hbegins, hput',
          List.take_left]

/-- The kernel writes a part of a request. -/
theorem land {r n put : ℕ} (h : Turns d s) (hstep : s.land d r n put = some t) : Turns d t := by
  unfold SingleFile.land at hstep
  split at hstep
  · cases hstep
  next flight hflight =>
    simp only [Option.ite_none_right_eq_some, Option.some.injEq] at hstep
    obtain ⟨hput, rfl⟩ := hstep
    have hmem : flight ∈ s.flights r := List.mem_of_getElem? hflight
    obtain ⟨hasync, i, hinside, rfl⟩ := h.flying r (List.ne_nil_of_mem hmem)
    have hturn := Stand.turn_of_inside hinside
    have hp := h.progress i hinside
    obtain ⟨hsum, told, hunderway⟩ := hp.async hasync
    obtain ⟨hchunk, hpos, hplace⟩ := hunderway.flights flight hmem
    -- the request is about bytes of the chunk
    have hlast : flight.start + flight.count - 1 < (s.buffers i).sbuf.bufoffset.toNat :=
      hunderway.below _ (List.mem_append_right _ (List.mem_flatMap.mpr ⟨flight, hmem,
        List.mem_range'_1.mpr (by omega)⟩))
    have hsize := hp.sum
    obtain ⟨rest, hrest⟩ := Nat.exists_eq_add_of_le
      (show flight.start + put ≤ (s.buffers i).size.toNat by omega)
    have hbytes : d.bytes 0 (s.buffers i).size.toNat = d.bytes 0 flight.start ++
        d.bytes flight.start put ++ d.bytes (flight.start + put) rest := by
      have haligned : ∀ n, d.opt.writend = .recWritev → d.opt.packetSize ∣ n := by
        rw [d.async hasync]
        exact fun n hwritev => by cases hwritev
      rw [hrest, Setup.bytes_add (haligned _), Setup.bytes_add (haligned _), Nat.zero_add,
        Nat.zero_add]
    have hkeeps := h.brings hturn hbytes
    have hlength : (d.bytes 0 flight.start).length = flight.start := by
      rw [Setup.bytes_async hasync, List.length_range']
    rw [hlength, ← hplace, ← hchunk] at hkeeps
    refine h.update (i := i) (Function.update_eq_self i s.buffers).symm rfl rfl rfl
      (fun hactive => ⟨hactive, rfl, rfl⟩) (h.turn i) (h.outside i) (fun _ => ?_) (h.finished i)
      (fun r hr => ?_) (fun j hij hj => ?_) (fun _ hself => ?_) hkeeps
    · refine { hp with sync := fun hsync => ?_, async := fun _ => ⟨hsum, told, ?_⟩ }
      · rw [hasync] at hsync
        cases hsync
      · have hfile : overwrite s.file flight.place
              ((d.bytes flight.start put).map fun x => (flight.chunk, x)) =
            overwrite s.file flight.place
              ((List.range' flight.start put).map fun x => (flight.chunk, x)) := by
          rw [Setup.bytes_async hasync]
        exact hunderway.land hmem rfl hfile
    · obtain ⟨-, j, hj, hrecer⟩ := h.flying r hr
      obtain rfl := h.eq_of_turn (Stand.turn_of_inside hj) hturn
      exact ⟨hasync, .inl ⟨hj, hrecer⟩⟩
    · rw [h.others hturn hij] at hj
      cases hj
    · rw [hinside] at hself
      cases hself

theorem check {n : Option ℕ} {ret : ℤ} (h : Turns d s) (hsound : Sound d s (.check i n ret))
    (hstep : s.check d i n ret = some t) : Turns d t := by
  obtain ⟨⟨heof, htold⟩, hfails, hlanded⟩ := hsound
  simp only [SingleFile.check, Option.ite_none_right_eq_some] at hstep
  obtain ⟨⟨hstand, hasync, -, hreports⟩, hstep⟩ := hstep
  have hinside : (s.buffers i).stand.inside = true := by rw [hstand]; rfl
  have hturn := Stand.turn_of_inside hinside
  have hp := h.progress i hinside
  have hreap : ∀ r, r ≠ (s.buffers i).recer →
      (s.reap (s.buffers i) n).flights r = [] := by
    intro r hr
    have hnone := h.flights_nil hturn fun _ => hr.symm
    cases n with
    | none => exact hnone
    | some n => exact (Function.update_of_ne hr _ _).trans hnone
  by_cases hneg : checkRet ret < 0
  · have hanswer : sbufCheck (s.buffers i).sbuf ret = (-1, (s.buffers i).sbuf) := by
      rw [sbufCheck, if_neg (not_lt.mpr hneg.le), if_neg heof, if_neg hneg.ne]
    rw [hanswer] at hstep
    obtain rfl := Option.some.inj hstep
    refine h.requestFailed (b := s.buffers i) hinside hasync (hfails hneg) ?hb ?hbuffers ?hsame
      fun r => ?_
    case hb => exact ⟨rfl, rfl, rfl⟩
    case hbuffers => cases n <;> rfl
    case hsame => cases n <;> exact ⟨rfl, rfl, rfl, rfl⟩
    show Function.update (s.reap (s.buffers i) n).flights (s.buffers i).recer [] r = []
    by_cases hr : r = (s.buffers i).recer
    · rw [hr, Function.update_self]
    · rw [Function.update_of_ne hr]
      exact hreap r hr
  · -- what is reported is not more than what is submitted
    have hret : 0 ≤ ret := by
      by_contra hlt
      exact hneg (htold (not_le.mp hlt))
    obtain ⟨htaken, told, hunderway⟩ := hp.async hasync
    let b : Buffer := { s.buffers i with taken := (s.buffers i).taken + (checkRet ret).toNat }
    obtain ⟨told', hunderway'⟩ : ∃ told, Underway d (s.reap (s.buffers i) n) b told :=
      hunderway.check hasync hret (not_lt.mp hneg) hreports hlanded (by cases n <;> rfl) rfl
        ⟨rfl, rfl, rfl⟩ rfl
    have hsubmitted : (s.buffers i).taken + (checkRet ret).toNat + _ ≤
        (s.buffers i).sbuf.bufoffset.toNat := hunderway'.length_le
    have hsum := hp.sum
    obtain ⟨asyncdiff, hanswer, hleft⟩ :=
      @sbufCheck_advance (s.buffers i).sbuf _ (not_lt.mp hneg) (by omega)
    rw [hanswer] at hstep
    obtain rfl := Option.some.inj hstep
    refine h.goOn hturn ?hb (by cases n <;> rfl) (by cases n <;> exact ⟨rfl, rfl, rfl⟩) ?_
      (fun r hr => ⟨hasync, ?_⟩) (by cases n <;> exact h.keeps)
    case hb => exact ⟨rfl, rfl⟩
    · refine ⟨hp.nonneg, hp.sum, hp.aligned, by cases n <;> exact hp.place,
        by cases n <;> exact hp.total, fun hsync => ?_, fun _ => ⟨?_, told', ?_⟩⟩
      · rw [hasync] at hsync
        cases hsync
      · show (s.buffers i).taken + (checkRet ret).toNat + asyncdiff.toNat = _
        rw [Nat.add_assoc, hleft]
        exact htaken
      · exact ⟨hunderway'.1, hunderway'.2, hunderway'.3, hunderway'.4, hunderway'.5⟩
    · by_contra hne
      exact hr (hreap r fun heq => hne heq.symm)

/-- The turn goes on to the next chunk when the thread of this one is done. -/
theorem done (h : Turns d s) (hstand : (s.buffers i).stand = .releasing)
    (hbuffers : t.buffers = Function.update s.buffers i b') (hb' : b'.stand = .sleeping)
    (hnext : t.next = s.next + 1) (hwritten : t.written = s.written ++ [(s.buffers i).fileid])
    (hsizes : t.sizes = s.sizes) (hfile : t.file = s.file) (hposition : t.position = s.position)
    (hflights : t.flights = s.flights) : Turns d t := by
  have hinside : (s.buffers i).stand.inside = true := by rw [hstand]; rfl
  have hturn := Stand.turn_of_inside hinside
  have hfileid := h.turn i hturn
  have hp := h.progress i hinside
  obtain ⟨hoffset, hheld, hempty⟩ := hp.all_held (h.finished i hstand)
  have hsize := (h.active i (Stand.active_of_turn hturn)).1
  rw [hfileid] at hsize hwritten
  -- the others have later chunks, and it is not their turn
  have hother : ∀ j, (t.buffers j).stand.active = true →
      t.buffers j = s.buffers j ∧ j ≠ i ∧ (s.buffers j).stand.active = true := by
    rw [hbuffers]
    refine (Function.forall_update_iff _ fun j b => b.stand.active = true →
      b = s.buffers j ∧ j ≠ i ∧ (s.buffers j).stand.active = true).mpr ⟨fun hactive => ?_, ?_⟩
    · rw [hb'] at hactive
      cases hactive
    · exact fun j hij hj => ⟨rfl, hij, hj⟩
  have hnone : ∀ j, (t.buffers j).stand.turn = false := by
    intro j
    rw [Bool.eq_false_iff]
    intro hj
    obtain ⟨heq, hij, -⟩ := hother j (Stand.active_of_turn hj)
    exact hij (h.eq_of_turn (heq ▸ hj) hturn)
  have hnotInside : ∀ j, (t.buffers j).stand.inside = true → False := fun j hj => by
    have hturn' := Stand.turn_of_inside hj
    rw [hnone j] at hturn'
    cases hturn'
  constructor
  case written =>
    rw [hwritten, hnext, h.written, List.range_succ]
  case handed =>
    intro k hk
    rw [hnext] at hk
    rw [hsizes]
    rcases Nat.lt_succ_iff_lt_or_eq.mp hk with hlt | rfl
    · exact h.handed k hlt
    · rw [hsize]
      exact Option.some_ne_none _
  case fits =>
    rw [hsizes]
    exact h.fits
  case active =>
    intro j hj
    obtain ⟨heq, hij, hj⟩ := hother j hj
    obtain ⟨hsome, hle⟩ := h.active j hj
    rw [heq, hsizes, hnext]
    refine ⟨hsome, Nat.lt_of_le_of_ne hle fun hsame => hij ?_⟩
    exact h.distinct j i hj (Stand.active_of_turn hturn) (hsame.symm.trans hfileid.symm)
  case distinct =>
    intro j j' hj hj' hfileids
    obtain ⟨heq, -, hj⟩ := hother j hj
    obtain ⟨heq', -, hj'⟩ := hother j' hj'
    rw [heq, heq'] at hfileids
    exact h.distinct j j' hj hj' hfileids
  case turn =>
    intro j hj
    rw [hnone j] at hj
    cases hj
  case outside =>
    intro j hj
    obtain ⟨heq, -, -⟩ := hother j (by rcases hj with hj | hj <;> rw [hj] <;> rfl)
    rw [heq] at hj ⊢
    exact h.outside j hj
  case progress =>
    exact fun j hj => (hnotInside j hj).elim
  case finished =>
    exact fun j hj => (hnotInside j (by rw [hj]; rfl)).elim
  case flying =>
    intro r hr
    rw [hflights] at hr
    obtain ⟨hasync, j, hj, rfl⟩ := h.flying r hr
    obtain rfl := h.eq_of_turn (Stand.turn_of_inside hj) hturn
    exact absurd (hempty hasync) hr
  case idle =>
    intro hseeks _
    have hplace := hp.place
    rw [SingleFile.place, hseeks, hoffset, hfileid] at hplace
    have htotal := hp.total hseeks
    rw [hfileid] at htotal
    rw [hposition, hsizes, hnext, Setup.total_succ, htotal, hsize]
    exact hplace
  case placed =>
    intro k hk n hn
    rw [hnext] at hk
    rw [hsizes] at hn
    rw [hfile]
    rcases Nat.lt_succ_iff_lt_or_eq.mp hk with hlt | rfl
    · exact h.placed k hlt n hn
    · obtain rfl : (s.buffers i).size.toNat = n := Option.some.inj (hsize.symm.trans hn)
      rwa [hfileid] at hheld
  case only =>
    rw [hfile, hsizes]
    exact h.only

theorem release (h : Turns d s) (hstep : s.release i = some t) : Turns d t := by
  simp only [SingleFile.release, Option.ite_none_right_eq_some] at hstep
  obtain ⟨hstand, hstep⟩ := hstep
  rw [if_pos (h.finished i hstand)] at hstep
  obtain rfl := Option.some.inj hstep
  exact h.done hstand rfl rfl rfl rfl rfl rfl rfl rfl

/-- A new chunk is handed over. -/
theorem new {k n : ℕ} (h : Turns d s) (hstand : (s.buffers i).stand = .sleeping)
    (hnew : s.sizes k = none) (hfits : (d.bytes 0 n).length ≤ d.calcBufsize ∧
      (d.opt.writend = .recWritev → d.opt.packetSize ∣ n))
    (hbuffers : t.buffers = Function.update s.buffers i b') (hb' : b'.stand = .trying)
    (hfileid : b'.fileid = k) (hsize : b'.size.toNat = n)
    (houtside : b'.sbuf.diff = b'.size ∧ b'.sbuf.bufoffset = 0)
    (hnext : t.next = s.next) (hwritten : t.written = s.written)
    (hsizes : t.sizes = Function.update s.sizes k (some n)) (hfile : t.file = s.file)
    (hposition : t.position = s.position) (hflights : t.flights = s.flights) : Turns d t := by
  have hold : ∀ k', s.sizes k' ≠ none → t.sizes k' = s.sizes k' := by
    intro k' hk'
    rw [hsizes]
    refine Function.update_of_ne (fun heq => ?_) _ _
    rw [heq] at hk'
    exact hk' hnew
  have hself : t.sizes k = some n := by rw [hsizes, Function.update_self]
  have hbefore : ∀ k' < s.next, t.sizes k' = s.sizes k' := fun k' hk' => hold k' (h.handed k' hk')
  have hlater : s.next ≤ k := by
    by_contra hlt
    exact h.handed k (not_le.mp hlt) hnew
  have hall := forall_of_update hbuffers
  have hbusy : ∀ j, (s.buffers j).stand.active = true → (s.buffers j).fileid ≠ k := by
    intro j hj heq
    rw [← heq, (h.active j hj).1] at hnew
    cases hnew
  constructor
  case written =>
    rw [hwritten, hnext]
    exact h.written
  case handed =>
    intro k' hk'
    rw [hnext] at hk'
    rw [hbefore k' hk']
    exact h.handed k' hk'
  case fits =>
    intro k' m hm
    rw [hsizes] at hm
    by_cases hk : k' = k
    · rw [hk, Function.update_self] at hm
      rw [← Option.some.inj hm]
      exact hfits
    · rw [Function.update_of_ne hk] at hm
      exact h.fits k' m hm
  case active =>
    rw [hnext]
    refine hall (fun j b => b.stand.active = true →
      t.sizes b.fileid = some b.size.toNat ∧ s.next ≤ b.fileid) (fun _ => ?_) fun j hj => ?_
    · rw [hfileid, hsize]
      exact ⟨hself, hlater⟩
    · obtain ⟨hsome, hle⟩ := h.active j hj
      rw [hold _ (by rw [hsome]; exact Option.some_ne_none _)]
      exact ⟨hsome, hle⟩
  case distinct =>
    rw [hbuffers]
    refine (Function.forall_update_iff _ fun j (b : Buffer) => ∀ j', b.stand.active = true →
      (Function.update s.buffers i b' j').stand.active = true →
      b.fileid = (Function.update s.buffers i b' j').fileid → j = j').mpr
        ⟨fun j' _ => ?_, fun j hij j' hj => ?_⟩
    · by_cases hij' : j' = i
      · exact fun _ _ => hij'.symm
      · rw [Function.update_of_ne hij', hfileid]
        exact fun hj' heq => absurd heq.symm (hbusy j' hj')
    · by_cases hij' : j' = i
      · rw [hij', Function.update_self, hfileid]
        exact fun _ heq => absurd heq (hbusy j hj)
      · rw [Function.update_of_ne hij']
        exact h.distinct j j' hj
  case turn =>
    rw [hnext]
    exact hall (fun _ b => b.stand.turn = true → b.fileid = s.next)
      (fun hturn => by rw [hb'] at hturn; cases hturn) h.turn
  case outside =>
    exact hall (fun _ b => b.stand = .trying ∨ b.stand = .acquiring →
      b.sbuf.diff = b.size ∧ b.sbuf.bufoffset = 0) (fun _ => houtside) h.outside
  case progress =>
    refine hall (fun _ b => b.stand.inside = true → Progress d t b)
      (fun hinside => by rw [hb'] at hinside; cases hinside) fun j hj => ?_
    refine (h.progress j hj).congr hfile hposition ?_ (by rw [hflights])
    rw [h.turn j (Stand.turn_of_inside hj)]
    exact Setup.total_congr hbefore
  case finished =>
    exact hall (fun _ b => b.stand = .releasing → b.size.toNat ≤ b.taken)
      (fun hreleasing => by rw [hb'] at hreleasing; cases hreleasing) h.finished
  case flying =>
    intro r hr
    rw [hflights] at hr
    obtain ⟨hasync, j, hj, hrecer⟩ := h.flying r hr
    have hij : j ≠ i := fun heq => by
      rw [heq, hstand] at hj
      cases hj
    refine ⟨hasync, j, ?_⟩
    rw [hbuffers, Function.update_of_ne hij]
    exact ⟨hj, hrecer⟩
  case idle =>
    intro hseeks hnone
    rw [hposition, hnext, Setup.total_congr hbefore]
    refine h.idle hseeks fun j => ?_
    by_cases hij : j = i
    · rw [hij, hstand]
      rfl
    · have hj := hnone j
      rwa [hbuffers, Function.update_of_ne hij] at hj
  case placed =>
    intro k' hk' m hm
    rw [hnext] at hk'
    rw [hbefore k' hk'] at hm
    rw [hfile]
    exact h.placed k' hk' m hm
  case only =>
    intro x k' j hx
    rw [hfile] at hx
    obtain ⟨m, y, hm, hrest⟩ := h.only x k' j hx
    exact ⟨m, y, (hold k' (by rw [hm]; exact Option.some_ne_none _)).trans hm, hrest⟩

theorem fill {k : ℕ} {diff : BitVec 64} (h : Turns d s) (hsound : Sound d s (.fill i k diff))
    (hstep : s.fill d i k diff = some t) : Turns d t := by
  simp only [SingleFile.fill, Option.ite_none_right_eq_some] at hstep
  obtain ⟨⟨hstand, -, -, hnew, -⟩, hstep⟩ := hstep
  obtain rfl := Option.some.inj hstep
  exact h.new hstand hnew hsound rfl rfl rfl rfl ⟨rfl, rfl⟩ rfl rfl rfl rfl rfl rfl

/-- **Every step** that meets the condition leaves the turns in order. -/
theorem step {a : FileAction ι} (h : Turns d s) (hsound : Sound d s a)
    (hstep : s.step d a = some t) : Turns d t := by
  cases a with
  | fill i k diff => exact h.fill hsound hstep
  | pass i => exact h.pass hstep
  | acquire i r err => exact h.acquire hsound hstep
  | noRecer i => exact h.noRecer hstep
  | write i ret put => exact h.write hsound hstep
  | land r n put => exact h.land hstep
  | check i n ret => exact h.check hsound hstep
  | release i => exact h.release hstep

end Turns

/-! ## Runs -/

variable [DecidableEq ι]

/-- **The chunks come to the file in their order**, each at its place, in every run whose
steps meet the condition. -/
theorem inOrder_of_reachable (h : (singleFile ι d).ReachableUnder (Sound d) s) : InOrder d s := by
  have hturns : Turns d s := by
    apply h.invariant
    · exact fun s hstart => .start hstart
    · exact fun s a t hs hsound hstep => hs.step hsound hstep
  exact hturns.inOrder

/-- Chunks of two packets with two bytes, written with `aio`. -/
def twoPackets : Setup where
  opt :=
    { writend := .recAio
      asyncWrite := true
      writeToSingleFile := true
      statusRunning := true
      haveAssert := true
      packetSize := 2
      bufNumElems := 2
      doWStuffEvery := 4 }
  offset := 0
  bounded := by decide
  async := fun _ => rfl

/-- One thread and three recorders. -/
def asleep : SingleFile Unit where
  next := 0
  buffers := fun _ => ⟨.sleeping, 0, 0, 0, ⟨0, 0, 0, false, true⟩, false, 0, 0, 0⟩
  recers := fun r => if r < 3 then .free else .removed
  flights := fun _ => []
  opened := false
  position := 0
  file := fun _ => none
  sizes := fun _ => none
  written := []

theorem asleep_starts : asleep.Starts :=
  ⟨rfl, fun _ => rfl, fun _ => rfl, fun _ => rfl, rfl, fun _ => rfl, rfl⟩

/-- A recorder cannot be acquired, with the next one the write fails after two bytes, and the
third one writes the chunk. -/
def retried : List (FileAction Unit) :=
  [.fill () 0 4, .pass (), .acquire () 0 (-1),
    .pass (), .acquire () 1 0, .write () 4 0, .land 1 0 2, .check () (some 0) (-1),
    .pass (), .acquire () 2 0, .write () 4 0, .land 2 0 4, .check () (some 0) 4, .release ()]

theorem inOrder_of_reachable_retried : ∃ s : SingleFile Unit,
    System.runFrom (fun s a => s.step twoPackets a) asleep retried = some s ∧ s.written = [0] ∧
      InOrder twoPackets s := by
  have hwritten : (System.runFrom (fun s a => s.step twoPackets a) asleep retried).map
      SingleFile.written = some [0] := by decide +kernel
  obtain ⟨s, hrun, hwritten⟩ := Option.map_eq_some_iff.mp hwritten
  have hstart : (singleFile Unit twoPackets).ReachableUnder (Sound twoPackets) asleep :=
    .init asleep_starts
  exact ⟨s, hrun, hwritten, inOrder_of_reachable (hstart.runFrom (by decide +kernel) hrun)⟩

/-- The directory of the recorder cannot be made because the drive is full: nothing has been
written, and it is the turn of the next chunk. -/
theorem full_not_inOrder : ∃ s : SingleFile Unit, (singleFile Unit twoPackets).Reachable s ∧
    s.next = 1 ∧ s.written = [] ∧ ¬ InOrder twoPackets s := by
  have hstart : (singleFile Unit twoPackets).Reachable asleep := .init asleep_starts
  have hfill := hstart.step (a := .fill () 0 4) (by rfl)
  have hpass := hfill.step (a := .pass ()) (by rfl)
  have hfull := hpass.step (a := .acquire () 0 28) (by rfl)
  exact ⟨_, hfull, rfl, rfl, fun h => absurd h.next (by decide)⟩

end VlbiStreamer.Recorder
