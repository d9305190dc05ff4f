import VlbiStreamer.Library.Extent
import VlbiStreamer.Library.Looping
import VlbiStreamer.Recorder.Writers

/-!
# Writing stripped packets

`writev_write` writes a chunk of packets without their first `offset` bytes, in batches of at
most `IOV_MAX` vectors.  A batch that the kernel takes in part is only logged, and the file
offset goes on as if all of it had been written.

`writesStripped_iff` says when the file holds the packets: exactly when every batch is taken
as a whole.
-/

namespace VlbiStreamer.Recorder

open Library

/-- What is fixed for a chunk of `nVecs` packets. -/
structure Vecs where
  packetSize : ℕ
  offset : ℕ
  nVecs : ℕ
  /-- The build flag `DAEMON`. -/
  daemon : Bool
  offset_lt : offset < packetSize

/-- What `writev_write` changes of `common_io_info` and of its options. -/
structure CommonIo (α : Type) where
  file : ℕ → Option α
  offset : ℕ
  bytesExchanged : ℕ
  optBytesExchanged : ℕ

/-- The loop of `writev_write` between two batches. -/
structure Batches (α : Type) where
  io : CommonIo α
  totalI : ℕ
  calls : ℕ

namespace Vecs

variable {α : Type} (d : Vecs) (buffer : ℕ → α) (rets : ℕ → ℤ)

/-- `iov_len` -/
def iovLen : ℕ := d.packetSize - d.offset

/-- The bytes of packet `j` behind the offset. -/
def payload (j : ℕ) : List α :=
  (List.range d.iovLen).map fun x => buffer (j * d.packetSize + d.offset + x)

/-- `n` vectors from packet `j` on. -/
def vectors (j n : ℕ) : List α := (List.range n).flatMap fun i => d.payload buffer (i + j)

/-- The vectors of the next batch. -/
def batchSize (totalI : ℕ) : ℕ := min iovMax (d.nVecs - totalI)

/-- The loop after a `pwritev` that takes `err` bytes. -/
def batchDone (err : ℕ) (s : Batches α) : Batches α where
  io := { s.io with
    file := overwrite s.io.file s.io.offset
      ((d.vectors buffer s.totalI (d.batchSize s.totalI)).take err)
    offset := s.io.offset + d.batchSize s.totalI * d.iovLen }
  totalI := s.totalI + d.batchSize s.totalI
  calls := s.calls + 1

/-- One turn of `writev_write`, whose `pwritev` number `n` returns `rets n`. -/
def writevTurn (s : Batches α) : Turn (Batches α) (ℤ × CommonIo α) :=
  if s.totalI < d.nVecs then
    if rets s.calls < 0 then .stop (-1, s.io)
    else .again (d.batchDone buffer (rets s.calls).toNat s)
  else
    .stop ((d.nVecs * d.packetSize : ℕ), { s.io with
      bytesExchanged := s.io.bytesExchanged + s.totalI * d.iovLen
      optBytesExchanged :=
        if d.daemon then s.io.optBytesExchanged + s.totalI * d.iovLen
        else s.io.optBytesExchanged })

/-- `writev_write` is entered. -/
def entered (io : CommonIo α) : Batches α := ⟨io, 0, 0⟩

/-- The file has the packets without their offsets behind what it had, and the counters are
those of the bytes. -/
structure Stripped (io io' : CommonIo α) : Prop where
  holds : Holds io'.file io.offset (d.vectors buffer 0 d.nVecs)
  frame : ∀ p, p < io.offset ∨ io.offset + d.nVecs * d.iovLen ≤ p → io'.file p = io.file p
  offset : io'.offset = io.offset + d.nVecs * d.iovLen
  exchanged : io'.bytesExchanged = io.bytesExchanged + d.nVecs * d.iovLen
  optExchanged : d.daemon = true →
    io'.optBytesExchanged = io.optBytesExchanged + d.nVecs * d.iovLen

/-- `writev_write` returns `count` and has written the stripped packets, whatever the file
held. -/
def WritesStripped : Prop :=
  ∀ io : CommonIo α, ∃ io',
    Ends (d.writevTurn buffer rets) (entered io) ((d.nVecs * d.packetSize : ℕ), io') ∧
      d.Stripped buffer io io'

/-- The loop after `k` batches. -/
def after (io : CommonIo α) : ℕ → Batches α
  | 0 => entered io
  | k + 1 => d.batchDone buffer (rets k).toNat (after io k)

section Results

variable {d : Vecs} {buffer : ℕ → α} {rets : ℕ → ℤ} {io io' : CommonIo α} {k : ℕ}

/-! ## The vectors -/

theorem length_vectors (d : Vecs) (buffer : ℕ → α) (j n : ℕ) :
    (d.vectors buffer j n).length = n * d.iovLen := by
  refine length_flatMap_range (fun i => ?_) n
  rw [payload, List.length_map, List.length_range]

theorem vectors_append (n m : ℕ) :
    d.vectors buffer 0 n ++ d.vectors buffer n m = d.vectors buffer 0 (n + m) := by
  unfold vectors
  rw [flatMap_range_add]
  congr 1
  apply List.flatMap_congr
  intro i _
  rw [Nat.add_comm, Nat.add_zero]

/-! ## The batches -/

theorem after_calls : (d.after buffer rets io k).calls = k := by
  induction k with
  | zero => rfl
  | succ k ih => exact congrArg (· + 1) ih

theorem after_totalI : (d.after buffer rets io k).totalI = min (k * iovMax) d.nVecs := by
  induction k with
  | zero => exact (Nat.zero_mul iovMax ▸ Nat.zero_min _).symm
  | succ k ih =>
      show (d.after buffer rets io k).totalI + d.batchSize _ = _
      rw [ih, Nat.succ_mul]
      unfold batchSize iovMax
      omega

theorem after_offset : (d.after buffer rets io k).io.offset =
    io.offset + (d.after buffer rets io k).totalI * d.iovLen := by
  induction k with
  | zero =>
      show io.offset = io.offset + 0 * d.iovLen
      rw [Nat.zero_mul, Nat.add_zero]
  | succ k ih =>
      show (d.after buffer rets io k).io.offset + d.batchSize _ * d.iovLen =
        io.offset + ((d.after buffer rets io k).totalI + d.batchSize _) * d.iovLen
      rw [ih, Nat.add_mul, Nat.add_assoc]

theorem length_taken {err : ℕ} (s : Batches α) :
    ((d.vectors buffer s.totalI (d.batchSize s.totalI)).take err).length =
      min err (d.batchSize s.totalI * d.iovLen) := by
  rw [List.length_take, length_vectors]

/-- Nothing is written behind the file offset. -/
theorem after_file_of_le {p : ℕ} (h : (d.after buffer rets io k).io.offset ≤ p) :
    (d.after buffer rets io k).io.file p = io.file p := by
  induction k with
  | zero => rfl
  | succ k ih =>
      change (d.after buffer rets io k).io.offset +
        d.batchSize (d.after buffer rets io k).totalI * d.iovLen ≤ p at h
      refine (overwrite_of_le ?_).trans (ih (by omega))
      rw [length_taken]
      omega

theorem after_offset_le (k m : ℕ) : (d.after buffer rets io k).io.offset ≤
    (d.after buffer rets io (k + m)).io.offset := by
  induction m with
  | zero => exact le_rfl
  | succ m ih => exact ih.trans (Nat.le_add_right _ _)

/-- What is written stays. -/
theorem after_file_of_lt {p : ℕ} (h : p < (d.after buffer rets io k).io.offset) (m : ℕ) :
    (d.after buffer rets io (k + m)).io.file p = (d.after buffer rets io k).io.file p := by
  induction m with
  | zero => rfl
  | succ m ih =>
      exact (overwrite_of_lt (h.trans_le (after_offset_le k m))).trans ih

theorem after_exchanged : (d.after buffer rets io k).io.bytesExchanged = io.bytesExchanged ∧
    (d.after buffer rets io k).io.optBytesExchanged = io.optBytesExchanged := by
  induction k with
  | zero => exact ⟨rfl, rfl⟩
  | succ k ih => exact ih

/-- The batches of a chunk. -/
def batches (d : Vecs) : ℕ := (d.nVecs + (iovMax - 1)) / iovMax

theorem lt_batches_iff : k < d.batches ↔ k * iovMax < d.nVecs := by
  unfold batches iovMax
  omega

theorem after_batches : (d.after buffer rets io d.batches).totalI = d.nVecs := by
  rw [after_totalI]
  unfold batches iovMax
  omega

theorem writevTurn_after (hnonneg : ∀ k, 0 ≤ rets k) (hk : k < d.batches) :
    d.writevTurn buffer rets (d.after buffer rets io k) =
      .again (d.after buffer rets io (k + 1)) := by
  have hmore : (d.after buffer rets io k).totalI < d.nVecs := by
    have hlt := lt_batches_iff.mp hk
    rw [after_totalI]
    omega
  unfold writevTurn
  rw [if_pos hmore, after_calls, if_neg (not_lt.mpr (hnonneg k))]
  rfl

/-- The state in which `writev_write` returns. -/
def written (d : Vecs) (buffer : ℕ → α) (rets : ℕ → ℤ) (io : CommonIo α) : CommonIo α :=
  let done := (d.after buffer rets io d.batches).io
  { done with
    bytesExchanged := done.bytesExchanged + d.nVecs * d.iovLen
    optBytesExchanged :=
      if d.daemon then done.optBytesExchanged + d.nVecs * d.iovLen
      else done.optBytesExchanged }

/-- When no `pwritev` fails, `writev_write` returns `count`. -/
theorem ends_written (hnonneg : ∀ k, 0 ≤ rets k) :
    Ends (d.writevTurn buffer rets) (entered io)
      ((d.nVecs * d.packetSize : ℕ), d.written buffer rets io) := by
  have hturns : ∀ k < d.batches, d.writevTurn buffer rets (d.after buffer rets io k) =
      .again (d.after buffer rets io (k + 1)) := fun k hk => writevTurn_after hnonneg hk
  refine (Ends.turns_iff hturns).mpr (Ends.stop ?_)
  unfold writevTurn
  rw [after_batches, if_neg (Nat.lt_irrefl _)]
  rfl

/-- The loop is the one of the back ends: it returns what `writev_write` does after the same
results. -/
theorem writevWrite_of_ends {fdSet : Bool} {ret : ℤ}
    (h : Ends (d.writevTurn buffer rets) (entered io) (ret, io')) :
    ∃ n, writevWrite false fdSet d.packetSize (d.nVecs * d.packetSize)
      ((List.range n).map rets) = some ret := by
  suffices hloop : ∀ s : Batches α, Ends (d.writevTurn buffer rets) s (ret, io') →
      ∃ n done, writevLoop d.nVecs ((List.range' s.calls n).map rets) s.totalI = some done ∧
        ret = if done then ((d.nVecs * d.packetSize : ℕ) : ℤ) else -1 by
    obtain ⟨n, done, hrun, rfl⟩ := hloop _ h
    refine ⟨n, ?_⟩
    have hvecs : d.nVecs * d.packetSize / d.packetSize = d.nVecs :=
      Nat.mul_div_cancel _ (Nat.zero_lt_of_lt d.offset_lt)
    unfold writevWrite
    rw [if_neg Bool.false_ne_true, hvecs, List.range_eq_range']
    exact Option.map_eq_some_iff.mpr ⟨done, hrun, rfl⟩
  rintro s ⟨fuel, hrun⟩
  induction fuel generalizing s with
  | zero => cases hrun
  | succ fuel ih =>
      by_cases hmore : s.totalI < d.nVecs
      · by_cases hfailed : rets s.calls < 0
        · have hturn : d.writevTurn buffer rets s = .stop (-1, s.io) := by
            unfold writevTurn
            rw [if_pos hmore, if_pos hfailed]
          rw [runLoop_stop hturn] at hrun
          obtain ⟨rfl, -⟩ := Prod.mk.inj (Option.some.inj hrun)
          refine ⟨1, false, ?_, rfl⟩
          show writevLoop d.nVecs [rets s.calls] s.totalI = _
          rw [writevLoop, if_neg (Nat.not_le.mpr hmore), if_pos hfailed]
        · have hturn : d.writevTurn buffer rets s =
              .again (d.batchDone buffer (rets s.calls).toNat s) := by
            unfold writevTurn
            rw [if_pos hmore, if_neg hfailed]
          rw [runLoop_again hturn] at hrun
          obtain ⟨n, done, hrest, hret⟩ := ih _ hrun
          refine ⟨n + 1, done, ?_, hret⟩
          rw [List.range'_succ, List.map_cons, writevLoop, if_neg (Nat.not_le.mpr hmore),
            if_neg hfailed]
          exact hrest
      · have hturn : d.writevTurn buffer rets s = _ := if_neg hmore
        rw [runLoop_stop hturn] at hrun
        obtain ⟨rfl, -⟩ := Prod.mk.inj (Option.some.inj hrun)
        refine ⟨0, true, ?_, rfl⟩
        exact if_pos (Nat.not_lt.mp hmore)

/-! ## Whole batches -/

/-- The kernel takes every batch as a whole. -/
def Whole (d : Vecs) (rets : ℕ → ℤ) : Prop :=
  ∀ k, k * iovMax < d.nVecs → d.batchSize (k * iovMax) * d.iovLen ≤ (rets k).toNat

theorem totalI_of_lt (hk : k * iovMax < d.nVecs) :
    (d.after buffer rets io k).totalI = k * iovMax := by
  rw [after_totalI]
  exact Nat.min_eq_left hk.le

/-- After whole batches the file has the packets. -/
theorem holds_after (hwhole : d.Whole rets) (hk : k ≤ d.batches) :
    Holds (d.after buffer rets io k).io.file io.offset
      (d.vectors buffer 0 (d.after buffer rets io k).totalI) := by
  induction k with
  | zero => exact Holds.nil
  | succ k ih =>
      have hlt : k * iovMax < d.nVecs := lt_batches_iff.mp hk
      have hbefore := ih (Nat.le_of_succ_le hk)
      have hall : (d.vectors buffer (d.after buffer rets io k).totalI
          (d.batchSize (d.after buffer rets io k).totalI)).take (rets k).toNat =
          d.vectors buffer (d.after buffer rets io k).totalI
            (d.batchSize (d.after buffer rets io k).totalI) := by
        apply List.take_of_length_le
        rw [length_vectors, totalI_of_lt hlt]
        exact hwhole k hlt
      show Holds (overwrite _ (d.after buffer rets io k).io.offset _) _ (d.vectors buffer 0
        ((d.after buffer rets io k).totalI + d.batchSize (d.after buffer rets io k).totalI))
      rw [hall, ← vectors_append, after_offset, ← length_vectors d buffer 0]
      exact (hbefore.overwrite (Or.inr le_rfl)).append Holds.overwrite_self

/-- A batch that is not taken as a whole leaves a gap. -/
theorem gap_after (hk : k * iovMax < d.nVecs)
    (hshort : (rets k).toNat < d.batchSize (k * iovMax) * d.iovLen) :
    (d.after buffer rets io d.batches).io.file
        (io.offset + (k * iovMax * d.iovLen + (rets k).toNat)) =
      io.file (io.offset + (k * iovMax * d.iovLen + (rets k).toNat)) := by
  have hstart : (d.after buffer rets io k).io.offset = io.offset + k * iovMax * d.iovLen := by
    rw [after_offset, totalI_of_lt hk]
  have hnext : (d.after buffer rets io (k + 1)).io.offset =
      io.offset + k * iovMax * d.iovLen + d.batchSize (k * iovMax) * d.iovLen := by
    show (d.after buffer rets io k).io.offset + d.batchSize _ * d.iovLen = _
    rw [hstart, totalI_of_lt hk]
  obtain ⟨m, hm⟩ : ∃ m, d.batches = k + 1 + m :=
    Nat.exists_eq_add_of_le (Nat.succ_le_of_lt (lt_batches_iff.mpr hk))
  rw [hm, after_file_of_lt (by omega) m]
  refine (overwrite_of_le ?_).trans (after_file_of_le (by omega))
  rw [length_taken, hstart]
  omega

/-- **`writev_write` writes the stripped packets** exactly when every batch is taken as a
whole. -/
theorem writesStripped_iff (hnonneg : ∀ k, 0 ≤ rets k) :
    d.WritesStripped buffer rets ↔ d.Whole rets := by
  constructor
  · intro h k hk
    by_contra hwhole
    have hshort : (rets k).toNat < d.batchSize (k * iovMax) * d.iovLen := Nat.lt_of_not_le hwhole
    obtain ⟨io', hends, hstripped⟩ := h ⟨fun _ => none, 0, 0, 0⟩
    obtain ⟨-, rfl⟩ := Prod.mk.inj (hends.unique (ends_written hnonneg))
    have hlt : k * iovMax * d.iovLen + (rets k).toNat < (d.vectors buffer 0 d.nVecs).length := by
      rw [length_vectors]
      calc k * iovMax * d.iovLen + (rets k).toNat
          < k * iovMax * d.iovLen + d.batchSize (k * iovMax) * d.iovLen :=
            Nat.add_lt_add_left hshort _
        _ = (k * iovMax + d.batchSize (k * iovMax)) * d.iovLen := (Nat.add_mul ..).symm
        _ ≤ d.nVecs * d.iovLen := by
            apply Nat.mul_le_mul_right
            unfold batchSize
            omega
    have hbyte := hstripped.holds _ hlt
    rw [List.getElem?_eq_getElem hlt] at hbyte
    cases (gap_after hk hshort).symm.trans hbyte
  · intro hwhole io
    have htotal : (d.after buffer rets io d.batches).totalI = d.nVecs := after_batches
    have hoffset : (d.after buffer rets io d.batches).io.offset =
        io.offset + d.nVecs * d.iovLen := htotal ▸ after_offset
    obtain ⟨hexchanged, hoptExchanged⟩ :
        (d.after buffer rets io d.batches).io.bytesExchanged = io.bytesExchanged ∧
          (d.after buffer rets io d.batches).io.optBytesExchanged = io.optBytesExchanged :=
      after_exchanged
    refine ⟨_, ends_written hnonneg, htotal ▸ holds_after hwhole le_rfl, ?_, hoffset, ?_, ?_⟩
    · rintro p (hbefore | hbehind)
      · have hkept : (d.after buffer rets io (0 + d.batches)).io.file p = io.file p :=
          after_file_of_lt hbefore d.batches
        rw [Nat.zero_add] at hkept
        exact hkept
      · exact after_file_of_le (by rw [hoffset]; exact hbehind)
    · exact congrArg (· + d.nVecs * d.iovLen) hexchanged
    · intro hdaemon
      show (if d.daemon = true then _ else _) = _
      rw [if_pos hdaemon, hoptExchanged]

/-! ## Two chunks -/

/-- Two packets of four bytes, of which the first is stripped. -/
def twoPackets : Vecs := ⟨4, 1, 2, true, by decide⟩

/-- Both packets are taken. -/
theorem writesStripped_iff_taken : twoPackets.WritesStripped (fun p => p) fun _ => 6 := by
  refine (writesStripped_iff fun _ => by decide).mpr fun k hk => ?_
  have hfirst : k = 0 := by
    change k * 1024 < 2 at hk
    omega
  rw [hfirst]
  decide

/-- **A short write.**  The kernel takes five of the six bytes, and `writev_write` returns
`count`. -/
theorem short_write_leaves_gap : ¬ ∀ (d : Vecs) (buffer : ℕ → ℕ) (rets : ℕ → ℤ),
    (∀ k, 0 ≤ rets k) → d.WritesStripped buffer rets := by
  intro h
  obtain ⟨io', hends, hstripped⟩ :=
    h twoPackets (fun p => p) (fun _ => 5) (fun _ => by decide) ⟨fun _ => none, 0, 0, 0⟩
  obtain ⟨-, rfl⟩ := Prod.mk.inj (hends.unique (ends_written fun _ => by decide))
  have hbyte := hstripped.holds 5 (by decide)
  revert hbyte
  decide

end Results

end Vecs

end VlbiStreamer.Recorder
