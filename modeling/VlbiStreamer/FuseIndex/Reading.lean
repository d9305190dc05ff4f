import VlbiStreamer.Library.Memory
import VlbiStreamer.Receiver.Headers

/-!
# Reading a recording through the file system

`vbs_read` works out which files a request goes over, starts a thread for each of them,
and returns before it has looked at what the threads have read.  Each thread runs
`do_operation`: a child process splices the file into a pipe, and the pipe is spliced into
the buffer until there is no more.

* `vbsRead` is the function after it has found the slot of the recording, with the
  operations it starts and the cells of `fileid` it looks at.
* `Vmsplice` is the loop of `do_operation` when nothing is stripped, with any partial
  results; `Vmsplice.eq` says what it comes to.
-/

namespace VlbiStreamer.FuseIndex

open Library Receiver

/-- The fields of `struct file_index` that a read uses. -/
structure DataIndex where
  packetSize : ℕ
  filesize : ℕ
  nPackets : ℕ
  /-- The drive of a file; `-1` if it is on none. -/
  fileid : ℕ → ℤ

/-- `struct read_operator` -/
structure ReadOperator where
  /-- The drive and the number in the name that `FORM_FILEPATH` makes. -/
  drive : ℤ
  filenum : ℕ
  buf : Ptr
  offset : ℤ
  size : ℕ

/-- What `vbs_read` does if every thread finishes without error. -/
structure Reading where
  retval : ℤ
  operators : List ReadOperator
  /-- The cells of `fileid` it looks at. -/
  cells : List ℕ

/-! ## The function -/

section VbsRead

variable (fi : DataIndex) (strip : ℕ)

/-- `convert_from_woffset_to_truelength`; `strip` is `vbs_data->offset`. -/
def convertFromWoffsetToTruelength (amount : ℤ) : ℤ :=
  let remainder := amount.tmod (fi.packetSize - strip)
  let truelength := amount.tdiv (fi.packetSize - strip) * fi.packetSize
  if remainder > 0 then truelength + strip + remainder else truelength

/-- `convert_from_truelength_to_woffset` -/
def convertFromTruelengthToWoffset (amount : ℤ) : ℤ :=
  amount.tdiv fi.packetSize * (fi.packetSize - strip)

/-- `effective_filesize` -/
def effectiveFilesize : ℕ :=
  if strip > 0 then ulong (convertFromTruelengthToWoffset fi strip fi.filesize) else fi.filesize

/-- `n_files_open` -/
def nFilesOpen (size partialOff : ℕ) : ℤ :=
  let effective := effectiveFilesize fi strip
  let n := int (size / effective : ℕ)
  let n := if ulong (effective - partialOff) < ulong (size - n * effective) then int (n + 1) else n
  int (n + 1)

/-- The loop that starts the threads. -/
def readLoop : ℕ → ℕ → Ptr → ℕ → ℕ → List ReadOperator
  | 0, _, _, _, _ => []
  | n + 1, filenum, bufstart, size, partialOff =>
      if fi.fileid filenum = -1 then readLoop n (filenum + 1) bufstart size partialOff
      else
        let offset := if strip > 0 then convertFromWoffsetToTruelength fi strip partialOff
          else partialOff
        let effective := effectiveFilesize fi strip
        let amount : ℤ := if ulong (partialOff + size) > effective then
            long (effective - partialOff)
          else long size
        let amount := if strip > 0 then convertFromWoffsetToTruelength fi strip amount else amount
        ⟨fi.fileid filenum, filenum, bufstart, offset, ulong amount⟩ ::
          readLoop n (filenum + 1) (bufstart.add amount) (ulong (size - amount)) 0

/-- `vbs_read`, once the slot of the recording is found; `none` is a division by zero or
an array of threads without a size. -/
def vbsRead (buf : Ptr) (size offset : ℕ) : Option Reading :=
  let sizeOfRec := long (fi.nPackets * (fi.packetSize - strip))
  if offset ≥ sizeOfRec then some ⟨-22, [], []⟩
  else
    let past := long (offset + long size) ≥ sizeOfRec
    let retval := if past then -1 else int size
    let size := if past then ulong (sizeOfRec - offset) else size
    let effective := effectiveFilesize fi strip
    let filenum := offset / effective
    let partialOff := offset % effective
    let n := nFilesOpen fi strip size partialOff
    if effective = 0 ∨ n ≤ 0 then none
    else some ⟨retval, readLoop fi strip n.toNat filenum buf size partialOff,
      List.range' filenum n.toNat⟩

end VbsRead

/-! ## The threads -/

/-- A file on a drive. -/
structure DataFile where
  length : ℕ
  bytes : Bytes

/-- The loop of `do_operation` around a `vmsplice` into `buf`, with `avail` bytes that are
still to come out of the pipe. -/
inductive Vmsplice : ℕ → ℕ → Bytes → Memory → Ptr → Memory → Prop where
  /-- `count` is down to zero. -/
  | done {avail : ℕ} {bytes : Bytes} {m : Memory} {buf : Ptr} : Vmsplice 0 avail bytes m buf m
  /-- The pipe is closed and empty. -/
  | drained {count : ℕ} {bytes : Bytes} {m : Memory} {buf : Ptr} : Vmsplice count 0 bytes m buf m
  /-- Some of the bytes come. -/
  | piece {count avail r : ℕ} {bytes : Bytes} {m m' : Memory} {buf : Ptr} (hpos : 0 < r)
      (hcount : r ≤ count) (havail : r ≤ avail)
      (h : Vmsplice (count - r) (avail - r) (fun x => bytes (r + x)) (m.write buf r bytes)
        (buf.add r) m') : Vmsplice count avail bytes m buf m'

/-- `do_operation` when nothing is stripped: the child puts `size` bytes into the pipe, or
as many as the file has. -/
def DoOperation (disk : ℤ → ℕ → DataFile) (ro : ReadOperator) (m m' : Memory) : Prop :=
  let file := disk ro.drive ro.filenum
  Vmsplice ro.size (min ro.size (file.length - ro.offset.toNat))
    (fun x => file.bytes (ro.offset.toNat + x)) m ro.buf m'

/-- The threads, each with a part of the buffer of its own. -/
inductive Threads (disk : ℤ → ℕ → DataFile) : List ReadOperator → Memory → Memory → Prop where
  | nil {m : Memory} : Threads disk [] m m
  | cons {ro : ReadOperator} {rest : List ReadOperator} {m m' m'' : Memory}
      (h : DoOperation disk ro m m') (hrest : Threads disk rest m' m'') :
      Threads disk (ro :: rest) m m''

section Threads

variable {disk : ℤ → ℕ → DataFile} {count avail : ℕ} {bytes : Bytes} {m m' : Memory} {buf : Ptr}
  {ro : ReadOperator} {ros : List ReadOperator}

theorem write_zero : m.write buf 0 bytes = m := by
  funext b x
  exact if_neg (by omega)

/-- Two writes in a row. -/
theorem write_write {r n : ℕ} (hr : r ≤ n) :
    (m.write buf r bytes).write (buf.add r) (n - r) (fun x => bytes (r + x)) =
      m.write buf n bytes := by
  funext b x
  have hoff : (buf.add r).off = buf.off + r := rfl
  have hblock : (buf.add r).block = buf.block := rfl
  show (if _ then _ else if _ then _ else _) = if _ then _ else _
  by_cases hlater : b = (buf.add r).block ∧ (buf.add r).off ≤ x ∧ x < (buf.add r).off + (n - r : ℕ)
  · rw [if_pos hlater, if_pos (by omega)]
    show bytes (r + _) = bytes _
    congr 1
    omega
  · rw [if_neg hlater]
    exact if_congr (by omega) rfl rfl

/-- Whatever the partial results, as many bytes are read as there are. -/
theorem Vmsplice.eq (h : Vmsplice count avail bytes m buf m') :
    m' = m.write buf (min count avail) bytes := by
  induction h with
  | done => rw [Nat.zero_min, write_zero]
  | drained => rw [Nat.min_zero, write_zero]
  | piece hpos hcount havail h ih =>
      rw [ih, Nat.sub_min_sub_right]
      exact write_write (le_min hcount havail)

/-- There are partial results: all at once. -/
theorem Vmsplice.total (count avail : ℕ) (bytes : Bytes) (m : Memory) (buf : Ptr) :
    ∃ m', Vmsplice count avail bytes m buf m' := by
  rcases Nat.eq_zero_or_pos count with rfl | hcount
  · exact ⟨m, .done⟩
  rcases Nat.eq_zero_or_pos avail with rfl | havail
  · exact ⟨m, .drained⟩
  have hrest : Vmsplice (count - min count avail) (avail - min count avail)
      (fun x => bytes (min count avail + x)) (m.write buf (min count avail) bytes)
      (buf.add (min count avail : ℕ)) (m.write buf (min count avail) bytes) := by
    have hzero : count - min count avail = 0 ∨ avail - min count avail = 0 := by omega
    rcases hzero with hzero | hzero <;> rw [hzero]
    · exact .done
    · exact .drained
  exact ⟨_, .piece (lt_min hcount havail) (min_le_left _ _) (min_le_right _ _) hrest⟩

/-- What a thread reads. -/
def transfer (disk : ℤ → ℕ → DataFile) (m : Memory) (ro : ReadOperator) : Memory :=
  let file := disk ro.drive ro.filenum
  m.write ro.buf (min ro.size (file.length - ro.offset.toNat))
    (fun x => file.bytes (ro.offset.toNat + x))

theorem threads_iff : Threads disk ros m m' ↔ m' = ros.foldl (transfer disk) m := by
  have hone : ∀ {ro m m'}, DoOperation disk ro m m' → m' = transfer disk m ro := by
    intro ro m m' h
    have heq := Vmsplice.eq h
    rwa [← min_assoc, min_self] at heq
  constructor
  · intro h
    induction h with
    | nil => rfl
    | cons h _ ih => rw [ih, List.foldl_cons, hone h]
  · rintro rfl
    induction ros generalizing m with
    | nil => exact .nil
    | cons ro rest ih =>
        obtain ⟨m', h⟩ := Vmsplice.total ro.size _ _ m ro.buf
        have hro : DoOperation disk ro m m' := h
        rw [List.foldl_cons, ← hone hro]
        exact .cons hro ih

end Threads

end VlbiStreamer.FuseIndex
