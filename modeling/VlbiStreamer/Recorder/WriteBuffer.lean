import VlbiStreamer.Recorder.Writers

/-!
# One attempt at writing a buffer

`write_buffer` gets a recording entity, runs the synchronous or the asynchronous
loop over the bytes of the buffer and lets the recorder go again.  Both loops
write a chunk at a time through `simple_write_bytes`, which takes the answer of
the back end apart; the asynchronous one also asks for completions.

An attempt is a function of its transcript: the calls of the recorder in order,
each with its answer.  `none` means that the code does not make these calls, and
an attempt whose calls have run out may still be waiting for the next one.

`writeBuffer_spec` is what an attempt is good for as long as no failed write is
answered with `EOF` and no failed completion with `AIO_END_OF_FILE`: a failure
makes it return `-1`, and it returns `0` only when the recorder took every byte.
`syncLoop_eof` is the rest: a write that fails with `EOF` ends the attempt as if
everything had been written.
-/

namespace VlbiStreamer.Recorder

/-- The options the recorder reads (`opt_s`).  `READMODE` is off: it records. -/
structure Opt where
  writend : Backend
  /-- `ASYNC_WRITE` -/
  asyncWrite : Bool
  /-- `WRITE_TO_SINGLE_FILE` -/
  writeToSingleFile : Bool
  /-- `status == STATUS_RUNNING` -/
  statusRunning : Bool
  /-- `HAVE_ASSERT` -/
  haveAssert : Bool
  packetSize : ℕ
  bufNumElems : ℕ
  doWStuffEvery : ℕ

/-- What the recorder changes of `simplebuf`; `bufoffset` counts from the start
of the buffer, and `recer` tells whether a recording entity is held. -/
structure Sbuf where
  diff : BitVec 64
  asyncdiff : BitVec 64
  bufoffset : ℤ
  recer : Bool
  running : Bool
  deriving DecidableEq

/-- A call of the recording entity and its answer. -/
inductive Call where
  | write (ret : ℤ)
  | check (ret : ℤ)
  deriving DecidableEq

/-- How `get_free` on the disk branch ends: no recorder, one whose `acquire`
failed, or one that is ready. -/
inductive Acquire where
  | noRecer
  | failed
  | got
  deriving DecidableEq

/-- Where an attempt is after its calls. -/
inductive Outcome where
  | returned (ret : ℤ) (s : Sbuf)
  | waiting (s : Sbuf)
  | aborted
  deriving DecidableEq

/-! ## Writing a chunk -/

/-- The write a chunk asks for: `count` bytes, of which `origcount` are data. -/
structure Request where
  count : BitVec 64
  origcount : BitVec 64

/-- `BLOCK_ALIGN` -/
def blockAlign : ℕ := 4096

/-- `WRITEND_USES_DIRECTIO` -/
def Backend.usesDirectio : Backend → Bool
  | .recAio | .recDef => true
  | _ => false

/-- The most `simple_write_bytes` writes in one go. -/
def writeLimit (o : Opt) : BitVec 64 :=
  BitVec.ofNat 64 (match o.writend with
    | .recWritev => o.doWStuffEvery / o.packetSize * o.packetSize
    | _ => o.doWStuffEvery)

/-- `simple_end_transaction` up to its write: the rest, filled up to whole
blocks.  `none` is the failed assertion. -/
def simpleEndTransaction (o : Opt) (s : Sbuf) : Option Request :=
  let extra := s.diff.toNat % blockAlign
  let wroteExtra := if extra = 0 then 0 else blockAlign - extra
  if o.haveAssert ∧ o.writeToSingleFile ∧ wroteExtra ≠ 0 ∧ o.statusRunning then none
  else some ⟨s.diff + BitVec.ofNat 64 wroteExtra, s.diff⟩

/-- `simple_write_bytes` up to its write.  A short chunk of a back end that
writes past the page cache is the end of the transaction. -/
def simpleWriteBytes (o : Opt) (s : Sbuf) : Option Request :=
  let limit := writeLimit o
  let count := if limit < s.diff then limit else s.diff
  if limit ≠ count ∧ o.writend.usesDirectio then simpleEndTransaction o s
  else some ⟨count, count⟩

/-- `simple_write_bytes` and `simple_end_transaction` from the answer on.
A negative answer other than `EOF` closes the recorder. -/
def writeAnswered (req : Request) (s : Sbuf) (ret : ℤ) : ℤ × Sbuf :=
  if ret = eof then (0, { s with diff := 0 })
  else if ret < 0 then (-1, { s with recer := false })
  else if ret = 0 then (0, s)
  else if BitVec.ofInt 64 ret ≠ req.count then
    (0, { s with
      diff := s.diff - BitVec.ofInt 64 ret
      bufoffset := s.bufoffset + ret })
  else
    (0, { s with
      diff := s.diff - req.origcount
      bufoffset := s.bufoffset + req.origcount.toNat })

/-- `sbuf_check` keeps the answer of `check` in an `int`. -/
def checkRet (ret : ℤ) : ℤ := (BitVec.ofInt 32 ret).toInt

/-- `sbuf_check` -/
def sbufCheck (s : Sbuf) (answer : ℤ) : ℤ × Sbuf :=
  let ret := checkRet answer
  if 0 < ret then (0, { s with asyncdiff := s.asyncdiff - BitVec.ofInt 64 ret })
  else if ret = aioEndOfFile then (0, { s with asyncdiff := 0 })
  else if ret = 0 then (0, s)
  else (-1, s)

/-! ## The two loops -/

/-- The outcome of an attempt that makes no further call. -/
def ended (rest : List Call) (out : Outcome) : Option Outcome :=
  if rest = [] then some out else none

/-- An attempt that stands before a chunk. -/
def atChunk (o : Opt) (s : Sbuf) : Outcome :=
  if (simpleWriteBytes o s).isSome then .waiting s else .aborted

/-- `sbuf_sync_loop` -/
def syncLoop (o : Opt) : List Call → Sbuf → Option Outcome
  | [], s => some (if s.diff = 0 then .returned 0 s else atChunk o s)
  | .write ret :: rest, s =>
      if s.diff = 0 then none
      else match simpleWriteBytes o s with
        | none => none
        | some req =>
            let (err, s') := writeAnswered req s ret
            if err = 0 then syncLoop o rest s' else ended rest (.returned (-1) s')
  | .check _ :: _, _ => none

/-- The loop of `sbuf_async_loop`; `due` tells that a chunk has been written and
its `sbuf_check` comes next. -/
def asyncLoop (o : Opt) : List Call → Bool → Sbuf → Option Outcome
  | [], due, s => some <|
      if due then .waiting s
      else if s.asyncdiff = 0 then .returned 0 s
      else if s.diff ≠ 0 then atChunk o s
      else if s.recer then .waiting s
      else .returned (-1) s
  | .write ret :: rest, due, s =>
      if due ∨ s.asyncdiff = 0 ∨ s.diff = 0 then none
      else match simpleWriteBytes o s with
        | none => none
        | some req =>
            let (err, s') := writeAnswered req s ret
            if err = 0 then asyncLoop o rest true s' else ended rest (.returned (-1) s')
  | .check ret :: rest, due, s =>
      if due ∨ s.asyncdiff ≠ 0 ∧ s.diff = 0 ∧ s.recer then
        let (err, s') := sbufCheck s ret
        if err = 0 then asyncLoop o rest false s' else ended rest (.returned (-1) s')
      else none

/-- The loop of `write_buffer` that does the writing. -/
def writeLoop (o : Opt) (calls : List Call) (s : Sbuf) : Option Outcome :=
  if o.asyncWrite then asyncLoop o calls false { s with asyncdiff := s.diff }
  else syncLoop o calls s

/-- `write_buffer` lets the recorder go, with `close_recer` when it failed. -/
def Outcome.release : Outcome → Outcome
  | .returned ret s => .returned (if ret ≠ 0 then -1 else ret) { s with recer := false }
  | out => out

/-- `write_buffer` -/
def writeBuffer (o : Opt) (s : Sbuf) (acq : Acquire) (calls : List Call) :
    Option Outcome :=
  if s.recer then (writeLoop o calls s).map Outcome.release
  else match acq with
    | .noRecer => ended calls (.returned (-1) { s with running := false })
    | .failed => ended calls (.returned (-1) s)
    | .got => (writeLoop o calls { s with recer := true }).map Outcome.release

/-! ## The bytes the recorder took -/

/-- The bytes of accepted writes. -/
def Call.accepted : Call → ℕ
  | .write ret => ret.toNat
  | .check _ => 0

/-- The bytes of writes reported complete. -/
def Call.completed : Call → ℕ
  | .write _ => 0
  | .check ret => (checkRet ret).toNat

/-- The bytes an attempt got rid of: an asynchronous recorder has taken what it
reports complete. -/
def bytesTaken (o : Opt) (calls : List Call) : ℕ :=
  (calls.map fun c => if o.asyncWrite then c.completed else c.accepted).sum

/-- A negative answer. -/
def Call.Failed : Call → Prop
  | .write ret => ret < 0
  | .check ret => ret < 0

/-- An answer that ends the attempt; `sbuf_check` looks at it as an `int`. -/
def Call.Rejected : Call → Prop
  | .write ret => ret < 0
  | .check ret => checkRet ret < 0

/-- The answer does not pass for something else: a write is not answered with
`EOF`, and what `check` answers is not `AIO_END_OF_FILE` as an `int` and, if
negative, stays so. -/
def Call.Told : Call → Prop
  | .write ret => ret ≠ eof
  | .check ret => checkRet ret ≠ aioEndOfFile ∧ (ret < 0 → checkRet ret < 0)

instance (c : Call) : Decidable c.Failed := by
  cases c <;> exact inferInstanceAs (Decidable (_ < _))

instance (c : Call) : Decidable c.Rejected := by
  cases c <;> exact inferInstanceAs (Decidable (_ < _))

instance (c : Call) : Decidable c.Told := by
  cases c
  · exact inferInstanceAs (Decidable (_ ≠ _))
  · exact inferInstanceAs (Decidable (_ ∧ _))

/-! ## One call -/

section OneCall

variable {o : Opt} {s : Sbuf} {req : Request} {ret : ℤ}

/-- Taking bytes off an `unsigned long` never takes off more than there are. -/
theorem toNat_le_sub_add (d x : BitVec 64) : d.toNat ≤ (d - x).toNat + x.toNat := by
  bv_omega

theorem toNat_ofInt_le (hret : 0 ≤ ret) : (BitVec.ofInt 64 ret).toNat ≤ ret.toNat := by
  rw [BitVec.toNat_ofInt]
  omega

/-- Filling up the last block only adds bytes, except that the last block of the
address space ends at zero. -/
theorem simpleEndTransaction_le (h : simpleEndTransaction o s = some req) :
    req.origcount.toNat ≤ req.count.toNat ∨ req.count.toNat = 0 := by
  simp only [simpleEndTransaction, Option.ite_none_left_eq_some, Option.some.injEq] at h
  obtain ⟨-, rfl⟩ := h
  have hlt := s.diff.isLt
  show s.diff.toNat ≤ BitVec.toNat (_ + _) ∨ BitVec.toNat (_ + _) = 0
  rw [BitVec.toNat_add, BitVec.toNat_ofNat]
  unfold blockAlign
  split <;> omega

/-- The data of a chunk are part of what is written. -/
theorem simpleWriteBytes_le (h : simpleWriteBytes o s = some req) :
    req.origcount.toNat ≤ req.count.toNat ∨ req.count.toNat = 0 := by
  simp only [simpleWriteBytes] at h
  generalize (if writeLimit o < s.diff then writeLimit o else s.diff) = count at h
  split at h
  · exact simpleEndTransaction_le h
  · obtain rfl := Option.some.inj h
    exact Or.inl le_rfl

/-- The aligned tail. -/
theorem simpleEndTransaction_parts (h : simpleEndTransaction o s = some req)
    (hpos : 0 < req.count.toNat) :
    req.origcount = s.diff ∧ s.diff.toNat ≤ req.count.toNat ∧
      req.count.toNat < s.diff.toNat + blockAlign ∧ req.count.toNat % blockAlign = 0 := by
  simp only [simpleEndTransaction, Option.ite_none_left_eq_some, Option.some.injEq] at h
  obtain ⟨-, rfl⟩ := h
  have hlt := s.diff.isLt
  refine ⟨rfl, ?_⟩
  change 0 < BitVec.toNat (_ + BitVec.ofNat 64 _) at hpos
  show _ ≤ BitVec.toNat (_ + BitVec.ofNat 64 _) ∧ BitVec.toNat (_ + BitVec.ofNat 64 _) < _ ∧
    BitVec.toNat (_ + BitVec.ofNat 64 _) % _ = 0
  generalize hextra : (if s.diff.toNat % blockAlign = 0 then 0
    else blockAlign - s.diff.toNat % blockAlign) = extra at hpos ⊢
  have hfill : extra < blockAlign ∧ (s.diff.toNat + extra) % blockAlign = 0 := by
    unfold blockAlign at hextra ⊢
    split at hextra <;> omega
  rw [BitVec.toNat_add, BitVec.toNat_ofNat, Nat.add_mod_mod] at hpos ⊢
  -- a tail that fills the address space has no bytes to write
  unfold blockAlign at hfill ⊢
  omega

/-- A chunk is a part of what is left, or the tail of it with its padding. -/
theorem simpleWriteBytes_parts (h : simpleWriteBytes o s = some req)
    (hpos : 0 < req.count.toNat) :
    req.count = req.origcount ∧ req.count.toNat ≤ s.diff.toNat ∨
      req.origcount = s.diff ∧ s.diff.toNat ≤ req.count.toNat ∧
        req.count.toNat < s.diff.toNat + blockAlign := by
  simp only [simpleWriteBytes] at h
  generalize hcount : (if writeLimit o < s.diff then writeLimit o else s.diff) = count at h
  split at h
  · obtain ⟨horig, hle, hlt, -⟩ := simpleEndTransaction_parts h hpos
    exact Or.inr ⟨horig, hle, hlt⟩
  · obtain rfl := Option.some.inj h
    refine Or.inl ⟨rfl, ?_⟩
    show count.toNat ≤ _
    rw [← hcount]
    split
    next hlimit => exact Nat.le_of_lt hlimit
    next => exact le_rfl

/-- A chunk that is not answered with `EOF`. -/
theorem writeAnswered_spec (h : simpleWriteBytes o s = some req) (hret : ret ≠ eof) :
    ((writeAnswered req s ret).1 = 0 ↔ 0 ≤ ret) ∧
    ((writeAnswered req s ret).1 = 0 → (writeAnswered req s ret).2.recer = s.recer) ∧
    (writeAnswered req s ret).2.asyncdiff = s.asyncdiff ∧
    s.diff.toNat ≤ (writeAnswered req s ret).2.diff.toNat + ret.toNat := by
  unfold writeAnswered
  rw [if_neg hret]
  by_cases hneg : ret < 0
  · rw [if_pos hneg]
    exact ⟨by simpa using hneg, by simp, rfl, Nat.le_add_right _ _⟩
  rw [if_neg hneg]
  have hnonneg : 0 ≤ ret := not_lt.mp hneg
  by_cases hzero : ret = 0
  · rw [if_pos hzero]
    exact ⟨iff_of_true rfl hnonneg, fun _ => rfl, rfl, Nat.le_add_right _ _⟩
  rw [if_neg hzero]
  by_cases hcount : BitVec.ofInt 64 ret ≠ req.count
  · rw [if_pos hcount]
    refine ⟨iff_of_true rfl hnonneg, fun _ => rfl, rfl, ?_⟩
    have hsub := toNat_le_sub_add s.diff (BitVec.ofInt 64 ret)
    have hofInt : (BitVec.ofInt 64 ret).toNat ≤ ret.toNat := toNat_ofInt_le (by omega)
    show _ ≤ (s.diff - BitVec.ofInt 64 ret).toNat + _
    omega
  · rw [if_neg hcount]
    refine ⟨iff_of_true rfl hnonneg, fun _ => rfl, rfl, ?_⟩
    have hsub := toNat_le_sub_add s.diff req.origcount
    have heq : (BitVec.ofInt 64 ret).toNat = req.count.toNat :=
      congrArg BitVec.toNat (not_not.mp hcount)
    rw [BitVec.toNat_ofInt] at heq
    show _ ≤ (s.diff - req.origcount).toNat + _
    have horig : req.origcount.toNat ≤ ret.toNat := by
      rcases simpleWriteBytes_le h with hle | hwrap
      · omega
      · -- the answer is then a multiple of `2 ^ 64` and larger than any count
        have hlt := req.origcount.isLt
        omega
    omega

/-- A check whose answer is not taken for something else. -/
theorem sbufCheck_spec (hret : (Call.check ret).Told) :
    ((sbufCheck s ret).1 = 0 ↔ 0 ≤ checkRet ret) ∧
    (sbufCheck s ret).2.recer = s.recer ∧
    s.asyncdiff.toNat ≤ (sbufCheck s ret).2.asyncdiff.toNat + (checkRet ret).toNat := by
  obtain ⟨heof, -⟩ := hret
  by_cases hpos : 0 < checkRet ret
  · simp only [sbufCheck, if_pos hpos]
    refine ⟨iff_of_true trivial hpos.le, trivial, ?_⟩
    have hsub := toNat_le_sub_add s.asyncdiff (BitVec.ofInt 64 (checkRet ret))
    have hofInt := toNat_ofInt_le hpos.le
    omega
  by_cases hzero : checkRet ret = 0
  · simp only [sbufCheck, if_neg hpos, if_neg heof, if_pos hzero]
    exact ⟨iff_of_true trivial hzero.ge, trivial, Nat.le_add_right _ _⟩
  · simp only [sbufCheck, if_neg hpos, if_neg heof, if_neg hzero]
    exact ⟨iff_of_false (by simp) (by omega), trivial, Nat.le_add_right _ _⟩

end OneCall

/-! ## A whole attempt -/

/-- What an attempt to write `size` bytes is good for. -/
structure Outcome.Honest (excuse : Prop) (size taken : ℕ) (calls : List Call)
    (out : Outcome) : Prop where
  /-- A negative answer makes it return `-1`. -/
  failed : (∃ c ∈ calls, c.Failed) → ∃ s', out = .returned (-1) s'
  /-- It returns zero only when every byte was taken. -/
  took : ∀ s', out = .returned 0 s' → size ≤ taken
  /-- It gives up only with an excuse or after an answer that makes it. -/
  gaveUp : ∀ ret s', out = .returned ret s' → ret ≠ 0 →
    excuse ∨ ∃ c ∈ calls, c.Rejected

section Attempt

variable {o : Opt} {s : Sbuf} {calls rest : List Call} {c : Call} {out : Outcome}
  {excuse : Prop} {size taken : ℕ}

/-- An attempt that gives up. -/
theorem Outcome.Honest.giveUp {s' : Sbuf} (h : excuse ∨ ∃ c ∈ calls, c.Rejected) :
    (Outcome.returned (-1) s').Honest excuse size taken calls :=
  ⟨fun _ => ⟨s', rfl⟩, fun _ hout => by simp at hout, fun _ _ _ _ => h⟩

/-- An attempt that makes no call and does not return. -/
theorem Outcome.Honest.open (h : ∀ ret s', out ≠ .returned ret s') :
    out.Honest excuse size taken [] :=
  ⟨fun ⟨_, hc, _⟩ => by simp at hc, fun s' hout => absurd hout (h 0 s'),
    fun ret s' hout => absurd hout (h ret s')⟩

/-- An attempt with nothing to write. -/
theorem Outcome.Honest.done {s' : Sbuf} (hsize : size = 0) :
    (Outcome.returned 0 s').Honest excuse size taken [] :=
  ⟨fun ⟨_, hc, _⟩ => by simp at hc, fun _ _ => hsize ▸ Nat.zero_le _,
    fun ret _ hout hret => by
      simp only [Outcome.returned.injEq] at hout
      exact absurd hout.1.symm hret⟩

/-- A call that did not fail leaves the rest of the attempt to decide. -/
theorem Outcome.Honest.cons {size' taken' : ℕ} (hc : ¬ c.Failed)
    (hsize : size ≤ size' + taken') (h : out.Honest excuse size' taken rest) :
    out.Honest excuse size (taken' + taken) (c :: rest) where
  failed := by
    rintro ⟨c', hmem, hfail⟩
    rcases List.mem_cons.mp hmem with rfl | hrest
    · exact absurd hfail hc
    · exact h.failed ⟨c', hrest, hfail⟩
  took s' hout := by
    have := h.took s' hout
    omega
  gaveUp ret s' hout hret := by
    refine (h.gaveUp ret s' hout hret).imp_right ?_
    rintro ⟨c', hmem, hrej⟩
    exact ⟨c', List.mem_cons_of_mem _ hmem, hrej⟩

theorem atChunk_ne (ret : ℤ) (s' : Sbuf) : atChunk o s ≠ .returned ret s' := by
  unfold atChunk
  split <;> simp

theorem ended_eq (h : ended rest out = some s') : rest = [] ∧ s' = out := by
  unfold ended at h
  split at h
  · exact ⟨‹_›, (Option.some.inj h).symm⟩
  · cases h

/-- **The synchronous loop.**  By induction on the calls; the invariant is that
the bytes left and the bytes accepted make up at least the size. -/
theorem syncLoop_spec (h : syncLoop o calls s = some out) (ht : ∀ c ∈ calls, c.Told) :
    out.Honest excuse s.diff.toNat (calls.map Call.accepted).sum calls := by
  induction calls generalizing s with
  | nil =>
      obtain rfl := Option.some.inj h
      split
      · exact .done (by rw [‹s.diff = 0›]; rfl)
      · exact .open atChunk_ne
  | cons c rest ih =>
      have htrest : ∀ c ∈ rest, c.Told := fun c hc => ht c (by simp [hc])
      cases c with
      | check ret => cases h
      | write ret =>
          simp only [syncLoop] at h
          split at h
          · cases h
          split at h
          · cases h
          next req hreq =>
            obtain ⟨hzero, -, -, hdiff⟩ :=
              writeAnswered_spec (s := s) hreq (ht (.write ret) (by simp))
            split at h
            next herr => exact .cons (not_lt.mpr (hzero.mp herr)) hdiff (ih h htrest)
            next herr =>
              obtain ⟨-, rfl⟩ := ended_eq h
              exact .giveUp (Or.inr ⟨_, List.mem_cons_self, not_le.mp (mt hzero.mpr herr)⟩)

/-- **The asynchronous loop.**  The same induction; the bytes left are those
whose completion has not been reported. -/
theorem asyncLoop_spec {due : Bool} (h : asyncLoop o calls due s = some out)
    (hrecer : s.recer = true) (ht : ∀ c ∈ calls, c.Told) :
    out.Honest excuse s.asyncdiff.toNat (calls.map Call.completed).sum calls := by
  induction calls generalizing s due with
  | nil =>
      obtain rfl := Option.some.inj h
      split
      · exact .open fun ret s' => by simp
      split
      · exact .done (by rw [‹s.asyncdiff = 0›]; rfl)
      split
      · exact .open atChunk_ne
      exact .open fun ret s' => by simp
  | cons c rest ih =>
      have htold : c.Told := ht c (by simp)
      have htrest : ∀ c ∈ rest, c.Told := fun c hc => ht c (by simp [hc])
      cases c with
      | write ret =>
          simp only [asyncLoop] at h
          split at h
          · cases h
          split at h
          · cases h
          next req hreq =>
            obtain ⟨hzero, hkeeps, hasync, -⟩ := writeAnswered_spec (s := s) hreq htold
            split at h
            next herr =>
              refine .cons (not_lt.mpr (hzero.mp herr)) ?_ (ih h ?_ htrest)
              · exact (congrArg BitVec.toNat hasync).ge
              · rw [hkeeps herr, hrecer]
            next herr =>
              obtain ⟨-, rfl⟩ := ended_eq h
              exact .giveUp (Or.inr ⟨_, List.mem_cons_self, not_le.mp (mt hzero.mpr herr)⟩)
      | check ret =>
          simp only [asyncLoop] at h
          split at h
          · obtain ⟨hzero, hkeeps, hdiff⟩ := sbufCheck_spec (s := s) htold
            split at h
            next herr =>
              refine .cons (fun hneg => ?_) hdiff (ih h (by rw [hkeeps, hrecer]) htrest)
              exact absurd (hzero.mp herr) (not_le.mpr (htold.2 hneg))
            next herr =>
              obtain ⟨-, rfl⟩ := ended_eq h
              exact .giveUp (Or.inr ⟨_, List.mem_cons_self, not_le.mp (mt hzero.mpr herr)⟩)
          · cases h

theorem writeLoop_spec (h : writeLoop o calls s = some out) (hrecer : s.recer = true)
    (ht : ∀ c ∈ calls, c.Told) :
    out.Honest excuse s.diff.toNat (bytesTaken o calls) calls := by
  unfold writeLoop at h
  unfold bytesTaken
  by_cases hasync : o.asyncWrite = true
  · rw [if_pos hasync] at h
    simp only [if_pos hasync]
    exact asyncLoop_spec h hrecer ht
  · rw [if_neg hasync] at h
    simp only [if_neg hasync]
    exact syncLoop_spec h ht

theorem Outcome.Honest.release (h : out.Honest excuse size taken calls) :
    out.release.Honest excuse size taken calls where
  failed hc := by
    obtain ⟨s', rfl⟩ := h.failed hc
    exact ⟨_, rfl⟩
  took s' hout := by
    cases out with
    | returned ret s'' =>
        by_cases hret : ret = 0
        · exact h.took s'' (by rw [hret])
        · simp [Outcome.release, hret] at hout
    | waiting s'' => cases hout
    | aborted => cases hout
  gaveUp ret s' hout hret := by
    cases out with
    | returned ret' s'' =>
        refine h.gaveUp ret' s'' rfl fun hzero => hret ?_
        simp only [Outcome.release, hzero, ne_eq, not_true_eq_false, ↓reduceIte,
          Outcome.returned.injEq] at hout
        exact hout.1.symm
    | waiting s'' => cases hout
    | aborted => cases hout

/-- **An attempt reports its failures.**  When no answer passes for something
else, `write_buffer` returns `-1` after a negative one, and `0` only when the
recorder took every byte. -/
theorem writeBuffer_spec {acq : Acquire} (h : writeBuffer o s acq calls = some out)
    (ht : ∀ c ∈ calls, c.Told) :
    out.Honest (acq ≠ .got) s.diff.toNat (bytesTaken o calls) calls := by
  unfold writeBuffer at h
  split at h
  next hrecer =>
    obtain ⟨out', hout, rfl⟩ := Option.map_eq_some_iff.mp h
    exact (writeLoop_spec hout hrecer ht).release
  · cases acq with
    | noRecer =>
        obtain ⟨-, rfl⟩ := ended_eq h
        exact .giveUp (Or.inl (by decide))
    | failed =>
        obtain ⟨-, rfl⟩ := ended_eq h
        exact .giveUp (Or.inl (by decide))
    | got =>
        obtain ⟨out', hout, rfl⟩ := Option.map_eq_some_iff.mp h
        exact (writeLoop_spec (s := { s with recer := true }) hout rfl ht).release

/-- **A write that fails with `EOF` passes for success.**  Whatever the recorder
took before, the synchronous loop drops the rest and returns `0`. -/
theorem syncLoop_eof {s' : Sbuf} (h : syncLoop o calls s = some (.waiting s')) :
    syncLoop o (calls ++ [.write eof]) s = some (.returned 0 { s' with diff := 0 }) := by
  induction calls generalizing s with
  | nil =>
      have hwaits : ∃ req, s.diff ≠ 0 ∧ simpleWriteBytes o s = some req ∧ s' = s := by
        simp only [syncLoop, atChunk] at h
        split at h
        · simp at h
        split at h
        · obtain ⟨req, hreq⟩ := Option.isSome_iff_exists.mp ‹_›
          simp only [Option.some.injEq, Outcome.waiting.injEq] at h
          exact ⟨req, ‹_›, hreq, h.symm⟩
        · simp at h
      obtain ⟨req, hdiff, hreq, rfl⟩ := hwaits
      rw [List.nil_append, syncLoop, if_neg hdiff]
      simp [hreq, writeAnswered, syncLoop]
  | cons c rest ih =>
      cases c with
      | check ret => cases h
      | write ret =>
          simp only [List.cons_append, syncLoop] at h ⊢
          split at h
          · cases h
          rw [if_neg ‹_›]
          split at h
          · cases h
          next req hreq =>
            split at h
            · rw [if_pos ‹_›]
              exact ih h
            · exact absurd (ended_eq h).2 (by simp)

end Attempt

end VlbiStreamer.Recorder
