import Mathlib.Algebra.Order.Ring.Int

/-!
# The writer back ends

A recording entity writes one chunk of a buffer with its `write` and, when it
works asynchronously, reports on earlier chunks with its `check`.  The five back
ends loop over different system calls but answer in one convention: a positive
number of bytes, zero, or a negative number.

Each back end is a function of the results its system calls give, in order;
`none` means that it is still at work when the results run out.

`Backend.write_neg` is what the rest of the recorder has to live with: every
back end reports a failed write as `-1`, and `-1` is `EOF`, the same number with
which `def_write` reports the end of a file it reads.
-/

namespace VlbiStreamer.Recorder

/-- `EOF` of stdio. -/
def eof : ℤ := -1

/-- `AIO_END_OF_FILE` -/
def aioEndOfFile : ℤ := -323

/-- `IOV_MAX` -/
def iovMax : ℕ := 1024

/-- `MAX_EVENTS` -/
def maxEvents : ℕ := 128

/-- The `REC_*` bits of the options. -/
inductive Backend where
  | recDef
  | recWritev
  | recSplicer
  | recSendfile
  | recAio
  deriving DecidableEq, Repr

/-! ## The five loops -/

/-- The loop of `def_write`: `downcount` bytes to go, `totalW` written. -/
def defLoop (readMode : Bool) : List ℤ → ℕ → ℤ → Option ℤ
  | [], downcount, totalW => if downcount = 0 then some totalW else none
  | ret :: rest, downcount, totalW =>
      if downcount = 0 then some totalW
      else if ret ≤ 0 then
        if ret = 0 ∧ readMode then some eof else some ret
      else defLoop readMode rest (downcount - ret.toNat) (totalW + ret)

/-- `def_write`: `read` or `write` until everything is done. -/
def defWrite (readMode fdSet : Bool) (count : ℕ) (calls : List ℤ) : Option ℤ :=
  if fdSet then defLoop readMode calls count 0 else some (-1)

/-- The loop of `writev_write`: batches of at most `IOV_MAX` packets, of which
`totalI` are done.  `false` is a failed `pwritev`. -/
def writevLoop (nVecs : ℕ) : List ℤ → ℕ → Option Bool
  | [], totalI => if nVecs ≤ totalI then some true else none
  | err :: rest, totalI =>
      if nVecs ≤ totalI then some true
      else if err < 0 then some false
      else writevLoop nVecs rest (totalI + min iovMax (nVecs - totalI))

/-- `writev_write`; a short `pwritev` is only logged. -/
def writevWrite (readMode fdSet : Bool) (packetSize count : ℕ) (calls : List ℤ) :
    Option ℤ :=
  if readMode then defWrite readMode fdSet count calls
  else (writevLoop (count / packetSize) calls 0).map fun done =>
    if done then (count : ℤ) else -1

/-- The loop of `splice_write`: whether the partner thread is alive at the test,
and what `vmsplice` returns.  The result is the last `ret` and `total_w`. -/
def spliceLoop : List (Bool × ℤ) → ℤ → ℤ → ℤ → Option (ℤ × ℤ)
  | [], trycount, ret, totalW => if trycount ≤ 0 then some (ret, totalW) else none
  | (alive, r) :: rest, trycount, ret, totalW =>
      if trycount ≤ 0 ∨ alive = false then some (ret, totalW)
      else if r ≤ 0 then some (r, totalW)
      else spliceLoop rest (trycount - r) r (totalW + r)

/-- `splice_write`: `partnerRuns` at the start and `partnerError` after the job. -/
def spliceWrite (partnerRuns partnerError : Bool) (count : ℕ) (calls : List (Bool × ℤ)) :
    Option ℤ :=
  if partnerRuns then
    (spliceLoop calls count 0 0).map fun out =>
      if out.1 < 0 ∨ partnerError then -1 else out.2
  else some (-1)

/-- The loop of `sendfile_write`. -/
def sendfileLoop : List ℤ → ℤ → ℤ → Option ℤ
  | [], tosend, totalW => if tosend ≤ 0 then some totalW else none
  | ret :: rest, tosend, totalW =>
      if tosend ≤ 0 then some totalW
      else if ret < 0 then some (-1)
      else sendfileLoop rest (tosend - ret) (totalW + ret)

/-- `sendfile_write` -/
def sendfileWrite (count : ℕ) (calls : List ℤ) : Option ℤ := sendfileLoop calls count 0

/-- `aiow_write`: no room for a request is zero. -/
def aiowWrite (usedEvents count : ℕ) (submit : ℤ) : ℤ :=
  if usedEvents < maxEvents then
    if submit < 0 then -1 else count
  else 0

/-- `aiow_check`: what `io_getevents` returns, the `res` of its event and `errno`. -/
def aiowCheck (getevents res errno : ℤ) : ℤ :=
  if 0 < getevents then
    if 0 < res then res
    else if errno = 0 ∧ res = 0 then aioEndOfFile
    else -1
  else getevents

/-! ## What they answer -/

section Answers

variable {count : ℕ} {r : ℤ}

theorem defLoop_neg {calls : List ℤ} {down : ℕ} {total : ℤ}
    (hcalls : ∀ ret ∈ calls, -1 ≤ ret) (htotal : 0 ≤ total)
    (h : defLoop false calls down total = some r) (hr : r < 0) : r = eof := by
  induction calls generalizing down total with
  | nil =>
      unfold defLoop at h
      split at h <;> simp at h
      omega
  | cons ret rest ih =>
      have hret : -1 ≤ ret := hcalls ret (by simp)
      unfold defLoop at h
      split at h
      · simp at h
        omega
      · split at h
        · simp at h
          unfold eof
          omega
        · exact ih (fun x hx => hcalls x (by simp [hx])) (by omega) h

theorem spliceLoop_total {calls : List (Bool × ℤ)} {try' ret total : ℤ} {out : ℤ × ℤ}
    (htotal : 0 ≤ total) (h : spliceLoop calls try' ret total = some out) : 0 ≤ out.2 := by
  induction calls generalizing try' ret total with
  | nil =>
      unfold spliceLoop at h
      split at h <;> simp at h
      rw [← h]
      exact htotal
  | cons c rest ih =>
      obtain ⟨alive, r⟩ := c
      unfold spliceLoop at h
      split at h
      · rw [← Option.some.inj h]
        exact htotal
      · split at h
        · rw [← Option.some.inj h]
          exact htotal
        · exact ih (by omega) h

theorem sendfileLoop_neg {calls : List ℤ} {tosend total : ℤ} (htotal : 0 ≤ total)
    (h : sendfileLoop calls tosend total = some r) (hr : r < 0) : r = eof := by
  induction calls generalizing tosend total with
  | nil =>
      unfold sendfileLoop at h
      split at h <;> simp at h
      omega
  | cons ret rest ih =>
      unfold sendfileLoop at h
      split at h
      · simp at h
        omega
      · split at h
        · exact (Option.some.inj h).symm
        · exact ih (by omega) h

/-- What `write` of a back end can answer while it records a chunk of `count`
bytes.  `write(2)` returns `-1` when it fails, which only `def_write` passes on. -/
inductive Backend.Answers (packetSize count : ℕ) : Backend → ℤ → Prop where
  | recDef {fdSet : Bool} {calls : List ℤ} {r : ℤ} (hcalls : ∀ ret ∈ calls, -1 ≤ ret) :
      defWrite false fdSet count calls = some r → Answers packetSize count recDef r
  | recWritev {fdSet : Bool} {calls : List ℤ} {r : ℤ} :
      writevWrite false fdSet packetSize count calls = some r →
      Answers packetSize count recWritev r
  | recSplicer {runs err : Bool} {calls : List (Bool × ℤ)} {r : ℤ} :
      spliceWrite runs err count calls = some r → Answers packetSize count recSplicer r
  | recSendfile {calls : List ℤ} {r : ℤ} :
      sendfileWrite count calls = some r → Answers packetSize count recSendfile r
  | recAio {usedEvents : ℕ} {submit : ℤ} :
      Answers packetSize count recAio (aiowWrite usedEvents count submit)

/-- **A failed write is an end of file.**  The only negative answer of any back
end is `-1`. -/
theorem Backend.write_neg {b : Backend} {packetSize : ℕ}
    (h : b.Answers packetSize count r) (hr : r < 0) : r = eof := by
  cases h with
  | recDef hcalls h =>
      unfold defWrite at h
      split at h
      · exact defLoop_neg hcalls le_rfl h hr
      · exact (Option.some.inj h).symm
  | recWritev h =>
      simp only [writevWrite, Bool.false_eq_true, ↓reduceIte, Option.map_eq_some_iff] at h
      obtain ⟨done, -, rfl⟩ := h
      cases done with
      | false => rfl
      | true => simp at hr; omega
  | recSplicer h =>
      unfold spliceWrite at h
      split at h
      · obtain ⟨out, hout, rfl⟩ := Option.map_eq_some_iff.mp h
        split at hr
        · rw [if_pos ‹_›]
          rfl
        · have := spliceLoop_total le_rfl hout
          omega
      · exact (Option.some.inj h).symm
  | recSendfile h => exact sendfileLoop_neg le_rfl h hr
  | recAio =>
      unfold aiowWrite at hr ⊢
      split at hr
      · split at hr
        · rw [if_pos ‹_›, if_pos ‹_›]
          rfl
        · omega
      · omega

end Answers

end VlbiStreamer.Recorder
