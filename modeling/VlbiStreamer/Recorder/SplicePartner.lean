import VlbiStreamer.Library.Memory
import VlbiStreamer.Library.Transition
import VlbiStreamer.Recorder.SpliceVectors

/-!
# The splice writer and its partner

`splice_write` hands the pages of a buffer to a pipe, and a thread of its own
(`partnerloop`) moves what is in the pipe to the file.  The two agree on a job with
`pstatus` and `tosplice`, under `pmutex`, and sleep on `pcond`.

A step is the code of one thread from one point where the other may come in to the
next: a region under the mutex with the computation behind it that only touches the
thread's own variables, the test of the loop of `splice_write`, which reads `pstatus`
without the mutex, and one `vmsplice` or `splice`.  Waiting ends with a signal or for
no reason at all.

`vmsplice` does not copy: the pipe holds addresses, and the file receives what the
memory holds when they leave it.  The memory may change at any time, except for the
buffer of the call that is running.
-/

namespace VlbiStreamer.Recorder

open Library

/-- `pstatus`; `PSTATUS_ERROR` and `PSTATUS_END` are not above `PSTATUS_END`. -/
inductive PStatus where
  | error
  | ended
  | run
  | jobtodo
  deriving DecidableEq, Repr

/-- `pstatus > PSTATUS_END` -/
def PStatus.alive : PStatus → Bool
  | .error | .ended => false
  | .run | .jobtodo => true

/-- Where the thread of the writer is. -/
inductive WriterAt where
  /-- In none of the functions. -/
  | idle
  /-- Waiting until the partner is free. -/
  | waitingFree
  | wokenFree
  /-- At the test of the loop. -/
  | testing
  /-- In `vmsplice`. -/
  | offering
  /-- Behind the loop, about to take the mutex. -/
  | counting
  /-- Waiting until the partner has done the job. -/
  | waitingDone
  | wokenDone
  /-- In `pthread_join`. -/
  | joining
  | closed
  deriving DecidableEq, Repr

/-- Where `partnerloop` is. -/
inductive PartnerAt where
  /-- About to take the mutex for the first time. -/
  | start
  | waiting
  | woken
  /-- In `splice`. -/
  | splicing
  /-- Behind the loop, about to take the mutex. -/
  | finishing
  /-- `splice` has failed. -/
  | failing
  | returned
  deriving DecidableEq, Repr

/-- `SP_SIGNAL` wakes the partner if it sleeps. -/
def PartnerAt.signalled : PartnerAt → PartnerAt
  | .waiting => .woken
  | p => p

/-- `SP_SIGNAL_MAIN` wakes the writer if it sleeps. -/
def WriterAt.signalled : WriterAt → WriterAt
  | .waitingFree => .wokenFree
  | .waitingDone => .wokenDone
  | p => p

/-- The two threads and what they share. -/
structure SpliceState where
  pstatus : PStatus
  tosplice : ℕ
  /-- Has `splice_write` returned without unlocking `pmutex`? -/
  locked : Bool
  writer : WriterAt
  /-- The arguments of `splice_write`. -/
  start : ℕ
  count : ℕ
  /-- The variables of its loop. -/
  loop : Splicing
  partner : PartnerAt
  leftToSplice : ℕ
  memory : Bytes
  /-- The addresses in the pipe. -/
  pipe : List ℕ
  file : List Byte
  /-- What the buffers held when `splice_write` was called, call by call. -/
  buffers : List (List Byte)
  /-- What the calls have returned. -/
  results : List ℤ

/-- The steps of the threads. -/
inductive SpliceAction where
  /-- `splice_write` is called. -/
  | call (start count : ℕ)
  | recheckFree
  | test
  | vmsplice (n : ℕ)
  | vmspliceFails
  | count
  | recheckDone
  /-- `splice_close` is called. -/
  | close
  | join
  | partnerStart
  | partnerRecheck
  | splice (n : ℕ)
  | spliceFails
  | partnerFinish
  | partnerFail
  /-- Waiting ends without a signal. -/
  | writerWakes
  | partnerWakes
  /-- The memory changes. -/
  | refill (memory : Bytes)

/-- What `init_splice` sets up. -/
structure SplicePipe where
  sp : SpliceOps
  maxbytesInpipe : ℕ
  maxbytesInpipe_lt : maxbytesInpipe < 2 ^ 31
  maxPipeLength_eq : sp.maxPipeLength = maxbytesInpipe / sp.pagesize

theorem SplicePipe.unwrapped (p : SplicePipe) : p.sp.Unwrapped :=
  SpliceOps.unwrapped_of_init p.maxbytesInpipe_lt p.maxPipeLength_eq

theorem SplicePipe.maxbytesInpipe_pos (p : SplicePipe) : 0 < p.maxbytesInpipe := by
  have hpipe := p.sp.maxPipeLength_pos
  rw [p.maxPipeLength_eq] at hpipe
  exact Nat.pos_of_ne_zero fun hzero => by simp [hzero] at hpipe

namespace SpliceState

variable (s : SpliceState)

/-- The bytes at some addresses. -/
def bytesAt (addresses : List ℕ) : List Byte := addresses.map s.memory

/-- `while(sp->pstatus == PSTATUS_JOBTODO) SP_WAIT_MAIN` and the job behind it. -/
def giveJob : SpliceState :=
  match s.pstatus with
  | .jobtodo => { s with writer := .waitingFree }
  | .run => { s with pstatus := .jobtodo, partner := s.partner.signalled, writer := .testing }
  | _ => { s with writer := .idle, locked := true, results := s.results ++ [-1] }

/-- `while(sp->pstatus == PSTATUS_JOBTODO) SP_WAIT_MAIN` at the end of `splice_write`. -/
def awaitJob : SpliceState :=
  match s.pstatus with
  | .jobtodo => { s with writer := .waitingDone }
  | .error => { s with writer := .idle, results := s.results ++ [-1] }
  | _ => { s with writer := .idle, results := s.results ++ [s.loop.totalW] }

/-- `while(sp->pstatus == PSTATUS_RUN) SP_WAIT` and the job behind it. -/
def takeJob : SpliceState :=
  if s.pstatus = .run then { s with partner := .waiting }
  else { s with
    leftToSplice := s.tosplice
    partner := if 0 < s.tosplice then .splicing else .finishing }

/-- The head of the loop of `partnerloop`, and what is behind it. -/
def partnerTop : SpliceState :=
  if s.pstatus.alive then s.takeJob else { s with pstatus := .ended, partner := .returned }

/-- `vmsplice` takes the first `n` bytes that are offered. -/
def vmsplice (n : ℕ) : SpliceState :=
  { s with
    writer := .testing
    pipe := s.pipe ++ (Iovec.gather s.loop.offered).take n
    loop := s.loop.transferred n }

/-- `splice` moves `n` bytes from the pipe to the file. -/
def splice (n : ℕ) : SpliceState :=
  { s with
    file := s.file ++ s.bytesAt (s.pipe.take n)
    pipe := s.pipe.drop n
    leftToSplice := s.leftToSplice - n
    partner := if 0 < s.leftToSplice - n then .splicing else .finishing }

/-- The end of a job. -/
def finish : SpliceState :=
  if s.pstatus.alive then
    { s with pstatus := .run, writer := s.writer.signalled }.partnerTop
  else s.partnerTop

variable {s}

theorem giveJob_run (h : s.pstatus = .run) : s.giveJob =
    { s with pstatus := .jobtodo, partner := s.partner.signalled, writer := .testing } := by
  simp only [giveJob, h]

theorem giveJob_error (h : s.pstatus = .error) : s.giveJob =
    { s with writer := .idle, locked := true, results := s.results ++ [-1] } := by
  simp only [giveJob, h]

theorem awaitJob_run (h : s.pstatus = .run) : s.awaitJob =
    { s with writer := .idle, results := s.results ++ [s.loop.totalW] } := by
  simp only [awaitJob, h]

theorem awaitJob_jobtodo (h : s.pstatus = .jobtodo) :
    s.awaitJob = { s with writer := .waitingDone } := by
  simp only [awaitJob, h]

theorem takeJob_run (h : s.pstatus = .run) : s.takeJob = { s with partner := .waiting } :=
  if_pos h

theorem takeJob_of_ne (h : s.pstatus ≠ .run) : s.takeJob =
    { s with
      leftToSplice := s.tosplice
      partner := if 0 < s.tosplice then .splicing else .finishing } :=
  if_neg h

theorem partnerTop_of_alive (h : s.pstatus.alive = true) : s.partnerTop = s.takeJob :=
  if_pos h

theorem partnerTop_ended (h : s.pstatus = .ended) :
    s.partnerTop = { s with partner := .returned } := by
  simp only [partnerTop, PStatus.alive, h, Bool.false_eq_true, if_false]

theorem finish_ended (h : s.pstatus = .ended) : s.finish = { s with partner := .returned } := by
  rw [← partnerTop_ended h, finish, if_neg]
  simp [PStatus.alive, h]

theorem finish_of_alive (h : s.pstatus.alive = true) : s.finish =
    { s with pstatus := .run, writer := s.writer.signalled, partner := .waiting } := by
  unfold finish
  rw [if_pos h]
  rfl

end SpliceState

namespace SplicePipe

variable (p : SplicePipe) (s : SpliceState)

/-- `MIN(left_to_splice, sp->max_pipe_length*sp->pagesize)`, an `unsigned int` product. -/
def tempTosplice : ℕ := min s.leftToSplice (p.sp.maxPipeLength * p.sp.pagesize % 2 ^ 32)

/-- `splice_write` is called, and takes the mutex.  The vectors of an earlier call are
written over before they are offered. -/
def call (start count : ℕ) : SpliceState :=
  let called : SpliceState :=
    { s with
      tosplice := count
      start := start
      count := count
      loop := Splicing.start p.sp start count
      buffers := s.buffers ++ [s.bytesAt (List.range' start count)] }
  called.giveJob

/-- One step. -/
def next (s : SpliceState) : SpliceAction → Option SpliceState
  | .call start count =>
      if s.writer = .idle ∧ s.locked = false ∧ count < 2 ^ 63 then some (p.call s start count)
      else none
  | .recheckFree => if s.writer = .wokenFree then some s.giveJob else none
  | .test =>
      if s.writer = .testing then
        some { s with
          writer := if 0 < s.loop.trycount ∧ s.pstatus.alive then .offering else .counting }
      else none
  | .vmsplice n =>
      if s.writer = .offering ∧ 0 < n ∧ n ≤ Iovec.total s.loop.offered ∧
          s.pipe.length + n ≤ p.maxbytesInpipe then some (s.vmsplice n)
      else none
  | .vmspliceFails =>
      if s.writer = .offering then
        some { s with writer := .idle, results := s.results ++ [-1] }
      else none
  | .count => if s.writer = .counting ∧ s.locked = false then some s.awaitJob else none
  | .recheckDone => if s.writer = .wokenDone then some s.awaitJob else none
  | .close =>
      if s.writer = .idle ∧ s.locked = false then
        some { s with pstatus := .ended, partner := s.partner.signalled, writer := .joining }
      else none
  | .join =>
      if s.writer = .joining ∧ s.partner = .returned then some { s with writer := .closed }
      else none
  | .partnerStart =>
      if s.partner = .start ∧ s.locked = false then some s.partnerTop else none
  | .partnerRecheck =>
      if s.partner = .woken ∧ s.locked = false then some s.takeJob else none
  | .splice n =>
      if s.partner = .splicing ∧ 0 < n ∧ n ≤ p.tempTosplice s ∧ n ≤ s.pipe.length then
        some (s.splice n)
      else none
  | .spliceFails =>
      if s.partner = .splicing then some { s with partner := .failing } else none
  | .partnerFinish =>
      if s.partner = .finishing ∧ s.locked = false then some s.finish else none
  | .partnerFail =>
      if s.partner = .failing ∧ s.locked = false then
        some { s with pstatus := .error, partner := .returned }
      else none
  | .writerWakes =>
      if s.writer = .waitingFree ∨ s.writer = .waitingDone then
        some { s with writer := s.writer.signalled }
      else none
  | .partnerWakes =>
      if s.partner = .waiting then some { s with partner := s.partner.signalled } else none
  | .refill memory =>
      if s.writer = .idle ∨ s.writer = .joining ∨ s.writer = .closed ∨
          ∀ x ∈ List.range' s.start s.count, memory x = s.memory x then
        some { s with memory := memory }
      else none

/-- `init_splice` has created the partner. -/
structure IsStart (s : SpliceState) : Prop where
  pstatus : s.pstatus = .run
  tosplice : s.tosplice = 0
  locked : s.locked = false
  writer : s.writer = .idle
  partner : s.partner = .start
  pipe : s.pipe = []
  file : s.file = []
  buffers : s.buffers = []
  results : s.results = []

variable {p s} in
theorem tempTosplice_pos (h : 0 < s.leftToSplice) : 0 < p.tempTosplice s := by
  have hpipe : 0 < p.sp.maxPipeLength * p.sp.pagesize :=
    Nat.mul_pos p.sp.maxPipeLength_pos p.sp.pagesize_pos
  have hle : p.sp.maxPipeLength * p.sp.pagesize ≤ p.maxbytesInpipe := by
    rw [p.maxPipeLength_eq]
    exact Nat.div_mul_le_self _ _
  have hlt := p.maxbytesInpipe_lt
  unfold tempTosplice
  rw [Nat.mod_eq_of_lt (by omega)]
  omega

/-- The writer and its partner. -/
def system : Library.System SpliceState SpliceAction := Library.System.ofNext IsStart p.next

/-- A pipe of two pages of four bytes. -/
def twoPagePipe : SplicePipe where
  sp := SpliceOps.twoPages
  maxbytesInpipe := 8
  maxbytesInpipe_lt := by decide
  maxPipeLength_eq := rfl

/-- `init_splice` has returned; the memory counts up. -/
def started : SpliceState where
  pstatus := .run
  tosplice := 0
  locked := false
  writer := .idle
  start := 0
  count := 0
  loop := Splicing.start SpliceOps.twoPages 0 0
  partner := .start
  leftToSplice := 0
  memory x := BitVec.ofNat 8 x
  pipe := []
  file := []
  buffers := []
  results := []

theorem isStart_started : IsStart started := ⟨rfl, rfl, rfl, rfl, rfl, rfl, rfl, rfl, rfl⟩

end SplicePipe

/-- Neither `vmsplice` nor `splice` fails. -/
def SpliceAction.Succeeds : SpliceAction → Prop
  | .vmspliceFails | .spliceFails => False
  | _ => True

/-- A step of the code, neither a call nor a change of the memory nor a wake-up without a
signal. -/
def SpliceAction.Works : SpliceAction → Prop
  | .call .. | .close | .writerWakes | .partnerWakes | .refill _ | .vmspliceFails
  | .spliceFails => False
  | _ => True

end VlbiStreamer.Recorder
