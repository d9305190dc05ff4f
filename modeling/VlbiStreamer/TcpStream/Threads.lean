import VlbiStreamer.Library.Transition
import VlbiStreamer.TcpStream.MultistreamReceive

/-!
# The threads that receive several TCP streams

`loop_with_threaded_multistream_recv` starts a thread for every stream
(`threaded_multistream`).  A thread that has its packets of the buffer sets
`THREADSTATUS_ALL_FULL`, counts itself in `threads_ready_or_err` and sleeps on
`recv_cond`; the main thread sleeps on `mainthread_cond` until all are counted, and
then changes the buffer and clears the flags.

A step is what one thread does between two accesses to something the others write,
or what it does while it holds a mutex.  The flags are set under one mutex and cleared
under another: `|= THREADSTATUS_ALL_FULL` is a read and a write, and the rundown clears
one thread after the other while it holds `recv_mutex`.  A signal wakes who sleeps, and
one who sleeps may wake for no reason.

Packets are the natural numbers: the `k`th packet on stream `t` is `t + k * S`.  `recv`
brings a packet, or the end of the stream, or an error, and the rest of a packet is no
step of its own.
-/

namespace VlbiStreamer.TcpStream

open BufData

/-- The flags of `td->status`. -/
structure ThreadStatus where
  keepRunning : Bool
  allFull : Bool
  cleanExit : Bool
  error : Bool
  deriving DecidableEq, Repr

namespace ThreadStatus

/-- `THREADSTATUS_KEEP_RUNNING` -/
def running : ThreadStatus := ⟨true, false, false, false⟩

/-- `THREADSTATUS_CLEAN_EXIT` -/
def closed : ThreadStatus := ⟨false, false, true, false⟩

/-- `THREADSTATUS_ERROR` -/
def failed : ThreadStatus := ⟨false, false, false, true⟩

/-- `0` -/
def cleared : ThreadStatus := ⟨false, false, false, false⟩

/-- `| THREADSTATUS_ALL_FULL` -/
def full (st : ThreadStatus) : ThreadStatus := { st with allFull := true }

end ThreadStatus

/-- Where a receiving thread is. -/
inductive ThreadAt where
  /-- At the head of its loop. -/
  | head
  /-- About to take `recv_mutex`. -/
  | locking
  /-- In `pthread_cond_wait` on `recv_cond`. -/
  | sleeping
  /-- Let through, and about to look at its buffer. -/
  | starting
  /-- At the test of the inner loop. -/
  | receiving
  /-- In `recv`. -/
  | inRecv
  /-- Behind the inner loop. -/
  | storing
  /-- About to take `mainthread_mutex`. -/
  | reporting
  /-- In `mainthread_mutex`, with the flags it has read if it is going to change them. -/
  | counting (seen : Option ThreadStatus)
  | exited
  deriving DecidableEq, Repr

/-- `struct multistream_recv_data` and the variables of `threaded_multistream`. -/
structure Thread (S : ℕ) where
  pos : ThreadAt
  status : ThreadStatus
  /-- `td->buf`, by the file of the buffer. -/
  buf : ℕ
  /-- `bytes_received`, in packets. -/
  bytesReceived : ℕ
  /-- `packets_ready` -/
  ready : ℕ
  /-- The buffer that `correct_bufspot` points into. -/
  spot : ℕ
  /-- The remainders that `correct_bufspot` and `max_packets` come from. -/
  bd : BufData S
  /-- How many packets have come on the stream. -/
  got : ℕ
  /-- Has the thread been joined, and `pt` set to `0`? -/
  joined : Bool
  deriving DecidableEq, Repr

/-- Where the main thread is. -/
inductive MainAt where
  /-- At the head of its loop. -/
  | top
  /-- About to take `mainthread_mutex`. -/
  | locking
  /-- In `pthread_cond_wait` on `mainthread_cond`. -/
  | sleeping
  /-- Adding up what the threads have. -/
  | collecting (i : ℕ)
  | changing
  /-- About to clear the flags. -/
  | releasing
  /-- In the rundown, with `recv_mutex`. -/
  | rundown (i : ℕ)
  /-- Behind the rundown. -/
  | finishing
  /-- In `tcp_preloop`, joining the threads. -/
  | joining (i : ℕ)
  | returned
  /-- It uses a buffer or a thread that is not there. -/
  | broken
  deriving DecidableEq, Repr

/-- `pthread_cond_signal` on `mainthread_cond`. -/
def MainAt.signalled : MainAt → MainAt
  | .sleeping => .locking
  | m => m

/-- The main thread holds `recv_mutex`. -/
def MainAt.holdsRecv : MainAt → Bool
  | .rundown _ => true
  | _ => false

/-- `pthread_cond_broadcast` on `recv_cond`. -/
def Thread.woken {S : ℕ} (th : Thread S) : Thread S :=
  if th.pos = .sleeping then { th with pos := .locking } else th

/-- The threads and what they share. -/
structure Threaded (S : ℕ) where
  thread : Fin S → Thread S
  main : MainAt
  /-- `STATUS_RUNNING` -/
  running : Bool
  bufData : BufData S
  threadsReadyOrErr : ℕ
  activeThreads : ℕ
  /-- The thread that holds `mainthread_mutex`. -/
  mainthreadMutex : Option (Fin S)
  errorflag : Bool
  /-- `*buf_incrementer`, in packets. -/
  bufIncrementer : ℕ
  /-- What of it comes from each thread. -/
  counted : Fin S → ℕ
  received : Receiving (Option ℕ)
  /-- The buffers, by their file. -/
  memory : ℕ → ℕ → Option ℕ

/-- The steps of a receiving thread. -/
inductive ThreadAction where
  | head
  | lock
  /-- Waiting ends for no reason. -/
  | wake
  | begin
  | test
  | packet
  /-- The stream is closed. -/
  | close
  | fail
  | store
  | lockMain
  | report
  deriving DecidableEq, Repr

/-- The steps. -/
inductive Action (S : ℕ) where
  /-- The event is stopped. -/
  | stop
  | thread (t : Fin S) (a : ThreadAction)
  | top
  | lock
  | wake
  | collect
  | change (free : Bool)
  | release
  | rundown
  | finish
  | join
  deriving DecidableEq, Repr

variable {S : ℕ}

/-- What a step of `threaded_multistream` does to the data of the thread itself; `bd` are the
remainders of the buffer. -/
def Thread.next (o : Opt) (bd : BufData S) (t : Fin S) (th : Thread S) :
    ThreadAction → Option (Thread S)
  | .head =>
      if th.pos = .head then
        some { th with pos := if th.status.keepRunning then .locking else .exited }
      else none
  | .lock =>
      if th.pos = .locking then
        some { th with
          pos := if th.status.allFull then .sleeping
            else if th.status.keepRunning then .starting else .exited }
      else none
  | .wake => if th.pos = .sleeping then some { th with pos := .locking } else none
  | .begin =>
      if th.pos = .starting then
        some { th with pos := .receiving, ready := 0, spot := th.buf, bd := bd }
      else none
  | .test =>
      if th.pos = .receiving then
        some { th with
          pos := if th.ready < th.bd.maxPackets o.bufNumElems t ∧ th.status.keepRunning = true
            then .inRecv else .storing }
      else none
  | .packet =>
      if th.pos = .inRecv then
        some { th with pos := .receiving, ready := th.ready + 1, got := th.got + 1 }
      else none
  | .close =>
      if th.pos = .inRecv then some { th with pos := .storing, status := .closed } else none
  | .fail =>
      if th.pos = .inRecv then some { th with pos := .storing, status := .failed } else none
  | .store =>
      if th.pos = .storing then some { th with pos := .reporting, bytesReceived := th.ready }
      else none
  | .lockMain =>
      if th.pos = .reporting then
        some { th with
          pos := .counting (if th.ready = th.bd.maxPackets o.bufNumElems t then some th.status
            else none) }
      else none
  | .report =>
      match th.pos with
      | .counting seen =>
          some { th with pos := .head, status := (seen.map .full).getD th.status }
      | _ => none

namespace Threaded

variable (o : Opt) (s : Threaded S)

/-- The mutex that a step takes is free. -/
def allows : ThreadAction → Bool
  | .lock => !s.main.holdsRecv
  | .lockMain => s.mainthreadMutex.isNone
  | _ => true

/-- What a step of thread `t` does to the rest. -/
def affect (t : Fin S) : ThreadAction → Threaded S
  | .packet =>
      let th := s.thread t
      { s with
        memory := fun file j =>
          if file = th.spot ∧ j = th.bd.slot t th.ready then some (t + th.got * S)
          else s.memory file j }
  | .lockMain => { s with mainthreadMutex := some t }
  | .report =>
      { s with
        mainthreadMutex := none
        threadsReadyOrErr := s.threadsReadyOrErr + 1
        main := s.main.signalled }
  | _ => s

/-- Replace a thread. -/
def set (t : Fin S) (th : Thread S) : Threaded S :=
  { s with thread := Function.update s.thread t th }

/-- What is in the buffer. -/
def content : List (Option ℕ) :=
  match s.received.be with
  | some file => (List.range s.bufIncrementer).map (s.memory file)
  | none => []

/-- Add what thread `t` reports. -/
def add (t : Fin S) : Threaded S :=
  { s with
    bufIncrementer := s.bufIncrementer + (s.thread t).bytesReceived
    counted := Function.update s.counted t (s.counted t + (s.thread t).bytesReceived) }

/-- The loop over the threads that have reported, at thread `t`. -/
def collectFrom (t : Fin S) : Option (Threaded S) :=
  let th := { s.thread t with bytesReceived := 0 }
  -- no thread has both flags
  if th.status.cleanExit then
    if th.joined then some { s.add t with main := .broken }
    else if th.pos = .exited then
      some { (s.add t).set t { th with joined := true } with
        activeThreads := s.activeThreads - 1
        main := .collecting (t + 1) }
    else none
  else if th.status.error then
    if th.joined then some { s.add t with main := .broken }
    else if th.pos = .exited then
      some { (s.add t).set t { th with joined := true } with
        activeThreads := 0
        errorflag := true
        main := .changing }
    else none
  else some { (s.add t).set t th with main := .collecting (t + 1) }

/-- The tests behind that loop: the main loop ends. -/
def Breaks : Prop :=
  s.errorflag = true ∨ s.activeThreads = 0 ∨ s.bufIncrementer * o.packetSize ≠ o.bufsize

instance : Decidable (s.Breaks o) := inferInstanceAs (Decidable (_ ∨ _))

/-- The next buffer. -/
def change [NeZero S] (free : Bool) (file : ℕ) : Threaded S :=
  { s with
    bufData := ⟨s.bufData.endRemainder,
      Fin.ofNat S (subUint o.bufNumElems (S - s.bufData.endRemainder))⟩
    received := ({ s.received with buf := s.content } : Receiving _).changeBuffer o free file
    bufIncrementer := if free then 0 else s.bufIncrementer
    counted := 0
    main := if free then .releasing else .rundown 0 }

/-- The flags are cleared and the threads go on with the buffer of `file`. -/
def release (file : ℕ) : Threaded S :=
  { s with
    thread := fun t =>
      { (s.thread t).woken with
        buf := file
        status := if (s.thread t).status.keepRunning then .running else (s.thread t).status }
    threadsReadyOrErr := 0
    main := .top }

/-- One step. -/
def next [NeZero S] (s : Threaded S) : Action S → Option (Threaded S)
  | .stop => some { s with running := false }
  | .thread t a =>
      if s.allows a then ((s.thread t).next o s.bufData t a).map fun th => (s.affect t a).set t th
      else none
  | .top =>
      if s.main = .top then
        some { s with
          main := if s.running = true ∧ 0 < s.activeThreads then .locking else .rundown 0 }
      else none
  | .lock =>
      if s.main = .locking ∧ s.mainthreadMutex = none then
        some { s with
          main := if s.threadsReadyOrErr < s.activeThreads then .sleeping else .collecting 0 }
      else none
  | .wake => if s.main = .sleeping then some { s with main := .locking } else none
  | .collect =>
      match s.main with
      | .collecting i =>
          if h : i < S then s.collectFrom ⟨i, h⟩ else some { s with main := .changing }
      | _ => none
  | .change free =>
      if s.main = .changing then
        if s.Breaks o then some { s with main := .rundown 0 }
        else s.received.be.map (s.change o free)
      else none
  | .release => if s.main = .releasing then s.received.be.map s.release else none
  | .rundown =>
      match s.main with
      | .rundown i =>
          if h : i < S then
            some { (s.add ⟨i, h⟩).set ⟨i, h⟩ { s.thread ⟨i, h⟩ with status := .cleared } with
              main := .rundown (i + 1) }
          else some { s with thread := fun t => (s.thread t).woken, main := .finishing }
      | _ => none
  | .finish =>
      if s.main = .finishing then
        match Receiving.multistreamEpilogue o { s.received with buf := s.content } with
        | .returned received => some { s with received := received, main := .joining 0 }
        | .broken => some { s with main := .broken }
      else none
  | .join =>
      match s.main with
      | .joining i =>
          if h : i < S then
            if (s.thread ⟨i, h⟩).joined = true ∨ (s.thread ⟨i, h⟩).pos = .exited then
              some { s with main := .joining (i + 1) }
            else none
          else some { s with main := .returned }
      | _ => none

/-- The threads are created and the first buffer is got. -/
def started [NeZero S] : Threaded S where
  thread := fun _ => ⟨.head, .running, 0, 0, 0, 0, receiving S o.bufNumElems 0, 0, false⟩
  main := .top
  running := true
  bufData := receiving S o.bufNumElems 0
  threadsReadyOrErr := 0
  activeThreads := S
  mainthreadMutex := none
  errorflag := false
  bufIncrementer := 0
  counted := 0
  received := Receiving.start
  memory := fun _ _ => none

/-- A recording. -/
def system [NeZero S] : Library.System (Threaded S) (Action S) :=
  Library.System.ofNext (· = started o) (next o)

end Threaded

end VlbiStreamer.TcpStream
