import VlbiStreamer.Library.Memory
import VlbiStreamer.Library.Transition

/-!
# The ring of the file-to-network tool

`morph_to_net` reads a file into a ring of packets in one thread
(`start_reading`) and sends the ring packet by packet in another (`do_sending`).
The counter `n_ready` of the packets that are read and not sent is all they
share, under the lock `access`; either sleeps on `wait` while it has nothing to
do.

A step is the code of one thread from one point where the other may come in to
the next: a region under the lock, with the computation behind it that only
touches the thread's own variables, a `read`, or the sending of one packet.
`write_here` and `read_here` are counted from `opts->buffer`.  The reading of the
file can fall short by any number of packets, and no call fails.

`unsent` and `overwritten` are logs of the slots that were read into and not sent
yet.  `Options.Correct` is what the tool is for.
-/

namespace VlbiStreamer.MorphToNet

open Library

/-- `struct options` of a run, and the file it reads. -/
structure Options where
  packetSize : ℕ
  buffermultiplier : ℕ
  file : List Byte
  packetSize_pos : 0 < packetSize
  packetSize_le : packetSize ≤ 65536
  buffermultiplier_pos : 0 < buffermultiplier
  whole : packetSize ∣ file.length

/-- Where the reading thread is. -/
inductive ReaderAt where
  /-- At the head of its loop. -/
  | top
  /-- In `WAIT`. -/
  | waiting
  /-- Signalled and about to test `n_ready` again. -/
  | woken
  /-- About to call `read`. -/
  | reading
  /-- At the end of the file, about to take the lock. -/
  | endOfFile
  /-- About to clear `OPTS_READING`. -/
  | leaving
  | returned
  deriving DecidableEq, Repr

/-- Where the sending thread is. -/
inductive SenderAt where
  | top
  | waiting
  | woken
  /-- In the loop over its batch. -/
  | sending
  | returned
  deriving DecidableEq, Repr

/-- The variables of `start_reading`. -/
structure Reader where
  pos : ReaderAt
  writeHere : ℕ
  toread : ℕ
  toStart : Bool
  err : ℕ

/-- The variables of `do_sending`. -/
structure Sender where
  pos : SenderAt
  readHere : ℕ
  doSend : ℕ
  toStart : Bool
  sending : ℕ

/-- The two threads and what they share. -/
structure Tool where
  nReady : ℕ
  /-- `OPTS_READING` -/
  reading : Bool
  buffer : Bytes
  reader : Reader
  sender : Sender
  /-- What has not been read of the file. -/
  rest : List Byte
  emitted : List (List Byte)
  /-- The slots that were read into and not sent, by their first byte. -/
  unsent : List ℕ
  /-- Has a slot been read into before it was sent? -/
  overwritten : Bool

/-- The steps of the threads. -/
inductive Action where
  | readerTop
  | readerRecheck
  | read (packets : ℕ)
  | readNothing
  | endOfFile
  | leave
  | senderTop
  | senderRecheck
  | send
  | sent
  deriving DecidableEq, Repr

/-- Most that `read` transfers. -/
def maxRead : ℕ := 0x7ffff000

/-- `SIGNAL` wakes the reading thread if it sleeps. -/
def Reader.signalled (r : Reader) : Reader :=
  if r.pos = .waiting then { r with pos := .woken } else r

/-- `SIGNAL` wakes the sending thread if it sleeps. -/
def Sender.signalled (d : Sender) : Sender :=
  if d.pos = .waiting then { d with pos := .woken } else d

/-- Both threads have ended. -/
def Tool.Ended (s : Tool) : Prop := s.reader.pos = .returned ∧ s.sender.pos = .returned

namespace Options

variable (o : Options) (s : Tool)

/-- `endofbuffer` -/
def endofbuffer : ℕ := o.buffermultiplier * o.packetSize

/-- Number of packets of the file. -/
def total : ℕ := o.file.length / o.packetSize

/-- The packets of the file. -/
def packets : List (List Byte) :=
  (List.range o.total).map fun i => (o.file.drop (i * o.packetSize)).take o.packetSize

/-- Clip a batch of `n` packets at the end of the ring, and tell whether to wrap. -/
def clip (here n : ℕ) : Bool × ℕ :=
  if o.endofbuffer ≤ here + n * o.packetSize then
    (true, (o.endofbuffer - here) / o.packetSize)
  else (false, n)

/-- `while ((toread = ..) == 0) WAIT` and the clipping behind it. -/
def readerTest : Tool :=
  let toread := o.buffermultiplier - s.nReady
  if toread = 0 then
    { s with reader := { s.reader with pos := .waiting, toread := 0 } }
  else
    let clipped := o.clip s.reader.writeHere toread
    { s with reader := { s.reader with
        pos := .reading, toread := clipped.2, toStart := s.reader.toStart || clipped.1 } }

/-- The reading thread, from the head of its loop. -/
def readerTop : Tool :=
  let err := s.reader.err
  let here := if s.reader.toStart then 0 else s.reader.writeHere + err
  o.readerTest { s with
    nReady := s.nReady + err / o.packetSize
    reader := { s.reader with writeHere := here, toStart := false }
    sender := if err ≠ 0 then s.sender.signalled else s.sender }

/-- The slots that `n` packets at `here` fill. -/
def slots (here n : ℕ) : List ℕ := (List.range n).map fun i => here + i * o.packetSize

/-- `read` delivers the next `n` packets. -/
def fill (n : ℕ) : Tool :=
  let here := s.reader.writeHere
  let len := n * o.packetSize
  { s with
    buffer := fun x => if here ≤ x ∧ x < here + len then s.rest.getD (x - here) 0
      else s.buffer x
    reader := { s.reader with pos := .top, err := len }
    rest := s.rest.drop len
    unsent := s.unsent ++ o.slots here n
    overwritten := s.overwritten || (o.slots here n).any fun x => x ∈ s.unsent }

/-- `while ((do_send = opts->n_ready) == 0) WAIT` and the clipping behind it. -/
def senderTest : Tool :=
  let doSend := s.nReady
  if doSend = 0 then
    { s with sender := { s.sender with pos := .waiting, doSend := 0 } }
  else
    let clipped := o.clip s.sender.readHere doSend
    { s with sender := { s.sender with
        pos := .sending, doSend := clipped.2, sending := 0,
        toStart := s.sender.toStart || clipped.1 } }

/-- The sending thread, from the head of its loop. -/
def senderTop : Tool :=
  let here := if s.sender.toStart then 0 else s.sender.readHere
  let s := { s with
    nReady := s.nReady - s.sender.doSend
    sender := { s.sender with readHere := here, toStart := false } }
  if s.nReady = 0 ∧ s.reading = false then
    { s with sender := { s.sender with pos := .returned } }
  else o.senderTest { s with reader := s.reader.signalled }

/-- One packet goes to the network. -/
def emit : Tool :=
  let here := s.sender.readHere
  { s with
    emitted := s.emitted ++ [(List.range o.packetSize).map fun i => s.buffer (here + i)]
    sender := { s.sender with
      readHere := here + o.packetSize, sending := s.sender.sending + 1 }
    unsent := s.unsent.erase here }

/-- One step. -/
def next (s : Tool) : Action → Option Tool
  | .readerTop => if s.reader.pos = .top then some (o.readerTop s) else none
  | .readerRecheck => if s.reader.pos = .woken then some (o.readerTest s) else none
  | .read n =>
      if s.reader.pos = .reading ∧ 0 < n ∧ n ≤ s.reader.toread ∧
          n * o.packetSize ≤ s.rest.length ∧ n * o.packetSize ≤ maxRead then
        some (o.fill s n)
      else none
  | .readNothing =>
      if s.reader.pos = .reading ∧ s.rest = [] then
        some { s with reader := { s.reader with pos := .endOfFile, err := 0 } }
      else none
  | .endOfFile =>
      if s.reader.pos = .endOfFile then
        some { s with
          nReady := s.nReady + s.reader.toread
          reader := { s.reader with pos := .leaving }
          sender := s.sender.signalled }
      else none
  | .leave =>
      if s.reader.pos = .leaving then
        some { s with reading := false, reader := { s.reader with pos := .returned } }
      else none
  | .senderTop => if s.sender.pos = .top then some (o.senderTop s) else none
  | .senderRecheck => if s.sender.pos = .woken then some (o.senderTest s) else none
  | .send =>
      if s.sender.pos = .sending ∧ s.sender.sending < s.sender.doSend then some (o.emit s)
      else none
  | .sent =>
      if s.sender.pos = .sending ∧ ¬ s.sender.sending < s.sender.doSend then
        some { s with sender := { s.sender with pos := .top } }
      else none

/-- Both threads are started; the ring holds anything. -/
structure IsStart (s : Tool) : Prop where
  nReady : s.nReady = 0
  reading : s.reading = true
  reader : s.reader = ⟨.top, 0, 0, false, 0⟩
  sender : s.sender = ⟨.top, 0, 0, false, 0⟩
  rest : s.rest = o.file
  emitted : s.emitted = []
  unsent : s.unsent = []
  overwritten : s.overwritten = false

/-- The tool. -/
def system : System Tool Action := System.ofNext o.IsStart o.next

/-- The cursors are in the ring, and so is what `read` and `writev` are given. -/
structure Inside (s : Tool) : Prop where
  writeHere : s.reader.writeHere < o.endofbuffer
  readHere : s.sender.readHere ≤ o.endofbuffer
  read : s.reader.pos = .reading →
    s.reader.writeHere + s.reader.toread * o.packetSize ≤ o.endofbuffer
  send : s.sender.pos = .sending → s.sender.sending < s.sender.doSend →
    s.sender.readHere + o.packetSize ≤ o.endofbuffer

/-- **What the tool is for**, in every interleaving. -/
structure Correct : Prop where
  /-- The packets of the file are sent, in order and each once. -/
  emits : ∀ s, o.system.Reachable s → s.Ended → s.emitted = o.packets
  ready : ∀ s, o.system.Reachable s → s.nReady ≤ o.buffermultiplier
  /-- No slot is read into that has not been sent. -/
  spares : ∀ s, o.system.Reachable s → s.overwritten = false
  inside : ∀ s, o.system.Reachable s → o.Inside s
  /-- When no thread can go on, both have ended. -/
  ends : ∀ s, o.system.Reachable s → (∀ a, o.next s a = none) → s.Ended

end Options

end VlbiStreamer.MorphToNet
