import VlbiStreamer.Library.Memory
import VlbiStreamer.Library.Transition

/-!
# The splicing file-to-network tool

`splice_to_net` forks: the child moves a file into a pipe (`read_file_to_pipe`) and the
parent moves the pipe to a socket (`splice_to_socket`).  It sends `packet_size - 1` bytes
with `SPLICE_F_MORE`, in as many calls as it takes, and then one byte without: the socket
holds back what comes with `SPLICE_F_MORE` and sends it with the byte that follows, as one
datagram.  What a TCP socket holds back it sends when it is shut down.

A step is one system call.  `splice` and `vmsplice` move some of the bytes they are asked
for, and wait while the pipe is empty, or full, and its other end is open.  On the end of
the pipe that is read, `vmsplice` moves bytes out of the pipe.

The offset to strip is parsed and not used.  `getopt` takes `-r`, but `main` has no case for
it and ends with the usage.
-/

namespace VlbiStreamer.SpliceToNet

open Library

/-- `struct options` of a run, and the file it reads. -/
structure Options where
  packetSize : ℕ
  maxbytesInpipe : ℕ
  /-- `OPTS_DO_COUNTER` -/
  doCounter : Bool
  /-- `TCP_MODE` -/
  tcp : Bool
  file : List Byte
  packetSize_pos : 0 < packetSize
  packetSize_le : packetSize ≤ 65536
  maxbytesInpipe_pos : 0 < maxbytesInpipe

/-- Where the child is. -/
inductive SourceAt where
  | splicing
  /-- It has ended, and its end of the pipe is closed. -/
  | returned
  deriving DecidableEq, Repr

/-- Where the parent is. -/
inductive SinkAt where
  /-- About to call `vmsplice`. -/
  | counting
  /-- About to splice with `SPLICE_F_MORE`. -/
  | splicing
  /-- About to splice the last byte of a packet. -/
  | finishing
  /-- The pipe and the socket are closed. -/
  | returned
  deriving DecidableEq, Repr

/-- The two processes, the pipe and the socket. -/
structure Tool where
  /-- What has not been read of the file. -/
  rest : List Byte
  pipe : List Byte
  source : SourceAt
  sink : SinkAt
  totransfer : ℕ
  /-- What `vmsplice` has moved out of the pipe since the last datagram. -/
  eaten : List Byte
  /-- What the socket holds back. -/
  corked : List Byte
  /-- The datagrams, each with what `vmsplice` moved out of the pipe before it. -/
  sent : List (List Byte × List Byte)
  deriving DecidableEq, Repr

/-- The system calls. -/
inductive Action where
  /-- The child splices `n` bytes. -/
  | read (n : ℕ)
  /-- It is at the end of the file. -/
  | readEnd
  | readFails
  /-- `SIGPIPE` -/
  | killed
  | vmsplice (n : ℕ)
  | vmspliceEnd
  /-- What `vmsplice` returns in the loop is not looked at. -/
  | vmspliceFails
  /-- The parent splices `n` bytes with `SPLICE_F_MORE`. -/
  | splice (n : ℕ)
  | spliceEnd
  | finish
  | finishEnd
  | sendFails
  deriving DecidableEq, Repr

/-- The datagrams. -/
def Tool.datagrams (s : Tool) : List (List Byte) := s.sent.map Prod.snd

/-- Both processes have ended. -/
def Tool.Ended (s : Tool) : Prop := s.source = .returned ∧ s.sink = .returned

/-- Nothing is in the pipe, and nothing will be. -/
def Tool.Dry (s : Tool) : Prop := s.pipe = [] ∧ s.source = .returned

instance (s : Tool) : Decidable s.Dry := inferInstanceAs (Decidable (_ ∧ _))

namespace Options

variable (o : Options)

/-- The parent at the start of a packet. -/
def packetStart : SinkAt := if o.doCounter then .counting else .splicing

/-- One step. -/
def next (s : Tool) : Action → Option Tool
  | .read n =>
      if s.source = .splicing ∧ s.sink ≠ .returned ∧ 0 < n ∧ n ≤ s.rest.length ∧
          s.pipe.length + n ≤ o.maxbytesInpipe then
        some { s with rest := s.rest.drop n, pipe := s.pipe ++ s.rest.take n }
      else none
  | .readEnd =>
      if s.source = .splicing ∧ s.rest = [] then some { s with source := .returned } else none
  | .readFails => if s.source = .splicing then some { s with source := .returned } else none
  | .killed =>
      if s.source = .splicing ∧ s.sink = .returned then some { s with source := .returned }
      else none
  | .vmsplice n =>
      if s.sink = .counting ∧ 0 < n ∧ n ≤ 8 ∧ n ≤ s.pipe.length then
        some { s with
          pipe := s.pipe.drop n, eaten := s.eaten ++ s.pipe.take n, sink := .splicing }
      else none
  | .vmspliceEnd =>
      if s.sink = .counting ∧ s.Dry then some { s with sink := .splicing } else none
  | .vmspliceFails => if s.sink = .counting then some { s with sink := .splicing } else none
  | .splice n =>
      if s.sink = .splicing ∧ 0 < n ∧ n ≤ s.totransfer ∧ n ≤ s.pipe.length then
        some { s with
          pipe := s.pipe.drop n
          corked := s.corked ++ s.pipe.take n
          totransfer := s.totransfer - n
          sink := if s.totransfer - n = 0 then .finishing else .splicing }
      else none
  | .spliceEnd =>
      if s.sink = .splicing ∧ (s.totransfer = 0 ∨ s.Dry) then some { s with sink := .returned }
      else none
  | .finish =>
      if s.sink = .finishing ∧ s.pipe ≠ [] then
        some { s with
          pipe := s.pipe.drop 1
          eaten := []
          corked := []
          sent := s.sent ++ [(s.eaten, s.corked ++ s.pipe.take 1)]
          totransfer := o.packetSize - 1
          sink := o.packetStart }
      else none
  | .finishEnd =>
      if s.sink = .finishing ∧ s.Dry then some { s with sink := .returned } else none
  | .sendFails =>
      if s.sink = .splicing ∨ s.sink = .finishing then some { s with sink := .returned }
      else none

/-- The processes are forked. -/
def started : Tool where
  rest := o.file
  pipe := []
  source := .splicing
  sink := o.packetStart
  totransfer := o.packetSize - 1
  eaten := []
  corked := []
  sent := []

/-- The tool. -/
def system : System Tool Action := System.ofNext (· = o.started) o.next

/-- What has reached the network when the parent has ended. -/
def delivered (s : Tool) : List Byte :=
  s.datagrams.flatten ++ if o.tcp then s.corked else []

end Options

/-- No call fails. -/
def Action.Succeeds : Action → Prop
  | .readFails | .vmspliceFails | .sendFails => False
  | _ => True

end VlbiStreamer.SpliceToNet
