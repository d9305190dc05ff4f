import Mathlib.Algebra.Order.Ring.Int
import Mathlib.Data.Int.Basic
import Mathlib.Data.List.Basic

/-!
# Receiving over TCP

`loop_with_recv` and `loop_with_splice` fill one buffer after the other with what
the socket delivers.  A full buffer is handed over in `change_buffer`; what is left
when the loop ends is handed over or given back by its last statements, which
differ between the two.

* The bytes are of any type.  A chunk is what one `recv` or `sendfile` returned,
  with what `get_free` answers if the chunk fills the buffer.
* The loop ends after its chunks, be it that the socket is closed, that it fails or
  that the event is stopped: the statements that follow are the same.
* A run is `broken` where it uses a buffer that it does not hold.

`Accounted` is what the numbers and files of a run should be;
`receive_accounted_iff` says when they are.
-/

namespace VlbiStreamer.TcpStream

universe u

/-- The options the receivers read. -/
structure Opt where
  bufNumElems : ℕ
  packetSize : ℕ
  offset : ℤ
  /-- `USE_LARGEST_TRANSAC` -/
  useLargestTransac : Bool
  packetSize_pos : 0 < packetSize

/-- `CALC_BUFSIZE_FROM_OPT`, an `unsigned long`. -/
def Opt.bufsize (o : Opt) : ℕ := (o.bufNumElems * (o.packetSize - o.offset) % 2 ^ 64 : ℤ).toNat

/-- The loops of `tcp_stream.c` over a single stream. -/
inductive Loop where
  | recv
  | splice
  deriving DecidableEq, Repr

/-- What a receiving loop has done. -/
structure Receiving (γ : Type u) where
  /-- `se->be`: the file of the buffer that is held. -/
  be : Option ℕ
  /-- The first `*buf_incrementer` bytes of the buffer. -/
  buf : List γ
  cumul : ℕ
  totalPackets : ℕ
  /-- `fi->n_packets` -/
  nPackets : ℕ
  /-- The files that were handed over, each cut to what was received. -/
  handed : List (ℕ × List γ)
  deriving DecidableEq, Repr

/-- How a run ends. -/
inductive Outcome (γ : Type u) where
  | returned (s : Receiving γ)
  /-- A buffer is used that is not held. -/
  | broken
  deriving DecidableEq, Repr

variable {γ : Type u}

namespace Receiving

/-- The first buffer was got. -/
def start : Receiving γ := ⟨some 0, [], 0, 0, 0, []⟩

/-- `set_ready_and_signal` on the buffer that is held. -/
def handOver (s : Receiving γ) (file : ℕ) : Receiving γ :=
  { s with be := none, handed := s.handed ++ [(file, s.buf)] }

/-- `change_buffer` from the buffer of `file`; `free` is whether `get_free` has another one. -/
def changeBuffer (o : Opt) (free : Bool) (file : ℕ) (s : Receiving γ) : Receiving γ :=
  let cumul := s.cumul + 1
  { s.handOver file with
    cumul := cumul
    totalPackets := s.totalPackets + o.bufNumElems
    nPackets := s.nPackets + o.bufNumElems
    be := if free then some cumul else none
    buf := if free then [] else s.buf }

/-- `cancel_writebuf`. -/
def cancelWritebuf (s : Receiving γ) : Receiving γ := { s with be := none, buf := [] }

/-- The statements after the loop. -/
def epilogue (l : Loop) (o : Opt) (s : Receiving γ) : Outcome γ :=
  match s.be with
  -- both branches go through `se->be`
  | none => .broken
  | some file =>
      let packets := s.buf.length / o.packetSize
      match l with
      | .recv =>
          if s.buf.length = 0 ∨ s.buf.length < o.packetSize then .returned s.cancelWritebuf
          else .returned
            { s.handOver file with
              nPackets := s.nPackets + packets
              cumul := s.cumul + 1
              totalPackets := s.totalPackets + packets }
      | .splice =>
          if s.buf.length = 0 then .returned s.cancelWritebuf
          else .returned
            { s.handOver file with
              nPackets := s.nPackets + packets
              cumul := s.cumul + 1 }

/-- `loop_with_recv` and `loop_with_splice`, from the first buffer on. -/
def loop (l : Loop) (o : Opt) : List (List γ × Bool) → Receiving γ → Outcome γ
  | [], s => s.epilogue l o
  | (bytes, free) :: chunks, s =>
      let s := { s with buf := s.buf ++ bytes }
      match s.be with
      | none => .broken
      | some file =>
          if s.buf.length = o.bufsize then
            let s := s.changeBuffer o free file
            if s.be = none then s.epilogue l o else loop l o chunks s
          else loop l o chunks s

end Receiving

/-- The loop with the `get_free` before it: without a buffer nothing is received. -/
def receive (l : Loop) (o : Opt) (first : Bool) (chunks : List (List γ × Bool)) : Outcome γ :=
  if first then Receiving.start.loop l o chunks
  else .returned { (Receiving.start : Receiving γ) with be := none }

/-! ## What the network delivers -/

/-- How many bytes a loop asks for when `inc` are in the buffer. -/
def Loop.requested (l : Loop) (o : Opt) (inc : ℕ) : ℕ :=
  match l with
  | .recv => if o.useLargestTransac then o.bufsize - inc else min o.packetSize (o.bufsize - inc)
  | .splice => o.bufsize - inc

/-- No chunk is empty or more than was asked for, with `inc` bytes in the buffer. -/
def Answers (l : Loop) (o : Opt) : ℕ → List (List γ × Bool) → Prop
  | _, [] => True
  | inc, (bytes, _) :: chunks =>
      0 < bytes.length ∧ bytes.length ≤ l.requested o inc ∧
        Answers l o ((inc + bytes.length) % o.bufsize) chunks

/-- `get_free` has a buffer whenever one is full. -/
def BuffersLast (o : Opt) : ℕ → List (List γ × Bool) → Prop
  | _, [] => True
  | inc, (bytes, free) :: chunks =>
      (inc + bytes.length = o.bufsize → free = true) ∧
        BuffersLast o ((inc + bytes.length) % o.bufsize) chunks

/-- The bytes that come. -/
def stream (chunks : List (List γ × Bool)) : List γ := (chunks.map Prod.fst).flatten

/-- The files are the beginning of the stream, every one is handed over once, and the
counts are right; an item of a file has `unit` bytes. -/
structure Accounted (o : Opt) (unit : ℕ) (received : List γ) (s : Receiving γ) : Prop where
  begins : (s.handed.map Prod.snd).flatten <+: received
  files : s.handed.map Prod.fst = List.range s.cumul
  total : s.totalPackets = unit * ((s.handed.map Prod.snd).flatten).length / o.packetSize
  index : s.nPackets = unit * ((s.handed.map Prod.snd).flatten).length / o.packetSize

/-! ## The invariant of the loop -/

/-- The loop has handed over full buffers only and holds the next one. -/
structure Filling (o : Opt) (received : List γ) (s : Receiving γ) : Prop where
  be : s.be = some s.cumul
  total : s.totalPackets = s.cumul * o.bufNumElems
  index : s.nPackets = s.cumul * o.bufNumElems
  files : s.handed.map Prod.fst = List.range s.cumul
  content : received = (s.handed.map Prod.snd).flatten ++ s.buf
  full : ((s.handed.map Prod.snd).flatten).length = s.cumul * o.bufsize
  room : s.buf.length ≠ 0 → s.buf.length < o.bufsize
  positive : s.cumul ≠ 0 → 0 < o.bufsize

variable {l : Loop} {o : Opt} {received bytes : List γ} {s : Receiving γ}
  {chunks : List (List γ × Bool)} {free : Bool}

theorem Loop.requested_le (l : Loop) (o : Opt) (inc : ℕ) : l.requested o inc ≤ o.bufsize - inc := by
  cases l with
  | recv =>
      show (if o.useLargestTransac then _ else _) ≤ _
      split
      · exact le_refl _
      · exact Nat.min_le_right _ _
  | splice => exact le_refl (o.bufsize - inc)

namespace Receiving

variable {file : ℕ}

theorem loop_full (hbe : s.be = some file) (hfull : s.buf.length + bytes.length = o.bufsize) :
    s.loop l o ((bytes, true) :: chunks) =
      (({ s with buf := s.buf ++ bytes } : Receiving γ).changeBuffer o true file).loop l o
        chunks := by
  rw [loop]
  simp only [hbe, List.length_append]
  rw [if_pos hfull, if_neg (by simp [changeBuffer])]

theorem loop_noBuffer (hbe : s.be = some file) (hfull : s.buf.length + bytes.length = o.bufsize) :
    s.loop l o ((bytes, false) :: chunks) = .broken := by
  rw [loop]
  simp only [hbe, List.length_append]
  rw [if_pos hfull, if_pos (by simp [changeBuffer])]
  rfl

theorem loop_room (hbe : s.be = some file) (hroom : s.buf.length + bytes.length ≠ o.bufsize) :
    s.loop l o ((bytes, free) :: chunks) =
      ({ s with buf := s.buf ++ bytes } : Receiving γ).loop l o chunks := by
  rw [loop]
  simp only [hbe, List.length_append]
  rw [if_neg hroom]

end Receiving

namespace Filling

theorem start (o : Opt) : Filling o ([] : List γ) Receiving.start :=
  ⟨rfl, by simp [Receiving.start], by simp [Receiving.start], rfl, rfl, by simp [Receiving.start],
    by simp [Receiving.start], by simp [Receiving.start]⟩

/-- A chunk goes into the buffer. -/
theorem chunk (h : Filling o received s) (hroom : s.buf.length + bytes.length < o.bufsize) :
    Filling o (received ++ bytes) { s with buf := s.buf ++ bytes } :=
  { h with
    content := by rw [h.content, List.append_assoc]
    room := fun _ => by simpa using hroom }

/-- A chunk fills the buffer, and there is another one. -/
theorem change (h : Filling o received s) (hpos : 0 < o.bufsize)
    (hfull : s.buf.length + bytes.length = o.bufsize) :
    Filling o (received ++ bytes)
      (({ s with buf := s.buf ++ bytes } : Receiving γ).changeBuffer o true s.cumul) where
  be := rfl
  total := by
    show s.totalPackets + o.bufNumElems = (s.cumul + 1) * o.bufNumElems
    rw [h.total, Nat.succ_mul]
  index := by
    show s.nPackets + o.bufNumElems = (s.cumul + 1) * o.bufNumElems
    rw [h.index, Nat.succ_mul]
  files := by
    show (s.handed ++ [(s.cumul, s.buf ++ bytes)]).map Prod.fst = List.range (s.cumul + 1)
    rw [List.map_append, h.files, List.range_succ]
    rfl
  content := by
    show _ = ((s.handed ++ [(s.cumul, s.buf ++ bytes)]).map Prod.snd).flatten ++ []
    simp [h.content]
  full := by
    show ((s.handed ++ [(s.cumul, s.buf ++ bytes)]).map Prod.snd).flatten.length =
      (s.cumul + 1) * o.bufsize
    rw [List.map_append, List.flatten_append, List.length_append, h.full, Nat.succ_mul]
    simpa using hfull
  room := fun hne => absurd rfl hne
  positive := fun _ => hpos

/-- How many buffers are full and how much is in the next one. -/
theorem lengths (h : Filling o received s) :
    s.cumul = received.length / o.bufsize ∧ s.buf.length = received.length % o.bufsize := by
  have hlen : received.length = o.bufsize * s.cumul + s.buf.length := by
    rw [h.content, List.length_append, h.full, Nat.mul_comm]
  rw [hlen]
  rcases Nat.eq_zero_or_pos o.bufsize with hzero | hpos
  · have hcumul : s.cumul = 0 := by
      by_contra hne
      have := h.positive hne
      omega
    have hbuf : s.buf.length = 0 := by
      by_contra hne
      have := h.room hne
      omega
    simp [hzero, hcumul, hbuf]
  · have hlt : s.buf.length < o.bufsize := by
      rcases Nat.eq_zero_or_pos s.buf.length with hnone | hsome
      · omega
      · exact h.room (by omega)
    rw [Nat.mul_add_div hpos, Nat.div_eq_of_lt hlt, Nat.mul_add_mod, Nat.mod_eq_of_lt hlt]
    exact ⟨by omega, rfl⟩

/-- The loop over chunks that are answers to it. -/
theorem loop (h : Filling o received s) (hanswers : Answers l o s.buf.length chunks) :
    (BuffersLast o s.buf.length chunks →
      ∃ s', s.loop l o chunks = s'.epilogue l o ∧ Filling o (received ++ stream chunks) s') ∧
    (¬ BuffersLast o s.buf.length chunks → s.loop l o chunks = .broken) := by
  induction chunks generalizing received s with
  | nil => exact ⟨fun _ => ⟨s, rfl, by simpa [stream] using h⟩, fun hno => absurd trivial hno⟩
  | cons chunk chunks ih =>
      obtain ⟨bytes, free⟩ := chunk
      obtain ⟨hpos, hle, hrest⟩ := hanswers
      have hasked := Nat.le_trans hle (l.requested_le o s.buf.length)
      have hstream : received ++ stream ((bytes, free) :: chunks) =
          (received ++ bytes) ++ stream chunks := by
        simp [stream]
      rw [hstream, BuffersLast]
      by_cases hfull : s.buf.length + bytes.length = o.bufsize
      · have hmod : (s.buf.length + bytes.length) % o.bufsize = 0 := by rw [hfull, Nat.mod_self]
        rw [hmod] at hrest ⊢
        cases free with
        | true =>
            rw [Receiving.loop_full h.be hfull]
            obtain ⟨hok, hbad⟩ := ih (h.change (by omega) hfull) hrest
            exact ⟨fun hlast => hok hlast.2, fun hno => hbad fun hl => hno ⟨fun _ => rfl, hl⟩⟩
        | false =>
            rw [Receiving.loop_noBuffer h.be hfull]
            exact ⟨fun hlast => (Bool.false_ne_true (hlast.1 hfull)).elim, fun _ => rfl⟩
      · have hlt : s.buf.length + bytes.length < o.bufsize := by omega
        have hlen : ({ s with buf := s.buf ++ bytes } : Receiving γ).buf.length =
            s.buf.length + bytes.length := List.length_append
        rw [Nat.mod_eq_of_lt hlt, ← hlen] at hrest ⊢
        rw [Receiving.loop_room h.be hfull]
        obtain ⟨hok, hbad⟩ := ih (h.chunk hlt) hrest
        rw [hlen] at hok hbad ⊢
        exact ⟨fun hlast => hok hlast.2, fun hno => hbad fun hl =>
          hno ⟨fun heq => absurd heq hfull, hl⟩⟩

end Filling

/-! ## When the counts are right -/

/-- `full` buffers, each counted as `buf_num_elems` packets, and `last` bytes more have as
many packets as their bytes make. -/
def CountsBytes (o : Opt) (full last : ℕ) : Prop :=
  full * o.bufNumElems * o.packetSize ≤ full * o.bufsize + last % o.packetSize ∧
    full * o.bufsize + last % o.packetSize < full * o.bufNumElems * o.packetSize + o.packetSize

theorem countsBytes_iff (o : Opt) (full last : ℕ) : CountsBytes o full last ↔
    full * o.bufNumElems + last / o.packetSize = (full * o.bufsize + last) / o.packetSize := by
  have hdiv := Nat.div_add_mod last o.packetSize
  have hpos := o.packetSize_pos
  rw [eq_comm, Nat.div_eq_iff hpos, Nat.add_mul, Nat.mul_comm (last / o.packetSize)]
  unfold CountsBytes
  omega

/-- Where no bytes are stripped the counts are always right. -/
theorem countsBytes_of_bufsize (h : o.bufsize = o.bufNumElems * o.packetSize) (full last : ℕ) :
    CountsBytes o full last := by
  have hlt := Nat.mod_lt last o.packetSize_pos
  rw [CountsBytes, h, Nat.mul_assoc]
  omega

/-- The bytes that `loop_with_recv` hands over at the end. -/
def recvLast (o : Opt) (left : ℕ) : ℕ := if left < o.packetSize then 0 else left

/-- Whether the last buffer is given back or handed over, the files are right; the counts
have to agree with the bytes. -/
theorem Filling.accounted_iff (h : Filling o received s) {last : List γ} {s' : Receiving γ}
    (hbegins : last <+: s.buf) (hcontent : (s'.handed.map Prod.snd).flatten =
      (s.handed.map Prod.snd).flatten ++ last)
    (hfiles : s'.handed.map Prod.fst = List.range s'.cumul) :
    Accounted o 1 received s' ↔
      s'.totalPackets = (s.cumul * o.bufsize + last.length) / o.packetSize ∧
      s'.nPackets = (s.cumul * o.bufsize + last.length) / o.packetSize := by
  have hlen : 1 * ((s'.handed.map Prod.snd).flatten).length =
      s.cumul * o.bufsize + last.length := by
    rw [Nat.one_mul, hcontent, List.length_append, h.full]
  have hbegins : (s'.handed.map Prod.snd).flatten <+: received := by
    rw [hcontent, h.content]
    exact (List.prefix_append_right_inj _).mpr hbegins
  constructor
  · rintro ⟨-, -, htotal, hindex⟩
    exact ⟨hlen ▸ htotal, hlen ▸ hindex⟩
  · rintro ⟨htotal, hindex⟩
    exact ⟨hbegins, hfiles, hlen ▸ htotal, hlen ▸ hindex⟩

/-- The files of a loop that hands over its last buffer. -/
theorem Filling.files_handOver (h : Filling o received s) :
    (s.handed ++ [(s.cumul, s.buf)]).map Prod.fst = List.range (s.cumul + 1) := by
  rw [List.map_append, h.files, List.range_succ]
  rfl

/-- The end of `loop_with_recv`. -/
theorem Filling.recv_epilogue_iff (h : Filling o received s) :
    (∃ s', s.epilogue .recv o = .returned s' ∧ Accounted o 1 received s') ↔
      CountsBytes o s.cumul (recvLast o s.buf.length) := by
  rw [countsBytes_iff, recvLast]
  unfold Receiving.epilogue
  simp only [h.be]
  by_cases hlt : s.buf.length < o.packetSize
  · rw [if_pos (.inr hlt), if_pos hlt]
    have hiff := @Filling.accounted_iff _ _ _ _ h _ s.cancelWritebuf (List.nil_prefix)
      (by simp [Receiving.cancelWritebuf]) h.files
    simp only [Outcome.returned.injEq, exists_eq_left', hiff, Nat.zero_div]
    exact ⟨fun hand => h.total ▸ hand.1, fun heq => ⟨h.total.trans heq, h.index.trans heq⟩⟩
  · have hzero : s.buf.length ≠ 0 := fun hz => hlt (hz ▸ o.packetSize_pos)
    rw [if_neg (not_or.mpr ⟨hzero, hlt⟩), if_neg hlt]
    simp only [Outcome.returned.injEq, exists_eq_left']
    rw [h.accounted_iff (List.prefix_refl s.buf) (by simp [Receiving.handOver]) h.files_handOver,
      ← h.total]
    exact ⟨fun hand => hand.1, fun heq => ⟨heq, by rw [h.index, ← h.total]; exact heq⟩⟩

/-- The end of `loop_with_splice`: the last packets are not added to `total_packets`. -/
theorem Filling.splice_epilogue_iff (h : Filling o received s) :
    (∃ s', s.epilogue .splice o = .returned s' ∧ Accounted o 1 received s') ↔
      s.buf.length < o.packetSize ∧ CountsBytes o s.cumul s.buf.length := by
  have hcounts : (s.totalPackets = (s.cumul * o.bufsize + s.buf.length) / o.packetSize ∧
      s.nPackets + s.buf.length / o.packetSize =
        (s.cumul * o.bufsize + s.buf.length) / o.packetSize) ↔
      s.buf.length < o.packetSize ∧ CountsBytes o s.cumul s.buf.length := by
    rw [countsBytes_iff, h.total, h.index, ← Nat.div_eq_zero_iff_lt o.packetSize_pos]
    omega
  rw [← hcounts]
  unfold Receiving.epilogue
  simp only [h.be]
  by_cases hzero : s.buf.length = 0
  · rw [if_pos hzero]
    have hiff := @Filling.accounted_iff _ _ _ _ h _ s.cancelWritebuf (List.nil_prefix)
      (by simp [Receiving.cancelWritebuf]) h.files
    simp only [Outcome.returned.injEq, exists_eq_left', hiff, hzero, Nat.zero_div]
    exact Iff.rfl
  · rw [if_neg hzero]
    simp only [Outcome.returned.injEq, exists_eq_left']
    rw [h.accounted_iff (List.prefix_refl s.buf) (by simp [Receiving.handOver]) h.files_handOver]
    exact Iff.rfl

/-- Without a first buffer nothing is received and nothing handed over. -/
theorem accounted_noBuffer (o : Opt) (unit : ℕ) (received : List γ) :
    Accounted o unit received { (Receiving.start : Receiving γ) with be := none } :=
  ⟨List.nil_prefix, rfl, by simp [Receiving.start], by simp [Receiving.start]⟩

/-- What the last statements need of the bytes that are left, after `full` buffers. -/
def EndsWell (l : Loop) (o : Opt) (full left : ℕ) : Prop :=
  match l with
  | .recv => CountsBytes o full (recvLast o left)
  | .splice => left < o.packetSize ∧ CountsBytes o full left

/-- The end of either loop. -/
theorem Filling.epilogue_iff (h : Filling o received s) :
    (∃ s', s.epilogue l o = .returned s' ∧ Accounted o 1 received s') ↔
      EndsWell l o (received.length / o.bufsize) (received.length % o.bufsize) := by
  obtain ⟨hfull, hleft⟩ := h.lengths
  rw [← hfull, ← hleft]
  cases l with
  | recv => exact h.recv_epilogue_iff
  | splice => exact h.splice_epilogue_iff

/-- A loop over a single stream accounts for what it receives exactly if it gets its
buffers, the full ones have as many bytes as they count packets, and the last statements
can do with what is left. -/
theorem receive_accounted_iff {first : Bool} (hanswers : Answers l o 0 chunks) :
    (∃ s, receive l o first chunks = .returned s ∧ Accounted o 1 (stream chunks) s) ↔
      (first = true → BuffersLast o 0 chunks ∧
        EndsWell l o ((stream chunks).length / o.bufsize)
          ((stream chunks).length % o.bufsize)) := by
  cases first with
  | false =>
      refine ⟨fun _ hno => absurd hno Bool.false_ne_true, fun _ => ?_⟩
      exact ⟨_, rfl, accounted_noBuffer o 1 (stream chunks)⟩
  | true =>
      obtain ⟨hok, hbad⟩ := (Filling.start o : Filling o ([] : List γ) _).loop hanswers
      rw [forall_prop_of_true rfl]
      by_cases hlast : BuffersLast o 0 chunks
      · obtain ⟨s, heq, hfill⟩ := hok hlast
        have hend := hfill.epilogue_iff (l := l)
        rw [← heq] at hend
        exact hend.trans (and_iff_right hlast).symm
      · refine iff_of_false ?_ fun hno => hlast hno.1
        rintro ⟨s, hs, -⟩
        rw [receive, if_pos rfl, hbad hlast] at hs
        cases hs

/-- With whole packets in the buffers, `loop_with_recv` needs only its buffers. -/
theorem recv_accounted_iff {first : Bool} (hwhole : o.bufsize = o.bufNumElems * o.packetSize)
    (hanswers : Answers .recv o 0 chunks) :
    (∃ s, receive .recv o first chunks = .returned s ∧ Accounted o 1 (stream chunks) s) ↔
      (first = true → BuffersLast o 0 chunks) := by
  rw [receive_accounted_iff hanswers]
  exact forall_congr' fun _ => and_iff_left (countsBytes_of_bufsize hwhole _ _)

end VlbiStreamer.TcpStream
