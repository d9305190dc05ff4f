import VlbiStreamer.Library.Packets
import VlbiStreamer.Library.Variant
import VlbiStreamer.SpliceToNet.Pipe

/-!
# What the splicing tool sends

`Inv` says where every byte of the file is, whatever fails and in whatever order the two
processes go on.  Without the counter the datagrams are the whole packets of the file, if a
packet has more than one byte (`sends_packets`); with it no counter is ever sent, and every
packet costs the file up to eight bytes that are not sent (`counter_eats`).  The tool always
comes to its end (`completes`).
-/

namespace VlbiStreamer.SpliceToNet

open Library

namespace Tool

variable (o : Options) (s : Tool)

/-- What may have been moved out of the pipe before a datagram. -/
def Eats (eaten : List Byte) : Prop :=
  eaten.length ≤ 8 ∧ (o.doCounter = false → eaten = [])

/-- How much of the packet the socket holds back. -/
def Corks : Prop :=
  match s.sink with
  | .counting => s.eaten = [] ∧ s.corked = [] ∧ s.totransfer = o.packetSize - 1 ∧
      o.doCounter = true
  | .splicing => s.corked.length + s.totransfer = o.packetSize - 1 ∧
      (s.totransfer = 0 → o.packetSize = 1)
  | .finishing => s.corked.length + 1 = o.packetSize ∧ 1 < o.packetSize
  | .returned => s.corked.length < o.packetSize

/-- **The invariant**: where the bytes of the file are. -/
structure Inv : Prop where
  content : o.file =
    (s.sent.flatMap fun p => p.1 ++ p.2) ++ (s.eaten ++ (s.corked ++ (s.pipe ++ s.rest)))
  size : ∀ p ∈ s.sent, p.2.length = o.packetSize ∧ Eats o p.1
  eats : Eats o s.eaten
  corks : s.Corks o
  /-- Packets of one byte are not sent. -/
  single : o.packetSize = 1 → s.sent = [] ∧ s.corked = []

end Tool

namespace Options

open Tool

variable {o : Options} {s t : Tool} {a : Action}

theorem eats_nil : Eats o [] := ⟨Nat.zero_le _, fun _ => rfl⟩

/-- At the start of a packet. -/
theorem corks_packetStart (hsink : s.sink = o.packetStart) (heaten : s.eaten = [])
    (hcorked : s.corked = []) (htotransfer : s.totransfer = o.packetSize - 1) :
    s.Corks o := by
  have hpos := o.packetSize_pos
  unfold packetStart at hsink
  cases hcounter : o.doCounter with
  | true =>
      rw [hcounter, if_pos rfl] at hsink
      simp only [Corks, hsink]
      exact ⟨heaten, hcorked, htotransfer, hcounter⟩
  | false =>
      rw [hcounter, if_neg Bool.false_ne_true] at hsink
      simp only [Corks, hsink, hcorked, htotransfer, List.length_nil, Nat.zero_add]
      exact ⟨trivial, fun hzero => by omega⟩

/-- After the call of `vmsplice`. -/
theorem corks_counted (hcorked : s.corked = []) (htotransfer : s.totransfer = o.packetSize - 1)
    (hsink : s.sink = .splicing) : s.Corks o := by
  have hpos := o.packetSize_pos
  simp only [Corks, hsink, hcorked, htotransfer, List.length_nil, Nat.zero_add]
  exact ⟨trivial, fun hzero => by omega⟩

theorem started_inv : o.started.Inv o where
  content := rfl
  size := fun _ hp => absurd hp List.not_mem_nil
  eats := eats_nil
  corks := corks_packetStart rfl rfl rfl rfl
  single := fun _ => ⟨rfl, rfl⟩

/-- A step keeps the invariant. -/
theorem inv_step (h : s.Inv o) (hstep : o.next s a = some t) : t.Inv o := by
  obtain ⟨hcontent, hsize, heats, hcorks, hsingle⟩ := h
  cases a with
  | read n =>
      simp only [next, Option.ite_some_none_eq_some] at hstep
      obtain ⟨-, rfl⟩ := hstep
      refine ⟨?_, hsize, heats, hcorks, hsingle⟩
      rw [hcontent, List.append_assoc, List.take_append_drop]
  | readEnd =>
      simp only [next, Option.ite_some_none_eq_some] at hstep
      obtain ⟨-, rfl⟩ := hstep
      exact ⟨hcontent, hsize, heats, hcorks, hsingle⟩
  | readFails =>
      simp only [next, Option.ite_some_none_eq_some] at hstep
      obtain ⟨-, rfl⟩ := hstep
      exact ⟨hcontent, hsize, heats, hcorks, hsingle⟩
  | killed =>
      simp only [next, Option.ite_some_none_eq_some] at hstep
      obtain ⟨-, rfl⟩ := hstep
      exact ⟨hcontent, hsize, heats, hcorks, hsingle⟩
  | vmsplice n =>
      simp only [next, Option.ite_some_none_eq_some] at hstep
      obtain ⟨⟨hsink, hpos, hle, hpipe⟩, rfl⟩ := hstep
      simp only [Corks, hsink] at hcorks
      obtain ⟨heaten, hcorked, htotransfer, hcounter⟩ := hcorks
      refine ⟨?_, hsize, ⟨?_, ?_⟩, corks_counted hcorked htotransfer rfl, hsingle⟩
      · rw [hcontent, heaten, hcorked, List.nil_append, List.nil_append, List.nil_append,
          List.nil_append, ← List.append_assoc (s.pipe.take n), List.take_append_drop]
      · rw [heaten, List.nil_append, List.length_take]
        omega
      · exact fun hfalse => absurd hcounter (Bool.eq_false_iff.mp hfalse)
  | vmspliceEnd =>
      simp only [next, Option.ite_some_none_eq_some] at hstep
      obtain ⟨⟨hsink, -⟩, rfl⟩ := hstep
      simp only [Corks, hsink] at hcorks
      exact ⟨hcontent, hsize, heats, corks_counted hcorks.2.1 hcorks.2.2.1 rfl, hsingle⟩
  | vmspliceFails =>
      simp only [next, Option.ite_some_none_eq_some] at hstep
      obtain ⟨hsink, rfl⟩ := hstep
      simp only [Corks, hsink] at hcorks
      exact ⟨hcontent, hsize, heats, corks_counted hcorks.2.1 hcorks.2.2.1 rfl, hsingle⟩
  | splice n =>
      simp only [next, Option.ite_some_none_eq_some] at hstep
      obtain ⟨⟨hsink, hpos, hle, hpipe⟩, rfl⟩ := hstep
      simp only [Corks, hsink] at hcorks
      obtain ⟨hlength, -⟩ := hcorks
      have htake : (s.pipe.take n).length = n := List.length_take_of_le hpipe
      refine ⟨?_, hsize, heats, ?_, ?_⟩
      · rw [hcontent, List.append_assoc s.corked, ← List.append_assoc (s.pipe.take n),
          List.take_append_drop]
      · by_cases hzero : s.totransfer - n = 0
        · simp only [Corks, if_pos hzero, List.length_append, htake]
          omega
        · simp only [Corks, if_neg hzero, List.length_append, htake]
          exact ⟨by omega, fun h => absurd h hzero⟩
      · intro hone
        omega
  | spliceEnd =>
      simp only [next, Option.ite_some_none_eq_some] at hstep
      obtain ⟨⟨hsink, -⟩, rfl⟩ := hstep
      simp only [Corks, hsink] at hcorks
      have hsize' := o.packetSize_pos
      refine ⟨hcontent, hsize, heats, ?_, hsingle⟩
      simp only [Corks]
      omega
  | finish =>
      simp only [next, Option.ite_some_none_eq_some] at hstep
      obtain ⟨⟨hsink, hpipe⟩, rfl⟩ := hstep
      simp only [Corks, hsink] at hcorks
      obtain ⟨hlength, hone⟩ := hcorks
      refine ⟨?_, ?_, eats_nil, corks_packetStart rfl rfl rfl rfl, ?_⟩
      · rw [hcontent, List.flatMap_append, List.flatMap_singleton]
        simp only [List.append_assoc, List.nil_append]
        rw [← List.append_assoc (s.pipe.take 1), List.take_append_drop]
      · intro p hp
        obtain hp | hp := List.mem_append.mp hp
        · exact hsize p hp
        · obtain rfl := List.mem_singleton.mp hp
          refine ⟨?_, heats⟩
          rw [List.length_append, List.length_take_of_le (List.length_pos_of_ne_nil hpipe)]
          exact hlength
      · intro hsize'
        omega
  | finishEnd =>
      simp only [next, Option.ite_some_none_eq_some] at hstep
      obtain ⟨⟨hsink, -⟩, rfl⟩ := hstep
      simp only [Corks, hsink] at hcorks
      refine ⟨hcontent, hsize, heats, ?_, hsingle⟩
      simp only [Corks]
      omega
  | sendFails =>
      simp only [next, Option.ite_some_none_eq_some] at hstep
      obtain ⟨hsink, rfl⟩ := hstep
      have hpos := o.packetSize_pos
      refine ⟨hcontent, hsize, heats, ?_, hsingle⟩
      obtain hsink | hsink := hsink
      · simp only [Corks, hsink] at hcorks ⊢
        omega
      · simp only [Corks, hsink] at hcorks ⊢
        omega

/-- What holds along every run. -/
theorem inv_of_reachable (h : o.system.Reachable s) : s.Inv o := by
  refine h.invariant ?_ ?_
  · rintro s rfl
    exact started_inv
  · exact fun s a t hinv hstep => inv_step hinv hstep

/-! ## Without the counter -/

/-- The datagrams, without the counter, are what the file begins with. -/
theorem content_eq_datagrams (h : s.Inv o) (hcounter : o.doCounter = false) :
    o.file = s.datagrams.flatten ++ (s.corked ++ (s.pipe ++ s.rest)) := by
  have hsent : (s.sent.flatMap fun p => p.1 ++ p.2) = s.datagrams.flatten := by
    rw [List.flatMap_def, datagrams]
    congr 1
    refine List.map_congr_left fun p hp => ?_
    rw [(h.size p hp).2.2 hcounter, List.nil_append]
  calc o.file = _ := h.content
    _ = _ := by rw [hsent, h.eats.2 hcounter, List.nil_append]

theorem datagrams_length (h : s.Inv o) : ∀ d ∈ s.datagrams, d.length = o.packetSize := by
  intro d hd
  obtain ⟨p, hp, rfl⟩ := List.mem_map.mp hd
  exact (h.size p hp).1

/-- **Nothing is sent out of order**: whatever fails, the datagrams are the first packets of
the file, and a tool with packets of one byte sends nothing. -/
theorem sends_first_packets (hcounter : o.doCounter = false) (h : o.system.Reachable s) :
    s.datagrams <+: packets o.packetSize o.file ∧ (o.packetSize = 1 → o.delivered s = []) := by
  have hinv := inv_of_reachable h
  refine ⟨?_, fun hone => ?_⟩
  · rw [content_eq_datagrams hinv hcounter]
    exact prefix_packets o.packetSize_pos (datagrams_length hinv) _
  · obtain ⟨hsent, hcorked⟩ := hinv.single hone
    rw [delivered, datagrams, hsent, hcorked, ite_self]
    rfl

/-- Seven bytes in packets of three, over TCP. -/
def sevenBytes : Options where
  packetSize := 3
  maxbytesInpipe := 6
  doCounter := false
  tcp := true
  file := [1, 2, 3, 4, 5, 6, 7]
  packetSize_pos := Nat.succ_pos 2
  packetSize_le := by decide
  maxbytesInpipe_pos := Nat.succ_pos 5

/-- The same in packets of one byte. -/
def oneByte : Options where
  packetSize := 1
  maxbytesInpipe := 6
  doCounter := false
  tcp := true
  file := [1, 2, 3, 4, 5, 6, 7]
  packetSize_pos := Nat.one_pos
  packetSize_le := Nat.le_add_left 1 65535
  maxbytesInpipe_pos := Nat.succ_pos 5

/-- The socket fails in the second packet; and with packets of one byte nothing is sent. -/
theorem sends_first_packets_sevenBytes :
    (∃ s, sevenBytes.system.Reachable s ∧ s.sink = .returned ∧ s.datagrams.length = 1 ∧
      s.datagrams <+: packets 3 [1, 2, 3, 4, 5, 6, 7]) ∧
    ∃ s, oneByte.system.Reachable s ∧ s.Ended ∧ oneByte.delivered s = [] := by
  constructor
  · have hrun : (System.runFrom sevenBytes.next sevenBytes.started
        [.read 4, .splice 2, .finish, .splice 1, .sendFails]).map
        (fun s => (s.sink, s.datagrams.length)) = some (.returned, 1) := by decide +kernel
    obtain ⟨s, hs, hended⟩ := Option.map_eq_some_iff.mp hrun
    have hreach := (System.Reachable.init (M := sevenBytes.system) rfl).runFrom hs
    exact ⟨s, hreach, congrArg (·.1) hended, congrArg (·.2) hended,
      (sends_first_packets rfl hreach).1⟩
  · have hrun : (System.runFrom oneByte.next oneByte.started [.read 4, .spliceEnd, .killed]).map
        (fun s => (s.source, s.sink)) = some (.returned, .returned) := by decide +kernel
    obtain ⟨s, hs, hended⟩ := Option.map_eq_some_iff.mp hrun
    have hreach := (System.Reachable.init (M := oneByte.system) rfl).runFrom hs
    exact ⟨s, hreach, ⟨congrArg (·.1) hended, congrArg (·.2) hended⟩,
      (sends_first_packets rfl hreach).2 rfl⟩

/-- What ends while no call fails has moved the whole file. -/
structure Moves (o : Options) (s : Tool) : Prop extends Inv o s where
  source : s.source = .returned → s.rest = [] ∨ s.sink = .returned
  sink : s.sink = .returned → o.packetSize = 1 ∨ (s.pipe = [] ∧ s.rest = [])

theorem packetStart_ne_returned : o.packetStart ≠ .returned := by
  unfold packetStart
  split_ifs <;> exact SinkAt.noConfusion

theorem started_moves : Moves o o.started where
  toInv := started_inv
  source := fun hsource => SourceAt.noConfusion hsource
  sink := fun hsink => absurd hsink packetStart_ne_returned

/-- While the parent goes on, the child has only ended if it has read the file. -/
theorem Moves.source_rest (h : Moves o s) (hsink : s.sink ≠ .returned)
    (hsource : s.source = .returned) : s.rest = [] :=
  (h.source hsource).resolve_right hsink

/-- What is dry while the parent goes on has moved the whole file. -/
theorem Moves.of_dry (h : Moves o s) (hdry : s.Dry) (hsink : s.sink ≠ .returned) :
    s.pipe = [] ∧ s.rest = [] :=
  ⟨hdry.1, h.source_rest hsink hdry.2⟩

/-- A step that does not fail keeps it so. -/
theorem moves_step (h : Moves o s) (ha : a.Succeeds) (hstep : o.next s a = some t) :
    Moves o t := by
  have hinv := inv_step h.toInv hstep
  cases a with
  | read n =>
      simp only [next, Option.ite_some_none_eq_some] at hstep
      obtain ⟨⟨hsource, hsink, -⟩, rfl⟩ := hstep
      exact ⟨hinv, fun hreturned => SourceAt.noConfusion (hsource.symm.trans hreturned),
        fun hreturned => absurd hreturned hsink⟩
  | readEnd =>
      simp only [next, Option.ite_some_none_eq_some] at hstep
      obtain ⟨⟨-, hrest⟩, rfl⟩ := hstep
      exact ⟨hinv, fun _ => .inl hrest, h.sink⟩
  | readFails => exact ha.elim
  | killed =>
      simp only [next, Option.ite_some_none_eq_some] at hstep
      obtain ⟨⟨-, hsink⟩, rfl⟩ := hstep
      exact ⟨hinv, fun _ => .inr hsink, h.sink⟩
  | vmsplice n =>
      simp only [next, Option.ite_some_none_eq_some] at hstep
      obtain ⟨⟨hsink, -⟩, rfl⟩ := hstep
      have hgoes : s.sink ≠ .returned := by simp [hsink]
      exact ⟨hinv, fun hsource => .inl (h.source_rest hgoes hsource), SinkAt.noConfusion⟩
  | vmspliceEnd =>
      simp only [next, Option.ite_some_none_eq_some] at hstep
      obtain ⟨⟨hsink, -⟩, rfl⟩ := hstep
      have hgoes : s.sink ≠ .returned := by simp [hsink]
      exact ⟨hinv, fun hsource => .inl (h.source_rest hgoes hsource), SinkAt.noConfusion⟩
  | vmspliceFails => exact ha.elim
  | splice n =>
      simp only [next, Option.ite_some_none_eq_some] at hstep
      obtain ⟨⟨hsink, -⟩, rfl⟩ := hstep
      have hgoes : s.sink ≠ .returned := by simp [hsink]
      refine ⟨hinv, fun hsource => .inl (h.source_rest hgoes hsource), fun hreturned => ?_⟩
      by_cases hzero : s.totransfer - n = 0
      · exact SinkAt.noConfusion ((if_pos hzero).symm.trans hreturned)
      · exact SinkAt.noConfusion ((if_neg hzero).symm.trans hreturned)
  | spliceEnd =>
      simp only [next, Option.ite_some_none_eq_some] at hstep
      obtain ⟨⟨hsink, hend⟩, rfl⟩ := hstep
      have hgoes : s.sink ≠ .returned := by simp [hsink]
      refine ⟨hinv, fun _ => .inr rfl, fun _ => ?_⟩
      obtain hzero | hdry := hend
      · have hcorks := h.corks
        simp only [Corks, hsink] at hcorks
        exact .inl (hcorks.2 hzero)
      · exact .inr (h.of_dry hdry hgoes)
  | finish =>
      simp only [next, Option.ite_some_none_eq_some] at hstep
      obtain ⟨⟨hsink, -⟩, rfl⟩ := hstep
      have hgoes : s.sink ≠ .returned := by simp [hsink]
      exact ⟨hinv, fun hsource => .inl (h.source_rest hgoes hsource),
        fun hreturned => absurd hreturned packetStart_ne_returned⟩
  | finishEnd =>
      simp only [next, Option.ite_some_none_eq_some] at hstep
      obtain ⟨⟨hsink, hdry⟩, rfl⟩ := hstep
      have hgoes : s.sink ≠ .returned := by simp [hsink]
      exact ⟨hinv, fun _ => .inr rfl, fun _ => .inr (h.of_dry hdry hgoes)⟩
  | sendFails => exact ha.elim

theorem moves_of_reachable (h : o.system.ReachableUnder (fun _ a => a.Succeeds) s) :
    Moves o s := by
  refine h.invariant ?_ ?_
  · rintro s rfl
    exact started_moves
  · exact fun s a t hmoves ha hstep => moves_step hmoves ha hstep

/-- **The whole packets of the file are sent**, one datagram each, and over TCP the whole
file is. -/
theorem sends_packets (hcounter : o.doCounter = false) (hsize : 1 < o.packetSize)
    (h : o.system.ReachableUnder (fun _ a => a.Succeeds) s) (hended : s.Ended) :
    s.datagrams = packets o.packetSize o.file ∧
      o.delivered s = if o.tcp then o.file else (packets o.packetSize o.file).flatten := by
  have hmoves := moves_of_reachable h
  obtain hone | ⟨hpipe, hrest⟩ := hmoves.sink hended.2
  · omega
  have hfile := content_eq_datagrams hmoves.toInv hcounter
  rw [hpipe, hrest, List.append_nil, List.append_nil] at hfile
  have hcorks := hmoves.corks
  simp only [Corks, hended.2] at hcorks
  have hsent : s.datagrams = packets o.packetSize o.file := by
    rw [hfile]
    exact (packets_flatten_append (datagrams_length hmoves.toInv) hcorks).symm
  refine ⟨hsent, ?_⟩
  rw [delivered]
  cases o.tcp with
  | true => exact hfile.symm
  | false =>
      rw [if_neg Bool.false_ne_true, if_neg Bool.false_ne_true, List.append_nil, hsent]

/-- The file is read in two calls. -/
def sevenBytesCalls : List Action :=
  [.read 4, .splice 2, .finish, .read 3, .splice 2, .finish, .readEnd, .splice 1, .spliceEnd]

theorem sends_packets_sevenBytes : ∃ s, s.datagrams = packets 3 [1, 2, 3, 4, 5, 6, 7] ∧
    sevenBytes.delivered s = [1, 2, 3, 4, 5, 6, 7] := by
  have hrun : (System.runFrom sevenBytes.next sevenBytes.started sevenBytesCalls).map
      (fun s => (s.source, s.sink)) = some (.returned, .returned) := by decide +kernel
  obtain ⟨s, hs, hended⟩ := Option.map_eq_some_iff.mp hrun
  have hreach : sevenBytes.system.ReachableUnder (fun _ a => a.Succeeds) s := by
    refine System.ReachableUnder.runFrom (.init rfl) (.of_forall ?_) hs
    simp [sevenBytesCalls, Action.Succeeds]
  exact ⟨s, sends_packets rfl (by decide) hreach
    ⟨congrArg (·.1) hended, congrArg (·.2) hended⟩⟩

/-! ## With the counter -/

/-- The counter costs at least a byte. -/
structure Bites (s : Tool) : Prop where
  sent : ∀ p ∈ s.sent, p.1 ≠ []
  splicing : s.sink = .splicing → s.eaten ≠ [] ∨ s.Dry
  finishing : s.sink = .finishing → s.eaten ≠ []

theorem started_bites (hcounter : o.doCounter = true) : Bites o.started := by
  have hsink : o.started.sink = .counting := if_pos hcounter
  refine ⟨fun _ hp => absurd hp List.not_mem_nil, fun h => ?_, fun h => ?_⟩
  · exact SinkAt.noConfusion (hsink.symm.trans h)
  · exact SinkAt.noConfusion (hsink.symm.trans h)

theorem Bites.childEnds (h : Bites s) : Bites { s with source := .returned } :=
  ⟨h.sent, fun hsink => (h.splicing hsink).imp_right fun hdry => ⟨hdry.1, rfl⟩, h.finishing⟩

/-- A step keeps it so, where the counter is taken from the pipe. -/
theorem bites_step (hcounter : o.doCounter = true) (h : Bites s) (ha : a ≠ .vmspliceFails)
    (hstep : o.next s a = some t) : Bites t := by
  cases a with
  | read n =>
      simp only [next, Option.ite_some_none_eq_some] at hstep
      obtain ⟨⟨hsource, -⟩, rfl⟩ := hstep
      refine ⟨h.sent, fun hsink => .inl ?_, h.finishing⟩
      exact (h.splicing hsink).resolve_right fun hdry =>
        SourceAt.noConfusion (hsource.symm.trans hdry.2)
  | readEnd =>
      simp only [next, Option.ite_some_none_eq_some] at hstep
      obtain ⟨-, rfl⟩ := hstep
      exact h.childEnds
  | readFails =>
      simp only [next, Option.ite_some_none_eq_some] at hstep
      obtain ⟨-, rfl⟩ := hstep
      exact h.childEnds
  | killed =>
      simp only [next, Option.ite_some_none_eq_some] at hstep
      obtain ⟨-, rfl⟩ := hstep
      exact h.childEnds
  | vmsplice n =>
      simp only [next, Option.ite_some_none_eq_some] at hstep
      obtain ⟨⟨-, hpos, -, hle⟩, rfl⟩ := hstep
      refine ⟨h.sent, fun _ => .inl ?_, SinkAt.noConfusion⟩
      refine List.append_ne_nil_of_right_ne_nil _ (List.ne_nil_of_length_pos ?_)
      rw [List.length_take_of_le hle]
      exact hpos
  | vmspliceEnd =>
      simp only [next, Option.ite_some_none_eq_some] at hstep
      obtain ⟨⟨-, hdry⟩, rfl⟩ := hstep
      exact ⟨h.sent, fun _ => .inr hdry, SinkAt.noConfusion⟩
  | vmspliceFails => exact absurd rfl ha
  | splice n =>
      simp only [next, Option.ite_some_none_eq_some] at hstep
      obtain ⟨⟨hsink, hpos, -, hle⟩, rfl⟩ := hstep
      have heaten : s.eaten ≠ [] := by
        refine (h.splicing hsink).resolve_right fun hdry => ?_
        rw [hdry.1, List.length_nil] at hle
        omega
      exact ⟨h.sent, fun _ => .inl heaten, fun _ => heaten⟩
  | spliceEnd =>
      simp only [next, Option.ite_some_none_eq_some] at hstep
      obtain ⟨-, rfl⟩ := hstep
      exact ⟨h.sent, SinkAt.noConfusion, SinkAt.noConfusion⟩
  | finish =>
      simp only [next, Option.ite_some_none_eq_some] at hstep
      obtain ⟨⟨hsink, -⟩, rfl⟩ := hstep
      have hstart : o.packetStart = .counting := if_pos hcounter
      refine ⟨fun p hp => ?_, fun hnext => ?_, fun hnext => ?_⟩
      · obtain hp | hp := List.mem_append.mp hp
        · exact h.sent p hp
        · obtain rfl := List.mem_singleton.mp hp
          exact h.finishing hsink
      · exact SinkAt.noConfusion (hstart.symm.trans hnext)
      · exact SinkAt.noConfusion (hstart.symm.trans hnext)
  | finishEnd =>
      simp only [next, Option.ite_some_none_eq_some] at hstep
      obtain ⟨-, rfl⟩ := hstep
      exact ⟨h.sent, SinkAt.noConfusion, SinkAt.noConfusion⟩
  | sendFails =>
      simp only [next, Option.ite_some_none_eq_some] at hstep
      obtain ⟨-, rfl⟩ := hstep
      exact ⟨h.sent, SinkAt.noConfusion, SinkAt.noConfusion⟩

/-- Packets that each cost a byte more than they have. -/
theorem length_flatMap_ge {n : ℕ} {sent : List (List Byte × List Byte)}
    (h : ∀ p ∈ sent, p.1 ≠ [] ∧ p.2.length = n) :
    sent.length * (n + 1) ≤ (sent.flatMap fun p => p.1 ++ p.2).length := by
  induction sent with
  | nil => exact Nat.le_of_eq (Nat.zero_mul _)
  | cons p sent ih =>
      obtain ⟨hne, hlength⟩ := h p List.mem_cons_self
      have hpos := List.length_pos_of_ne_nil hne
      have hrest := ih fun q hq => h q (List.mem_cons_of_mem _ hq)
      rw [List.flatMap_cons, List.length_cons, List.length_append, List.length_append,
        Nat.succ_mul]
      omega

/-- **No counter is sent**: every datagram is a packet of the file, and one to eight bytes of
the file before it are not sent. -/
theorem counter_eats (hcounter : o.doCounter = true)
    (h : o.system.ReachableUnder (fun _ a => a ≠ .vmspliceFails) s) :
    (∃ tail, o.file = (s.sent.flatMap fun p => p.1 ++ p.2) ++ tail) ∧
      (∀ p ∈ s.sent, 1 ≤ p.1.length ∧ p.1.length ≤ 8 ∧ p.2.length = o.packetSize) ∧
      s.datagrams.length * (o.packetSize + 1) ≤ o.file.length := by
  have hinv := inv_of_reachable h.reachable
  have hbites : Bites s := by
    refine h.invariant ?_ ?_
    · rintro s rfl
      exact started_bites hcounter
    · exact fun s a t hbites ha hstep => bites_step hcounter hbites ha hstep
  refine ⟨⟨_, hinv.content⟩, fun p hp => ?_, ?_⟩
  · obtain ⟨hlength, heats, -⟩ := hinv.size p hp
    exact ⟨List.length_pos_of_ne_nil (hbites.sent p hp), heats, hlength⟩
  · have hcost := length_flatMap_ge fun p hp => ⟨hbites.sent p hp, (hinv.size p hp).1⟩
    rw [hinv.content, List.length_append, datagrams, List.length_map]
    omega

/-- Seven bytes in packets of three, after a counter. -/
def counted : Options :=
  { sevenBytes with doCounter := true }

theorem counter_eats_counted : ∃ s : Tool, s.sent = [([1], [2, 3, 4])] ∧
    s.datagrams.length * 4 ≤ 7 := by
  have hrun : (System.runFrom counted.next counted.started
      [.read 4, .vmsplice 1, .splice 2, .finish]).map (·.sent) =
        some [([1], [2, 3, 4])] := by decide +kernel
  obtain ⟨s, hs, hsent⟩ := Option.map_eq_some_iff.mp hrun
  have hreach : counted.system.ReachableUnder (fun _ a => a ≠ .vmspliceFails) s := by
    refine System.ReachableUnder.runFrom (.init rfl) (.of_forall ?_) hs
    decide
  exact ⟨s, hsent, (counter_eats rfl hreach).2.2⟩

/-! ## The end -/

/-- The calls that are left. -/
def left (s : Tool) : ℕ :=
  6 * s.rest.length + 4 * s.pipe.length + (if s.source = .splicing then 1 else 0) +
    match s.sink with
    | .counting => 3
    | .splicing => 2
    | .finishing => 2
    | .returned => 0

theorem descends (p : Action → Prop) :
    System.Descends o.next (fun _ => True) p left := by
  intro s a t _ _ hstep
  refine ⟨trivial, ?_⟩
  cases a with
  | read n =>
      simp only [next, Option.ite_some_none_eq_some] at hstep
      obtain ⟨⟨hsource, -, hpos, hle, -⟩, rfl⟩ := hstep
      simp only [left, List.length_drop, List.length_append, List.length_take]
      omega
  | readEnd =>
      simp only [next, Option.ite_some_none_eq_some] at hstep
      obtain ⟨⟨hsource, -⟩, rfl⟩ := hstep
      simp [left, hsource]
  | readFails =>
      simp only [next, Option.ite_some_none_eq_some] at hstep
      obtain ⟨hsource, rfl⟩ := hstep
      simp [left, hsource]
  | killed =>
      simp only [next, Option.ite_some_none_eq_some] at hstep
      obtain ⟨⟨hsource, -⟩, rfl⟩ := hstep
      simp [left, hsource]
  | vmsplice n =>
      simp only [next, Option.ite_some_none_eq_some] at hstep
      obtain ⟨⟨hsink, hpos, -, hle⟩, rfl⟩ := hstep
      simp only [left, hsink, List.length_drop]
      omega
  | vmspliceEnd =>
      simp only [next, Option.ite_some_none_eq_some] at hstep
      obtain ⟨⟨hsink, -⟩, rfl⟩ := hstep
      simp [left, hsink]
  | vmspliceFails =>
      simp only [next, Option.ite_some_none_eq_some] at hstep
      obtain ⟨hsink, rfl⟩ := hstep
      simp [left, hsink]
  | splice n =>
      simp only [next, Option.ite_some_none_eq_some] at hstep
      obtain ⟨⟨hsink, hpos, -, hle⟩, rfl⟩ := hstep
      by_cases hzero : s.totransfer - n = 0
      · simp only [left, hsink, if_pos hzero, List.length_drop]
        omega
      · simp only [left, hsink, if_neg hzero, List.length_drop]
        omega
  | spliceEnd =>
      simp only [next, Option.ite_some_none_eq_some] at hstep
      obtain ⟨⟨hsink, -⟩, rfl⟩ := hstep
      simp [left, hsink]
  | finish =>
      simp only [next, Option.ite_some_none_eq_some] at hstep
      obtain ⟨⟨hsink, hpipe⟩, rfl⟩ := hstep
      have hpos := List.length_pos_of_ne_nil hpipe
      unfold packetStart
      split_ifs
      · simp only [left, hsink, List.length_drop]
        omega
      · simp only [left, hsink, List.length_drop]
        omega
  | finishEnd =>
      simp only [next, Option.ite_some_none_eq_some] at hstep
      obtain ⟨⟨hsink, -⟩, rfl⟩ := hstep
      simp [left, hsink]
  | sendFails =>
      simp only [next, Option.ite_some_none_eq_some] at hstep
      obtain ⟨hsink | hsink, rfl⟩ := hstep
      · simp [left, hsink]
      · simp [left, hsink]

/-- While something is in the pipe, the parent goes on. -/
theorem sink_goes_on (hpipe : s.pipe ≠ []) (hsink : s.sink ≠ .returned) :
    ∃ a t, Action.Succeeds a ∧ o.next s a = some t := by
  have hpos := List.length_pos_of_ne_nil hpipe
  cases hat : s.sink with
  | counting => exact ⟨.vmsplice 1, _, trivial, if_pos ⟨hat, Nat.one_pos, by omega, hpos⟩⟩
  | splicing =>
      by_cases hzero : s.totransfer = 0
      · exact ⟨.spliceEnd, _, trivial, if_pos ⟨hat, .inl hzero⟩⟩
      · exact ⟨.splice 1, _, trivial, if_pos ⟨hat, Nat.one_pos, Nat.pos_of_ne_zero hzero, hpos⟩⟩
  | finishing => exact ⟨.finish, _, trivial, if_pos ⟨hat, hpipe⟩⟩
  | returned => exact absurd hat hsink

/-- While it has not ended, some call goes on. -/
theorem goes_on (s : Tool) : s.Ended ∨ ∃ a t, Action.Succeeds a ∧ o.next s a = some t := by
  by_cases hsink : s.sink = .returned
  · cases hsource : s.source with
    | returned => exact .inl ⟨hsource, hsink⟩
    | splicing => exact .inr ⟨.killed, _, trivial, if_pos ⟨hsource, hsink⟩⟩
  refine .inr ?_
  by_cases hpipe : s.pipe = []
  · cases hsource : s.source with
    | splicing =>
        by_cases hrest : s.rest = []
        · exact ⟨.readEnd, _, trivial, if_pos ⟨hsource, hrest⟩⟩
        · refine ⟨.read 1, _, trivial, if_pos ⟨hsource, hsink, Nat.one_pos,
            List.length_pos_of_ne_nil hrest, ?_⟩⟩
          rw [hpipe]
          exact o.maxbytesInpipe_pos
    | returned =>
        have hdry : s.Dry := ⟨hpipe, hsource⟩
        cases hat : s.sink with
        | counting => exact ⟨.vmspliceEnd, _, trivial, if_pos ⟨hat, hdry⟩⟩
        | splicing => exact ⟨.spliceEnd, _, trivial, if_pos ⟨hat, .inr hdry⟩⟩
        | finishing => exact ⟨.finishEnd, _, trivial, if_pos ⟨hat, hdry⟩⟩
        | returned => exact absurd hat hsink
  · exact sink_goes_on hpipe hsink

/-- **The tool comes to its end**: a run makes at most so many calls, whatever fails, and only
stops where both processes have ended. -/
theorem completes {as : List Action} (hrun : System.runFrom o.next o.started as = some t) :
    as.length ≤ 6 * o.file.length + 4 ∧
      (t.Ended ∨ ∃ a u, Action.Succeeds a ∧ o.next t a = some u) := by
  have hle := System.runFrom_length_le (descends fun _ => True) trivial (fun _ _ => trivial) hrun
  have hleft : left o.started ≤ 6 * o.file.length + 4 := by
    unfold left started packetStart
    split_ifs <;> simp
  exact ⟨by omega, goes_on t⟩

theorem completes_sevenBytes : sevenBytesCalls.length ≤ 46 ∧
    ∃ t, System.runFrom sevenBytes.next sevenBytes.started sevenBytesCalls = some t ∧
      (t.Ended ∨ ∃ a u, Action.Succeeds a ∧ sevenBytes.next t a = some u) := by
  have hrun : (System.runFrom sevenBytes.next sevenBytes.started sevenBytesCalls).isSome := by
    decide +kernel
  obtain ⟨t, ht⟩ := Option.isSome_iff_exists.mp hrun
  exact ⟨(completes ht).1, t, ht, (completes ht).2⟩

end Options

end VlbiStreamer.SpliceToNet
