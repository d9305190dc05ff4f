import VlbiStreamer.Library.Turnout
import VlbiStreamer.TcpStream.Threads

/-!
# The buffers that the threads have filled

As long as the main loop goes on, every buffer is full: `taken o b t` packets of
stream `t` are in the first `b` of them, and `after o b` is what the main thread has
done with these.  `multistream_fullRounds` says so in terms of the rounds of
`multistream`.

`Written` is what a buffer holds when each thread has put some of its packets there.
-/

namespace VlbiStreamer.TcpStream

open BufData

variable {S : ℕ} [NeZero S]

variable (S) in
/-- There are not more streams than packets in a buffer, nothing is stripped, and no product
overflows. -/
structure Fits (o : Opt) : Prop where
  streams_le : S ≤ o.bufNumElems
  bufNumElems_lt : o.bufNumElems < 2 ^ 32
  bufsize_eq : o.bufsize = o.bufNumElems * o.packetSize

/-- The packets of thread `t` in buffer `b`. -/
def share (o : Opt) (b : ℕ) (t : Fin S) : ℕ :=
  (receiving S o.bufNumElems b).maxPackets o.bufNumElems t

/-- The packets of thread `t` in the buffers before `b`. -/
def taken (o : Opt) : ℕ → Fin S → ℕ
  | 0 => 0
  | b + 1 => taken o b + share o b

variable (S) in
/-- All threads have their packets of buffer `b`, and there is another one. -/
def fullRound (o : Opt) (b : ℕ) : Round S := ⟨share o b, false, true⟩

variable (S) in
/-- The first `b` buffers are handed over. -/
def after (o : Opt) : ℕ → Receiving (Option ℕ)
  | 0 => Receiving.start
  | b + 1 =>
      ({ after o b with
        buf := filled (receiving S o.bufNumElems b) (taken o b) (share o b)
          (fullRound S o b).count } :
        Receiving (Option ℕ)).changeBuffer o true b

variable {o : Opt} {b : ℕ} {t : Fin S}

section Rounds

variable (hfits : Fits S o)

include hfits

theorem sum_share (b : ℕ) : ∑ t : Fin S, share o b t = o.bufNumElems :=
  sum_maxPackets hfits.streams_le hfits.bufNumElems_lt b

theorem dealt_after (b : ℕ) : Dealt o b (taken (S := S) o b) (after S o b) := by
  induction b with
  | zero => exact Dealt.start o
  | succ b ih => exact ih.change hfits.streams_le hfits.bufNumElems_lt (r := fullRound S o b) rfl

/-- A thread's slots are those inside the buffer. -/
theorem lt_share_iff (b : ℕ) (t : Fin S) (m : ℕ) :
    m < share o b t ↔ (receiving S o.bufNumElems b).slot t m < o.bufNumElems := by
  have hle := hfits.streams_le
  have hlt := hfits.bufNumElems_lt
  exact (receiving_follows hle hlt b).lt_maxPackets_iff (by omega) (by omega) t m

theorem fullRound_inside (b : ℕ) :
    (fullRound S o b).Inside o.bufNumElems (receiving S o.bufNumElems b) :=
  fun t m hm _ => (lt_share_iff hfits b t m).mp hm

omit hfits in
theorem fullRound_not_closes (b : ℕ) :
    ¬ (fullRound S o b).Closes o.bufNumElems (receiving S o.bufNumElems b) :=
  fun ⟨_, ht⟩ => Nat.lt_irrefl _ ht

theorem fullRound_not_leaves (b : ℕ) :
    ¬ (fullRound S o b).Leaves o (receiving S o.bufNumElems b) := by
  have hcount : (fullRound S o b).count = o.bufNumElems := sum_share hfits b
  rintro (hfailed | hall | hsize)
  · cases hfailed
  · exact Nat.lt_irrefl _ (hall 0)
  · rw [hcount, hfits.bufsize_eq] at hsize
    exact hsize rfl

/-- Full rounds change the buffers. -/
theorem multistream_fullRounds (stop : Stop S) (b : ℕ) (rest : List (Round S)) :
    multistream o stop ((List.range b).map (fullRound S o) ++ rest) 0 false Receiving.start =
      multistream o stop rest (taken o b) false (after S o b) := by
  induction b generalizing rest with
  | zero => rfl
  | succ b ih =>
      have hdealt := dealt_after hfits b
      rw [List.range_succ, List.map_append, List.append_assoc, ih, List.map_singleton,
        List.singleton_append,
        multistream_round hdealt.be hdealt.cumul (fullRound_inside hfits b)]
      dsimp only
      rw [if_neg (fullRound_not_leaves hfits b), decide_eq_false (fullRound_not_closes b)]
      rfl

end Rounds

/-! ## A buffer that is being filled -/

/-- Buffer `b` holds the first `w t` packets that thread `t` puts there. -/
def Written (o : Opt) (b : ℕ) (w : Fin S → ℕ) (buffer : ℕ → Option ℕ) : Prop :=
  ∀ j, buffer j =
    let t := Fin.ofNat S ((receiving S o.bufNumElems b).startRemainder + j)
    if j / S < w t then some (t + (taken o b t + j / S) * S) else none

theorem written_empty (o : Opt) (b : ℕ) {w : Fin S → ℕ} {buffer : ℕ → Option ℕ}
    (hw : ∀ t, w t = 0) (hbuffer : ∀ j, buffer j = none) : Written o b w buffer := by
  intro j
  simp [hbuffer, hw]

/-- What is handed over of it. -/
theorem Written.map_range {w : Fin S → ℕ} {buffer : ℕ → Option ℕ} (h : Written o b w buffer)
    (count : ℕ) : (List.range count).map buffer =
      filled (receiving S o.bufNumElems b) (taken o b) w count :=
  List.map_congr_left fun j _ => h j

/-- The thread and the turn of a slot. -/
theorem slot_eq_iff (bd : BufData S) (t : Fin S) (m j : ℕ) :
    j = bd.slot t m ↔ Fin.ofNat S (bd.startRemainder + j) = t ∧ j / S = m := by
  have hlt := bd.firstSlot_lt t
  constructor
  · rintro rfl
    constructor
    · apply Fin.ext
      show (bd.startRemainder + (bd.firstSlot t + m * S)) % S = t
      rw [← Nat.add_assoc, Nat.add_mul_mod_self_right, start_add_firstSlot]
    · rw [slot, Nat.add_mul_div_right _ _ (Nat.pos_of_neZero S), Nat.div_eq_of_lt hlt,
        Nat.zero_add]
  · rintro ⟨rfl, rfl⟩
    exact (slot_place bd j).symm

/-- No slot belongs to two threads. -/
theorem eq_of_slot_eq {bd : BufData S} {t u : Fin S} {m k : ℕ} (h : bd.slot u m = bd.slot t k) :
    u = t :=
  ((slot_eq_iff bd u m _).mp rfl).1.symm.trans ((slot_eq_iff bd t k _).mp h).1

/-- A thread adds its next packet. -/
theorem Written.write {w : Fin S → ℕ} {buffer buffer' : ℕ → Option ℕ} (h : Written o b w buffer)
    (hbuffer : ∀ j, buffer' j =
      if j = (receiving S o.bufNumElems b).slot t (w t) then some (t + (taken o b t + w t) * S)
      else buffer j) :
    Written o b (Function.update w t (w t + 1)) buffer' := by
  intro j
  rw [hbuffer, h j]
  by_cases hj : j = (receiving S o.bufNumElems b).slot t (w t)
  · obtain ⟨ht, hm⟩ := (slot_eq_iff _ t (w t) j).mp hj
    rw [if_pos hj]
    dsimp only
    rw [ht, hm, Function.update_self, if_pos (Nat.lt_succ_self _)]
  · rw [if_neg hj]
    dsimp only
    by_cases ht : Fin.ofNat S ((receiving S o.bufNumElems b).startRemainder + j) = t
    · have hm : j / S ≠ w t := fun hm => hj ((slot_eq_iff _ t (w t) j).mpr ⟨ht, hm⟩)
      rw [ht, Function.update_self]
      by_cases hlt : j / S < w t
      · rw [if_pos hlt, if_pos (by omega)]
      · rw [if_neg hlt, if_neg (by omega)]
    · rw [Function.update_of_ne ht]

end VlbiStreamer.TcpStream
