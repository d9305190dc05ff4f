import Mathlib.Data.List.Nodup
import Mathlib.Data.Nat.ModEq

/-!
# Ticket queues with wrapping counters

A ticket queue is two counters over `0 .. n - 1`: whoever wants to be served
advances `head` and keeps its new value as a ticket, and `bottom` is the ticket
that was called last.  Both start over after `n - 1`.

`Tickets n bottom head waits called q` ties the counters to the queue they
stand for: the parties in `q` wait for the tickets after `bottom`, in this
order, and `called`, if anybody, is the party whose ticket was called and who
has not left yet.  The three operations on the counters are then the three
operations on a queue: `Tickets.take` enters at the end, `Tickets.call` removes
the front, `Tickets.leave` lets the called party go.  They are right as long as
fewer than `n` parties queue.
-/

namespace VlbiStreamer.Library

universe u

/-- The counter value after `x`. -/
def ticketSucc (n x : ℕ) : ℕ := (x + 1) % n

/-- The ticket of the party at place `i` of the queue. -/
def ticketAt (n bottom i : ℕ) : ℕ := (bottom + 1 + i) % n

/-- Places less than `n` apart have different tickets. -/
theorem ticketAt_injective {n bottom i j : ℕ} (hi : i < n) (hj : j < n)
    (heq : ticketAt n bottom i = ticketAt n bottom j) : i = j := by
  have hmod : (bottom + 1 + i) ≡ (bottom + 1 + j) [MOD n] := heq
  have hij : i ≡ j [MOD n] := Nat.ModEq.add_left_cancel' (bottom + 1) hmod
  rwa [Nat.ModEq, Nat.mod_eq_of_lt hi, Nat.mod_eq_of_lt hj] at hij

/-- No place of a queue shorter than `n` has the ticket called last. -/
theorem ticketAt_ne_bottom {n bottom i : ℕ} (hbottom : bottom < n) (hi : i + 1 < n) :
    ticketAt n bottom i ≠ bottom := by
  intro heq
  have hlast : ticketAt n bottom (n - 1) = bottom := by
    have harg : bottom + 1 + (n - 1) = bottom + n := by omega
    rw [ticketAt, harg, Nat.add_mod_right, Nat.mod_eq_of_lt hbottom]
  have := ticketAt_injective (by omega) (by omega) (heq.trans hlast.symm)
  omega

/-- After the front of the queue is called, every place moves up by one. -/
theorem ticketAt_succ (n bottom i : ℕ) :
    ticketAt n bottom (i + 1) = ticketAt n (ticketSucc n bottom) i := by
  have hmod : bottom + 1 + (i + 1) ≡ (bottom + 1) % n + 1 + i [MOD n] := by
    have harg : bottom + 1 + (i + 1) = (bottom + 1) + (1 + i) := by omega
    have harg' : (bottom + 1) % n + 1 + i = (bottom + 1) % n + (1 + i) := by omega
    rw [harg, harg']
    exact Nat.ModEq.add_right _ (Nat.mod_modEq _ _).symm
  exact hmod

/-- The front of the queue holds the ticket after `bottom`. -/
@[simp] theorem ticketAt_zero (n bottom : ℕ) :
    ticketAt n bottom 0 = ticketSucc n bottom := rfl

variable {τ : Type u}

/-- The counters `bottom` and `head` stand for the queue `q`, and the parties
that wait hold the tickets of their places. -/
structure Tickets (n bottom head : ℕ) (waits : τ → ℕ → Prop) (called : Option τ)
    (q : List τ) : Prop where
  bottom_lt : bottom < n
  length_lt : q.length < n
  head_eq : head = (bottom + q.length) % n
  nodup : (called.toList ++ q).Nodup
  waits_iff : ∀ u k, waits u k ↔
    (called = some u ∧ k = bottom) ∨ ∃ i, q[i]? = some u ∧ k = ticketAt n bottom i

namespace Tickets

variable {n bottom head : ℕ} {waits waits' : τ → ℕ → Prop} {called : Option τ}
  {q : List τ} {u v : τ} {k : ℕ}

/-- Nobody has queued. -/
theorem empty (hbottom : bottom < n) (hwaits : ∀ u k, ¬ waits u k) :
    Tickets n bottom bottom waits none [] where
  bottom_lt := hbottom
  length_lt := by simp; omega
  head_eq := by simp [Nat.mod_eq_of_lt hbottom]
  nodup := by simp
  waits_iff u k := by simp [hwaits u k]

/-- The queue only depends on who waits for what. -/
theorem congr (h : Tickets n bottom head waits called q)
    (hwaits : ∀ u k, waits' u k ↔ waits u k) : Tickets n bottom head waits' called q :=
  { h with waits_iff := fun u k => (hwaits u k).trans (h.waits_iff u k) }

/-- The counters agree exactly when the queue is empty. -/
theorem head_eq_bottom_iff (h : Tickets n bottom head waits called q) :
    head = bottom ↔ q = [] := by
  have hlen := h.length_lt
  have hb := h.bottom_lt
  rw [h.head_eq]
  constructor
  · intro heq
    by_contra hne
    have hpos : 0 < q.length := List.length_pos_of_ne_nil hne
    have hplace : ticketAt n bottom (q.length - 1) = bottom := by
      have harg : bottom + 1 + (q.length - 1) = bottom + q.length := by omega
      rw [ticketAt, harg]
      exact heq
    exact ticketAt_ne_bottom hb (by omega) hplace
  · rintro rfl
    simp [Nat.mod_eq_of_lt hb]

/-- **Tickets are distinct.** -/
theorem distinct (h : Tickets n bottom head waits called q) (hu : waits u k)
    (hv : waits v k) : u = v := by
  have hlen := h.length_lt
  rcases (h.waits_iff u k).mp hu with ⟨hcu, hku⟩ | ⟨i, hi, hki⟩ <;>
    rcases (h.waits_iff v k).mp hv with ⟨hcv, hkv⟩ | ⟨j, hj, hkj⟩
  · exact Option.some.inj (hcu.symm.trans hcv)
  · have hj' := (List.getElem?_eq_some_iff.mp hj).1
    exact absurd (hkj.symm.trans hku) (ticketAt_ne_bottom h.bottom_lt (by omega))
  · have hi' := (List.getElem?_eq_some_iff.mp hi).1
    exact absurd (hki.symm.trans hkv) (ticketAt_ne_bottom h.bottom_lt (by omega))
  · have hi' := (List.getElem?_eq_some_iff.mp hi).1
    have hj' := (List.getElem?_eq_some_iff.mp hj).1
    obtain rfl := ticketAt_injective (by omega) (by omega) (hki.symm.trans hkj)
    exact Option.some.inj (hi.symm.trans hj)

/-- The called party is the one that holds the ticket `bottom`. -/
theorem called_iff (h : Tickets n bottom head waits called q) :
    waits u bottom ↔ called = some u := by
  have hlen := h.length_lt
  rw [h.waits_iff]
  constructor
  · rintro (⟨hc, -⟩ | ⟨i, hi, hk⟩)
    · exact hc
    · have hi' := (List.getElem?_eq_some_iff.mp hi).1
      exact absurd hk.symm (ticketAt_ne_bottom h.bottom_lt (by omega))
  · exact fun hc => .inl ⟨hc, rfl⟩

/-- Who waits is the called party or somewhere in the queue. -/
theorem mem_of_waits (h : Tickets n bottom head waits called q) (hu : waits u k) :
    u ∈ called.toList ++ q := by
  rcases (h.waits_iff u k).mp hu with ⟨hc, -⟩ | ⟨i, hi, -⟩
  · simp [hc]
  · exact List.mem_append_right _ (List.mem_of_getElem? hi)

/-- Everybody in the queue waits for some ticket. -/
theorem waits_of_mem (h : Tickets n bottom head waits called q)
    (hu : u ∈ called.toList ++ q) : ∃ k, waits u k := by
  rcases List.mem_append.mp hu with hc | hq
  · exact ⟨bottom, (h.waits_iff u bottom).mpr (.inl ⟨by simpa using hc, rfl⟩)⟩
  · obtain ⟨i, hi⟩ := List.mem_iff_getElem?.mp hq
    exact ⟨_, (h.waits_iff u _).mpr (.inr ⟨i, hi, rfl⟩)⟩

/-- **Taking a ticket** enters the queue at its end. -/
theorem take (h : Tickets n bottom head waits called q) (hroom : q.length + 1 < n)
    (hu : ∀ k, ¬ waits u k)
    (hwaits : ∀ v k, waits' v k ↔ waits v k ∨ (v = u ∧ k = ticketSucc n head)) :
    Tickets n bottom (ticketSucc n head) waits' called (q ++ [u]) where
  bottom_lt := h.bottom_lt
  length_lt := by simpa using hroom
  head_eq := by
    rw [h.head_eq, ticketSucc, List.length_append, List.length_singleton, ← Nat.add_assoc,
      Nat.mod_add_mod]
  nodup := by
    rw [← List.append_assoc]
    refine List.nodup_append.mpr ⟨h.nodup, by simp, ?_⟩
    rintro a ha b hb rfl
    obtain rfl : a = u := by simpa using hb
    obtain ⟨k, hk⟩ := h.waits_of_mem ha
    exact hu k hk
  waits_iff v k := by
    have hlast : ticketSucc n head = ticketAt n bottom q.length := by
      rw [ticketSucc, h.head_eq, Nat.mod_add_mod, ticketAt]
      congr 1
      omega
    rw [hwaits, h.waits_iff, hlast, or_assoc]
    refine or_congr_right ?_
    constructor
    · rintro (⟨i, hi, hk⟩ | ⟨rfl, hk⟩)
      · refine ⟨i, ?_, hk⟩
        rw [List.getElem?_append_left (List.getElem?_eq_some_iff.mp hi).1]
        exact hi
      · exact ⟨q.length, by simp, hk⟩
    · rintro ⟨i, hi, hk⟩
      rcases Nat.lt_or_ge i q.length with hlt | hge
      · rw [List.getElem?_append_left hlt] at hi
        exact .inl ⟨i, hi, hk⟩
      · have hbound := (List.getElem?_eq_some_iff.mp hi).1
        obtain rfl : i = q.length := by simp at hbound; omega
        simp at hi
        exact .inr ⟨hi.symm, hk⟩

/-- **Calling the next ticket** calls the front of the queue. -/
theorem call (h : Tickets n bottom head waits none (u :: q)) :
    Tickets n (ticketSucc n bottom) head waits (some u) q where
  bottom_lt := Nat.mod_lt _ (by have := h.bottom_lt; omega)
  length_lt := by have := h.length_lt; simp at this; omega
  head_eq := by
    rw [h.head_eq, ticketSucc, List.length_cons, Nat.mod_add_mod]
    congr 1
    omega
  nodup := by simpa using h.nodup
  waits_iff v k := by
    rw [h.waits_iff]
    constructor
    · rintro (⟨hc, -⟩ | ⟨i, hi, hk⟩)
      · cases hc
      · cases i with
        | zero => exact .inl ⟨by simpa using hi, by simpa using hk⟩
        | succ i => exact .inr ⟨i, by simpa using hi, by rw [hk, ticketAt_succ]⟩
    · rintro (⟨hc, hk⟩ | ⟨i, hi, hk⟩)
      · exact .inr ⟨0, by simpa using hc, by simpa using hk⟩
      · exact .inr ⟨i + 1, by simpa using hi, by rw [hk, ticketAt_succ]⟩

/-- **The called party leaves.** -/
theorem leave (h : Tickets n bottom head waits (some u) q)
    (hwaits : ∀ v k, waits' v k ↔ waits v k ∧ v ≠ u) :
    Tickets n bottom head waits' none q where
  bottom_lt := h.bottom_lt
  length_lt := h.length_lt
  head_eq := h.head_eq
  nodup := (List.nodup_append.mp h.nodup).2.1
  waits_iff v k := by
    have hnot : u ∉ q := fun hu => by
      have := h.nodup
      simp at this
      exact this.1 hu
    rw [hwaits, h.waits_iff]
    constructor
    · rintro ⟨⟨hc, -⟩ | hq, hne⟩
      · exact absurd (Option.some.inj hc).symm hne
      · exact .inr hq
    · rintro (⟨hc, -⟩ | ⟨i, hi, hk⟩)
      · cases hc
      · exact ⟨.inr ⟨i, hi, hk⟩, by rintro rfl; exact hnot (List.mem_of_getElem? hi)⟩

end Tickets

end VlbiStreamer.Library
