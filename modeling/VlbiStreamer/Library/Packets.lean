import Mathlib.Data.List.Basic

/-!
# Cutting a list into packets

`packets n l` are the whole packets of `n` elements at the beginning of a list; what is
left over is shorter than a packet.  There is only one way to cut a list so
(`packets_flatten_append`).
-/

namespace VlbiStreamer.Library

universe u

variable {α : Type u} {n : ℕ} {l d r : List α} {ds : List (List α)}

/-- The whole packets of `n` elements. -/
def packets (n : ℕ) (l : List α) : List (List α) :=
  (List.range (l.length / n)).map fun i => (l.drop (i * n)).take n

theorem packets_eq_nil (h : l.length < n) : packets n l = [] := by
  rw [packets, Nat.div_eq_of_lt h]
  rfl

/-- A packet in front. -/
theorem packets_append (hn : 0 < n) (hd : d.length = n) (l : List α) :
    packets n (d ++ l) = d :: packets n l := by
  have hlength : (d ++ l).length / n = l.length / n + 1 := by
    rw [List.length_append, hd, Nat.add_comm, Nat.add_div_right _ hn]
  rw [packets, hlength, List.range_succ_eq_map, List.map_cons, List.map_map]
  congr 1
  · rw [Nat.zero_mul, List.drop_zero, ← hd, List.take_left]
  · refine List.map_congr_left fun i _ => ?_
    show ((d ++ l).drop ((i + 1) * n)).take n = _
    rw [Nat.succ_mul, Nat.add_comm, ← hd, List.drop_length_add_append]

/-- **The only way to cut a list.** -/
theorem packets_flatten_append (hds : ∀ d ∈ ds, d.length = n) (hr : r.length < n) :
    packets n (ds.flatten ++ r) = ds := by
  induction ds with
  | nil => exact packets_eq_nil hr
  | cons d ds ih =>
      rw [List.flatten_cons, List.append_assoc,
        packets_append (Nat.zero_lt_of_lt hr) (hds d List.mem_cons_self),
        ih fun e he => hds e (List.mem_cons_of_mem _ he)]

/-- Packets that are the beginning of a list are its first ones. -/
theorem prefix_packets (hn : 0 < n) (hds : ∀ d ∈ ds, d.length = n) (l : List α) :
    ds <+: packets n (ds.flatten ++ l) := by
  induction ds with
  | nil => exact List.nil_prefix
  | cons d ds ih =>
      rw [List.flatten_cons, List.append_assoc, packets_append hn (hds d List.mem_cons_self),
        List.cons_prefix_cons]
      exact ⟨rfl, ih fun e he => hds e (List.mem_cons_of_mem _ he)⟩

end VlbiStreamer.Library
