import Mathlib.Order.Monotone.Basic

/-!
# Packets with headers

A file of packets, each with a header before its payload.  A `PacketLayout` has the lengths;
`pos` is where a byte of the payload lies in the file, and `before` is how many of them lie
before a position, which is what a loop that leaves the headers out counts.
-/

namespace VlbiStreamer.Library

/-- Packets of `size` bytes that start with `header` bytes of header. -/
structure PacketLayout where
  size : ℕ
  header : ℕ
  header_lt : header < size

namespace PacketLayout

section Layout

variable (l : PacketLayout)

/-- The bytes of payload of a packet. -/
def payload : ℕ := l.size - l.header

/-- Where byte `i` of the payload is. -/
def pos (i : ℕ) : ℕ := i / l.payload * l.size + l.header + i % l.payload

/-- The bytes of payload before `x`. -/
def before (x : ℕ) : ℕ := x / l.size * l.payload + (x % l.size - l.header)

/-- The bytes of whole packets and of one that is begun with the first `n` of payload. -/
def trueLength (n : ℕ) : ℕ :=
  if 0 < n % l.payload then n / l.payload * l.size + l.header + n % l.payload
  else n / l.payload * l.size

end Layout

variable {l : PacketLayout} {q f i n d x y : ℕ}

theorem payload_pos : 0 < l.payload := Nat.sub_pos_of_lt l.header_lt

theorem payload_add_header : l.payload + l.header = l.size :=
  Nat.sub_add_cancel l.header_lt.le

theorem size_pos : 0 < l.size := Nat.zero_lt_of_lt l.header_lt

/-- The end of a packet may be its own or the start of the next. -/
theorem before_mul_add (hf : f ≤ l.size) :
    l.before (q * l.size + f) = q * l.payload + (f - l.header) := by
  have hsum := l.payload_add_header
  have hsize := l.size_pos
  unfold before
  rcases hf.lt_or_eq with hlt | rfl
  · rw [Nat.mul_comm q, Nat.mul_add_div hsize, Nat.mul_add_mod, Nat.div_eq_of_lt hlt,
      Nat.mod_eq_of_lt hlt, Nat.add_zero]
  · rw [← Nat.succ_mul, Nat.mul_div_cancel _ hsize, Nat.mul_mod_left, Nat.succ_mul]
    omega

/-- A step within a packet: the header bytes of it do not count. -/
theorem before_add (hd : x % l.size + d ≤ l.size) :
    l.before (x + d) = l.before x + (d - (l.header - x % l.size)) := by
  have hx : x + d = x / l.size * l.size + (x % l.size + d) := by
    rw [← Nat.add_assoc, Nat.div_add_mod']
  rw [hx, before_mul_add hd, before]
  omega

theorem before_le_succ (x : ℕ) : l.before x ≤ l.before (x + 1) := by
  rw [before_add (Nat.mod_lt x l.size_pos)]
  exact Nat.le_add_right _ _

theorem before_mono (h : x ≤ y) : l.before x ≤ l.before y :=
  monotone_nat_of_le_succ before_le_succ h

theorem pos_before (h : l.header ≤ x % l.size) : l.pos (l.before x) = x := by
  have hlt := Nat.mod_lt x l.size_pos
  have hsum := l.payload_add_header
  have hrest : x % l.size - l.header < l.payload := by omega
  rw [pos, before, Nat.mul_comm _ l.payload, Nat.mul_add_div l.payload_pos, Nat.mul_add_mod,
    Nat.div_eq_of_lt hrest, Nat.mod_eq_of_lt hrest, Nat.add_zero, Nat.add_assoc,
    Nat.add_sub_cancel' h, Nat.div_add_mod']

/-- The bytes that follow the header that is left of a packet. -/
theorem pos_before_add (hd : x % l.size + (l.header - x % l.size) + d < l.size) :
    l.pos (l.before x + d) = x + (l.header - x % l.size) + d := by
  have hmod : (x + (l.header - x % l.size) + d) % l.size =
      x % l.size + (l.header - x % l.size) + d := by
    rw [Nat.add_assoc, Nat.add_mod, Nat.mod_eq_of_lt (by omega : _ + d < l.size),
      Nat.mod_eq_of_lt (by omega), Nat.add_assoc]
  have hbefore : l.before x + d = l.before (x + (l.header - x % l.size) + d) := by
    rw [Nat.add_assoc, before_add (by omega)]
    omega
  rw [hbefore, pos_before (by omega)]

theorem before_trueLength (n : ℕ) : l.before (l.trueLength n) = n := by
  have hlt := Nat.mod_lt n l.payload_pos
  have hsum := l.payload_add_header
  have hdiv := Nat.div_add_mod' n l.payload
  unfold trueLength
  split
  · rw [Nat.add_assoc, before_mul_add (by omega)]
    omega
  · rw [← Nat.add_zero (_ * l.size), before_mul_add (Nat.zero_le _)]
    omega

theorem header_lt_trueLength (h : 0 < n) : l.header < l.trueLength n := by
  unfold trueLength
  split
  · exact lt_of_le_of_lt (Nat.le_add_left _ _) (Nat.lt_add_of_pos_right ‹_›)
  · next hrest =>
      have hdvd : l.payload ∣ n := Nat.dvd_of_mod_eq_zero (Nat.eq_zero_of_not_pos hrest)
      calc l.header < l.size := l.header_lt
        _ ≤ n / l.payload * l.size :=
          Nat.le_mul_of_pos_left _ (Nat.div_pos (Nat.le_of_dvd h hdvd) l.payload_pos)

/-- Payload that lies in whole packets. -/
theorem trueLength_le (h : n ≤ q * l.payload) : l.trueLength n ≤ q * l.size := by
  have hlt := Nat.mod_lt n l.payload_pos
  have hsum := l.payload_add_header
  have hdiv : n / l.payload ≤ q := Nat.div_le_of_le_mul (by rwa [Nat.mul_comm])
  unfold trueLength
  split
  · next hrest =>
      have hless : n / l.payload < q := by
        refine lt_of_le_of_ne hdiv ?_
        rintro rfl
        have := Nat.div_add_mod' n l.payload
        omega
      calc n / l.payload * l.size + l.header + n % l.payload
          ≤ (n / l.payload + 1) * l.size := by rw [Nat.succ_mul]; omega
        _ ≤ q * l.size := Nat.mul_le_mul_right _ hless
  · exact Nat.mul_le_mul_right _ hdiv

/-- A step within a packet does not go over the end of one. -/
theorem add_le_of_mod (hx : x < q * l.size) (hd : x % l.size + d ≤ l.size) :
    x + d ≤ q * l.size := by
  have hdiv : x / l.size < q := Nat.div_lt_of_lt_mul (by rwa [Nat.mul_comm])
  calc x + d = x / l.size * l.size + (x % l.size + d) := by rw [← Nat.add_assoc, Nat.div_add_mod']
    _ ≤ (x / l.size + 1) * l.size := by rw [Nat.succ_mul]; omega
    _ ≤ q * l.size := Nat.mul_le_mul_right _ hdiv

end PacketLayout

end VlbiStreamer.Library
