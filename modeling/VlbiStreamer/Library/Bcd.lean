import Mathlib.Data.Nat.Digits.Lemmas
import Mathlib.Data.List.TakeWhile

/-!
# Numbers in binary-coded decimal

A number is in BCD when its decimal digits are the hexadecimal ones of the word.  A
program that prints the word in hexadecimal and reads what it printed as a decimal
number, as far as that goes, gets the number back.
-/

namespace VlbiStreamer.Library

/-- A number in binary-coded decimal. -/
def bcd (n : ℕ) : ℕ := Nat.ofDigits 16 (Nat.digits 10 n)

/-- `atoi` of a word that `sprintf` printed with `%X`: it stops at a digit that is not
decimal. -/
def atoiHex (w : ℕ) : ℕ :=
  ((Nat.digits 16 w).reverse.takeWhile (· < 10)).foldl (fun n d => 10 * n + d) 0

section Bcd

variable {n k : ℕ}

/-- The hexadecimal digits of a number in BCD are its decimal ones. -/
theorem digits_bcd (n : ℕ) : Nat.digits 16 (bcd n) = Nat.digits 10 n := by
  refine Nat.digits_ofDigits 16 (by omega) _ (fun d hd => ?_) fun hne => ?_
  · have hlt : d < 10 := Nat.digits_lt_base (by omega) hd
    omega
  · exact Nat.getLast_digit_ne_zero 10 (Nat.digits_ne_nil_iff_ne_zero.mp hne)

/-- **A number in BCD is read back.** -/
@[simp] theorem atoiHex_bcd (n : ℕ) : atoiHex (bcd n) = n := by
  have hall : (Nat.digits 10 n).reverse.takeWhile (· < 10) = (Nat.digits 10 n).reverse := by
    refine List.takeWhile_eq_self_iff.mpr fun d hd => ?_
    rw [List.mem_reverse] at hd
    exact decide_eq_true (Nat.digits_lt_base (by omega) hd)
  calc atoiHex (bcd n)
      = (Nat.digits 10 n).reverse.foldl (fun n d => 10 * n + d) 0 := by
        rw [atoiHex, digits_bcd, hall]
    _ = Nat.ofDigits 10 (Nat.digits 10 n) := by
        rw [List.foldl_reverse, Nat.ofDigits_eq_foldr]
        simp [Nat.add_comm]
    _ = n := Nat.ofDigits_digits 10 n

/-- A number of `k` digits has `4 * k` bits. -/
theorem bcd_lt (h : n < 10 ^ k) : bcd n < 16 ^ k := by
  have hlength : (Nat.digits 10 n).length ≤ k := (Nat.digits_length_le_iff (by omega) n).mpr h
  have hdigits : bcd n < 16 ^ (Nat.digits 10 n).length :=
    Nat.ofDigits_lt_base_pow_length (by omega) fun d hd =>
      (Nat.digits_lt_base (by omega : 1 < 10) hd).trans (by omega)
  exact hdigits.trans_le (Nat.pow_le_pow_right (by omega) hlength)

end Bcd

end VlbiStreamer.Library
