import Mathlib.Data.Nat.Digits.Defs
import Mathlib.Data.Nat.Digits.Lemmas

/-!
Positional numerals without leading zeros.

`Nat.digits` has no digit for zero, a numeral has one. A loop that divides until nothing is
left produces the digits least significant first, one for each round.
-/

namespace Numerals

variable {b n : Nat}

/-- Least significant digit first. -/
def lowFirst (b n : Nat) : List Nat := if n = 0 then [0] else Nat.digits b n

/-- Most significant digit first. -/
def numeral (b n : Nat) : List Nat := (lowFirst b n).reverse

/-- One round of the dividing loop. -/
theorem lowFirst_step (hb : 1 < b) (n : Nat) :
    lowFirst b n = n % b :: if n / b = 0 then [] else lowFirst b (n / b) := by
  by_cases hn : n = 0
  · rw [lowFirst, if_pos hn, hn, Nat.zero_mod, Nat.zero_div, if_pos rfl]
  · rw [lowFirst, if_neg hn, Nat.digits_eq_cons_digits_div hb hn]
    by_cases hdiv : n / b = 0
    · rw [if_pos hdiv, hdiv, Nat.digits_zero]
    · rw [if_neg hdiv, lowFirst, if_neg hdiv]

theorem lowFirst_ne_nil : lowFirst b n ≠ [] := by
  rw [lowFirst]
  split
  · exact List.cons_ne_nil _ _
  · next hn => exact Nat.digits_ne_nil_iff_ne_zero.mpr hn

theorem lt_of_mem_lowFirst (hb : 1 < b) {d : Nat} (hd : d ∈ lowFirst b n) : d < b := by
  rw [lowFirst] at hd
  split at hd
  · rw [List.mem_singleton.mp hd]
    omega
  · exact Nat.digits_lt_base hb hd

theorem length_lowFirst_le (hb : 1 < b) {k : Nat} (hk : 0 < k) (hn : n < b ^ k) :
    (lowFirst b n).length ≤ k := by
  rw [lowFirst]
  split
  · exact hk
  · exact (Nat.digits_length_le_iff hb n).mpr hn

theorem ofDigits_lowFirst (b n : Nat) : Nat.ofDigits b (lowFirst b n) = n := by
  rw [lowFirst]
  split
  · next hn => rw [hn, Nat.ofDigits_singleton]
  · exact Nat.ofDigits_digits b n

/-- The value of a list of digits, most significant first. -/
def positional (b : Nat) (ds : List Nat) : Nat := ds.foldl (fun v d => v * b + d) 0

theorem positional_numeral (b n : Nat) : positional b (numeral b n) = n := by
  rw [positional, numeral, List.foldl_reverse]
  refine Eq.trans ?_ (ofDigits_lowFirst b n)
  rw [Nat.ofDigits_eq_foldr]
  congr 1
  funext d v
  rw [Nat.cast_id, Nat.mul_comm, Nat.add_comm]

theorem numeral_ne_nil : numeral b n ≠ [] := List.reverse_ne_nil_iff.mpr lowFirst_ne_nil

/-- Only zero starts with the digit 0. -/
theorem numeral_of_head_zero (h : (numeral b n).head? = some 0) : numeral b n = [0] := by
  by_cases hn : n = 0
  · rw [numeral, lowFirst, if_pos hn, List.reverse_singleton]
  · rw [numeral, lowFirst, if_neg hn, List.head?_reverse,
      List.getLast?_eq_some_getLast (Nat.digits_ne_nil_iff_ne_zero.mpr hn)] at h
    exact absurd (Option.some.inj h) (Nat.getLast_digit_ne_zero b hn)

end Numerals
