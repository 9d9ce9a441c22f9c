import Mathlib.Algebra.Group.Nat.Defs
import Mathlib.Data.Set.Basic
import Mathlib.Tactic.Common

/-!
Byte ranges rounded outward to pages, and power-of-two rounding in machine words.
-/

namespace Pages

/-- The pages of size `F` that the byte range `[a, b)` is rounded out to. -/
def pagesOf (F a b : Nat) : Set Nat := {f | a / F ≤ f ∧ f < (b + (F - 1)) / F}

@[simp] theorem mem_pagesOf {F a b f : Nat} :
    f ∈ pagesOf F a b ↔ a / F ≤ f ∧ f < (b + (F - 1)) / F := Iff.rfl

instance (F a b f : Nat) : Decidable (f ∈ pagesOf F a b) :=
  inferInstanceAs (Decidable (_ ∧ _))

theorem div_mem_pagesOf {F a b x : Nat} (hF : 0 < F) (ha : a ≤ x) (hb : x < b) :
    x / F ∈ pagesOf F a b := by
  refine ⟨Nat.div_le_div_right ha, ?_⟩
  have h : (x + F) / F ≤ (b + (F - 1)) / F := Nat.div_le_div_right (by omega)
  rw [Nat.add_div_right x hF] at h
  omega

/-- Clearing the low `k` bits rounds down to a multiple of `2 ^ k`. -/
theorem toNat_and_not_mask {w k : Nat} (x : BitVec w) (hk : k < w) :
    (x &&& ~~~(BitVec.twoPow w k - 1#w)).toNat = x.toNat / 2 ^ k * 2 ^ k := by
  have hlt : 2 ^ k < 2 ^ w := Nat.pow_lt_pow_right (by decide) hk
  have hpos : 0 < 2 ^ k := Nat.two_pow_pos k
  have hmask : (BitVec.twoPow w k - 1#w).toNat = 2 ^ k - 1 := by
    rw [BitVec.toNat_sub, BitVec.toNat_twoPow, Nat.mod_eq_of_lt hlt, BitVec.toNat_ofNat,
      Nat.mod_eq_of_lt (by omega : 1 < 2 ^ w),
      show 2 ^ w - 1 + 2 ^ k = 2 ^ k - 1 + 2 ^ w by omega, Nat.add_mod_right,
      Nat.mod_eq_of_lt (by omega)]
  have hshift : x &&& ~~~(BitVec.twoPow w k - 1#w) = (x >>> k) <<< k := by
    apply BitVec.eq_of_getLsbD_eq
    intro i hi
    have hbit : (BitVec.twoPow w k - 1#w).getLsbD i = decide (i < k) := by
      rw [← BitVec.testBit_toNat, hmask, Nat.testBit_two_pow_sub_one]
    rw [BitVec.getLsbD_and, BitVec.getLsbD_not, hbit, BitVec.getLsbD_shiftLeft]
    by_cases h : i < k
    · simp [hi, h]
    · simp [hi, h, Nat.add_sub_cancel' (Nat.le_of_not_lt h)]
  have hle : x.toNat / 2 ^ k * 2 ^ k ≤ x.toNat := Nat.div_mul_le_self _ _
  rw [hshift, BitVec.toNat_shiftLeft, BitVec.toNat_ushiftRight, Nat.shiftLeft_eq,
    Nat.shiftRight_eq_div_pow, Nat.mod_eq_of_lt (by have := x.isLt; omega)]

end Pages
