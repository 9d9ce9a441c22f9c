import Bros.Lib.Memory

/-!
The two halves of a byte.
-/

namespace ByteMemory

/-- Two nibbles packed into a byte. -/
theorem toNat_nibbles (x y : Byte) :
    ((x &&& 0xF#8) <<< 4 ||| y &&& 0xF#8).toNat = x.toNat % 16 * 16 + y.toNat % 16 := by
  have hnibble (b : Byte) : (b &&& 0xF#8).toNat = b.toNat % 2 ^ 4 := by
    rw [BitVec.toNat_and, show (0xF#8).toNat = 2 ^ 4 - 1 from rfl, Nat.and_two_pow_sub_one_eq_mod]
  have hx : (x.toNat % 2 ^ 4) <<< 4 < 2 ^ 8 := by
    rw [Nat.shiftLeft_eq]
    omega
  rw [BitVec.toNat_or, BitVec.toNat_shiftLeft, hnibble, hnibble, Nat.mod_eq_of_lt hx,
    ← Nat.shiftLeft_add_eq_or_of_lt (Nat.mod_lt _ (by decide)), Nat.shiftLeft_eq]
  rfl

def highNibble (b : Byte) : BitVec 4 := (b >>> 4).setWidth 4

def lowNibble (b : Byte) : BitVec 4 := (b &&& 0xF#8).setWidth 4

theorem toNat_highNibble (b : Byte) : (highNibble b).toNat = b.toNat / 16 := by
  rw [highNibble, BitVec.toNat_setWidth, BitVec.toNat_ushiftRight, Nat.shiftRight_eq_div_pow]
  exact Nat.mod_eq_of_lt (by have := b.isLt; omega)

theorem toNat_lowNibble (b : Byte) : (lowNibble b).toNat = b.toNat % 16 := by
  rw [lowNibble, BitVec.toNat_setWidth, BitVec.toNat_and, show (0xF#8).toNat = 2 ^ 4 - 1 from rfl,
    Nat.and_two_pow_sub_one_eq_mod, Nat.mod_mod]

theorem highNibble_append_lowNibble (b : Byte) : highNibble b ++ lowNibble b = b := by
  rw [← BitVec.toNat_inj, BitVec.toNat_append,
    ← Nat.shiftLeft_add_eq_or_of_lt (lowNibble b).isLt, Nat.shiftLeft_eq, toNat_highNibble,
    toNat_lowNibble]
  omega

theorem highNibble_or (x y : Byte) : highNibble (x ||| y) = highNibble x ||| highNibble y := by
  rw [highNibble, BitVec.ushiftRight_or_distrib, BitVec.setWidth_or]
  rfl

theorem lowNibble_or (x y : Byte) : lowNibble (x ||| y) = lowNibble x ||| lowNibble y := by
  rw [lowNibble, BitVec.and_or_distrib_right, BitVec.setWidth_or]
  rfl

@[simp] theorem highNibble_shiftLeft (c : BitVec 4) : highNibble (c.setWidth 8 <<< 4) = c := by
  revert c
  decide

@[simp] theorem lowNibble_shiftLeft (c : BitVec 4) : lowNibble (c.setWidth 8 <<< 4) = 0#4 := by
  revert c
  decide

@[simp] theorem highNibble_and (c : BitVec 4) : highNibble (c.setWidth 8 &&& 0xF#8) = 0#4 := by
  revert c
  decide

@[simp] theorem lowNibble_and (c : BitVec 4) : lowNibble (c.setWidth 8 &&& 0xF#8) = c := by
  revert c
  decide

end ByteMemory
