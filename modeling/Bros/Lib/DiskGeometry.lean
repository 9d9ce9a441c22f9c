import Mathlib.Tactic.Common

/-!
Cylinder, head and sector of a block on a disk.

The three numbers are the digits of the block number in a mixed radix, with sectors counted
from 1. Every block has one address and every address is of one block.
-/

namespace DiskGeometry

structure Geometry where
  heads : Nat
  sectors : Nat
  heads_pos : 0 < heads
  sectors_pos : 0 < sectors

@[ext] structure Address (g : Geometry) where
  cylinder : Nat
  head : Nat
  sector : Nat
  head_lt : head < g.heads
  sector_pos : 1 ≤ sector
  sector_le : sector ≤ g.sectors

variable {g : Geometry}

/-- The address of block `lba`. -/
def Geometry.address (g : Geometry) (lba : Nat) : Address g where
  cylinder := lba / g.sectors / g.heads
  head := lba / g.sectors % g.heads
  sector := lba % g.sectors + 1
  head_lt := Nat.mod_lt _ g.heads_pos
  sector_pos := Nat.succ_pos _
  sector_le := Nat.mod_lt _ g.sectors_pos

def Address.lba (a : Address g) : Nat :=
  (a.cylinder * g.heads + a.head) * g.sectors + (a.sector - 1)

theorem lba_address (g : Geometry) (lba : Nat) : (g.address lba).lba = lba := by
  rw [Address.lba, Geometry.address]
  dsimp only
  rw [Nat.div_add_mod', Nat.add_sub_cancel, Nat.div_add_mod']

theorem address_lba (a : Address g) : g.address a.lba = a := by
  have hsector : a.sector - 1 < g.sectors := by
    have := a.sector_pos
    have := a.sector_le
    omega
  have hdiv : a.lba / g.sectors = a.cylinder * g.heads + a.head := by
    rw [Address.lba, Nat.mul_comm, Nat.mul_add_div g.sectors_pos, Nat.div_eq_of_lt hsector,
      Nat.add_zero]
  have hmod : a.lba % g.sectors = a.sector - 1 := by
    rw [Address.lba, Nat.mul_add_mod', Nat.mod_eq_of_lt hsector]
  apply Address.ext
  · rw [Geometry.address]
    dsimp only
    rw [hdiv, Nat.mul_comm, Nat.mul_add_div g.heads_pos, Nat.div_eq_of_lt a.head_lt,
      Nat.add_zero]
  · rw [Geometry.address]
    dsimp only
    rw [hdiv, Nat.mul_add_mod', Nat.mod_eq_of_lt a.head_lt]
  · rw [Geometry.address]
    dsimp only
    rw [hmod]
    exact Nat.sub_add_cancel a.sector_pos

end DiskGeometry
