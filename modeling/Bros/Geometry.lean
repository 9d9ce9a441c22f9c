import Bros.FdcAddress
import Bros.Loader
import Bros.Lib.DiskGeometry
import Mathlib.Data.Set.Function

/-!
The geometry of the floppy disk in the boot loader and in the kernel.

Both compute the address of a block on a disk with two heads and 18 sectors per track, the
kernel in `int`, `LBA2CHS` in 16-bit registers whose halves `int 13h` reads.
-/

namespace Bros
open ByteMemory DiskGeometry

def floppy : Geometry := ⟨2, 18, by decide, by decide⟩

/-- Head, track and sector as `_fdc_lba_to_chs` returns them. -/
def chsTriple (a : Address floppy) : Int × Int × Int := (a.head, a.cylinder, a.sector)

/-- A head, a track and a sector that the disk has, and the block they name. -/
structure IsChs (lba : Int) (c : Int × Int × Int) : Prop where
  head : c.1 = 0 ∨ c.1 = 1
  track : 0 ≤ c.2.1
  sector : 1 ≤ c.2.2 ∧ c.2.2 ≤ 18
  addresses : (c.2.1 * 2 + c.1) * 18 + (c.2.2 - 1) = lba

/-- The triples of the blocks below `n`. -/
def chsTriples (n : Int) : Set (Int × Int × Int) := {c | ∃ lba < n, IsChs lba c}

/-- `LBA2CHS` returns, with the kernel's numbers in `CH`, `DH` and `CL`, and these are the
bytes that `fdc_read_sector` programs for the same block. -/
def LoaderAgrees (r : Regs) : Prop :=
  ∃ r', r.lba2chs = some r' ∧
    fdcLbaToChs r.ax.toNat =
      (↑(highByte r'.dx).toNat, ↑(highByte r'.cx).toNat, ↑(lowByte r'.cx).toNat) ∧
    highByte r'.dx = fdcHead (r.ax.setWidth 32) ∧
    highByte r'.cx = fdcTrack (r.ax.setWidth 32) ∧
    lowByte r'.cx = fdcSector (r.ax.setWidth 32)

/-! ### The kernel -/

theorem fdcLbaToChs_eq (lba : Nat) : fdcLbaToChs lba = chsTriple (floppy.address lba) := by
  rw [fdcLbaToChs_of_nonneg (Int.natCast_nonneg lba), chsTriple, Geometry.address]
  refine Prod.ext ?_ (Prod.ext ?_ rfl)
  · change (lba : Int) % 36 / 18 = (lba / 18 % 2 : Nat)
    omega
  · change (lba : Int) / 36 = (lba / 18 / 2 : Nat)
    omega

theorem chsTriple_isChs (a : Address floppy) : IsChs a.lba (chsTriple a) := by
  have hhead : a.head < 2 := a.head_lt
  have hpos := a.sector_pos
  have hle : a.sector ≤ 18 := a.sector_le
  have hlba : a.lba = (a.cylinder * 2 + a.head) * 18 + (a.sector - 1) := rfl
  refine ⟨?_, Int.natCast_nonneg _, ⟨?_, ?_⟩, ?_⟩
  · change (a.head : Int) = 0 ∨ (a.head : Int) = 1
    omega
  · change 1 ≤ (a.sector : Int)
    omega
  · change (a.sector : Int) ≤ 18
    omega
  · change ((a.cylinder : Int) * 2 + a.head) * 18 + (a.sector - 1) = a.lba
    omega

/-- The numbers of a triple make up an address of the disk. -/
theorem IsChs.exists_address {lba : Int} {c : Int × Int × Int} (h : IsChs lba c) :
    ∃ a : Address floppy, chsTriple a = c ∧ (a.lba : Int) = lba := by
  obtain ⟨head, track, sector⟩ := c
  obtain ⟨hhead, htrack, ⟨hpos, hle⟩, hlba⟩ := h
  dsimp only at hhead htrack hpos hle hlba
  have head_lt : head.toNat < 2 := by omega
  have sector_pos : 1 ≤ sector.toNat := by omega
  have sector_le : sector.toNat ≤ 18 := by omega
  refine ⟨⟨track.toNat, head.toNat, sector.toNat, head_lt, sector_pos, sector_le⟩, ?_, ?_⟩
  · refine Prod.ext ?_ (Prod.ext ?_ ?_)
    · change (head.toNat : Int) = head
      omega
    · exact Int.toNat_of_nonneg htrack
    · change (sector.toNat : Int) = sector
      omega
  · change (((track.toNat * 2 + head.toNat) * 18 + (sector.toNat - 1) : Nat) : Int) = lba
    omega

theorem fdcLbaToChs_isChs {lba : Int} (nonneg : 0 ≤ lba) : IsChs lba (fdcLbaToChs lba) := by
  obtain ⟨n, rfl⟩ := Int.eq_ofNat_of_zero_le nonneg
  have h := chsTriple_isChs (floppy.address n)
  rwa [lba_address, ← fdcLbaToChs_eq] at h

/-- A triple is computed from the block it names. -/
theorem IsChs.eq {lba : Int} {c : Int × Int × Int} (h : IsChs lba c) : fdcLbaToChs lba = c := by
  obtain ⟨a, ha, rfl⟩ := h.exists_address
  rw [fdcLbaToChs_eq, address_lba, ha]

theorem IsChs.nonneg {lba : Int} {c : Int × Int × Int} (h : IsChs lba c) : 0 ≤ lba := by
  obtain ⟨hhead, htrack, ⟨hpos, hle⟩, hlba⟩ := h
  omega

theorem fdcLbaToChs_bijOn (n : Int) :
    Set.BijOn fdcLbaToChs {lba | 0 ≤ lba ∧ lba < n} (chsTriples n) := by
  refine ⟨?_, ?_, ?_⟩
  · intro lba hlba
    exact ⟨lba, hlba.2, fdcLbaToChs_isChs hlba.1⟩
  · intro lba hlba lba' hlba' heq
    have h := fdcLbaToChs_isChs hlba.1
    have h' := fdcLbaToChs_isChs hlba'.1
    rw [heq] at h
    exact h.addresses.symm.trans h'.addresses
  · intro c hc
    obtain ⟨lba, hlt, h⟩ := hc
    exact ⟨lba, ⟨h.nonneg, hlt⟩, h.eq⟩

/-! ### The boot loader -/

theorem loaderAgrees {r : Regs} (h : r.ax.toNat < 9216) : LoaderAgrees r := by
  obtain ⟨hch, hdh, hcl, -⟩ := lba2chs_spec h
  have hax : (r.ax.setWidth 32).toInt = r.ax.toNat := by
    rw [BitVec.toInt_eq_toNat_cond, BitVec.toNat_setWidth]
    omega
  have hnonneg : 0 ≤ (r.ax.setWidth 32).toInt := by omega
  have hhead := fdcHead_toNat hnonneg
  have htrack := fdcTrack_toNat hnonneg (by omega)
  have hsector := fdcSector_toNat hnonneg
  refine ⟨_, regs_lba2chs r, ?_, ?_, ?_, ?_⟩
  · rw [fdcLbaToChs_of_nonneg (Int.natCast_nonneg _), highByte_append, highByte_append,
      lowByte_append, hch, hdh, hcl]
    refine Prod.ext ?_ (Prod.ext ?_ ?_)
    · change (r.ax.toNat : Int) % 36 / 18 = (r.ax.toNat / 18 % 2 : Nat)
      omega
    · change (r.ax.toNat : Int) / 36 = (r.ax.toNat / 36 : Nat)
      omega
    · change (r.ax.toNat : Int) % 18 + 1 = (r.ax.toNat % 18 + 1 : Nat)
      omega
  · apply BitVec.eq_of_toNat_eq
    rw [highByte_append, hdh]
    omega
  · apply BitVec.eq_of_toNat_eq
    rw [highByte_append, hch]
    omega
  · apply BitVec.eq_of_toNat_eq
    rw [lowByte_append, hcl]
    omega

/-- The kernel computes the address of every block, each address is computed from its own
block, and for blocks whose cylinder fits into a byte the boot loader reads the same sector. -/
theorem disk_geometry_agrees (lba : Int) (nonneg : 0 ≤ lba) :
    IsChs lba (fdcLbaToChs lba) ∧
      (∀ n, Set.BijOn fdcLbaToChs {lba | 0 ≤ lba ∧ lba < n} (chsTriples n)) ∧
      (lba < 9216 → ∀ r : Regs, (r.ax.toNat : Int) = lba → LoaderAgrees r) := by
  refine ⟨fdcLbaToChs_isChs nonneg, fdcLbaToChs_bijOn, fun hlt r hr => loaderAgrees ?_⟩
  omega

/-- The first sector of the data region. -/
theorem disk_geometry_agrees_data :
    IsChs 36 (fdcLbaToChs 36) ∧ ∀ r : Regs, (r.ax.toNat : Int) = 36 → LoaderAgrees r := by
  obtain ⟨hchs, -, hloader⟩ := disk_geometry_agrees 36 (by decide)
  exact ⟨hchs, hloader (by decide)⟩

end Bros
