import Bros.Lib.Memory

/-!
Reading sectors through the BIOS: `LBA2CHS` and `DriveReadSectors`.

The BIOS is a parameter, a function from the registers of `int 13h`, `AH = 02h`, to its
reply. Registers the source does not use afterwards are left out. The constants are those
of `filesystems/FAT_bootsector.inc`.
-/

namespace Bros
open ByteMemory

def bytesPerSec : BitVec 16 := 512#16

def secPerCluster : BitVec 16 := 1#16

def rsvdSecCnt : BitVec 16 := 4#16

def numFATs : BitVec 16 := 2#16

def totSec16 : BitVec 16 := 2880#16

def fatSz16 : BitVec 16 := 9#16

def secPerTrk : BitVec 16 := 18#16

def numHeads : BitVec 16 := 2#16

structure Chs where
  ch : Byte
  cl : Byte
  dh : Byte
  dl : Byte
deriving DecidableEq

/-- `DL` is destroyed: the final `xchg` leaves it the high byte of the head number. -/
def lba2chs (ax : BitVec 16) : Chs :=
  let cl := (ax % secPerTrk + 1#16).setWidth 8
  let ax := ax / secPerTrk
  let dx := ax % numHeads
  let ax := ax / numHeads
  { ch := ax.setWidth 8
    cl
    dh := dx.setWidth 8
    dl := (dx >>> 8).setWidth 8 }

/-- The registers `int 13h`, `AH = 02h` reads. -/
structure ReadRequest where
  al : Byte
  chs : Chs
  bx : BitVec 16

/-- The carry flag, the sectors read, and the bytes stored from `ES:BX` on. -/
structure ReadReply where
  carry : Bool
  al : Byte
  data : Nat → Byte

abbrev Bios := ReadRequest → ReadReply

/-- The new memory with `AL`; `none` when `BootFailure` reboots. -/
def driveReadSectors (bios : Bios) (m : Mem) (al : Byte) (chs : Chs) (bx : BitVec 16) :
    Option (Mem × Byte) :=
  let reply := bios { al, chs, bx }
  if reply.carry then none
  else if al ≠ reply.al then none
  else some (write m bx.toNat (512 * reply.al.toNat) reply.data, reply.al)

abbrev DiskImage := Nat → Nat → Byte

/-- Reading one sector of drive 0 at a valid address succeeds and stores the addressed
sector of a disk with two heads and 18 sectors per track. -/
def ReadsAddressedSector (bios : Bios) (disk : DiskImage) : Prop :=
  ∀ r : ReadRequest, r.al = 1#8 → r.chs.dl = 0#8 →
    r.chs.ch.toNat < 80 → r.chs.dh.toNat < 2 → 1 ≤ r.chs.cl.toNat → r.chs.cl.toNat ≤ 18 →
    (bios r).carry = false ∧ (bios r).al = 1#8 ∧
      ∀ i < 512, (bios r).data i =
        disk ((r.chs.ch.toNat * 2 + r.chs.dh.toNat) * 18 + (r.chs.cl.toNat - 1)) i

theorem toNat_div16 (x y : BitVec 16) : (x / y).toNat = x.toNat / y.toNat :=
  BitVec.toNat_udiv

theorem toNat_mod16 (x y : BitVec 16) : (x % y).toNat = x.toNat % y.toNat :=
  BitVec.toNat_umod

/-- The address `LBA2CHS` computes while the cylinder fits into `CH`, and that the drive
becomes drive 0. -/
theorem lba2chs_spec {lba : BitVec 16} (h : lba.toNat < 9216) :
    (lba2chs lba).ch.toNat = lba.toNat / 36 ∧ (lba2chs lba).dh.toNat = lba.toNat / 18 % 2 ∧
      (lba2chs lba).cl.toNat = lba.toNat % 18 + 1 ∧ (lba2chs lba).dl = 0#8 := by
  have h18 : secPerTrk.toNat = 18 := rfl
  have h2 : numHeads.toNat = 2 := rfl
  have h1 : (1#16).toNat = 1 := rfl
  refine ⟨?_, ?_, ?_, ?_⟩
  · simp only [lba2chs, BitVec.toNat_setWidth, toNat_div16, h18, h2]
    omega
  · simp only [lba2chs, BitVec.toNat_setWidth, toNat_div16, toNat_mod16, h18, h2]
    omega
  · simp only [lba2chs, BitVec.toNat_setWidth, BitVec.toNat_add, toNat_mod16, h18, h1]
    omega
  · apply BitVec.eq_of_toNat_eq
    simp only [lba2chs, BitVec.toNat_setWidth, BitVec.toNat_ushiftRight, toNat_div16,
      toNat_mod16, h18, h2, Nat.shiftRight_eq_div_pow, BitVec.toNat_zero]
    omega

theorem driveReadSectors_lba {bios : Bios} {disk : DiskImage}
    (reads : ReadsAddressedSector bios disk) (m : Mem) {lba : BitVec 16}
    (h : lba.toNat < 2880) (bx : BitVec 16) :
    ∃ data, driveReadSectors bios m 1#8 (lba2chs lba) bx =
        some (write m bx.toNat 512 data, 1#8) ∧
      ∀ i < 512, data i = disk lba.toNat i := by
  obtain ⟨hch, hdh, hcl, hdl⟩ := lba2chs_spec (show lba.toNat < 9216 by omega)
  obtain ⟨hcarry, hal, hdata⟩ := reads { al := 1#8, chs := lba2chs lba, bx } rfl hdl
    (by rw [hch]; omega) (by rw [hdh]; omega) (by rw [hcl]; omega) (by rw [hcl]; omega)
  refine ⟨(bios { al := 1#8, chs := lba2chs lba, bx }).data, ?_, ?_⟩
  · simp only [driveReadSectors, hcarry, hal, ne_eq, not_true, if_false, Bool.false_eq_true]
    rfl
  · intro i hi
    rw [hdata i hi, hch, hdh, hcl]
    congr 1
    omega

end Bros
