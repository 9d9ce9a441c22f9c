import Bros.IsrIrq
import Bros.RingBuf
import Bros.RootDir
import Bros.StartInit
import Bros.SysInfo

/-!
From power-on to `_start_init`: `floppy.asm`, `boot2.asm` and `_start`, over any contents of
the memory.

Memory is physical. The loaders' code, variables and stack lie below 1 MiB and stand for
themselves, as does what the BIOS keeps there. The loaders write above 1 MiB only to test
gate A20, which puts the byte back, and to copy the kernel file; so the kernel's zero-
initialised storage behind the file holds what the memory held before.
-/

namespace Bros
open ByteMemory Loops

/-! ### The loaders -/

/-- The reply of `int 15h`, `AX = E801h`. -/
structure E801Reply where
  carry : Bool
  ax : BitVec 16
  bx : BitVec 16
  cx : BitVec 16
  dx : BitVec 16

/-- The machine: the BIOS replies the loaders ask for, and whether gate A20 is open. -/
structure Machine where
  bios : Bios
  drvNum : Byte
  resetCarry : Bool
  lowMemory : BitVec 16
  e801 : E801Reply
  e820 : List E820Reply
  a20 : Bool

/-- The total in `EAX`; `none` when `BootFailure` reboots. -/
def getTotalMemorySize (r : E801Reply) : Option (BitVec 32) :=
  if r.carry then none
  else if r.ax >>> 8 = 0x86#16 ∨ r.ax >>> 8 = 0x80#16 then none
  else if r.cx ≠ r.ax ∨ r.bx ≠ r.dx then none
  else some (r.cx.setWidth 32 + r.dx.setWidth 32 <<< 6)

/-- `FFFFh:0510h`; without bit 20 it is the address it is compared with. -/
def gateA20Probe (a20 : Bool) : Nat := if a20 then 0x100500 else 0x500

/-- Memory after `CheckGateA20`, and the zero flag. -/
def checkGateA20 (a20 : Bool) (m : Mem) : Mem × Bool :=
  let low := m 0x500
  let high := m (gateA20Probe a20)
  let m := store8 m 0x500 0x00#8
  let m := store8 m (gateA20Probe a20) 0xFF#8
  let wrapped := m 0x500 == 0xFF#8
  let m := store8 m (gateA20Probe a20) high
  (store8 m 0x500 low, wrapped)

def biosBootSeg : BitVec 16 := 0x7C00#16

def bootRelocateSeg : BitVec 16 := 0x600#16

def boot2Seg : BitVec 16 := biosBootSeg

/-- `main` of `floppy.asm`, up to the jump to `BOOT2_SEG`. -/
def floppyMain (machine : Machine) (m : Mem) : Option Mem :=
  let m := copyChunks 2 256 m bootRelocateSeg.toNat biosBootSeg.toNat
  if machine.resetCarry then none
  else
    (driveReadSectors machine.bios m ((rsvdSecCnt - 1#16).setWidth 8)
      { ch := 0#8, cl := 2#8, dh := 0#8, dl := machine.drvNum } boot2Seg).map Prod.fst

def kernelFilenameAttrib : Byte := 0b00000111#8

/-- The address of `KERNEL_FILENAME`, behind the jump at the start. -/
def kernelFilename : BitVec 16 := boot2Seg + 3#16

/-- `AX` after `PrintString`: the BIOS function, and the terminator of the text. -/
def printStringAx : BitVec 16 := 0x0E00#16

/-- `boot2.asm` up to `main32`: memory and the kernel size on the stack. -/
def boot2 (fuel : Nat) (machine : Machine) (m : Mem) : Option (Mem × BitVec 32) := do
  let m ← loadRootDirectory machine.bios m
  let file := rootDirFindFile m printStringAx kernelFilename kernelFilenameAttrib
  if file.ax = 0xFFFF#16 then none
  else
    let m ← loadFAT machine.bios file.mem
    let m ← loadFile fuel machine.bios m file.bx (kernelSeg.setWidth 16) fatBufferSeg
    let eax ← getTotalMemorySize machine.e801
    let size := file.cx ++ file.dx
    let b ← storeSysInfo m (eax + machine.lowMemory.setWidth 32) size machine.drvNum machine.e820
    let (m, wrapped) := checkGateA20 machine.a20 b.mem
    -- `EnableA20` is a `hlt` with interrupts off
    if wrapped then none else some (m, size)

/-- The registers and the memory the kernel is entered with. -/
structure KernelEntry where
  mem : Mem
  eax : BitVec 32
  ebx : BitVec 32
  esp : BitVec 32

def main32 (m : Mem) (size : BitVec 32) : KernelEntry where
  mem := relocateKernel m size
  eax := bros
  ebx := sysInfoSeg.setWidth 32
  esp := kernelSeg

/-- `_start`, up to the jump to `_start_init`. -/
def start (k : KernelEntry) : KernelEntry := { k with esp := kernelSeg }

/-- From the memory at power-on to `_start_init`; the BIOS loads the boot sector. -/
def boot (fuel : Nat) (machine : Machine) (disk : DiskImage) (m : Mem) : Option KernelEntry :=
  (floppyMain machine (write m biosBootSeg.toNat 512 (disk 0))).bind fun m =>
    (boot2 fuel machine m).map fun (m, size) => start (main32 m size)

/-! ### Memory above 1 MiB -/

theorem checkGateA20_mem (a20 : Bool) (m : Mem) : (checkGateA20 a20 m).1 = m := by
  funext b
  cases a20 with
  | true =>
      by_cases hlow : b = 0x500
      · subst hlow
        rfl
      · by_cases hhigh : b = 0x100500
        · subst hhigh
          rfl
        · simp only [checkGateA20, gateA20Probe, if_true, store8]
          rw [write_outside _ _ (by omega), write_outside _ _ (by omega),
            write_outside _ _ (by omega), write_outside _ _ (by omega)]
  | false =>
      by_cases hlow : b = 0x500
      · subst hlow
        rfl
      · simp only [checkGateA20, gateA20Probe, store8]
        rw [write_outside _ _ (by omega), write_outside _ _ (by simp; omega),
          write_outside _ _ (by simp; omega), write_outside _ _ (by omega)]

theorem driveReadSectors_high {bios : Bios} {m : Mem} {al : Byte} {chs : Chs} {bx : BitVec 16}
    {r : Mem × Byte} (h : driveReadSectors bios m al chs bx = some r) :
    AgreeFrom 0x100000 r.1 m := by
  rw [driveReadSectors] at h
  split at h
  · cases h
  · split at h
    · cases h
    · cases h
      have := bx.isLt
      have := (bios { al, chs, bx }).al.isLt
      exact agreeFrom_write m _ (by omega)

theorem loadRootDirectory_high {bios : Bios} {m m' : Mem}
    (h : loadRootDirectory bios m = some m') : AgreeFrom 0x100000 m' m := by
  obtain ⟨r, hread, rfl⟩ := Option.map_eq_some_iff.mp h
  exact driveReadSectors_high hread

theorem loadFAT_high {bios : Bios} {m m' : Mem} (h : loadFAT bios m = some m') :
    AgreeFrom 0x100000 m' m := by
  obtain ⟨r, hread, rfl⟩ := Option.map_eq_some_iff.mp h
  exact driveReadSectors_high hread

theorem rootDirFindFileLoop_high (ax si : BitVec 16) (dl : Byte) (n : Nat) (m : Mem)
    (di : BitVec 16) : AgreeFrom 0x100000 (rootDirFindFileLoop ax si dl n m di).mem m := by
  induction n generalizing di with
  | zero => exact AgreeFrom.refl _ m
  | succ n ih =>
      rw [rootDirFindFileLoop]
      split
      · have := di.isLt
        exact agreeFrom_write m (fun _ => ax.setWidth 8)
          (show di.toNat + 11 ≤ 0x100000 by omega)
      · exact ih _

theorem walkStep_high (s : WalkState) : AgreeFrom 0x100000 (walkStep s).mem s.mem := by
  have := s.di.isLt
  exact agreeFrom_write s.mem _ (by omega)

theorem readCluster_high {bios : Bios} {s t : ReadState} (h : readCluster bios s = some t) :
    AgreeFrom 0x100000 t.mem s.mem := by
  obtain ⟨r, hread, rfl⟩ := Option.map_eq_some_iff.mp h
  exact driveReadSectors_high hread

theorem loadFile_high {fuel : Nat} {bios : Bios} {m m' : Mem} {ax bx di : BitVec 16}
    (h : loadFile fuel bios m ax bx di = some m') : AgreeFrom 0x100000 m' m := by
  obtain ⟨s, hwalk, hreads⟩ := Option.bind_eq_some_iff.mp h
  obtain ⟨t, hread, rfl⟩ := Option.map_eq_some_iff.mp hreads
  obtain ⟨k, -, -, -, rfl⟩ := doUntil_eq_some_iff.mp hwalk
  have hwalked (k : Nat) :
      AgreeFrom 0x100000 (walkStep^[k] { mem := m, ax, di, cx := 0#16 }).mem m := by
    induction k with
    | zero => exact AgreeFrom.refl _ m
    | succ k ih =>
        rw [Function.iterate_succ_apply']
        exact (walkStep_high _).trans ih
  refine repeatM_invariant (I := fun _ (r : ReadState) => AgreeFrom 0x100000 r.mem m) ?_
    (hwalked (k + 1)) hread
  intro _ _ r r' hr hstep
  exact (readCluster_high hstep).trans hr

theorem storeReply_high (s : MemMapState) (r : E820Reply) :
    AgreeFrom 0x100000 (storeReply s r).mem s.mem := by
  have := s.di.isLt
  have := r.data_le
  exact agreeFrom_write s.mem (fun i => r.data.getD i 0#8)
    (show s.di.toNat + r.data.length ≤ 0x100000 by omega)

theorem getMemoryMapLoop_high {replies : List E820Reply} {s t : MemMapState}
    (h : getMemoryMapLoop s replies = some t) : AgreeFrom 0x100000 t.mem s.mem := by
  induction replies generalizing s with
  | nil => cases h
  | cons r replies ih =>
      have hstore := storeReply_high s r
      simp only [getMemoryMapLoop] at h
      split at h
      · cases h
        exact hstore
      · have hcount : AgreeFrom 0x100000
            (if r.cx = 0#16 then storeReply s r else countEntry (storeReply s r)).mem s.mem := by
          split
          · exact hstore
          · exact hstore
        split at h
        · cases h
          exact hcount
        · exact (ih h).trans hcount

theorem storeSysInfo_high {m : Mem} {totMem fileSize : BitVec 32} {drvNum : Byte}
    {replies : List E820Reply} {b : StoredSysInfo}
    (h : storeSysInfo m totMem fileSize drvNum replies = some b) :
    AgreeFrom 0x100000 b.mem m := by
  obtain ⟨map, hmap, rfl⟩ := Option.map_eq_some_iff.mp h
  have hdi := map.di.isLt
  refine (agreeFrom_store32 _ _ (by omega)).trans ?_
  refine AgreeFrom.trans (agreeFrom_store8 _ _ ?_) ((getMemoryMapLoop_high hmap).trans ?_)
  · decide
  refine AgreeFrom.trans (agreeFrom_store8 _ _ ?_) (AgreeFrom.trans (agreeFrom_store32 _ _ ?_) ?_)
  · decide
  · decide
  refine AgreeFrom.trans (agreeFrom_store32 _ _ ?_) (agreeFrom_store32 _ _ ?_)
  · decide
  · decide

theorem floppyMain_high {machine : Machine} {m m' : Mem} (h : floppyMain machine m = some m') :
    AgreeFrom 0x100000 m' m := by
  rw [floppyMain] at h
  split at h
  · cases h
  · obtain ⟨r, hread, rfl⟩ := Option.map_eq_some_iff.mp h
    refine (driveReadSectors_high hread).trans ?_
    intro a ha
    exact copyChunks_outside 2 256 m _
      (Or.inr (Nat.le_trans (show bootRelocateSeg.toNat + 2 * 256 ≤ 0x100000 by decide) ha))

theorem boot2_high {fuel : Nat} {machine : Machine} {m : Mem} {r : Mem × BitVec 32}
    (h : boot2 fuel machine m = some r) : AgreeFrom 0x100000 r.1 m := by
  simp only [boot2, Option.bind_eq_bind, Option.bind_eq_some_iff] at h
  obtain ⟨m1, hdir, h⟩ := h
  split at h
  · cases h
  · simp only [Option.bind_eq_some_iff] at h
    obtain ⟨m2, hfat, m3, hfile, eax, -, b, hinfo, h⟩ := h
    split at h
    · cases h
    · cases h
      rw [checkGateA20_mem]
      refine (storeSysInfo_high hinfo).trans ?_
      refine (loadFile_high hfile).trans ?_
      refine (loadFAT_high hfat).trans ?_
      exact (rootDirFindFileLoop_high _ _ _ _ _ _).trans (loadRootDirectory_high hdir)

/-! ### Floppies that boot -/

/-- The BIOS replies under which the loaders go on. -/
structure Machine.Boots (machine : Machine) (disk : DiskImage) : Prop where
  reads : ReadsTrackSectors machine.bios disk
  drive : machine.drvNum = 0#8
  reset : machine.resetCarry = false
  memory : (getTotalMemorySize machine.e801).isSome
  entries : ∃ rs : E820Replies, machine.e820 = rs.toList
  a20 : machine.a20 = true

/-- The image holds the kernel: the first directory entry with its attributes leads to a
well-formed chain that the loader has room for and the file fits in. -/
structure KernelFloppy (disk : DiskImage) (size : BitVec 32) (cs : List Nat) : Prop where
  entry : ∃ n < 224, dirByte disk (32 * n + 11) = kernelFilenameAttrib ∧
    (∀ k < n, dirByte disk (32 * k + 11) ≠ kernelFilenameAttrib) ∧
    FileChain disk (dirWord disk (32 * n + 26)).toNat cs ∧
    size = dirWord disk (32 * n + 30) ++ dirWord disk (32 * n + 28)
  room : cs.length ≤ 54
  fits : size.toNat ≤ 512 * cs.length

section Booting

variable {machine : Machine} {disk : DiskImage} {size : BitVec 32} {cs : List Nat} {fuel : Nat}

theorem floppyMain_spec (boots : machine.Boots disk) (m : Mem) :
    ∃ m', floppyMain machine m = some m' := by
  obtain ⟨data, hread, -⟩ := driveReadSectors_track boots.reads
    (copyChunks 2 256 m bootRelocateSeg.toNat biosBootSeg.toNat) boot2Seg
    (show 1 ≤ ((rsvdSecCnt - 1#16).setWidth 8).toNat by decide)
    (show Chs.dl { ch := 0#8, cl := 2#8, dh := 0#8, dl := machine.drvNum } = 0#8 from boots.drive)
    (show (0#8).toNat < 80 by decide) (show (0#8).toNat < 2 by decide)
    (show 1 ≤ (2#8).toNat by decide) (show (2#8).toNat + (3#8).toNat ≤ 19 by decide)
  rw [floppyMain, boots.reset, hread]
  exact ⟨_, rfl⟩

theorem boot2_spec (boots : machine.Boots disk) (floppy : KernelFloppy disk size cs)
    (hfuel : cs.length ≤ fuel) (m : Mem) : ∃ m', boot2 fuel machine m = some (m', size) := by
  obtain ⟨n, hn, hattr, hfirst, chain, hsize⟩ := floppy.entry
  obtain ⟨rs, he820⟩ := boots.entries
  obtain ⟨eax, heax⟩ := Option.isSome_iff_exists.mp boots.memory
  obtain ⟨m1, hdir, dir⟩ := loadRootDirectory_spec boots.reads m
  obtain ⟨hax, hbx, hcx, hdx⟩ := dir.findFile printStringAx kernelFilename hn hattr hfirst
  obtain ⟨m2, hfat, fat⟩ := loadFAT_spec boots.reads
    (rootDirFindFile m1 printStringAx kernelFilename kernelFilenameAttrib).mem
  obtain ⟨m3, hload, -⟩ := chain.loadFile boots.reads.sector fat floppy.room hfuel
  rw [BitVec.ofNat_toNat, BitVec.setWidth_eq] at hload
  obtain ⟨b, -, -, hinfo, -⟩ := storeSysInfo_spec m3
    (eax + machine.lowMemory.setWidth 32) size machine.drvNum rs
  have hopen : (checkGateA20 machine.a20 b.mem).2 = false := by
    rw [boots.a20]
    rfl
  refine ⟨b.mem, ?_⟩
  rw [← he820] at hinfo
  simp only [boot2, Option.bind_eq_bind, hdir, Option.bind_some, if_neg hax, hfat, hbx, hcx, hdx,
    hload, heax, ← hsize, hinfo, hopen, checkGateA20_mem, Bool.false_eq_true, if_false]

/-- Every memory boots, and behind the kernel file it is as it was. -/
theorem boot_spec (boots : machine.Boots disk) (floppy : KernelFloppy disk size cs)
    (hfuel : cs.length ≤ fuel) (m : Mem) :
    ∃ k, boot fuel machine disk m = some k ∧
      ∀ a, kernelHimem.toNat + size.toNat ≤ a → k.mem a = m a := by
  obtain ⟨m1, hfloppy⟩ := floppyMain_spec boots (write m biosBootSeg.toNat 512 (disk 0))
  obtain ⟨m2, hboot2⟩ := boot2_spec boots floppy hfuel m1
  refine ⟨start (main32 m2 size), ?_, ?_⟩
  · rw [boot, hfloppy, Option.bind_some, hboot2]
    rfl
  · intro a ha
    have hhigh : 0x100000 ≤ a := Nat.le_trans (Nat.le_add_right _ _) ha
    calc relocateKernel m2 size a = m2 a := relocateKernel_outside m2 size ha
      _ = m1 a := boot2_high hboot2 a hhigh
      _ = write m biosBootSeg.toNat 512 (disk 0) a := floppyMain_high hfloppy a hhigh
      _ = m a := write_outside m _ (Or.inr (Nat.le_trans (by decide) hhigh))

end Booting

/-! ### Zero-initialised storage -/

/-- The address of an object of `n` bytes in `[lo, hi)`. -/
abbrev Static (lo hi n : Nat) := {a : Nat // lo ≤ a ∧ a + n ≤ hi}

/-- Where the linker puts the kernel's static objects without an initial value, or with
initial value zero. -/
structure KernelBss (lo hi : Nat) where
  isrHandlers : Static lo hi (4 * 256)
  gRingBuf : Static lo hi (ps2RingBufferSize + 2)
  curX : Static lo hi 1
  curY : Static lo hi 1
  gPmmTotalFrames : Static lo hi 4
  gPmmUsedFrames : Static lo hi 4
  gPmmFramesMap : Static lo hi 4
  ticks : Static lo hi 4

def ringBufAt (m : Mem) (a : Nat) : RingBuf where
  buf := fun i => m (a + i)
  head := m (a + ps2RingBufferSize)
  tail := m (a + ps2RingBufferSize + 1)

/-- The values the static objects are declared with. -/
structure KernelBss.Initial {lo hi : Nat} (b : KernelBss lo hi) (m : Mem) : Prop where
  isr_handlers : ∀ n < 256, isrHandlersAt m b.isrHandlers n = none
  ring_buf : ps2RingBufEmpty (ringBufAt m b.gRingBuf) = true
  cur : m b.curX = 0#8 ∧ m b.curY = 0#8
  pmm : load32 m b.gPmmTotalFrames = 0#32 ∧ load32 m b.gPmmUsedFrames = 0#32 ∧
    load32 m b.gPmmFramesMap = 0#32
  ticks : load32 m b.ticks = 0#32

/-- `[lo, hi)` holds the same in both memories, namely zero. -/
structure CleanBss (lo hi : Nat) (m m' : Mem) : Prop where
  same : ∀ a, lo ≤ a → a < hi → m a = m' a
  zero : ∀ a, lo ≤ a → a < hi → m a = 0#8
  statics : ∀ b : KernelBss lo hi, b.Initial m ∧ b.Initial m'

theorem load32_zero {m : Mem} {a : Nat} (h : ∀ b, a ≤ b → b < a + 4 → m b = 0#8) :
    load32 m a = 0#32 := by
  have hzero : load32 m a = load32 (fun _ => 0#8) a := load32_congr h
  exact hzero.trans (by rw [load32]; rfl)

theorem KernelBss.initial {lo hi : Nat} (b : KernelBss lo hi) {m : Mem}
    (zero : ∀ a, lo ≤ a → a < hi → m a = 0#8) : b.Initial m := by
  have hword (a : Static lo hi 4) : load32 m a = 0#32 :=
    load32_zero fun c hlow hhigh =>
      zero c (Nat.le_trans a.2.1 hlow) (Nat.lt_of_lt_of_le hhigh a.2.2)
  have hbyte (a : Static lo hi 1) : m a = 0#8 := zero a a.2.1 a.2.2
  refine ⟨?_, ?_, ⟨hbyte _, hbyte _⟩, ⟨hword _, hword _, hword _⟩, hword _⟩
  · intro n hn
    obtain ⟨hlow, hhigh⟩ := b.isrHandlers.2
    refine if_pos (load32_zero fun c hc hc' => zero c (by omega) (by omega))
  · obtain ⟨hlow, hhigh⟩ := b.gRingBuf.2
    have hhead : m (b.gRingBuf + ps2RingBufferSize) = 0#8 := zero _ (by omega) (by omega)
    have htail : m (b.gRingBuf + ps2RingBufferSize + 1) = 0#8 := zero _ (by omega) (by omega)
    simp only [ps2RingBufEmpty, ringBufAt, hhead, htail, BEq.rfl]

theorem cleanBss_iff {lo hi : Nat} {m m' : Mem} :
    CleanBss lo hi m m' ↔ ∀ a, lo ≤ a → a < hi → m a = 0#8 ∧ m' a = 0#8 := by
  constructor
  · intro h a hlo hhi
    exact ⟨h.zero a hlo hhi, (h.same a hlo hhi).symm.trans (h.zero a hlo hhi)⟩
  · intro h
    refine ⟨?_, fun a hlo hhi => (h a hlo hhi).1, fun b => ⟨?_, ?_⟩⟩
    · intro a hlo hhi
      rw [(h a hlo hhi).1, (h a hlo hhi).2]
    · exact b.initial fun a hlo hhi => (h a hlo hhi).1
    · exact b.initial fun a hlo hhi => (h a hlo hhi).2

/-- The handler table at `_start_init` is the one the memory held at power-on. -/
theorem boot_isrHandlers {machine : Machine} {disk : DiskImage} {size : BitVec 32}
    {cs : List Nat} {fuel : Nat} (boots : machine.Boots disk)
    (floppy : KernelFloppy disk size cs) (hfuel : cs.length ≤ fuel) {hi : Nat}
    (b : KernelBss (kernelHimem.toNat + size.toNat) hi) (m : Mem) {k : KernelEntry}
    (h : boot fuel machine disk m = some k) :
    isrHandlersAt k.mem b.isrHandlers = isrHandlersAt m b.isrHandlers := by
  obtain ⟨k', hk, hbss⟩ := boot_spec boots floppy hfuel m
  cases hk.symm.trans h
  funext n
  have hslot : load32 k.mem (b.isrHandlers + 4 * n) = load32 m (b.isrHandlers + 4 * n) := by
    have hlow := b.isrHandlers.2.1
    exact load32_congr fun a ha _ => hbss a (by omega)
  simp only [isrHandlersAt, hslot]

/-- The disk of the two linked clusters, with a directory that names them. -/
def kernelDisk : DiskImage := fun sector i =>
  if sector = 22 then
    if i = 11 then 0x07#8
    else if i = 26 then 0x03#8
    else if i = 28 then 0xFE#8
    else if i = 29 then 0x03#8
    else 0#8
  else twoClusterDisk sector i

def pcMemory : E801Reply :=
  { carry := false, ax := 0x3C00#16, bx := 0x100#16, cx := 0x3C00#16, dx := 0x100#16 }

def pc (disk : DiskImage) : Machine where
  bios := fun r =>
    { carry := false
      al := r.al
      data := fun i =>
        disk ((r.chs.ch.toNat * 2 + r.chs.dh.toNat) * 18 + (r.chs.cl.toNat - 1) + i / 512)
          (i % 512) }
  drvNum := 0#8
  resetCarry := false
  lowMemory := 640#16
  e801 := pcMemory
  e820 := [{ replyAvailable with ebx := 0#32 }]
  a20 := true

theorem pc_boots (disk : DiskImage) : (pc disk).Boots disk where
  reads := fun _ _ _ _ _ _ _ => ⟨rfl, rfl, fun _ _ => rfl⟩
  drive := rfl
  reset := rfl
  memory := show (getTotalMemorySize pcMemory).isSome by decide
  entries :=
    ⟨{ more := []
       last := { replyAvailable with ebx := 0#32 }
       more_continues := by simp
       last_ends := by decide }, rfl⟩
  a20 := rfl

theorem kernelDisk_floppy : KernelFloppy kernelDisk 1022#32 [3, 2] where
  entry := by
    refine ⟨0, by decide, by decide, fun k hk => absurd hk (Nat.not_lt_zero k), ?_, by decide⟩
    refine ⟨by decide, by decide, by decide, List.isChain_pair.mpr (by decide), ?_⟩
    intro c hc
    injection hc with hc
    subst hc
    decide
  room := by decide
  fits := by decide

/-- Two boots of one floppy start the kernel with the same, zero, storage behind its file
exactly when both memories were zero there at power-on. -/
theorem kernel_bss_clean_iff {machine : Machine} {disk : DiskImage} {size : BitVec 32}
    {cs : List Nat} {fuel : Nat} (boots : machine.Boots disk)
    (floppy : KernelFloppy disk size cs) (hfuel : cs.length ≤ fuel) (kernelEnd : BitVec 32)
    (m m' : Mem) :
    (∃ k k', boot fuel machine disk m = some k ∧ boot fuel machine disk m' = some k' ∧
        CleanBss (kernelHimem.toNat + size.toNat) kernelEnd.toNat k.mem k'.mem) ↔
      ∀ a, kernelHimem.toNat + size.toNat ≤ a → a < kernelEnd.toNat →
        m a = 0#8 ∧ m' a = 0#8 := by
  obtain ⟨k, hk, hbss⟩ := boot_spec boots floppy hfuel m
  obtain ⟨k', hk', hbss'⟩ := boot_spec boots floppy hfuel m'
  constructor
  · intro h a hlo hhi
    obtain ⟨_, _, hl, hl', clean⟩ := h
    cases hk.symm.trans hl
    cases hk'.symm.trans hl'
    rw [← hbss a hlo, ← hbss' a hlo]
    exact cleanBss_iff.mp clean a hlo hhi
  · intro h
    refine ⟨k, k', hk, hk', cleanBss_iff.mpr ?_⟩
    intro a hlo hhi
    rw [hbss a hlo, hbss' a hlo]
    exact h a hlo hhi

/-- Whatever the memory below the kernel held, a clear memory behind it boots cleanly. -/
theorem kernel_bss_clean_low_memory :
    let m : Mem := fun a => if a < 0x100000 then 0xAA#8 else 0#8
    ∃ k k', boot 2 (pc kernelDisk) kernelDisk (fun _ => 0#8) = some k ∧
      boot 2 (pc kernelDisk) kernelDisk m = some k' ∧
      CleanBss (kernelHimem.toNat + (1022#32).toNat) (0x108000#32).toNat k.mem k'.mem := by
  refine (kernel_bss_clean_iff (pc_boots kernelDisk) kernelDisk_floppy (by decide) 0x108000#32
    _ _).mpr ?_
  intro a hlo _
  exact ⟨rfl, if_neg (Nat.not_lt.mpr (Nat.le_trans (Nat.le_add_right _ _) hlo))⟩

/-- A memory that held ones at power-on starts the kernel with another `.bss` than a clear
one. -/
theorem kernel_bss_stale :
    ¬ ∃ k k', boot 2 (pc kernelDisk) kernelDisk (fun _ => 0#8) = some k ∧
      boot 2 (pc kernelDisk) kernelDisk (fun _ => 0xFF#8) = some k' ∧
      CleanBss (kernelHimem.toNat + (1022#32).toNat) (0x108000#32).toNat k.mem k'.mem := by
  intro h
  obtain ⟨k, k', -, hk', clean⟩ := h
  obtain ⟨_, hboot, hbss⟩ := boot_spec (pc_boots kernelDisk) kernelDisk_floppy
    (show [3, 2].length ≤ 2 by decide) (fun _ => 0xFF#8)
  cases hboot.symm.trans hk'
  have hzero := (cleanBss_iff.mp clean 0x101000 (by decide) (by decide)).2
  rw [hbss 0x101000 (by decide)] at hzero
  revert hzero
  decide

end Bros
