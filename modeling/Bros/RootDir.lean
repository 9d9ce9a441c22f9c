import Bros.KernelLoad
import Mathlib.Data.Nat.Find

/-!
`LoadRootDirectory`, `RootDirFindFile` and `LoadFAT` of `filesystems/FAT12.inc`.

Both tables are read to `FAT_SEG`, one after the other. `DL` does not survive `LBA2CHS`,
so the drive is left out here too.
-/

namespace Bros
open ByteMemory

def rootEntCnt : BitVec 16 := 224#16

def rootDirEntrySize : BitVec 16 := 32#16

def rootDirSeg : BitVec 16 := fatSeg

def loadRootDirectory (bios : Bios) (m : Mem) : Option Mem :=
  (driveReadSectors bios m (rootDirTotalSectors.setWidth 8) (lba2chs rootDirSecOffset)
    rootDirSeg).map Prod.fst

def loadFAT (bios : Bios) (m : Mem) : Option Mem :=
  (driveReadSectors bios m (fatTotalSectors.setWidth 8) (lba2chs fatSecOffset) fatSeg).map
    Prod.fst

/-- Memory and the registers `RootDirFindFile` returns. -/
structure RootDirFile where
  mem : Mem
  ax : BitVec 16
  bx : BitVec 16
  cx : BitVec 16
  dx : BitVec 16

/-- `RootDirFindFile_loop` with `n` rounds left. `repe stosb` stores `AL` over the name and
leaves the flags of the attribute comparison, so the name at `SI` is never read. -/
def rootDirFindFileLoop (ax si : BitVec 16) (dl : Byte) : Nat → Mem → BitVec 16 → RootDirFile
  | 0, mem, _ => { mem, ax := 0xFFFF#16, bx := si, cx := 0#16, dx := dl.setWidth 16 }
  | n + 1, mem, di =>
      if dl = mem (di + 11#16).toNat then    -- RootDirFindFile_found
        let mem := write mem di.toNat 11 fun _ => ax.setWidth 8
        { mem
          ax := ax &&& 0xFF00#16 ||| (rootEntCnt - BitVec.ofNat 16 (n + 1)) &&& 0xFF#16
          bx := load16 mem (di + 26#16).toNat
          cx := load16 mem (di + 30#16).toNat
          dx := load16 mem (di + 28#16).toNat }
      else rootDirFindFileLoop ax si dl n mem (di + rootDirEntrySize)

def rootDirFindFile (m : Mem) (ax si : BitVec 16) (dl : Byte) : RootDirFile :=
  rootDirFindFileLoop ax si dl rootEntCnt.toNat m rootDirSeg

/-! ### Reading within a track -/

/-- Reading sectors of one track of drive 0 succeeds and stores the addressed sectors. -/
def ReadsTrackSectors (bios : Bios) (disk : DiskImage) : Prop :=
  ∀ r : ReadRequest, 1 ≤ r.al.toNat → r.chs.dl = 0#8 → r.chs.ch.toNat < 80 →
    r.chs.dh.toNat < 2 → 1 ≤ r.chs.cl.toNat → r.chs.cl.toNat + r.al.toNat ≤ 19 →
    (bios r).carry = false ∧ (bios r).al = r.al ∧
      ∀ i < 512 * r.al.toNat, (bios r).data i =
        disk ((r.chs.ch.toNat * 2 + r.chs.dh.toNat) * 18 + (r.chs.cl.toNat - 1) + i / 512)
          (i % 512)

theorem ReadsTrackSectors.sector {bios : Bios} {disk : DiskImage}
    (reads : ReadsTrackSectors bios disk) : ReadsAddressedSector bios disk := by
  intro r hal hdl hch hdh hcl hcl'
  have hone : r.al.toNat = 1 := by
    rw [hal]
    rfl
  obtain ⟨hcarry, hal', hdata⟩ := reads r (by omega) hdl hch hdh hcl (by omega)
  refine ⟨hcarry, hal'.trans hal, fun i hi => ?_⟩
  rw [hdata i (by omega), Nat.div_eq_of_lt hi, Nat.mod_eq_of_lt hi, Nat.add_zero]

theorem driveReadSectors_track {bios : Bios} {disk : DiskImage}
    (reads : ReadsTrackSectors bios disk) (m : Mem) {al : Byte} {chs : Chs} (bx : BitVec 16)
    (hal : 1 ≤ al.toNat) (hdl : chs.dl = 0#8) (hch : chs.ch.toNat < 80)
    (hdh : chs.dh.toNat < 2) (hcl : 1 ≤ chs.cl.toNat) (htrack : chs.cl.toNat + al.toNat ≤ 19) :
    ∃ data, driveReadSectors bios m al chs bx =
        some (write m bx.toNat (512 * al.toNat) data, al) ∧
      ∀ i < 512 * al.toNat, data i =
        disk ((chs.ch.toNat * 2 + chs.dh.toNat) * 18 + (chs.cl.toNat - 1) + i / 512)
          (i % 512) := by
  obtain ⟨hcarry, hal', hdata⟩ := reads { al, chs, bx } hal hdl hch hdh hcl htrack
  refine ⟨(bios { al, chs, bx }).data, ?_, hdata⟩
  simp only [driveReadSectors, hcarry, hal', ne_eq, not_true, if_false, Bool.false_eq_true]

/-! ### The tables on the image -/

def dirByte (disk : DiskImage) (i : Nat) : Byte :=
  disk (rootDirSecOffset.toNat + i / 512) (i % 512)

def dirWord (disk : DiskImage) (i : Nat) : BitVec 16 := dirByte disk (i + 1) ++ dirByte disk i

/-- What `LoadRootDirectory` leaves at `ROOT_DIR_SEG`. -/
def DirLoaded (disk : DiskImage) (m : Mem) : Prop :=
  ∀ i < 512 * rootDirTotalSectors.toNat, m (rootDirSeg.toNat + i) = dirByte disk i

theorem loadRootDirectory_spec {bios : Bios} {disk : DiskImage}
    (reads : ReadsTrackSectors bios disk) (m : Mem) :
    ∃ m', loadRootDirectory bios m = some m' ∧ DirLoaded disk m' := by
  obtain ⟨data, hread, hdata⟩ := driveReadSectors_track reads m rootDirSeg
    (show 1 ≤ (rootDirTotalSectors.setWidth 8).toNat by decide)
    (show (lba2chs rootDirSecOffset).dl = 0#8 by decide) (by decide) (by decide) (by decide)
    (by decide)
  refine ⟨_, by rw [loadRootDirectory, hread]; rfl, fun i hi => ?_⟩
  exact (write_offset m _ _ i data hi).trans (hdata i hi)

theorem loadFAT_spec {bios : Bios} {disk : DiskImage} (reads : ReadsTrackSectors bios disk)
    (m : Mem) : ∃ m', loadFAT bios m = some m' ∧ FatLoaded disk m' := by
  obtain ⟨data, hread, hdata⟩ := driveReadSectors_track reads m fatSeg
    (show 1 ≤ (fatTotalSectors.setWidth 8).toNat by decide)
    (show (lba2chs fatSecOffset).dl = 0#8 by decide) (by decide) (by decide) (by decide)
    (by decide)
  refine ⟨_, by rw [loadFAT, hread]; rfl, fun i hi => ?_⟩
  exact congrArg BitVec.toNat ((write_offset m _ _ i data hi).trans (hdata i hi))

/-! ### The search -/

/-- Byte `i` of entry `k`. -/
def entryByte (m : Mem) (k i : Nat) : Byte := m (rootDirSeg.toNat + 32 * k + i)

def entryAttr (m : Mem) (k : Nat) : Byte := entryByte m k 11

def entryWord (m : Mem) (k i : Nat) : BitVec 16 := load16 m (rootDirSeg.toNat + 32 * k + i)

theorem entry_addr {k i : Nat} (hk : k < 224) (hi : i < 32) :
    (BitVec.ofNat 16 (rootDirSeg.toNat + 32 * k) + BitVec.ofNat 16 i).toNat =
      rootDirSeg.toNat + 32 * k + i := by
  rw [BitVec.toNat_add, BitVec.toNat_ofNat, BitVec.toNat_ofNat,
    show rootDirSeg.toNat = 0x1000 from rfl]
  omega

/-- Entries with another attribute byte are passed over. -/
theorem rootDirFindFile_skip {m : Mem} (ax si : BitVec 16) {dl : Byte} {k : Nat} (hk : k ≤ 224)
    (hskip : ∀ i < k, entryAttr m i ≠ dl) :
    rootDirFindFile m ax si dl = rootDirFindFileLoop ax si dl (224 - k) m
      (BitVec.ofNat 16 (rootDirSeg.toNat + 32 * k)) := by
  induction k with
  | zero => rfl
  | succ k ih =>
      have hne : ¬ dl =
          m (BitVec.ofNat 16 (rootDirSeg.toNat + 32 * k) + BitVec.ofNat 16 11).toNat := by
        rw [entry_addr (by omega) (by decide)]
        exact fun h => hskip k (Nat.lt_succ_self k) h.symm
      rw [ih (by omega) fun i hi => hskip i (by omega),
        show 224 - k = (224 - (k + 1)) + 1 by omega, rootDirFindFileLoop, if_neg hne,
        show rootDirEntrySize = BitVec.ofNat 16 32 from rfl, ← BitVec.ofNat_add, Nat.mul_succ,
        ← Nat.add_assoc]

theorem rootDirFindFile_absent {m : Mem} (ax si : BitVec 16) {dl : Byte}
    (habsent : ∀ k < 224, entryAttr m k ≠ dl) :
    rootDirFindFile m ax si dl =
      { mem := m, ax := 0xFFFF#16, bx := si, cx := 0#16, dx := dl.setWidth 16 } :=
  rootDirFindFile_skip ax si le_rfl habsent

/-- The first entry with the attribute byte is the one found, whatever its name, and its
name is overwritten. -/
theorem rootDirFindFile_found {m : Mem} (ax si : BitVec 16) {dl : Byte} {n : Nat}
    (hn : n < 224) (hattr : entryAttr m n = dl) (hfirst : ∀ k < n, entryAttr m k ≠ dl) :
    rootDirFindFile m ax si dl =
      { mem := write m (rootDirSeg.toNat + 32 * n) 11 fun _ => ax.setWidth 8
        ax := ax &&& 0xFF00#16 ||| BitVec.ofNat 16 n
        bx := entryWord m n 26
        cx := entryWord m n 30
        dx := entryWord m n 28 } := by
  have heq : dl = m (BitVec.ofNat 16 (rootDirSeg.toNat + 32 * n) + 11#16).toNat := by
    rw [show 11#16 = BitVec.ofNat 16 11 from rfl, entry_addr hn (by decide), ← hattr]
    rfl
  have hstart : (BitVec.ofNat 16 (rootDirSeg.toNat + 32 * n)).toNat =
      rootDirSeg.toNat + 32 * n := by
    rw [BitVec.toNat_ofNat, show rootDirSeg.toNat = 0x1000 from rfl]
    omega
  have hindex : (rootEntCnt - BitVec.ofNat 16 (223 - n + 1)) &&& 0xFF#16 =
      BitVec.ofNat 16 n := by
    apply BitVec.eq_of_toNat_eq
    rw [BitVec.toNat_and, show (0xFF#16).toNat = 2 ^ 8 - 1 from rfl,
      Nat.and_two_pow_sub_one_eq_mod, BitVec.toNat_sub, BitVec.toNat_ofNat, BitVec.toNat_ofNat,
      show rootEntCnt.toNat = 224 from rfl]
    omega
  -- the words behind the name are as they were loaded
  have hword (i : Nat) (hi : 11 ≤ i) (hi' : i < 31) :
      load16 (write m (rootDirSeg.toNat + 32 * n) 11 fun _ => ax.setWidth 8)
        (BitVec.ofNat 16 (rootDirSeg.toNat + 32 * n) + BitVec.ofNat 16 i).toNat =
        entryWord m n i := by
    rw [entry_addr hn (by omega), entryWord]
    exact load16_congr fun a _ _ => write_outside _ _ (by omega)
  rw [rootDirFindFile_skip ax si (show n ≤ 224 by omega) hfirst,
    show 224 - n = 223 - n + 1 by omega, rootDirFindFileLoop, if_pos heq, hstart, hindex,
    ← hword 26 (by decide) (by decide), ← hword 30 (by decide) (by decide),
    ← hword 28 (by decide) (by decide)]

theorem DirLoaded.entryByte {disk : DiskImage} {m : Mem} (dir : DirLoaded disk m) {k i : Nat}
    (hk : k < 224) (hi : i < 32) : entryByte m k i = dirByte disk (32 * k + i) := by
  rw [Bros.entryByte, Nat.add_assoc]
  refine dir (32 * k + i) ?_
  change 32 * k + i < 7168
  omega

theorem DirLoaded.entryWord {disk : DiskImage} {m : Mem} (dir : DirLoaded disk m) {k i : Nat}
    (hk : k < 224) (hi : i < 31) : entryWord m k i = dirWord disk (32 * k + i) :=
  congrArg₂ (· ++ ·) (dir.entryByte hk (i := i + 1) (by omega)) (dir.entryByte hk (by omega))

theorem index_ne_not_found (ax : BitVec 16) {n : Nat} (hn : n < 224) :
    ax &&& 0xFF00#16 ||| BitVec.ofNat 16 n ≠ 0xFFFF#16 := by
  intro h
  have hlow := congrArg (fun x : BitVec 16 => (x &&& 0xFF#16).toNat) h
  simp only [BitVec.and_or_distrib_right, BitVec.and_assoc,
    show 0xFF00#16 &&& 0xFF#16 = 0#16 from rfl, show 0xFFFF#16 &&& 0xFF#16 = 0xFF#16 from rfl,
    BitVec.and_zero, BitVec.zero_or, BitVec.toNat_and, show (0xFF#16).toNat = 2 ^ 8 - 1 from rfl,
    Nat.and_two_pow_sub_one_eq_mod, BitVec.toNat_ofNat] at hlow
  omega

/-- On a loaded directory the cluster and the size found are those of the image. -/
theorem DirLoaded.findFile {disk : DiskImage} {m : Mem} (dir : DirLoaded disk m)
    (ax si : BitVec 16) {dl : Byte} {n : Nat} (hn : n < 224)
    (hattr : dirByte disk (32 * n + 11) = dl)
    (hfirst : ∀ k < n, dirByte disk (32 * k + 11) ≠ dl) :
    (rootDirFindFile m ax si dl).ax ≠ 0xFFFF#16 ∧
      (rootDirFindFile m ax si dl).bx = dirWord disk (32 * n + 26) ∧
      (rootDirFindFile m ax si dl).cx = dirWord disk (32 * n + 30) ∧
      (rootDirFindFile m ax si dl).dx = dirWord disk (32 * n + 28) := by
  have hattr' (k : Nat) (hk : k < 224) : entryAttr m k = dirByte disk (32 * k + 11) :=
    dir.entryByte hk (by decide)
  rw [rootDirFindFile_found ax si hn ((hattr' n hn).trans hattr) fun k hk => by
    rw [hattr' k (by omega)]
    exact hfirst k hk]
  exact ⟨index_ne_not_found ax hn, dir.entryWord hn (by decide), dir.entryWord hn (by decide),
    dir.entryWord hn (by decide)⟩

/-! ### What the search should return -/

/-- The entry has the attribute byte and the eleven-byte name at `DS:SI`. -/
def EntryMatches (m : Mem) (si : BitVec 16) (dl : Byte) (k : Nat) : Prop :=
  entryAttr m k = dl ∧ ∀ i < 11, entryByte m k i = m (si + BitVec.ofNat 16 i).toNat

/-- The contract of `RootDirFindFile`: `FFFFh` without a match, else `AL`, `BX` and `CX:DX`
of the first one, and the directory as it was loaded. -/
structure FindsByName (m : Mem) (ax si : BitVec 16) (dl : Byte) : Prop where
  notFound : (rootDirFindFile m ax si dl).ax = 0xFFFF#16 ↔
    ∀ k < 224, ¬ EntryMatches m si dl k
  index : ∀ k < 224, EntryMatches m si dl k → (∀ j < k, ¬ EntryMatches m si dl j) →
    (rootDirFindFile m ax si dl).ax.setWidth 8 = BitVec.ofNat 8 k
  file : ∀ k < 224, EntryMatches m si dl k → (∀ j < k, ¬ EntryMatches m si dl j) →
    (rootDirFindFile m ax si dl).bx = entryWord m k 26 ∧
      (rootDirFindFile m ax si dl).cx = entryWord m k 30 ∧
      (rootDirFindFile m ax si dl).dx = entryWord m k 28
  directory : ∀ k < 224, ∀ i < 32,
    entryByte (rootDirFindFile m ax si dl).mem k i = entryByte m k i

/-- The first entry with the attribute byte has the name, and `repe stosb` stores the bytes
that are there. -/
def NameStoredOverItself (m : Mem) (ax si : BitVec 16) (dl : Byte) (n : Nat) : Prop :=
  n < 224 ∧ entryAttr m n = dl ∧ (∀ k < n, entryAttr m k ≠ dl) ∧
    ∀ i < 11, entryByte m n i = m (si + BitVec.ofNat 16 i).toNat ∧
      entryByte m n i = ax.setWidth 8

theorem setWidth_index (ax : BitVec 16) (n : Nat) :
    (ax &&& 0xFF00#16 ||| BitVec.ofNat 16 n).setWidth 8 = BitVec.ofNat 8 n := by
  have hhigh : (0xFF00#16).setWidth 8 = 0#8 := rfl
  rw [BitVec.setWidth_or, BitVec.setWidth_and, hhigh, BitVec.and_zero, BitVec.zero_or]
  exact BitVec.setWidth_ofNat_of_le (by decide) n

theorem entryByte_write_name (m : Mem) (al : Byte) {n i : Nat} (hi : i < 11) :
    entryByte (write m (rootDirSeg.toNat + 32 * n) 11 fun _ => al) n i = al :=
  write_offset m _ _ _ _ hi

theorem entryByte_write_other (m : Mem) (al : Byte) {n k i : Nat} (hi : i < 32)
    (h : ¬ (k = n ∧ i < 11)) :
    entryByte (write m (rootDirSeg.toNat + 32 * n) 11 fun _ => al) k i = entryByte m k i :=
  write_outside m _ (by omega)

/-- Without an entry of that attribute nothing is stored, and nothing matches. -/
theorem findsByName_absent {m : Mem} (ax si : BitVec 16) {dl : Byte}
    (habsent : ∀ k < 224, entryAttr m k ≠ dl) : FindsByName m ax si dl := by
  have hnot (k : Nat) (hk : k < 224) : ¬ EntryMatches m si dl k :=
    fun hmatch => habsent k hk hmatch.1
  have hresult := rootDirFindFile_absent ax si habsent
  refine ⟨?_, fun k hk hmatch => absurd hmatch (hnot k hk),
    fun k hk hmatch => absurd hmatch (hnot k hk), ?_⟩
  · rw [hresult]
    exact iff_of_true rfl hnot
  · intro k _ i _
    rw [hresult]

theorem NameStoredOverItself.findsByName {m : Mem} {ax si : BitVec 16} {dl : Byte} {n : Nat}
    (h : NameStoredOverItself m ax si dl n) : FindsByName m ax si dl := by
  obtain ⟨hn, hattr, hfirst, hname⟩ := h
  have hresult := rootDirFindFile_found ax si hn hattr hfirst
  have hmatch : EntryMatches m si dl n := ⟨hattr, fun i hi => (hname i hi).1⟩
  -- a first match has the attribute byte, so it is entry `n`
  have honly (k : Nat) (hk : EntryMatches m si dl k)
      (hk' : ∀ j < k, ¬ EntryMatches m si dl j) : k = n := by
    apply Nat.le_antisymm
    · exact Nat.not_lt.mp fun hlt => hk' n hlt hmatch
    · exact Nat.not_lt.mp fun hlt => hfirst k hlt hk.1
  refine ⟨?_, ?_, ?_, ?_⟩
  · rw [hresult]
    exact iff_of_false (index_ne_not_found ax hn) fun hnone => hnone n hn hmatch
  · intro k _ hk hk'
    rw [hresult, honly k hk hk', setWidth_index]
  · intro k _ hk hk'
    rw [hresult, honly k hk hk']
    exact ⟨rfl, rfl, rfl⟩
  · intro k _ i hi
    rw [hresult]
    by_cases hover : k = n ∧ i < 11
    · obtain ⟨rfl, hi'⟩ := hover
      rw [entryByte_write_name m _ hi', (hname i hi').2]
    · exact entryByte_write_other m _ hi hover

/-- The search meets its contract exactly when no entry has the attribute byte, or the
first that has it is the file and its name is eleven times `AL`. -/
theorem rootDirFindFile_contract_iff (m : Mem) (ax si : BitVec 16) (dl : Byte) :
    FindsByName m ax si dl ↔
      (∀ k < 224, entryAttr m k ≠ dl) ∨ ∃ n, NameStoredOverItself m ax si dl n := by
  constructor
  · intro finds
    by_cases hany : ∃ k, k < 224 ∧ entryAttr m k = dl
    · classical
      obtain ⟨hn, hattr⟩ := Nat.find_spec hany
      have hfirst (k : Nat) (hk : k < Nat.find hany) : entryAttr m k ≠ dl :=
        fun h => Nat.find_min hany hk ⟨by omega, h⟩
      have hresult := rootDirFindFile_found ax si hn hattr hfirst
      have hstored (i : Nat) (hi : i < 11) :
          entryByte m (Nat.find hany) i = ax.setWidth 8 := by
        rw [← finds.directory _ hn i (by omega), hresult, entryByte_write_name m _ hi]
      have hmatches : ∃ k, k < 224 ∧ EntryMatches m si dl k := by
        by_contra hnone
        apply index_ne_not_found ax hn
        have hax := finds.notFound.mpr fun k hk hmatch => hnone ⟨k, hk, hmatch⟩
        rwa [hresult] at hax
      -- the index returned is that of the first match
      obtain ⟨hk, hmatch⟩ := Nat.find_spec hmatches
      have hindex := finds.index _ hk hmatch fun j hj h =>
        Nat.find_min hmatches hj ⟨by omega, h⟩
      rw [hresult, setWidth_index] at hindex
      have heq : Nat.find hany = Nat.find hmatches := by
        have := congrArg BitVec.toNat hindex
        simp only [BitVec.toNat_ofNat] at this
        omega
      rw [← heq] at hmatch
      exact Or.inr ⟨_, hn, hattr, hfirst, fun i hi => ⟨hmatch.2 i hi, hstored i hi⟩⟩
    · exact Or.inl fun k hk hattr => hany ⟨k, hk, hattr⟩
  · intro h
    cases h with
    | inl habsent => exact findsByName_absent ax si habsent
    | inr hname =>
        obtain ⟨n, hname⟩ := hname
        exact hname.findsByName

/-- Entry 0 has attribute 7 and a blank name; the name at `8000h` starts with `B`. -/
def otherFileFirst : Mem := fun a => if a = 0x100B then 7#8 else if a = 0x8000 then 66#8 else 0#8

/-- A file of that attribute is found whatever its name. -/
theorem rootDirFindFile_ignores_name : ¬ FindsByName otherFileFirst 0#16 0x8000#16 7#8 := by
  intro finds
  have hresult := rootDirFindFile_found (m := otherFileFirst) 0#16 0x8000#16
    (show 0 < 224 by decide) (show entryAttr otherFileFirst 0 = 7#8 by decide)
    (fun k hk => absurd hk k.not_lt_zero)
  have hnone (k : Nat) (hk : k < 224) : ¬ EntryMatches otherFileFirst 0x8000#16 7#8 k := by
    intro hmatch
    have hbyte := hmatch.2 0 (by decide)
    have hblank : entryByte otherFileFirst k 0 = 0#8 := by
      rw [entryByte, otherFileFirst, show rootDirSeg.toNat = 0x1000 from rfl,
        if_neg (by omega), if_neg (by omega)]
    rw [hblank] at hbyte
    revert hbyte
    decide
  have hax := finds.notFound.mpr hnone
  rw [hresult] at hax
  exact index_ne_not_found 0#16 (by decide) hax

end Bros
