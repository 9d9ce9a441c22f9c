import Bros.LoadFile
import Mathlib.Data.List.Chain

/-!
Loading a file from a FAT12 image.

The image is a list of sectors; its file is the concatenation of the clusters of a
chain. `kernel_loaded` composes the walk, the sector reads and the relocation: the
bytes at `KERNEL_HIMEM` are the file's.
-/

namespace Bros
open ByteMemory Loops

/-! ### FAT12 images -/

def fatByte (disk : DiskImage) (i : Nat) : Nat :=
  (disk (fatSecOffset.toNat + i / 512) (i % 512)).toNat

/-- The 12-bit FAT entry of a cluster: three bytes hold two entries. -/
def fatEntry (disk : DiskImage) (c : Nat) : Nat :=
  let i := c + c / 2
  if c % 2 = 0 then fatByte disk i + 256 * (fatByte disk (i + 1) % 16)
  else fatByte disk i / 16 + 16 * fatByte disk (i + 1)

/-- A well-formed chain of data clusters. -/
structure FileChain (disk : DiskImage) (start : Nat) (cs : List Nat) : Prop where
  head : cs.head? = some start
  valid : ∀ c ∈ cs, 2 ≤ c ∧ c ≤ 2845
  distinct : cs.Nodup
  linked : cs.IsChain fun c d => fatEntry disk c = d
  last : ∀ c, cs.getLast? = some c → 0xFF8 ≤ fatEntry disk c

def clusterBytes (disk : DiskImage) (c : Nat) : List Byte :=
  (List.range 512).map fun i => disk (dataSecOffset.toNat + (c - 2)) i

def fileBytes (disk : DiskImage) (cs : List Nat) : List Byte := cs.flatMap (clusterBytes disk)

/-- What `LoadFAT` leaves at `FAT_SEG`. -/
def FatLoaded (disk : DiskImage) (m : Mem) : Prop :=
  ∀ i < 512 * fatTotalSectors.toNat, (m (fatSeg.toNat + i)).toNat = fatByte disk i

/-- Byte `i` of a concatenation of blocks of one length lies in block `i / n`. -/
theorem getElem?_flatMap_block {α β : Type} {f : α → List β} {n : Nat} (hn : 0 < n)
    (l : List α) (hf : ∀ a ∈ l, (f a).length = n) (i : Nat) :
    (l.flatMap f)[i]? = (l[i / n]?).bind fun a => (f a)[i % n]? := by
  induction l generalizing i with
  | nil => simp
  | cons a l ih =>
      have ha := hf a List.mem_cons_self
      rw [List.flatMap_cons]
      cases Nat.lt_or_ge i n with
      | inl hi =>
          rw [List.getElem?_append_left (by omega), Nat.div_eq_of_lt hi, Nat.mod_eq_of_lt hi]
          rfl
      | inr hi =>
          rw [List.getElem?_append_right (by omega), ha,
            ih (fun b hb => hf b (List.mem_cons_of_mem a hb)), Nat.div_eq_sub_div hn hi,
            List.getElem?_cons_succ, Nat.mod_eq_sub_mod hi]

theorem fileBytes_getElem? (disk : DiskImage) {cs : List Nat} {i c : Nat}
    (hc : cs[i / 512]? = some c) :
    (fileBytes disk cs)[i]? = some (disk (dataSecOffset.toNat + (c - 2)) (i % 512)) := by
  rw [fileBytes, getElem?_flatMap_block (n := 512) (by decide) cs
    (fun c _ => by simp [clusterBytes]), hc, Option.bind_some, clusterBytes,
    List.getElem?_map, List.getElem?_range (Nat.mod_lt i (by decide))]
  rfl

/-! ### The walk follows the image's chain -/

theorem fatEntry_lt (disk : DiskImage) (c : Nat) : fatEntry disk c < 2 ^ 12 := by
  have h0 : fatByte disk (c + c / 2) < 2 ^ 8 := BitVec.isLt _
  have h1 : fatByte disk (c + c / 2 + 1) < 2 ^ 8 := BitVec.isLt _
  simp only [fatEntry]
  split <;> omega

theorem nextCluster_fatEntry {disk : DiskImage} {m : Mem} (fat : FatLoaded disk m) {c : Nat}
    (hc : c < 2880) : nextCluster m (BitVec.ofNat 16 c) = BitVec.ofNat 16 (fatEntry disk c) := by
  have hcNat : (BitVec.ofNat 16 c).toNat = c := by
    rw [BitVec.toNat_ofNat, Nat.mod_eq_of_lt (by omega)]
  have hbyte (i : Nat) (hi : i < 4608) : (m (0x1000 + i)).toNat = fatByte disk i := fat i hi
  have hword : (load16 m (fatSeg + BitVec.ofNat 16 c + BitVec.ofNat 16 c >>> 1).toNat).toNat =
      fatByte disk (c + c / 2) + 256 * fatByte disk (c + c / 2 + 1) := by
    rw [entry_offset (by omega), hcNat, toNat_load16, Nat.add_assoc 0x1000, Nat.add_assoc 0x1000,
      hbyte _ (by omega), hbyte _ (by omega)]
  have h0 : fatByte disk (c + c / 2) < 2 ^ 8 := BitVec.isLt _
  have h1 : fatByte disk (c + c / 2 + 1) < 2 ^ 8 := BitVec.isLt _
  have hlt := fatEntry_lt disk c
  have hodd : BitVec.ofNat 16 c &&& 1#16 ≠ 0#16 ↔ ¬ c % 2 = 0 := by
    rw [Ne, BitVec.toNat_eq, BitVec.toNat_and, hcNat, show (1#16).toNat = 1 from rfl,
      Nat.and_one_is_mod]
    rfl
  apply BitVec.eq_of_toNat_eq
  rw [BitVec.toNat_ofNat, Nat.mod_eq_of_lt (by omega), nextCluster, fatEntry]
  by_cases heven : c % 2 = 0
  · rw [if_neg (by rw [hodd]; simpa using heven), if_pos heven, BitVec.toNat_and, hword,
      show (0xFFF#16).toNat = 2 ^ 12 - 1 from rfl, Nat.and_two_pow_sub_one_eq_mod]
    omega
  · rw [if_pos (hodd.mpr heven), if_neg heven, BitVec.toNat_ushiftRight, hword,
      Nat.shiftRight_eq_div_pow]
    omega

theorem FatLoaded.startStored {disk : DiskImage} {m : Mem} (fat : FatLoaded disk m)
    (start : BitVec 16) : FatLoaded disk (startStored m start) := by
  intro i hi
  have hfat : fatSeg.toNat = 0x1000 := rfl
  rw [Bros.startStored, store16, write_outside _ _ (by omega)]
  exact fat i hi

variable {disk : DiskImage} {start : Nat} {cs : List Nat} {m : Mem}

theorem FileChain.chainAt (chain : FileChain disk start cs) (fat : FatLoaded disk m) {k : Nat}
    (hk : k < cs.length) : chainAt m (BitVec.ofNat 16 start) k = BitVec.ofNat 16 cs[k] := by
  induction k with
  | zero =>
      have hhead := chain.head
      rw [List.head?_eq_getElem?, List.getElem?_eq_getElem hk] at hhead
      injection hhead with hhead
      rw [hhead]
      rfl
  | succ k ih =>
      have hvalid := chain.valid cs[k] (List.getElem_mem (by omega))
      rw [Bros.chainAt, Function.iterate_succ_apply', ← Bros.chainAt, ih (by omega),
        nextCluster_fatEntry fat (by omega), List.isChain_iff_getElem.mp chain.linked k hk]

theorem FileChain.chainAt_length (chain : FileChain disk start cs) (fat : FatLoaded disk m) :
    0xFF8 ≤ (Bros.chainAt m (BitVec.ofNat 16 start) cs.length).toNat := by
  have hpos : 0 < cs.length := List.length_pos_of_mem (List.mem_of_mem_head? chain.head)
  obtain ⟨n, hn⟩ : ∃ n, cs.length = n + 1 := ⟨cs.length - 1, by omega⟩
  have hvalid := chain.valid cs[n] (List.getElem_mem (by omega))
  have hlt := fatEntry_lt disk cs[n]
  have hlast := chain.last cs[n] (by
    rw [List.getLast?_eq_getElem?, List.getElem?_eq_getElem (by omega)]
    simp only [hn, Nat.add_sub_cancel])
  rw [hn, Bros.chainAt, Function.iterate_succ_apply', ← Bros.chainAt,
    chain.chainAt fat (by omega), nextCluster_fatEntry fat (by omega), BitVec.toNat_ofNat,
    Nat.mod_eq_of_lt (by omega)]
  exact hlast

theorem FileChain.linksBelow (chain : FileChain disk start cs) (fat : FatLoaded disk m) :
    LinksBelow m (BitVec.ofNat 16 start) cs.length := by
  intro i _ hi
  have hvalid := chain.valid cs[i] (List.getElem_mem hi)
  rw [chain.chainAt fat hi, BitVec.toNat_ofNat, Nat.mod_eq_of_lt (by omega)]
  omega

theorem FileChain.walk (chain : FileChain disk start cs) (fat : FatLoaded disk m)
    (hlen : cs.length ≤ 54) {fuel : Nat} (hfuel : cs.length ≤ fuel) :
    ∃ s, loadFileWalk fuel m (BitVec.ofNat 16 start) fatBufferSeg = some s ∧
      loopCount s.cx = cs.length ∧
      ∀ i (hi : i < cs.length), load16 s.mem (0x600 + 2 * i) = BitVec.ofNat 16 cs[i] := by
  have hpos : 0 < cs.length := List.length_pos_of_mem (List.mem_of_mem_head? chain.head)
  have fat' := fat.startStored (BitVec.ofNat 16 start)
  have hlow := chain.linksBelow fat'
  have inv := walkInv_at (show cs.length ≤ 1280 by omega) hlow
  obtain ⟨n, hn⟩ : ∃ n, cs.length = n + 1 := ⟨cs.length - 1, by omega⟩
  have hnone := (loadFileWalk_eq_none_iff (show n ≤ 1280 by omega)).mpr (hn ▸ hlow)
  have hstop : walkParsed (walkAt m (BitVec.ofNat 16 start) (n + 1)) = true := by
    rw [walkParsed_at (by omega) (hn ▸ hlow), ← hn]
    have := chain.chainAt_length fat'
    omega
  refine ⟨walkAt m (BitVec.ofNat 16 start) cs.length, ?_, ?_, ?_⟩
  · rw [hn]
    exact doUntil_eq_some_iff.mpr ⟨n, by omega, hnone, hstop, rfl⟩
  · rw [walkAt_cx, loopCount_ofNat (by omega) (by omega)]
  · intro i hi
    rw [inv.stored i hi, chain.chainAt fat' hi]

/-! ### The sector reads -/

/-- The state before read `i`: the first `i` clusters are in memory and the list is as the
walk left it. -/
structure ReadInv (disk : DiskImage) (cs : List Nat) (listed : Mem) (i : Nat)
    (s : ReadState) : Prop where
  si : s.si.toNat = 0x600 + 2 * i
  bx : s.bx.toNat = 0x1000 + 512 * i
  bytes : ∀ j < 512 * i, some (s.mem (0x1000 + j)) = (fileBytes disk cs)[j]?
  frame : ∀ a < 0x1000, s.mem a = listed a

theorem ReadInv.step {bios : Bios} (reads : ReadsAddressedSector bios disk) {listed : Mem}
    {i : Nat} {s : ReadState} (inv : ReadInv disk cs listed i s) (hi : i < cs.length)
    (hlen : cs.length ≤ 54) (hvalid : 2 ≤ cs[i] ∧ cs[i] ≤ 2845)
    (hlisted : load16 listed (0x600 + 2 * i) = BitVec.ofNat 16 cs[i]) :
    ∃ t, readCluster bios s = some t ∧ ReadInv disk cs listed (i + 1) t := by
  have hcluster : load16 s.mem s.si.toNat = BitVec.ofNat 16 cs[i] := by
    rw [inv.si, ← hlisted]
    exact load16_congr fun a _ _ => inv.frame a (by omega)
  let lba := (BitVec.ofNat 16 cs[i] + (dataSecOffset - 2#16)) * secPerCluster
  have hlba : lba.toNat = dataSecOffset.toNat + (cs[i] - 2) := by
    have hoffset : (dataSecOffset - 2#16).toNat = 34 := rfl
    have hdata : dataSecOffset.toNat = 36 := rfl
    have hone : secPerCluster.toNat = 1 := rfl
    simp only [lba, BitVec.toNat_mul, BitVec.toNat_add, BitVec.toNat_ofNat, hoffset, hone,
      hdata]
    omega
  have hdisk : lba.toNat < 2880 := by
    have : dataSecOffset.toNat = 36 := rfl
    omega
  obtain ⟨data, hread, hdata⟩ := driveReadSectors_lba reads s.mem hdisk s.bx
  refine ⟨⟨write s.mem s.bx.toNat 512 data, s.si + 2#16, s.bx + 512#16⟩, ?_, ?_, ?_, ?_, ?_⟩
  · rw [readCluster, hcluster]
    exact Option.map_eq_some_iff.mpr ⟨_, hread, rfl⟩
  · rw [BitVec.toNat_add, inv.si, show (2#16).toNat = 2 from rfl]
    omega
  · rw [BitVec.toNat_add, inv.bx, show (512#16).toNat = 512 from rfl]
    omega
  · intro j hj
    change some (write s.mem s.bx.toNat 512 data (0x1000 + j)) = _
    rw [inv.bx]
    cases Nat.lt_or_ge j (512 * i) with
    | inl hlt =>
        rw [write_outside _ _ (Or.inl (by omega))]
        exact inv.bytes j hlt
    | inr hge =>
        have hc : cs[j / 512]? = some cs[i] := by
          rw [show j / 512 = i by omega]
          exact List.getElem?_eq_getElem hi
        rw [write_inside _ _ ⟨by omega, by omega⟩, hdata _ (by omega), hlba,
          fileBytes_getElem? disk hc,
          show 0x1000 + j - (0x1000 + 512 * i) = j % 512 by omega]
  · intro a ha
    rw [← inv.frame a ha]
    exact write_outside _ _ (Or.inl (by rw [inv.bx]; omega))

/-- `LoadFile` leaves the file's clusters in chain order at `KERNEL_SEG`. -/
theorem FileChain.loadFile {bios : Bios} (reads : ReadsAddressedSector bios disk)
    (chain : FileChain disk start cs) (fat : FatLoaded disk m) (hlen : cs.length ≤ 54)
    {fuel : Nat} (hfuel : cs.length ≤ fuel) :
    ∃ m', loadFile fuel bios m (BitVec.ofNat 16 start) (kernelSeg.setWidth 16) fatBufferSeg =
        some m' ∧
      ∀ j < 512 * cs.length, some (m' (0x1000 + j)) = (fileBytes disk cs)[j]? := by
  obtain ⟨s, hwalk, hcount, hlisted⟩ := chain.walk fat hlen hfuel
  have hread : ∃ t, repeatM (readCluster bios) cs.length
      { mem := s.mem, si := fatBufferSeg, bx := kernelSeg.setWidth 16 } = some t ∧
      ReadInv disk cs s.mem cs.length t :=
    repeatM_total
      (fun i hi r inv => inv.step reads hi hlen (chain.valid _ (List.getElem_mem hi))
        (hlisted i hi))
      ⟨rfl, rfl, fun j hj => absurd hj (Nat.not_lt_zero j), fun _ _ => rfl⟩
  obtain ⟨t, ht, inv⟩ := hread
  refine ⟨t.mem, ?_, inv.bytes⟩
  rw [Bros.loadFile, hwalk, Option.bind_some, hcount, ht]
  rfl

/-! ### The relocation -/

/-- `rep movsd` copies the whole double words of the file and `rep movsb` its last bytes. -/
theorem relocateKernel_eq (m : Mem) (size : BitVec 32) :
    relocateKernel m size =
      copyChunks 1 (size.toNat % 4) (copyChunks 4 (size.toNat / 4) m 0x100000 0x1000)
        (0x100000 + 4 * (size.toNat / 4)) (0x1000 + 4 * (size.toNat / 4)) := by
  have hdwords : (size >>> 2).toNat = size.toNat / 4 := by
    rw [BitVec.toNat_ushiftRight, Nat.shiftRight_eq_div_pow]
  have htail : (size &&& 3#32).toNat = size.toNat % 4 := by
    rw [BitVec.toNat_and, show (3#32).toNat = 2 ^ 2 - 1 from rfl,
      Nat.and_two_pow_sub_one_eq_mod]
  rw [relocateKernel, hdwords, htail]
  rfl

/-- The two copies together move `size` bytes, as long as the areas do not overlap. -/
theorem relocateKernel_apply (m : Mem) {size : BitVec 32} (h : size.toNat ≤ 0xFF000) {i : Nat}
    (hi : i < size.toNat) : relocateKernel m size (0x100000 + i) = m (0x1000 + i) := by
  rw [relocateKernel_eq, copyChunks_apply _ _ _ _ _ (Or.inr (by omega)),
    copyChunks_apply _ _ _ _ _ (Or.inr (by omega))]
  cases Nat.lt_or_ge i (4 * (size.toNat / 4)) with
  | inl hlt =>
      rw [write_outside _ _ (Or.inl (by omega)), write_inside _ _ ⟨by omega, by omega⟩,
        Nat.add_sub_cancel_left]
  | inr hge =>
      rw [write_inside _ _ ⟨by omega, by omega⟩, write_outside _ _ (Or.inl (by omega))]
      congr 1
      omega

/-- Nothing behind the file is written, whatever its size. -/
theorem relocateKernel_outside (m : Mem) (size : BitVec 32) {a : Nat}
    (ha : kernelHimem.toNat + size.toNat ≤ a) : relocateKernel m size a = m a := by
  have hhimem : kernelHimem.toNat = 0x100000 := rfl
  rw [relocateKernel_eq, copyChunks_outside _ _ _ _ (Or.inr (by omega)),
    copyChunks_outside _ _ _ _ (Or.inr (by omega))]

/-- The kernel at `KERNEL_HIMEM` is the file: the first `size` bytes of the chain's
clusters in chain order. -/
theorem kernel_loaded {bios : Bios} (reads : ReadsAddressedSector bios disk)
    (chain : FileChain disk start cs) (fat : FatLoaded disk m) (hlen : cs.length ≤ 54)
    {size : BitVec 32} (hsize : size.toNat ≤ 512 * cs.length) {fuel : Nat}
    (hfuel : cs.length ≤ fuel) :
    ∃ m', loadFile fuel bios m (BitVec.ofNat 16 start) (kernelSeg.setWidth 16) fatBufferSeg =
        some m' ∧
      (List.range size.toNat).map (fun i => relocateKernel m' size (kernelHimem.toNat + i)) =
        (fileBytes disk cs).take size.toNat := by
  obtain ⟨m', hload, hbytes⟩ := chain.loadFile reads fat hlen hfuel
  refine ⟨m', hload, List.ext_getElem? fun i => ?_⟩
  cases Nat.lt_or_ge i size.toNat with
  | inl hi =>
      rw [List.getElem?_map, List.getElem?_range hi, List.getElem?_take_of_lt hi,
        ← hbytes i (by omega), ← relocateKernel_apply m' (by omega) hi]
      rfl
  | inr hi =>
      rw [List.getElem?_eq_none (by simpa using hi),
        List.getElem?_eq_none (by rw [List.length_take]; omega)]

/-- A floppy whose FAT links cluster 3 to cluster 2 and ends the chain there. -/
def twoClusterDisk : DiskImage := fun sector i =>
  if sector = 4 ∧ i = 3 then 0xFF#8
  else if sector = 4 ∧ i = 4 then 0x2F#8
  else if sector = 4 then 0#8
  else BitVec.ofNat 8 (sector + i)

def driveBios (disk : DiskImage) : Bios := fun r =>
  { carry := false
    al := r.al
    data := disk ((r.chs.ch.toNat * 2 + r.chs.dh.toNat) * 18 + (r.chs.cl.toNat - 1)) }

/-- Memory with the first FAT of a disk at `FAT_SEG`. -/
def fatMemory (disk : DiskImage) : Mem := fun a =>
  disk (4 + (a - 0x1000) / 512) ((a - 0x1000) % 512)

theorem kernel_loaded_two_clusters :
    ∃ m', loadFile 2 (driveBios twoClusterDisk) (fatMemory twoClusterDisk) 3#16
        (kernelSeg.setWidth 16) fatBufferSeg = some m' ∧
      (List.range 1022).map (fun i => relocateKernel m' 1022#32 (kernelHimem.toNat + i)) =
        (fileBytes twoClusterDisk [3, 2]).take 1022 := by
  have reads : ReadsAddressedSector (driveBios twoClusterDisk) twoClusterDisk :=
    fun r hal _ _ _ _ _ => ⟨rfl, hal, fun _ _ => rfl⟩
  have chain : FileChain twoClusterDisk 3 [3, 2] := by
    refine ⟨rfl, by decide, by decide, ?_, ?_⟩
    · exact List.isChain_pair.mpr (by decide)
    · intro c hc
      injection hc with hc
      subst hc
      decide
  have fat : FatLoaded twoClusterDisk (fatMemory twoClusterDisk) := by
    intro i _
    rw [fatMemory, show fatSeg.toNat = 0x1000 from rfl, Nat.add_sub_cancel_left]
    rfl
  exact kernel_loaded reads chain fat (by decide) (by decide) (by decide)

end Bros
