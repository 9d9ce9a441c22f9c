import Bros.BootInfo
import Bros.Disk
import Bros.Lib.Loops

/-!
`LoadFile` of `filesystems/FAT12.inc` and the relocation in `main32`.

The first loop walks the chain in the FAT at `FAT_SEG` and stores the cluster numbers at
`FAT_BUFFER_SEG`; the second reads the listed clusters to ascending addresses, from
`FAT_SEG` on. The stack lies below both areas and is not part of the modelled memory.
`loadFile_bounds_iff` says for which chains both loops stay in their areas.
-/

namespace Bros
open ByteMemory Loops

def fatSeg : BitVec 16 := 0x1000#16

def fatBufferSeg : BitVec 16 := 0x600#16

def fatSecOffset : BitVec 16 := rsvdSecCnt

def fatTotalSectors : BitVec 16 := fatSz16

def rootDirTotalSectors : BitVec 16 := 14#16

def rootDirSecOffset : BitVec 16 := fatSecOffset + numFATs * fatTotalSectors

def dataSecOffset : BitVec 16 := rootDirSecOffset + rootDirTotalSectors

def maxClusters : BitVec 16 := totSec16 / secPerCluster

/-- From `mov si, FAT_SEG` to `LoadFile_AX`: the 12-bit entry of cluster `AX`. -/
def nextCluster (m : Mem) (ax : BitVec 16) : BitVec 16 :=
  let si := fatSeg + ax + ax >>> 1
  let word := load16 m si.toNat
  if ax &&& 1#16 ≠ 0#16 then word >>> 4    -- LoadFile_odd
  else word &&& 0xFFF#16

structure WalkState where
  mem : Mem
  ax : BitVec 16
  di : BitVec 16
  cx : BitVec 16

/-- One round from `LoadFile_start` to the comparison. -/
def walkStep (s : WalkState) : WalkState :=
  let mem := store16 s.mem s.di.toNat s.ax
  { mem, ax := nextCluster mem s.ax, di := s.di + 2#16, cx := s.cx + 1#16 }

/-- `jge LoadFile_parsed`, a signed comparison. -/
def walkParsed (s : WalkState) : Bool := maxClusters.sle s.ax

def walkClusters (fuel : Nat) (s : WalkState) : Option WalkState :=
  doUntil walkStep walkParsed fuel s

structure ReadState where
  mem : Mem
  si : BitVec 16
  bx : BitVec 16

/-- One round of `LoadFile_readClusters`. -/
def readCluster (bios : Bios) (s : ReadState) : Option ReadState :=
  let cluster := load16 s.mem s.si.toNat
  let lba := (cluster + (dataSecOffset - 2#16)) * secPerCluster
  (driveReadSectors bios s.mem (secPerCluster.setWidth 8) (lba2chs lba) s.bx).map
    fun (mem, al) => { mem, si := s.si + 2#16, bx := s.bx + al.setWidth 16 * bytesPerSec }

/-- The rounds of `loop` when it is entered with `CX`. -/
def loopCount (cx : BitVec 16) : Nat := if cx = 0#16 then 2 ^ 16 else cx.toNat

def loadFileWalk (fuel : Nat) (m : Mem) (ax di : BitVec 16) : Option WalkState :=
  walkClusters fuel { mem := m, ax, di, cx := 0#16 }

/-- Memory after `LoadFile`; `none` when the walk exceeds its bound or a read fails. -/
def loadFile (fuel : Nat) (bios : Bios) (m : Mem) (ax bx di : BitVec 16) : Option Mem :=
  (loadFileWalk fuel m ax di).bind fun s =>
    (repeatM (readCluster bios) (loopCount s.cx) { mem := s.mem, si := di, bx }).map
      ReadState.mem

/-- `rep movsd`, then `rep movsb` for the tail, of `main32`. -/
def relocateKernel (m : Mem) (size : BitVec 32) : Mem :=
  let dwords := (size >>> 2).toNat
  let m := copyChunks 4 dwords m kernelHimem.toNat kernelSeg.toNat
  copyChunks 1 (size &&& 3#32).toNat m (kernelHimem.toNat + 4 * dwords)
    (kernelSeg.toNat + 4 * dwords)

/-! ### The chain -/

/-- The clusters a chain leads through when the FAT stays as it is. -/
def chainAt (m : Mem) (start : BitVec 16) (k : Nat) : BitVec 16 := (nextCluster m)^[k] start

theorem nextCluster_lt (m : Mem) (ax : BitVec 16) : (nextCluster m ax).toNat < 2 ^ 12 := by
  rw [nextCluster]
  split
  · rw [BitVec.toNat_ushiftRight, Nat.shiftRight_eq_div_pow]
    have := (load16 m (fatSeg + ax + ax >>> 1).toNat).isLt
    omega
  · rw [BitVec.toNat_and]
    exact Nat.lt_of_le_of_lt Nat.and_le_right (by decide)

/-- Twelve-bit entries compare the same with and without sign. -/
theorem walkParsed_iff {s : WalkState} (h : s.ax.toNat < 2 ^ 12) :
    walkParsed s = true ↔ 2880 ≤ s.ax.toNat := by
  have hmax : maxClusters.toInt = 2880 := by decide
  rw [walkParsed, BitVec.sle_iff_toInt_le, hmax, BitVec.toInt_eq_toNat_of_lt (by omega)]
  omega

theorem entry_offset {ax : BitVec 16} (h : ax.toNat < 2880) :
    (fatSeg + ax + ax >>> 1).toNat = 0x1000 + ax.toNat + ax.toNat / 2 := by
  rw [BitVec.toNat_add, BitVec.toNat_add, BitVec.toNat_ushiftRight, Nat.shiftRight_eq_div_pow,
    show fatSeg.toNat = 0x1000 from rfl]
  omega

/-- A valid cluster's entry depends on the 9 sectors at `FAT_SEG` only. -/
theorem nextCluster_congr {m m' : Mem} {ax : BitVec 16} (hax : ax.toNat < 2880)
    (h : ∀ a, 0x1000 ≤ a → a < 0x2200 → m a = m' a) : nextCluster m ax = nextCluster m' ax := by
  have hword : load16 m (fatSeg + ax + ax >>> 1).toNat =
      load16 m' (fatSeg + ax + ax >>> 1).toNat := by
    rw [entry_offset hax]
    exact load16_congr fun a _ _ => h a (by omega) (by omega)
  rw [nextCluster, nextCluster, hword]

def LinksBelow (m : Mem) (start : BitVec 16) (k : Nat) : Prop :=
  ∀ i, 1 ≤ i → i < k → (chainAt m start i).toNat < 2880

/-! ### The walk -/

def walkAt (m : Mem) (start : BitVec 16) (k : Nat) : WalkState :=
  walkStep^[k] { mem := m, ax := start, di := fatBufferSeg, cx := 0#16 }

def startStored (m : Mem) (start : BitVec 16) : Mem := store16 m 0x600 start

/-- The state before round `k`: the list holds the first `k` clusters of the chain. -/
structure WalkInv (m : Mem) (start : BitVec 16) (k : Nat) (s : WalkState) : Prop where
  ax : s.ax = chainAt (startStored m start) start k
  di : s.di.toNat = 0x600 + 2 * k
  cx : s.cx.toNat = k
  stored : ∀ i < k, load16 s.mem (0x600 + 2 * i) = chainAt (startStored m start) start i
  frame : ∀ a, a < 0x600 ∨ 0x600 + 2 * k ≤ a → s.mem a = m a

theorem walkAt_succ (m : Mem) (start : BitVec 16) (k : Nat) :
    walkAt m start (k + 1) = walkStep (walkAt m start k) :=
  Function.iterate_succ_apply' _ _ _

/-- While the list is below `FAT_SEG`, the walk follows the chain of the unchanged FAT. -/
theorem WalkInv.step {m : Mem} {start : BitVec 16} {k : Nat} {s : WalkState}
    (inv : WalkInv m start k s) (hk : k < 1280) (hlow : 1 ≤ k → s.ax.toNat < 2880) :
    WalkInv m start (k + 1) (walkStep s) := by
  have hdi := inv.di
  have houtside (a : Nat) (ha : a < 0x600 + 2 * k ∨ 0x600 + 2 * k + 2 ≤ a) :
      (walkStep s).mem a = s.mem a := write_outside s.mem (byteAt s.ax) (by rw [hdi]; exact ha)
  have hnext : nextCluster (walkStep s).mem s.ax =
      nextCluster (startStored m start) s.ax := by
    by_cases hk0 : k = 0
    · -- the first store is the only one so far
      have hmem : (walkStep s).mem = startStored m start := by
        have hframe : s.mem = m := funext fun a => inv.frame a (by omega)
        have hstart : s.ax = start := by rw [inv.ax, hk0]; rfl
        change store16 s.mem s.di.toNat s.ax = store16 m 0x600 start
        rw [hframe, hdi, hstart, hk0]
      rw [hmem]
    · refine nextCluster_congr (hlow (by omega)) ?_
      intro a hlow hhigh
      rw [houtside a (by omega), inv.frame a (by omega)]
      exact (write_outside m (byteAt start) (by omega)).symm
  refine ⟨?_, ?_, ?_, ?_, ?_⟩
  · rw [chainAt, Function.iterate_succ_apply', ← chainAt, ← inv.ax]
    exact hnext
  · change (s.di + 2#16).toNat = _
    rw [BitVec.toNat_add, hdi, show (2#16).toNat = 2 from rfl]
    omega
  · change (s.cx + 1#16).toNat = _
    rw [BitVec.toNat_add, inv.cx, show (1#16).toNat = 1 from rfl]
    omega
  · intro i hi
    cases Nat.lt_or_eq_of_le (Nat.le_of_lt_succ hi) with
    | inl hi =>
        rw [← inv.stored i hi]
        exact load16_congr fun a _ _ => houtside a (by omega)
    | inr heq =>
        subst heq
        rw [← inv.ax, ← hdi]
        exact load16_store16 _ _ _
  · intro a ha
    rw [houtside a (by omega)]
    exact inv.frame a (by omega)

theorem walkInv_at {m : Mem} {start : BitVec 16} {k : Nat} (hk : k ≤ 1280)
    (hlow : LinksBelow (startStored m start) start k) : WalkInv m start k (walkAt m start k) := by
  induction k with
  | zero => exact ⟨rfl, rfl, rfl, fun i hi => absurd hi (Nat.not_lt_zero i), fun _ _ => rfl⟩
  | succ k ih =>
      have inv := ih (by omega) fun i hi hik => hlow i hi (by omega)
      rw [walkAt_succ]
      refine inv.step (by omega) fun hk1 => ?_
      rw [inv.ax]
      exact hlow k hk1 (by omega)

theorem walkParsed_at {m : Mem} {start : BitVec 16} {k : Nat} (hk : k < 1280)
    (hlow : LinksBelow (startStored m start) start (k + 1)) :
    walkParsed (walkAt m start (k + 1)) = true ↔
      2880 ≤ (chainAt (startStored m start) start (k + 1)).toNat := by
  have inv := walkInv_at (show k + 1 ≤ 1280 by omega) hlow
  rw [← inv.ax]
  apply walkParsed_iff
  rw [walkAt_succ]
  exact nextCluster_lt _ _

/-- The walk is still running after `k` rounds exactly when no link up to `k` ends it. -/
theorem loadFileWalk_eq_none_iff {m : Mem} {start : BitVec 16} {k : Nat} (hk : k ≤ 1280) :
    loadFileWalk k m start fatBufferSeg = none ↔
      LinksBelow (startStored m start) start (k + 1) := by
  rw [loadFileWalk, walkClusters, doUntil_eq_none_iff]
  constructor
  · intro hnone i
    induction i using Nat.strongRecOn with
    | ind i ih =>
        intro hi hik
        obtain ⟨j, rfl⟩ : ∃ j, i = j + 1 := ⟨i - 1, by omega⟩
        have hlow : LinksBelow (startStored m start) start (j + 1) :=
          fun l hl hlj => ih l hlj hl (by omega)
        by_contra hge
        have := (walkParsed_at (by omega) hlow).mpr (by omega)
        rw [show walkParsed (walkAt m start (j + 1)) = false from hnone j (by omega)] at this
        cases this
  · intro hlow i hi
    have hlow' : LinksBelow (startStored m start) start (i + 1) :=
      fun l hl hli => hlow l hl (by omega)
    rw [Bool.eq_false_iff]
    intro hstop
    have := (walkParsed_at (by omega) hlow').mp hstop
    have := hlow (i + 1) (by omega) (by omega)
    omega

/-- `CX` counts the stores, modulo its width. -/
theorem walkAt_cx (m : Mem) (start : BitVec 16) (k : Nat) :
    (walkAt m start k).cx = BitVec.ofNat 16 k := by
  induction k with
  | zero => rfl
  | succ k ih =>
      rw [walkAt_succ, BitVec.ofNat_add, ← ih]
      rfl

/-- A walk that ends does so in the state after its last round. -/
theorem loadFileWalk_eq_some {m : Mem} {start : BitVec 16} {fuel : Nat} {s : WalkState}
    (h : loadFileWalk fuel m start fatBufferSeg = some s) :
    ∃ k < fuel, loadFileWalk k m start fatBufferSeg = none ∧
      walkParsed (walkAt m start (k + 1)) = true ∧ s = walkAt m start (k + 1) := by
  obtain ⟨k, hk, hnone, hstop, hs⟩ := doUntil_eq_some_iff.mp h
  exact ⟨k, hk, hnone, hstop, hs.symm⟩

/-! ### The areas of the two loops -/

def readStart (s : WalkState) : ReadState :=
  { mem := s.mem, si := fatBufferSeg, bx := kernelSeg.setWidth 16 }

theorem readCluster_bx {bios : Bios} {s t : ReadState} (h : readCluster bios s = some t) :
    t.bx = s.bx + 512#16 ∧ t.si = s.si + 2#16 := by
  obtain ⟨⟨mem, al⟩, hread, rfl⟩ := Option.map_eq_some_iff.mp h
  simp only [driveReadSectors] at hread
  split at hread
  · cases hread
  · split at hread
    · cases hread
    · next hal =>
        injection hread with hread
        injection hread with _ hal'
        have hone : al = 1#8 := by
          rw [← hal', ← not_not.mp hal]
          rfl
        subst hone
        exact ⟨rfl, rfl⟩

theorem readClusters_bx {bios : Bios} {k : Nat} {s : WalkState} {r : ReadState}
    (h : repeatM (readCluster bios) k (readStart s) = some r) :
    r.bx = BitVec.ofNat 16 (0x1000 + 512 * k) := by
  refine repeatM_invariant (I := fun i r => r.bx = BitVec.ofNat 16 (0x1000 + 512 * i))
    ?_ rfl h
  intro i _ s t hs hstep
  rw [(readCluster_bx hstep).1, hs, Nat.mul_succ, ← Nat.add_assoc,
    BitVec.ofNat_add (0x1000 + 512 * i)]

/-- Both loops stay in their areas: the walk ends within `MAX_CLUSTERS` rounds, every
list entry is stored in `[0x600, 0x1000)` and every sector is read to
`[0x1000, 0x7C00)`. -/
structure LoadFileBounds (bios : Bios) (m : Mem) (start : BitVec 16) : Prop where
  ends : (loadFileWalk maxClusters.toNat m start fatBufferSeg).isSome
  stores : ∀ k, loadFileWalk k m start fatBufferSeg = none →
    0x600 ≤ (walkAt m start k).di.toNat ∧ (walkAt m start k).di.toNat + 2 ≤ 0x1000
  reads : ∀ fuel s, loadFileWalk fuel m start fatBufferSeg = some s →
    ∀ k < loopCount s.cx, ∀ r, repeatM (readCluster bios) k (readStart s) = some r →
    0x1000 ≤ r.bx.toNat ∧ r.bx.toNat + 512 ≤ 0x7C00

/-- One of the first `n` links of the chain is not a cluster number. -/
def ChainEndsWithin (n : Nat) (m : Mem) (start : BitVec 16) : Prop :=
  ∃ k, 1 ≤ k ∧ k ≤ n ∧ 2880 ≤ (chainAt m start k).toNat

theorem not_chainEndsWithin {n : Nat} {m : Mem} {start : BitVec 16} :
    ¬ ChainEndsWithin n m start ↔ LinksBelow m start (n + 1) := by
  simp only [ChainEndsWithin, LinksBelow, not_exists, not_and, Nat.not_le, Nat.lt_succ_iff]

theorem ChainEndsWithin.running_lt {m : Mem} {start : BitVec 16}
    (h : ChainEndsWithin 54 (startStored m start) start) {k : Nat}
    (hk : loadFileWalk k m start fatBufferSeg = none) : k < 54 := by
  by_contra hge
  have hnone : loadFileWalk 54 m start fatBufferSeg = none :=
    doUntil_none_of_le (Nat.not_lt.mp hge) hk
  exact not_chainEndsWithin.mpr ((loadFileWalk_eq_none_iff (by decide)).mp hnone) h

theorem loopCount_ofNat {k : Nat} (h1 : 1 ≤ k) (hk : k < 2 ^ 16) :
    loopCount (BitVec.ofNat 16 k) = k := by
  have hNat : (BitVec.ofNat 16 k).toNat = k := by
    rw [BitVec.toNat_ofNat, Nat.mod_eq_of_lt hk]
  rw [loopCount, if_neg, hNat]
  intro h
  rw [h, BitVec.toNat_zero] at hNat
  omega

theorem ChainEndsWithin.bounds {m : Mem} {start : BitVec 16}
    (h : ChainEndsWithin 54 (startStored m start) start) (bios : Bios) :
    LoadFileBounds bios m start := by
  refine ⟨?_, ?_, ?_⟩
  · rw [Option.isSome_iff_ne_none]
    intro hnone
    exact absurd (h.running_lt hnone) (by decide)
  · intro k hk
    have hlt := h.running_lt hk
    have hlow := (loadFileWalk_eq_none_iff (by omega)).mp hk
    have inv := walkInv_at (show k ≤ 1280 by omega) fun i hi hik => hlow i hi (by omega)
    rw [inv.di]
    omega
  · intro fuel s hs k hk r hr
    obtain ⟨j, -, hnone, -, rfl⟩ := loadFileWalk_eq_some hs
    have hlt := h.running_lt hnone
    rw [walkAt_cx, loopCount_ofNat (by omega) (by omega)] at hk
    rw [readClusters_bx hr, BitVec.toNat_ofNat, Nat.mod_eq_of_lt (by omega)]
    omega

def blankBios : Bios := fun r => { carry := false, al := r.al, data := fun _ => 0#8 }

theorem blankBios_reads (k : Nat) (s : ReadState) :
    ∃ r, repeatM (readCluster blankBios) k s = some r := by
  have htotal : ∃ r, repeatM (readCluster blankBios) k s = some r ∧ True :=
    repeatM_total (I := fun _ _ => True) (fun _ _ s _ => ⟨_, rfl, trivial⟩) trivial
  obtain ⟨r, hr, -⟩ := htotal
  exact ⟨r, hr⟩

/-- `LoadFile` stays in its areas whatever the disk returns, exactly when the chain ends
within the 54 clusters that fit below the loader's own code. -/
theorem loadFile_bounds_iff (m : Mem) (start : BitVec 16) :
    (∀ bios, LoadFileBounds bios m start) ↔
      ChainEndsWithin 54 (startStored m start) start := by
  constructor
  · intro bounds
    by_contra hlong
    have hnone := (loadFileWalk_eq_none_iff (by decide)).mpr (not_chainEndsWithin.mp hlong)
    obtain ⟨s, hs⟩ := Option.isSome_iff_exists.mp (bounds blankBios).ends
    obtain ⟨k, hk, -, hstop, rfl⟩ := loadFileWalk_eq_some hs
    have hmax : maxClusters.toNat = 2880 := rfl
    -- the walk has gone on for 54 rounds, so there is a 55th cluster to read
    have hk54 : 54 ≤ k := by
      by_contra hlt
      have := doUntil_eq_none_iff.mp hnone k (by omega)
      rw [show walkParsed (walkStep^[k + 1] _) = true from hstop] at this
      cases this
    obtain ⟨r, hr⟩ := blankBios_reads 54 (readStart (walkAt m start (k + 1)))
    have hcount : 54 < loopCount (walkAt m start (k + 1)).cx := by
      rw [walkAt_cx, loopCount_ofNat (by omega) (by omega)]
      omega
    have hread := (bounds blankBios).reads _ _ hs 54 hcount r hr
    rw [readClusters_bx hr, BitVec.toNat_ofNat] at hread
    omega
  · exact fun h bios => h.bounds bios

def cyclicFat : Mem := fun a => if a = 0x1003 then 2#8 else 0#8

/-- On a cycle the list runs into the FAT. -/
theorem loadFile_overwrites_cyclic_fat : ¬ LoadFileBounds blankBios cyclicFat 2#16 := by
  intro bounds
  have hnext : nextCluster (startStored cyclicFat 2#16) 2#16 = 2#16 := by decide +kernel
  have hchain (k : Nat) : chainAt (startStored cyclicFat 2#16) 2#16 k = 2#16 :=
    Function.iterate_fixed hnext k
  have hlow (k : Nat) : LinksBelow (startStored cyclicFat 2#16) 2#16 k := by
    intro i _ _
    rw [hchain]
    decide
  have inv := walkInv_at (Nat.le_refl 1280) (hlow 1280)
  have hstore := bounds.stores 1280 ((loadFileWalk_eq_none_iff (Nat.le_refl 1280)).mpr (hlow 1281))
  rw [inv.di] at hstore
  omega

end Bros
