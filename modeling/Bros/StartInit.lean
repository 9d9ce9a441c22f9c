import Bros.PmmRuns

/-!
The kernel entry of `_start.c` up to `_start_PMM_init`, and the frames it reserves.

`_start_init` is entered with the boot sector's magic value in `EAX` and the address of
the `SYS_INFO` block in `EBX`. Device and descriptor table set-up do not touch the block
or the allocator and are left out. Every panic is `none`.
-/

namespace Bros
open ByteMemory Pages Runs

def bros : BitVec 32 := 0x42524F53#32

/-- The memory map `_start_boot_info` leaves, with its own check. -/
def startBootInfo (m : Mem) (sysInfo : BitVec 32) : Option (List BootMemMapInfoEntry) :=
  let (_, memMap) := bootInfoSanitize (sysInfoTotMem m sysInfo) (memMapEntries m sysInfo)
  if sysInfoNumMemMapEntries m sysInfo < 1#8 then none    -- SYS_INFO entries error
  else some memMap

def startPmmInit (m : Mem) (memMap : List BootMemMapInfoEntry) (kernelEnd : Paddr)
    (kernelSize : BitVec 32) : Option Pmm :=
  pmmInit m memMap kernelEnd kernelSeg kernelSize

/-- `_start_init` with the link-time addresses of `_start` and `__end`. -/
def startInit (m : Mem) (eax ebx startPtr kernelEnd : BitVec 32) : Option Pmm :=
  let kernelSize := kernelEnd - kernelHimem
  if eax ≠ bros then none    -- EAX error
  else if startPtr ≠ kernelHimem then none    -- KERNEL_ADDR error
  else if sysInfoBeginMarker m ebx ≠ sysInfoBegin ∨
      load32 m (sysInfoEndMarkerPtr m ebx).toNat ≠ sysInfoEnd then none    -- SYS_INFO error
  else (startBootInfo m ebx).bind fun memMap => startPmmInit m memMap kernelEnd kernelSize

/-! ### The sanitized map -/

theorem entryFrames_sanitizeEntry (e : BootMemMapInfoEntry) :
    entryFrames (sanitizeEntry e) = entryFrames e := by
  rw [entryFrames, entryFrames, (sanitizeEntry_range e).1, (sanitizeEntry_range e).2.1]

theorem highestEnd_sanitize (memMap : List BootMemMapInfoEntry) :
    highestEnd (memMap.map sanitizeEntry) = highestEnd memMap := by
  rw [highestEnd, highestEnd, List.foldr_map]
  simp only [sanitizeEntry_range]

theorem mappedFrames_sanitize (memMap : List BootMemMapInfoEntry) :
    mappedFrames (memMap.map sanitizeEntry) = mappedFrames memMap := by
  rw [mappedFrames, mappedFrames, highestEnd_sanitize]

theorem initMarked_sanitize (memMap : List BootMemMapInfoEntry) (physicalMemStart : Paddr)
    (kernelStart kernelSize totalFrames : BitVec 32) :
    initMarked (memMap.map sanitizeEntry) physicalMemStart kernelStart kernelSize totalFrames =
      initMarked memMap physicalMemStart kernelStart kernelSize totalFrames := by
  have hentries (f : Nat) : (∃ e ∈ memMap.map sanitizeEntry,
      e.type ≠ memMapTypeAvailable ∧ f ∈ entryFrames e) ↔
      ∃ e ∈ memMap, e.type ≠ memMapTypeAvailable ∧ f ∈ entryFrames e := by
    simp only [List.mem_map, exists_exists_and_eq_and, ne_eq, sanitizeEntry_available,
      entryFrames_sanitizeEntry]
  simp only [initMarked, hentries]

/-- The checks a boot passes on its way through `_start_PMM_init`. -/
theorem startInit_eq_some_iff {m : Mem} {eax ebx startPtr kernelEnd : BitVec 32} {p : Pmm} :
    startInit m eax ebx startPtr kernelEnd = some p ↔
      eax = bros ∧ startPtr = kernelHimem ∧ sysInfoBeginMarker m ebx = sysInfoBegin ∧
      load32 m (sysInfoEndMarkerPtr m ebx).toNat = sysInfoEnd ∧
      1#8 ≤ sysInfoNumMemMapEntries m ebx ∧
      pmmInit m ((memMapEntries m ebx).map sanitizeEntry) kernelEnd kernelSeg
        (kernelEnd - kernelHimem) = some p := by
  simp only [startInit, startBootInfo, bootInfoSanitize_snd, ne_eq, ite_not,
    Option.ite_none_right_eq_some, Option.bind_eq_some_iff, Option.ite_none_left_eq_some,
    not_or, not_not, BitVec.not_lt, Option.some.injEq, and_assoc, exists_and_left,
    exists_eq_left', startPmmInit]

/-! ### The frames of the running kernel -/

/-- The frames that hold the relocated image, and the one below `KERNEL_SEG` that holds
the stack. -/
def kernelFrames (kernelEnd : Paddr) : Set Nat :=
  {f | f = 0 ∨ ∃ a, kernelHimem.toNat ≤ a ∧ a < kernelEnd.toNat ∧ a / 4096 = f}

/-- The frames that the 32-bit addresses of a block lie in. -/
def addressedFrames (b : PmmBlock) : Set Nat :=
  {f | ∃ k < (size2frame b.size).toNat, (b.ptr.toNat / 4096 + k) % 2 ^ 20 = f}

/-- A block that the call returns has none of `frames`. -/
def ReturnsOutside (frames : Set Nat) (w : PmmWorld) : PmmOp → Prop
  | .malloc size => (pmmFind w.pmm size).isSome →
      Disjoint (addressedFrames ⟨(pmmMalloc w.pmm size).2, size⟩) frames
  | .free _ => True

/-- The frames of the running kernel are managed and marked after `_start_PMM_init`, and no
call of the run that follows returns a block that overlaps them. -/
structure KernelProtected (kernelEnd : Paddr) (p : Pmm) (ops : List PmmOp) : Prop where
  marked : ∀ f ∈ kernelFrames kernelEnd, f < p.totalFrames.toNat ∧ p.bits f = true
  keptOut : Along pmmStep (ReturnsOutside (kernelFrames kernelEnd)) ⟨p, []⟩ ops

/-- The frames of the running kernel are below the highest listed end, and each of them
is touched by an entry that is not available, by as many bytes from `KERNEL_SEG` on as the
image has, or by the bitmap. -/
def KernelFramesReached (memMap : List BootMemMapInfoEntry) (kernelEnd : Paddr) : Prop :=
  ∀ f ∈ kernelFrames kernelEnd, f < (mappedFrames memMap).toNat ∧
    f ∈ initMarked memMap kernelEnd kernelSeg (kernelEnd - kernelHimem) (mappedFrames memMap)

/-- A search that is entered and settles on a bit has none of `frames` among the frames
from there on. -/
def SettlesOutside (frames : Set Nat) (w : PmmWorld) : PmmOp → Prop
  | .malloc size =>
      let n := (size2frame size).toNat
      0 < n → size2frame size ≤ BitVec.ofInt 32 (pmmFramesFree w.pmm) →
      ∀ pos : BitVec 32, Selects w.pmm.bits w.pmm.totalFrames.toNat n pos.toNat →
        ∀ k < n, (pos.toNat + k) % 2 ^ 20 ∉ frames
  | .free _ => True

theorem mem_addressedFrames {pos size : BitVec 32} {f : Nat} :
    f ∈ addressedFrames ⟨pos * pmmFrameSize, size⟩ ↔
      ∃ k < (size2frame size).toNat, (pos.toNat + k) % 2 ^ 20 = f := by
  have hpage : (pos * pmmFrameSize).toNat / 4096 = pos.toNat % 2 ^ 20 := by
    rw [BitVec.toNat_mul, show pmmFrameSize.toNat = 4096 from rfl]
    omega
  refine exists_congr fun k => and_congr_right fun _ => ?_
  rw [hpage, Nat.mod_add_mod]

theorem returnsOutside_iff {frames : Set Nat} {w : PmmWorld} {op : PmmOp} :
    ReturnsOutside frames w op ↔ SettlesOutside frames w op := by
  cases op with
  | free b => exact Iff.rfl
  | malloc size =>
      constructor
      · intro houtside hn henough pos hsel k hk hmem
        have hfind := (pmmFind_eq_some hn).mpr ⟨henough, hsel⟩
        have hptr : (pmmMalloc w.pmm size).2 = pos * pmmFrameSize := by rw [pmmMalloc, hfind]
        have hdisjoint := houtside (by rw [hfind]; rfl)
        rw [hptr, Set.disjoint_left] at hdisjoint
        exact hdisjoint (mem_addressedFrames.mpr ⟨k, hk, rfl⟩) hmem
      · intro hsettles hsome
        obtain ⟨pos, hfind⟩ := Option.isSome_iff_exists.mp hsome
        have hn := pmmFind_positive hfind
        obtain ⟨henough, hsel⟩ := (pmmFind_eq_some hn).mp hfind
        have hptr : (pmmMalloc w.pmm size).2 = pos * pmmFrameSize := by rw [pmmMalloc, hfind]
        rw [hptr, Set.disjoint_left]
        intro f hf
        obtain ⟨k, hk, rfl⟩ := mem_addressedFrames.mp hf
        exact hsettles hn henough pos hsel k hk

/-- Searches that settle on free runs keep away from the frames that are marked at the start. -/
theorem settlesOutside_of_sound {p : Pmm} (hT : p.totalFrames.toNat ≤ 2 ^ 21) {frames : Set Nat}
    (marked : ∀ f ∈ frames, f < p.totalFrames.toNat ∧ p.bits f = true) {ops : List PmmOp}
    (sound : Along pmmStep PmmOpSound ⟨p, []⟩ ops) :
    Along pmmStep (SettlesOutside frames) ⟨p, []⟩ ops := by
  refine sound.weaken (fun w _ _ (inv : PmmInv p w) hs hstep => inv.step hT hs hstep) ?_
    (PmmInv.init p)
  intro w op inv hop
  cases op with
  | free b => trivial
  | malloc size =>
      intro hn henough pos hsel k hk hmem
      have hle := size2frame_le size
      have htotal : w.pmm.totalFrames.toNat ≤ 2 ^ 21 := by rwa [inv.totalFrames]
      obtain ⟨hword, haccepts, hfirst, hroom⟩ := (selects_iff (by omega)).mp hsel
      obtain ⟨hclear, hbelow⟩ := hop hn henough pos.toNat hword haccepts hfirst hroom
      rw [Nat.mod_eq_of_lt (by omega)] at hmem
      have hused := (inv.owned.reserved_used ⟨by omega, (marked _ hmem).2⟩).2
      rw [hclear k hk] at hused
      cases hused

section
variable {m : Mem} {eax ebx startPtr kernelEnd : BitVec 32} {p : Pmm}

/-- The frames of the kernel are marked exactly when something other than its own range
reaches them. -/
theorem startInit_marked_iff (h : startInit m eax ebx startPtr kernelEnd = some p) :
    (∀ f ∈ kernelFrames kernelEnd, f < p.totalFrames.toNat ∧ p.bits f = true) ↔
      KernelFramesReached (memMapEntries m ebx) kernelEnd := by
  have state := pmmInit_state (startInit_eq_some_iff.mp h).2.2.2.2.2
  have htotal : p.totalFrames = mappedFrames (memMapEntries m ebx) := by
    rw [state.totalFrames_eq, mappedFrames_sanitize]
  refine forall₂_congr fun f _ => ?_
  rw [← htotal]
  refine and_congr_right fun hf => ?_
  rw [state.bits f hf, initMarked_sanitize]

/-- `_start_PMM_init` hands over the image's size with the address it was first loaded at,
not the one it runs from: its frames are marked exactly when something else reaches them, and
stay its own exactly when no search settles on a run with one of them. Marked frames are safe
from all searches that settle on free runs. -/
theorem kernel_protected_iff (h : startInit m eax ebx startPtr kernelEnd = some p)
    (ops : List PmmOp) :
    (KernelProtected kernelEnd p ops ↔
      KernelFramesReached (memMapEntries m ebx) kernelEnd ∧
        Along pmmStep (SettlesOutside (kernelFrames kernelEnd)) ⟨p, []⟩ ops) ∧
      (KernelFramesReached (memMapEntries m ebx) kernelEnd →
        Along pmmStep PmmOpSound ⟨p, []⟩ ops → KernelProtected kernelEnd p ops) := by
  have state := pmmInit_state (startInit_eq_some_iff.mp h).2.2.2.2.2
  have hruns : Along pmmStep (ReturnsOutside (kernelFrames kernelEnd)) ⟨p, []⟩ ops ↔
      Along pmmStep (SettlesOutside (kernelFrames kernelEnd)) ⟨p, []⟩ ops :=
    along_congr (fun _ _ _ (_ : True) _ _ => trivial) (fun _ _ _ => returnsOutside_iff) trivial
  have hmarked := startInit_marked_iff h
  refine ⟨⟨fun hp => ⟨hmarked.mp hp.marked, hruns.mp hp.keptOut⟩,
    fun hp => ⟨hmarked.mpr hp.1, hruns.mpr hp.2⟩⟩, ?_⟩
  intro reached sound
  have marked := hmarked.mpr reached
  exact ⟨marked, hruns.mpr (settlesOutside_of_sound state.totalFrames_le marked sound)⟩

end

/-! ### Two boots -/

def wordBytes (v : BitVec 32) : List Byte := (List.range 4).map (byteAt v)

def entryBytes (e : BootMemMapInfoEntry) : List Byte :=
  wordBytes e.baseAddrLo ++ wordBytes e.baseAddrHi ++ wordBytes e.lengthLo ++
    wordBytes e.lengthHi ++ wordBytes e.type ++ wordBytes e.acpi

def sysInfoBlock (memMap : List BootMemMapInfoEntry) : Mem :=
  let header := wordBytes sysInfoBegin ++ wordBytes 0#32 ++ wordBytes 0x6000#32 ++
    [0#8, BitVec.ofNat 8 memMap.length]
  let block := header ++ memMap.flatMap entryBytes ++ wordBytes sysInfoEnd
  fun a => block.getD (a - 0x600) 0#8

def reservedLowMap : List BootMemMapInfoEntry :=
  [{ baseAddrLo := 0#32, baseAddrHi := 0#32, lengthLo := 0x110000#32, lengthHi := 0#32,
     type := memMapTypeReserved, acpi := 0#32 },
   { baseAddrLo := 0x110000#32, baseAddrHi := 0#32, lengthLo := 0xF0000#32, lengthHi := 0#32,
     type := memMapTypeAvailable, acpi := 0#32 }]

/-- `_start_init` with an image that ends at `0x106000`. -/
def bootWith (memMap : List BootMemMapInfoEntry) : Option Pmm :=
  startInit (sysInfoBlock memMap) bros 0x600#32 kernelHimem 0x106000#32

/-- A boot whose block reads back as `memMap` gets through `_start_PMM_init`. -/
theorem bootWith_spec {memMap : List BootMemMapInfoEntry}
    (hbegin : sysInfoBeginMarker (sysInfoBlock memMap) 0x600#32 = sysInfoBegin)
    (hend : load32 (sysInfoBlock memMap)
      (sysInfoEndMarkerPtr (sysInfoBlock memMap) 0x600#32).toNat = sysInfoEnd)
    (hnum : 1#8 ≤ sysInfoNumMemMapEntries (sysInfoBlock memMap) 0x600#32)
    (hentries : memMapEntries (sysInfoBlock memMap) 0x600#32 = memMap)
    (hno : NoHighWords (memMap.map sanitizeEntry)) :
    ∃ p, bootWith memMap = some p ∧ PmmInitState (memMap.map sanitizeEntry) 0x106000#32
      kernelSeg (0x106000#32 - kernelHimem) p := by
  obtain ⟨p, hp, state⟩ := pmmInit_spec (sysInfoBlock memMap) 0x106000#32 kernelSeg
    (0x106000#32 - kernelHimem) hno
  refine ⟨p, startInit_eq_some_iff.mpr ⟨rfl, rfl, hbegin, hend, hnum, ?_⟩, state⟩
  rwa [hentries]

theorem kernel_protected_reserved_low :
    ∃ p, bootWith reservedLowMap = some p ∧
      KernelProtected 0x106000#32 p [.malloc 4096#32, .malloc 100#32] := by
  have hentries : memMapEntries (sysInfoBlock reservedLowMap) 0x600#32 = reservedLowMap := by
    decide +kernel
  obtain ⟨p, hboot, state⟩ :=
    bootWith_spec (by decide) (by decide +kernel) (by decide) hentries (by decide)
  have hmapped : mappedFrames reservedLowMap = 512#32 := by decide
  have htotal : p.totalFrames = 512#32 := by
    rw [state.totalFrames_eq, mappedFrames_sanitize, hmapped]
  have reached : KernelFramesReached reservedLowMap 0x106000#32 := by
    have hlow (f : Nat) (hf : f < 0x110) : f < (mappedFrames reservedLowMap).toNat ∧
        f ∈ initMarked reservedLowMap 0x106000#32 kernelSeg (0x106000#32 - kernelHimem)
          (mappedFrames reservedLowMap) := by
      refine ⟨?_, Or.inl ⟨_, List.mem_cons_self, by decide, Nat.zero_le f, ?_⟩⟩
      · rw [hmapped]
        exact Nat.lt_of_lt_of_le hf (by decide)
      · change f < 0x110
        exact hf
    intro f hf
    cases hf with
    | inl hstack =>
        subst hstack
        exact hlow 0 (by decide)
    | inr himage =>
        obtain ⟨a, -, ha, rfl⟩ := himage
        change a < 0x106000 at ha
        exact hlow (a / 4096) (by omega)
  rw [← hentries] at reached
  exact ⟨p, hboot, (kernel_protected_iff hboot _).2 reached (two_frames_run htotal).1⟩

/-- With all memory available neither the stack nor the image is reserved. -/
theorem kernel_not_protected_two_MiB :
    ∃ p, bootWith twoMiBMap = some p ∧ ¬ KernelProtected 0x106000#32 p [] := by
  have hentries : memMapEntries (sysInfoBlock twoMiBMap) 0x600#32 = twoMiBMap := by
    decide +kernel
  obtain ⟨p, hboot, state⟩ :=
    bootWith_spec (by decide) (by decide +kernel) (by decide) hentries (by decide)
  refine ⟨p, hboot, ?_⟩
  intro h
  have marked := h.marked
  have himage : (0x100 : Nat) ∈ kernelFrames 0x106000#32 :=
    Or.inr ⟨0x100000, by decide, by decide, by decide⟩
  obtain ⟨hlt, hset⟩ := marked 0x100 himage
  rw [state.bits _ hlt, initMarked_sanitize, state.totalFrames_eq, mappedFrames_sanitize] at hset
  rcases hset with ⟨e, he, hother, -⟩ | h | h
  · revert e
    decide
  · exact absurd h (by decide)
  · exact absurd h (by decide)

end Bros
