import Bros.PmmRuns

/-!
`PMM_init` as a function of the sets it is given.

Where no end of a range wraps, the three marking phases are a union of outward rounded
ranges and the counter its cardinality. Neither depends on the order of the entries or
on what the memory held before.
-/

namespace Bros
open ByteMemory Pages

/-- The frames of a byte range whose end is taken without wrapping. -/
def bytesFrames (start : BitVec 32) (size : Nat) : Set Nat :=
  pagesOf 4096 start.toNat (start.toNat + size)

/-- What `PMM_init` leaves for ranges that do not wrap. -/
structure InitExact (memMap : List BootMemMapInfoEntry) (physicalMemStart : Paddr)
    (kernelStart kernelSize : BitVec 32) (p : Pmm) : Prop where
  totalFrames : p.totalFrames.toNat = (highestEnd memMap + 4095) / 4096
  marked : ∀ f < p.totalFrames.toNat, p.bits f = true ↔
    (∃ e ∈ memMap, e.type ≠ memMapTypeAvailable ∧ f ∈ bytesFrames e.baseAddrLo e.lengthLo.toNat) ∨
      f ∈ bytesFrames kernelStart kernelSize.toNat ∨
      f ∈ bytesFrames (bitmapPaddr physicalMemStart) ((p.totalFrames.toNat + 7) / 8)
  counted : p.usedFrames.toNat = p.markedFrames.card

/-- Two allocators that no operation on frame numbers tells apart. -/
structure SameFrames (p q : Pmm) : Prop where
  totalFrames : q.totalFrames = p.totalFrames
  usedFrames : q.usedFrames = p.usedFrames
  bits : ∀ f < p.totalFrames.toNat, q.bits f = p.bits f

theorem rangeFrames_eq_bytesFrames {start size : BitVec 32}
    (h : start.toNat + size.toNat < 2 ^ 32) :
    rangeFrames start size = bytesFrames start size.toNat := by
  rw [rangeFrames, bytesFrames, BitVec.toNat_add, Nat.mod_eq_of_lt h]

theorem highestEnd_perm {memMap memMap' : List BootMemMapInfoEntry}
    (h : memMap'.Perm memMap) : highestEnd memMap' = highestEnd memMap := by
  induction h with
  | nil => rfl
  | cons e _ ih => exact congrArg (max (e.baseAddrLo.toNat + e.lengthLo.toNat)) ih
  | swap e e' es => exact max_left_comm _ _ (highestEnd es)
  | trans _ _ ih ih' => exact ih.trans ih'

theorem noHighWords_perm {memMap memMap' : List BootMemMapInfoEntry}
    (h : memMap'.Perm memMap) (hno : NoHighWords memMap) : NoHighWords memMap' :=
  fun e he => hno e (h.mem_iff.mp he)

/-- No end of the kernel's or of the bitmap's range wraps or passes the highest entry. -/
structure RangesFit (memMap : List BootMemMapInfoEntry) (physicalMemStart : Paddr)
    (kernelStart kernelSize : BitVec 32) : Prop where
  kernel : kernelStart.toNat + kernelSize.toNat ≤ highestEnd memMap
  kernelEnd : kernelStart.toNat + kernelSize.toNat < 2 ^ 32
  bitmap : (bitmapPaddr physicalMemStart).toNat + (memMapSize (mappedFrames memMap)).toNat ≤
    highestEnd memMap
  bitmapEnd : (bitmapPaddr physicalMemStart).toNat + (memMapSize (mappedFrames memMap)).toNat <
    2 ^ 32

section
variable {memMap memMap' : List BootMemMapInfoEntry} {physicalMemStart : Paddr}
  {kernelStart kernelSize : BitVec 32} {p q : Pmm}

theorem RangesFit.perm (h : RangesFit memMap physicalMemStart kernelStart kernelSize)
    (hperm : memMap'.Perm memMap) :
    RangesFit memMap' physicalMemStart kernelStart kernelSize := by
  have hmapped : mappedFrames memMap' = mappedFrames memMap := by
    rw [mappedFrames, mappedFrames, highestEnd_perm hperm]
  have hhigh := highestEnd_perm hperm
  exact ⟨hhigh ▸ h.kernel, h.kernelEnd, hmapped ▸ hhigh ▸ h.bitmap, hmapped ▸ h.bitmapEnd⟩

theorem PmmInitState.exact (state : PmmInitState memMap physicalMemStart kernelStart kernelSize p)
    (fit : RangesFit memMap physicalMemStart kernelStart kernelSize) :
    InitExact memMap physicalMemStart kernelStart kernelSize p := by
  have htotal := state.totalFrames_eq
  have hsize := toNat_memMapSize state.totalFrames_le
  refine ⟨state.totalFrames, ?_, ?_⟩
  · intro f hf
    rw [state.bits f hf, ← hsize, ← rangeFrames_eq_bytesFrames fit.kernelEnd,
      ← rangeFrames_eq_bytesFrames (htotal ▸ fit.bitmapEnd)]
    rfl
  · apply state.accounted
    · rw [BitVec.toNat_add, Nat.mod_eq_of_lt fit.kernelEnd]
      exact fit.kernel
    · rw [BitVec.toNat_add, Nat.mod_eq_of_lt (htotal ▸ fit.bitmapEnd)]
      exact htotal ▸ fit.bitmap

/-- The exact result is the same for two maps with the same entries. -/
theorem InitExact.sameFrames (hp : InitExact memMap physicalMemStart kernelStart kernelSize p)
    (hq : InitExact memMap' physicalMemStart kernelStart kernelSize q)
    (hperm : memMap'.Perm memMap) : SameFrames p q := by
  have htotal : q.totalFrames = p.totalFrames := by
    apply BitVec.eq_of_toNat_eq
    rw [hq.totalFrames, hp.totalFrames, highestEnd_perm hperm]
  have hbits (f : Nat) (hf : f < p.totalFrames.toNat) : q.bits f = p.bits f := by
    rw [Bool.eq_iff_iff, hp.marked f hf, hq.marked f (by rwa [htotal]), htotal]
    simp only [hperm.mem_iff]
  have hmarked : q.markedFrames = p.markedFrames := by
    rw [Pmm.markedFrames, Pmm.markedFrames, htotal]
    apply Finset.filter_congr
    intro f hf
    rw [hbits f (Finset.mem_range.mp hf)]
  refine ⟨htotal, BitVec.eq_of_toNat_eq ?_, hbits⟩
  rw [hq.counted, hp.counted, hmarked]

/-- `PMM_init` does not panic, marks exactly the union of the rounded ranges, counts each
marked frame once, and would do the same for the entries in any other order. -/
theorem pmmInit_exact (mem : Mem) (hno : NoHighWords memMap)
    (fit : RangesFit memMap physicalMemStart kernelStart kernelSize) :
    ∃ p, pmmInit mem memMap physicalMemStart kernelStart kernelSize = some p ∧
      InitExact memMap physicalMemStart kernelStart kernelSize p ∧
      ∀ mem' memMap', memMap'.Perm memMap →
        ∃ q, pmmInit mem' memMap' physicalMemStart kernelStart kernelSize = some q ∧
          SameFrames p q := by
  obtain ⟨p, hp, hpState⟩ := pmmInit_spec mem physicalMemStart kernelStart kernelSize hno
  have hpExact := hpState.exact fit
  refine ⟨p, hp, hpExact, ?_⟩
  intro mem' memMap' hperm
  obtain ⟨q, hq, hqState⟩ := pmmInit_spec mem' physicalMemStart kernelStart kernelSize
    (noHighWords_perm hperm hno)
  exact ⟨q, hq, hpExact.sameFrames (hqState.exact (fit.perm hperm)) hperm⟩

end

/-- A reserved entry inside RAM, listed twice, and a kernel range that meets it. -/
def overlappingMap : List BootMemMapInfoEntry :=
  [{ baseAddrLo := 0x5800#32, baseAddrHi := 0#32, lengthLo := 0x1000#32, lengthHi := 0#32,
     type := memMapTypeReserved, acpi := 0#32 },
   { baseAddrLo := 0#32, baseAddrHi := 0#32, lengthLo := 0x200000#32, lengthHi := 0#32,
     type := memMapTypeAvailable, acpi := 0#32 },
   { baseAddrLo := 0x5800#32, baseAddrHi := 0#32, lengthLo := 0x1000#32, lengthHi := 0#32,
     type := memMapTypeReserved, acpi := 0#32 }]

theorem pmmInit_exact_overlapping :
    ∃ p, pmmInit (fun _ => 0xFF#8) overlappingMap 0x106000#32 0x1000#32 0x6000#32 = some p ∧
      InitExact overlappingMap 0x106000#32 0x1000#32 0x6000#32 p ∧
      ∀ mem' memMap', memMap'.Perm overlappingMap →
        ∃ q, pmmInit mem' memMap' 0x106000#32 0x1000#32 0x6000#32 = some q ∧ SameFrames p q :=
  pmmInit_exact _ (by decide) ⟨by decide, by decide, by decide, by decide⟩

end Bros
