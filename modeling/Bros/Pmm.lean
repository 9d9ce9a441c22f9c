import Bros.Bitset
import Bros.BootInfo
import Bros.Lib.Pages
import Mathlib.Data.Finset.Card

/-!
The physical memory manager of `arch/x86/mmu/PMM.c`.

The static variables are the fields of `Pmm`, with the memory the bitmap lives in.
A kernel panic ends the program and is `none`. The first part translates the source;
the second part says what each operation does to single frame bits.
-/

namespace Bros
open ByteMemory Pages

abbrev Paddr := BitVec 32

/-- `memset` of `lib/string.S`: `rep stosb` with a 32-bit `EDI`. -/
def memset (m : Mem) (buf : Paddr) (val : Byte) (n : BitVec 32) : Mem :=
  fun a => if a < 2 ^ 32 ∧ BitVec.ofNat 32 a - buf < n then val else m a

/-- The statics of `PMM.c`: `g_PMM_total_frames`, `g_PMM_used_frames`,
`g_PMM_frames_map`. -/
structure Pmm where
  mem : Mem
  totalFrames : BitVec 32
  usedFrames : BitVec 32
  framesMap : Bitset32

def pmmFrameSize : BitVec 32 := 4096#32

def pmmFrameAlign : BitVec 64 := 4096#64

def pmmMemMapFramesPerByte : BitVec 32 := 8#32

def alignUp (value align : BitVec 64) : BitVec 64 :=
  (value + align - 1#64) &&& ~~~(align - 1#64)

def size2frame (size : BitVec 32) : BitVec 32 :=
  size / pmmFrameSize + (if size % pmmFrameSize ≠ 0#32 then 1#32 else 0#32)

/-- `base_addr_lo + length_lo` in 64 bits. -/
def entryEnd (e : BootMemMapInfoEntry) : BitVec 64 :=
  e.baseAddrLo.setWidth 64 + e.lengthLo.setWidth 64

/-- The loop of `PMM_init` that finds the highest end and refuses 64-bit ranges. -/
def pmmHighEnd (highEnd : BitVec 64) : List BootMemMapInfoEntry → Option (BitVec 64)
  | [] => some highEnd
  | e :: es =>
      if e.lengthHi ≠ 0#32 ∨ e.baseAddrHi ≠ 0#32 then none    -- more than 4GB
      else pmmHighEnd (if highEnd < entryEnd e then entryEnd e else highEnd) es

/-- The body shared by the three marking loops. -/
def pmmMarkFrame (p : Pmm) (f : BitVec 32) : Pmm :=
  if bitsetTest p.mem p.framesMap f then p
  else
    { p with
      mem := bitsetSet p.mem p.framesMap f
      usedFrames := p.usedFrames + 1#32 }

/-- `for (f = start_frame; f < end_frame; ++f)` over the marking body. -/
def pmmMarkFrames (p : Pmm) (startFrame endFrame : BitVec 32) : Pmm :=
  (List.range' startFrame.toNat (endFrame.toNat - startFrame.toNat)).foldl
    (fun p f => pmmMarkFrame p (BitVec.ofNat 32 f)) p

/-- The frame after the byte range that ends at a 64-bit address. -/
def endFrameOf (byteEnd : BitVec 64) : BitVec 32 :=
  (alignUp byteEnd pmmFrameAlign / pmmFrameAlign).setWidth 32

/-- The loop of `PMM_init` over the entries that are not available. -/
def pmmMarkEntries (p : Pmm) : List BootMemMapInfoEntry → Option Pmm
  | [] => some p
  | e :: es =>
      if e.type = memMapTypeAvailable then pmmMarkEntries p es
      else
        let startFrame := e.baseAddrLo / pmmFrameSize
        let endFrame := endFrameOf (entryEnd e)
        if p.totalFrames < endFrame then none    -- end frame > total frames
        else pmmMarkEntries (pmmMarkFrames p startFrame endFrame) es

def bitmapPaddr (physicalMemStart : Paddr) : Paddr :=
  (alignUp (physicalMemStart.setWidth 64) (pmmMemMapFramesPerByte.setWidth 64)).setWidth 32

def memMapSize (totalFrames : BitVec 32) : BitVec 32 :=
  (totalFrames + pmmMemMapFramesPerByte - 1#32) / pmmMemMapFramesPerByte

def pmmInit (mem : Mem) (memMap : List BootMemMapInfoEntry)
    (physicalMemStart : Paddr) (kernelStart kernelSize : BitVec 32) : Option Pmm := do
  let highEnd ← pmmHighEnd 0#64 memMap
  let totalFrames := endFrameOf highEnd
  let size := memMapSize totalFrames
  let bitmap := bitmapPaddr physicalMemStart
  let p : Pmm :=
    { mem := memset mem bitmap 0#8 size
      totalFrames
      usedFrames := 0#32
      framesMap := bitmap }
  let p ← pmmMarkEntries p memMap
  -- mark the kernel part
  let p := pmmMarkFrames p (kernelStart / pmmFrameSize)
    (endFrameOf ((kernelStart + kernelSize).setWidth 64))
  -- mark the bitmap's own backing frames as used
  return pmmMarkFrames p (bitmap / pmmFrameSize) (endFrameOf ((bitmap + size).setWidth 64))

def pmmFramesUsed (p : Pmm) : Int := p.usedFrames.toInt

def pmmFramesFree (p : Pmm) : Int := (p.totalFrames - p.usedFrames).toInt

/-- The two early returns of `PMM_malloc`: the position its search settles on. The
comparison of an `int` with a `uint32_t` is an unsigned one. -/
def pmmFind (p : Pmm) (size : BitVec 32) : Option (BitVec 32) :=
  if BitVec.ofInt 32 (pmmFramesFree p) < size2frame size then none
  else bitsetFind p.mem p.framesMap p.totalFrames (size2frame size)

/-- The new state and the returned pointer, `0` being `NULL`. -/
def pmmMalloc (p : Pmm) (size : BitVec 32) : Pmm × Paddr :=
  match pmmFind p size with
  | none => (p, 0#32)
  | some pos =>
      let numFrames := size2frame size
      ({ p with
          mem := (List.range numFrames.toNat).foldl
            (fun m i => bitsetSet m p.framesMap (pos + BitVec.ofNat 32 i)) p.mem
          usedFrames := p.usedFrames + numFrames },
        pos * pmmFrameSize)

def pmmFree (p : Pmm) (ptr : Paddr) (size : BitVec 32) : Option Pmm :=
  let numFrames := size2frame size
  if p.usedFrames < numFrames then none    -- PMM_free_frames
  else
    let pos := ptr / pmmFrameSize
    some
      { p with
        mem := (List.range numFrames.toNat).foldl
          (fun m i => bitsetClear m p.framesMap (pos + BitVec.ofNat 32 i)) p.mem
        usedFrames := p.usedFrames - numFrames }

/-! ### Frame arithmetic -/

theorem toNat_alignUp (value : BitVec 64) {k : Nat} (hk : k < 64)
    (h : value.toNat + 2 ^ k - 1 < 2 ^ 64) :
    (alignUp value (BitVec.twoPow 64 k)).toNat =
      (value.toNat + 2 ^ k - 1) / 2 ^ k * 2 ^ k := by
  have hlt : 2 ^ k < 2 ^ 64 := Nat.pow_lt_pow_right (by decide) hk
  have hpos : 0 < 2 ^ k := Nat.two_pow_pos k
  have hsum : (value + BitVec.twoPow 64 k - 1#64).toNat = value.toNat + 2 ^ k - 1 := by
    rw [BitVec.toNat_sub, BitVec.toNat_add, BitVec.toNat_twoPow, Nat.mod_eq_of_lt hlt]
    have hone : (1#64).toNat = 1 := rfl
    omega
  rw [alignUp, toNat_and_not_mask _ hk, hsum]

theorem toNat_endFrameOf {byteEnd : BitVec 64} (h : byteEnd.toNat ≤ 2 ^ 33) :
    (endFrameOf byteEnd).toNat = (byteEnd.toNat + 4095) / 4096 := by
  have halign := toNat_alignUp byteEnd (k := 12) (by decide) (by omega)
  have hpow : pmmFrameAlign = BitVec.twoPow 64 12 := by decide
  have h4096 : (BitVec.twoPow 64 12).toNat = 4096 := by decide
  rw [endFrameOf, hpow, BitVec.toNat_setWidth, BitVec.toNat_udiv, halign, h4096]
  omega

theorem toNat_entryEnd (e : BootMemMapInfoEntry) :
    (entryEnd e).toNat = e.baseAddrLo.toNat + e.lengthLo.toNat := by
  have hb := e.baseAddrLo.isLt
  have hl := e.lengthLo.isLt
  simp only [entryEnd, BitVec.toNat_add, BitVec.toNat_setWidth]
  omega

theorem toNat_memMapSize {totalFrames : BitVec 32} (h : totalFrames.toNat ≤ 2 ^ 21) :
    (memMapSize totalFrames).toNat = (totalFrames.toNat + 7) / 8 := by
  have h8 : pmmMemMapFramesPerByte.toNat = 8 := by decide
  have h1 : (1#32).toNat = 1 := by decide
  rw [memMapSize, BitVec.toNat_udiv, BitVec.toNat_sub, BitVec.toNat_add, h8, h1]
  omega

theorem toNat_size2frame (size : BitVec 32) :
    (size2frame size).toNat = (size.toNat + 4095) / 4096 := by
  have hs := size.isLt
  have h4096 : pmmFrameSize.toNat = 4096 := by decide
  have hzero : size % pmmFrameSize ≠ 0#32 ↔ size.toNat % 4096 ≠ 0 := by
    rw [Ne, BitVec.toNat_eq, BitVec.toNat_umod, h4096]
    rfl
  rw [size2frame, BitVec.toNat_add, BitVec.toNat_udiv, h4096]
  split
  · next h =>
      have := hzero.mp h
      simp only [BitVec.reduceToNat]
      omega
  · next h =>
      have := mt hzero.mpr h
      simp only [BitVec.reduceToNat]
      omega

theorem size2frame_le (size : BitVec 32) : (size2frame size).toNat ≤ 2 ^ 20 := by
  rw [toNat_size2frame]
  have := size.isLt
  omega

theorem toNat_div_frameSize (x : BitVec 32) : (x / pmmFrameSize).toNat = x.toNat / 4096 :=
  BitVec.toNat_udiv

/-! ### Frame bits -/

/-- The frame bits of the bitmap by frame number. -/
def Pmm.bits (p : Pmm) : Nat → Bool := bitsetBits p.mem p.framesMap

def Pmm.usedSet (p : Pmm) : Set Nat := {f | f < 2 ^ 32 ∧ p.bits f = true}

/-- The set bits among `0 .. g_PMM_total_frames - 1`. -/
def Pmm.markedFrames (p : Pmm) : Finset Nat :=
  (Finset.range p.totalFrames.toNat).filter fun f => p.bits f = true

def Pmm.Accounted (p : Pmm) : Prop := p.usedFrames.toNat = p.markedFrames.card

theorem ofNat_eq_iff {x f : Nat} (hx : x < 2 ^ 32) (hf : f < 2 ^ 32) :
    BitVec.ofNat 32 x = BitVec.ofNat 32 f ↔ x = f := by
  rw [BitVec.toNat_eq, BitVec.toNat_ofNat, BitVec.toNat_ofNat, Nat.mod_eq_of_lt hx,
    Nat.mod_eq_of_lt hf]

/-- A fold of updates that each give one bit the value `v`. -/
theorem bitsetBits_foldl {bitset : Bitset32} {v : Bool} (op : Mem → BitVec 32 → Mem)
    (hop : ∀ m f y, bitsetTest (op m f) bitset y = if y = f then v else bitsetTest m bitset y)
    (fs : List Nat) (m : Mem) {x : Nat} (hfs : ∀ f ∈ fs, f < 2 ^ 32) (hx : x < 2 ^ 32) :
    bitsetBits (fs.foldl (fun m f => op m (BitVec.ofNat 32 f)) m) bitset x =
      if x ∈ fs then v else bitsetBits m bitset x := by
  induction fs generalizing m with
  | nil => rfl
  | cons f fs ih =>
      have hf := hfs f List.mem_cons_self
      rw [List.foldl_cons, ih _ (fun g hg => hfs g (List.mem_cons_of_mem f hg))]
      simp only [bitsetBits, hop, ofNat_eq_iff hx hf, List.mem_cons]
      by_cases hxf : x = f
      · simp [hxf]
      · simp [hxf]

theorem bitsetBits_foldl_set (bitset : Bitset32) (fs : List Nat) (m : Mem) {x : Nat}
    (hfs : ∀ f ∈ fs, f < 2 ^ 32) (hx : x < 2 ^ 32) :
    bitsetBits (fs.foldl (fun m f => bitsetSet m bitset (BitVec.ofNat 32 f)) m) bitset x =
      (decide (x ∈ fs) || bitsetBits m bitset x) := by
  have hop (m : Mem) (f y : BitVec 32) : bitsetTest (bitsetSet m bitset f) bitset y =
      if y = f then true else bitsetTest m bitset y := by
    rw [bitsetTest_bitsetSet]
    by_cases hyf : y = f <;> simp [hyf]
  rw [bitsetBits_foldl (bitsetSet · bitset) hop fs m hfs hx]
  by_cases hmem : x ∈ fs <;> simp [hmem]

theorem bitsetBits_foldl_clear (bitset : Bitset32) (fs : List Nat) (m : Mem) {x : Nat}
    (hfs : ∀ f ∈ fs, f < 2 ^ 32) (hx : x < 2 ^ 32) :
    bitsetBits (fs.foldl (fun m f => bitsetClear m bitset (BitVec.ofNat 32 f)) m) bitset x =
      (!decide (x ∈ fs) && bitsetBits m bitset x) := by
  have hop (m : Mem) (f y : BitVec 32) : bitsetTest (bitsetClear m bitset f) bitset y =
      if y = f then false else bitsetTest m bitset y := by
    rw [bitsetTest_bitsetClear]
    by_cases hyf : y = f <;> simp [hyf]
  rw [bitsetBits_foldl (bitsetClear · bitset) hop fs m hfs hx]
  by_cases hmem : x ∈ fs <;> simp [hmem]

/-- The loops of `PMM_malloc` and `PMM_free` run over consecutive frames. -/
theorem foldl_frames {β : Type} (op : β → BitVec 32 → β) (b : β) (pos : BitVec 32) (n : Nat) :
    (List.range n).foldl (fun b i => op b (pos + BitVec.ofNat 32 i)) b =
      (List.range' pos.toNat n).foldl (fun b f => op b (BitVec.ofNat 32 f)) b := by
  rw [List.range'_eq_map_range, List.foldl_map]
  congr 1
  funext b i
  rw [BitVec.ofNat_add, BitVec.ofNat_toNat, BitVec.setWidth_eq]

@[simp] theorem pmmMarkFrame_totalFrames (p : Pmm) (f : BitVec 32) :
    (pmmMarkFrame p f).totalFrames = p.totalFrames := by
  unfold pmmMarkFrame
  split <;> rfl

@[simp] theorem pmmMarkFrame_framesMap (p : Pmm) (f : BitVec 32) :
    (pmmMarkFrame p f).framesMap = p.framesMap := by
  unfold pmmMarkFrame
  split <;> rfl

theorem pmmMarkFrame_bits (p : Pmm) {f x : Nat} (hf : f < 2 ^ 32) (hx : x < 2 ^ 32) :
    (pmmMarkFrame p (BitVec.ofNat 32 f)).bits x = (decide (x = f) || p.bits x) := by
  unfold pmmMarkFrame
  split
  · next h =>
      by_cases hxf : x = f
      · subst hxf
        simpa [Pmm.bits, bitsetBits] using h
      · simp [hxf]
  · simp only [Pmm.bits, bitsetBits, bitsetTest_bitsetSet, ofNat_eq_iff hx hf]

theorem Pmm.Accounted.markFrame {p : Pmm} (h : p.Accounted) {f : Nat}
    (hf : f < p.totalFrames.toNat) : (pmmMarkFrame p (BitVec.ofNat 32 f)).Accounted := by
  have hlt := p.totalFrames.isLt
  by_cases hbit : p.bits f = true
  · have : pmmMarkFrame p (BitVec.ofNat 32 f) = p := if_pos hbit
    rwa [this]
  · have hbits (x : Nat) (hx : x < p.totalFrames.toNat) :
        (pmmMarkFrame p (BitVec.ofNat 32 f)).bits x = true ↔ x = f ∨ p.bits x = true := by
      rw [pmmMarkFrame_bits p (show f < 2 ^ 32 by omega) (show x < 2 ^ 32 by omega),
        Bool.or_eq_true, decide_eq_true_eq]
    have hmarked : (pmmMarkFrame p (BitVec.ofNat 32 f)).markedFrames =
        insert f p.markedFrames := by
      apply Finset.ext
      intro x
      simp only [Pmm.markedFrames, pmmMarkFrame_totalFrames, Finset.mem_filter,
        Finset.mem_range, Finset.mem_insert]
      constructor
      · intro hmem
        obtain ⟨hx, hb⟩ := hmem
        exact ((hbits x hx).mp hb).imp_right fun hb => ⟨hx, hb⟩
      · intro hmem
        cases hmem with
        | inl heq =>
            subst heq
            exact ⟨hf, (hbits x hf).mpr (Or.inl rfl)⟩
        | inr hold =>
            obtain ⟨hx, hb⟩ := hold
            exact ⟨hx, (hbits x hx).mpr (Or.inr hb)⟩
    have hnotmem : f ∉ p.markedFrames := by simp [Pmm.markedFrames, hbit]
    have hcard : p.markedFrames.card < p.totalFrames.toNat := by
      have hsub : insert f p.markedFrames ⊆ Finset.range p.totalFrames.toNat := by
        intro x hx
        cases Finset.mem_insert.mp hx with
        | inl heq =>
            subst heq
            exact Finset.mem_range.mpr hf
        | inr hx => exact (Finset.mem_filter.mp hx).1
      have := Finset.card_le_card hsub
      rw [Finset.card_insert_of_notMem hnotmem, Finset.card_range] at this
      exact this
    have hused : (pmmMarkFrame p (BitVec.ofNat 32 f)).usedFrames = p.usedFrames + 1#32 := by
      rw [pmmMarkFrame]
      exact congrArg Pmm.usedFrames (if_neg hbit)
    unfold Pmm.Accounted at h ⊢
    rw [hmarked, Finset.card_insert_of_notMem hnotmem, hused, BitVec.toNat_add, h,
      show (1#32).toNat = 1 from rfl]
    omega

/-- What the search of `PMM_malloc` settles on, for any counter and any bitmap. -/
theorem pmmFind_eq_some {p : Pmm} {size pos : BitVec 32} (hn : 0 < (size2frame size).toNat) :
    pmmFind p size = some pos ↔
      size2frame size ≤ BitVec.ofInt 32 (pmmFramesFree p) ∧
        Selects p.bits p.totalFrames.toNat (size2frame size).toNat pos.toNat := by
  rw [pmmFind]
  split
  · next h =>
      simp only [reduceCtorEq, false_iff, not_and]
      intro henough
      exact absurd h (BitVec.not_lt.mpr henough)
  · next h => rw [bitsetFind_eq_some hn, Pmm.bits, and_iff_right (BitVec.not_lt.mp h)]

end Bros
