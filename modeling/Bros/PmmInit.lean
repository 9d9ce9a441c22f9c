import Bros.Pmm

/-!
What `PMM_init` leaves in the bitmap.

`pmmInit_spec` reads the three marking loops back as one set of frames,
`initMarked`; the counter is the number of set bits whenever that set lies below
`g_PMM_total_frames`.
-/

namespace Bros
open ByteMemory Pages

/-! ### Marking loops -/

theorem pmmMarkFrames_foldl (fs : List Nat) (p : Pmm) (hfs : ∀ f ∈ fs, f < 2 ^ 32) :
    let q := fs.foldl (fun p f => pmmMarkFrame p (BitVec.ofNat 32 f)) p
    q.totalFrames = p.totalFrames ∧ q.framesMap = p.framesMap ∧
      ∀ x < 2 ^ 32, q.bits x = (decide (x ∈ fs) || p.bits x) := by
  induction fs generalizing p with
  | nil => simp
  | cons f fs ih =>
      have hf := hfs f List.mem_cons_self
      obtain ⟨htotal, hmap, hbits⟩ :=
        ih (pmmMarkFrame p (BitVec.ofNat 32 f)) fun g hg => hfs g (List.mem_cons_of_mem f hg)
      refine ⟨by simpa using htotal, by simpa using hmap, ?_⟩
      intro x hx
      rw [List.foldl_cons, hbits x hx, pmmMarkFrame_bits p hf hx]
      simp only [List.mem_cons, Bool.decide_or]
      cases decide (x ∈ fs) <;> cases decide (x = f) <;> rfl

theorem mem_frame_range {a b x : Nat} : x ∈ List.range' a (b - a) ↔ a ≤ x ∧ x < b := by
  rw [List.mem_range'_1]
  omega

theorem frame_range_lt (s e : BitVec 32) :
    ∀ f ∈ List.range' s.toNat (e.toNat - s.toNat), f < 2 ^ 32 := by
  intro f hf
  have := mem_frame_range.mp hf
  have := e.isLt
  omega

@[simp] theorem pmmMarkFrames_totalFrames (p : Pmm) (s e : BitVec 32) :
    (pmmMarkFrames p s e).totalFrames = p.totalFrames :=
  (pmmMarkFrames_foldl _ p (frame_range_lt s e)).1

@[simp] theorem pmmMarkFrames_framesMap (p : Pmm) (s e : BitVec 32) :
    (pmmMarkFrames p s e).framesMap = p.framesMap :=
  (pmmMarkFrames_foldl _ p (frame_range_lt s e)).2.1

theorem pmmMarkFrames_bits (p : Pmm) (s e : BitVec 32) {x : Nat} (hx : x < 2 ^ 32) :
    (pmmMarkFrames p s e).bits x = true ↔
      (s.toNat ≤ x ∧ x < e.toNat) ∨ p.bits x = true := by
  have h := (pmmMarkFrames_foldl _ p (frame_range_lt s e)).2.2 x hx
  rw [pmmMarkFrames, h, Bool.or_eq_true, decide_eq_true_eq, mem_frame_range]

theorem Pmm.Accounted.markFrames {p : Pmm} (h : p.Accounted) {s e : BitVec 32}
    (he : e.toNat ≤ p.totalFrames.toNat) : (pmmMarkFrames p s e).Accounted := by
  have hfs : ∀ f ∈ List.range' s.toNat (e.toNat - s.toNat), f < p.totalFrames.toNat := by
    intro f hf
    have := mem_frame_range.mp hf
    omega
  rw [pmmMarkFrames]
  generalize List.range' s.toNat (e.toNat - s.toNat) = fs at hfs
  clear he
  induction fs generalizing p with
  | nil => exact h
  | cons f fs ih =>
      rw [List.foldl_cons]
      apply ih (h.markFrame (hfs f List.mem_cons_self))
      intro g hg
      rw [pmmMarkFrame_totalFrames]
      exact hfs g (List.mem_cons_of_mem f hg)

/-! ### The memory map -/

/-- The bytes an entry lists, as a half-open range of 64-bit addresses. -/
def BootMemMapInfoEntry.Lists (e : BootMemMapInfoEntry) (a : Nat) : Prop :=
  e.baseAddrLo.toNat ≤ a ∧ a < e.baseAddrLo.toNat + e.lengthLo.toNat

def entryFrames (e : BootMemMapInfoEntry) : Set Nat :=
  pagesOf 4096 e.baseAddrLo.toNat (e.baseAddrLo.toNat + e.lengthLo.toNat)

def highestEnd (memMap : List BootMemMapInfoEntry) : Nat :=
  memMap.foldr (fun e h => max (e.baseAddrLo.toNat + e.lengthLo.toNat) h) 0

/-- Frames of the range `[start, start + size)` with the sum taken in 32 bits. -/
def rangeFrames (start size : BitVec 32) : Set Nat :=
  pagesOf 4096 start.toNat (start + size).toNat

instance (start size : BitVec 32) (f : Nat) : Decidable (f ∈ rangeFrames start size) :=
  inferInstanceAs (Decidable (f ∈ pagesOf _ _ _))

/-- The frames `PMM_init` marks: entries that are not available, the kernel range it
is given, and the bitmap itself. -/
def initMarked (memMap : List BootMemMapInfoEntry) (physicalMemStart : Paddr)
    (kernelStart kernelSize totalFrames : BitVec 32) : Set Nat :=
  {f | (∃ e ∈ memMap, e.type ≠ memMapTypeAvailable ∧ f ∈ entryFrames e) ∨
    f ∈ rangeFrames kernelStart kernelSize ∨
    f ∈ rangeFrames (bitmapPaddr physicalMemStart) (memMapSize totalFrames)}

theorem entryEnd_le (e : BootMemMapInfoEntry) : (entryEnd e).toNat ≤ 2 ^ 33 := by
  rw [toNat_entryEnd]
  have := e.baseAddrLo.isLt
  have := e.lengthLo.isLt
  omega

theorem highestEnd_le (memMap : List BootMemMapInfoEntry) : highestEnd memMap ≤ 2 ^ 33 := by
  induction memMap with
  | nil => simp [highestEnd]
  | cons e es ih =>
      have := e.baseAddrLo.isLt
      have := e.lengthLo.isLt
      simp only [highestEnd, List.foldr_cons] at ih ⊢
      omega

theorem le_highestEnd {memMap : List BootMemMapInfoEntry} {e : BootMemMapInfoEntry}
    (he : e ∈ memMap) : e.baseAddrLo.toNat + e.lengthLo.toNat ≤ highestEnd memMap := by
  induction memMap with
  | nil => cases he
  | cons e' es ih =>
      simp only [highestEnd, List.foldr_cons] at ih ⊢
      cases List.mem_cons.mp he with
      | inl heq =>
          subst heq
          omega
      | inr he =>
          have := ih he
          omega

/-- The maps `PMM_init` accepts: no entry has a nonzero high word. -/
def NoHighWords (memMap : List BootMemMapInfoEntry) : Prop :=
  ∀ e ∈ memMap, e.lengthHi = 0#32 ∧ e.baseAddrHi = 0#32

instance (memMap : List BootMemMapInfoEntry) : Decidable (NoHighWords memMap) :=
  inferInstanceAs (Decidable (∀ e ∈ memMap, _))

theorem pmmHighEnd_eq_some_iff (memMap : List BootMemMapInfoEntry) (h0 r : BitVec 64) :
    pmmHighEnd h0 memMap = some r ↔
      NoHighWords memMap ∧ r.toNat = max (highestEnd memMap) h0.toNat := by
  induction memMap generalizing h0 with
  | nil =>
      simp only [pmmHighEnd, NoHighWords, highestEnd, Option.some.injEq, List.foldr_nil,
        List.not_mem_nil, false_implies, implies_true, true_and, Nat.zero_max]
      rw [BitVec.toNat_eq, eq_comm]
  | cons e es ih =>
      have hmax : (if h0 < entryEnd e then entryEnd e else h0).toNat =
          max (e.baseAddrLo.toNat + e.lengthLo.toNat) h0.toNat := by
        have := toNat_entryEnd e
        split
        · next h =>
            have := BitVec.lt_def.mp h
            omega
        · next h =>
            have := mt BitVec.lt_def.mpr h
            omega
      have hhigh : highestEnd (e :: es) =
          max (e.baseAddrLo.toNat + e.lengthLo.toNat) (highestEnd es) := rfl
      rw [pmmHighEnd]
      split
      · next h =>
          simp only [reduceCtorEq, false_iff]
          intro hsome
          obtain ⟨hno, -⟩ := hsome
          have := hno e List.mem_cons_self
          tauto
      · next h =>
          rw [ih, hmax, hhigh]
          have he : e.lengthHi = 0#32 ∧ e.baseAddrHi = 0#32 := by
            simpa only [not_or, not_not] using h
          have hmem : NoHighWords (e :: es) ↔ NoHighWords es := by
            simp only [NoHighWords, List.mem_cons, forall_eq_or_imp, and_iff_right he]
          rw [hmem]
          refine and_congr_right fun _ => ?_
          omega

theorem toNat_endFrameOf_entry (e : BootMemMapInfoEntry) :
    (endFrameOf (entryEnd e)).toNat =
      (e.baseAddrLo.toNat + e.lengthLo.toNat + 4095) / 4096 := by
  rw [toNat_endFrameOf (entryEnd_le e), toNat_entryEnd]

theorem toNat_endFrameOf_range (b : BitVec 32) :
    (endFrameOf (b.setWidth 64)).toNat = (b.toNat + 4095) / 4096 := by
  have hb : (b.setWidth 64).toNat = b.toNat := by
    rw [BitVec.toNat_setWidth]
    have := b.isLt
    omega
  rw [toNat_endFrameOf (by rw [hb]; have := b.isLt; omega), hb]

theorem pmmMarkFrames_entry_bits (p : Pmm) (e : BootMemMapInfoEntry) {x : Nat}
    (hx : x < 2 ^ 32) :
    (pmmMarkFrames p (e.baseAddrLo / pmmFrameSize) (endFrameOf (entryEnd e))).bits x = true ↔
      x ∈ entryFrames e ∨ p.bits x = true := by
  rw [pmmMarkFrames_bits _ _ _ hx, toNat_endFrameOf_entry, toNat_div_frameSize]
  rfl

theorem pmmMarkFrames_range_bits (p : Pmm) (start size : BitVec 32) {x : Nat}
    (hx : x < 2 ^ 32) :
    (pmmMarkFrames p (start / pmmFrameSize)
      (endFrameOf ((start + size).setWidth 64))).bits x = true ↔
      x ∈ rangeFrames start size ∨ p.bits x = true := by
  rw [pmmMarkFrames_bits _ _ _ hx, toNat_endFrameOf_range, toNat_div_frameSize]
  rfl

/-- The end-frame check of the entry loop never fires once the highest end is known. -/
theorem pmmMarkEntries_spec (memMap : List BootMemMapInfoEntry) (p : Pmm)
    (hends : ∀ e ∈ memMap, (endFrameOf (entryEnd e)).toNat ≤ p.totalFrames.toNat) :
    ∃ q, pmmMarkEntries p memMap = some q ∧ q.totalFrames = p.totalFrames ∧
      q.framesMap = p.framesMap ∧ (p.Accounted → q.Accounted) ∧
      ∀ x < 2 ^ 32, q.bits x = true ↔
        (∃ e ∈ memMap, e.type ≠ memMapTypeAvailable ∧ x ∈ entryFrames e) ∨
          p.bits x = true := by
  induction memMap generalizing p with
  | nil => exact ⟨p, rfl, rfl, rfl, id, by simp⟩
  | cons e es ih =>
      have hes : ∀ e' ∈ es, (endFrameOf (entryEnd e')).toNat ≤ p.totalFrames.toNat :=
        fun e' he' => hends e' (List.mem_cons_of_mem e he')
      rw [pmmMarkEntries]
      split
      · next hav =>
          obtain ⟨q, hq, htotal, hmap, hacc, hbits⟩ := ih p hes
          refine ⟨q, hq, htotal, hmap, hacc, ?_⟩
          intro x hx
          simp only [hbits x hx, List.mem_cons, exists_eq_or_imp, hav, ne_eq, not_true,
            false_and, false_or]
      · next hav =>
          have he := hends e List.mem_cons_self
          obtain ⟨q, hq, htotal, hmap, hacc, hbits⟩ :=
            ih (pmmMarkFrames p (e.baseAddrLo / pmmFrameSize) (endFrameOf (entryEnd e)))
              (by simpa using hes)
          refine ⟨q, ?_, by simpa using htotal, by simpa using hmap,
            fun h => hacc (h.markFrames he), ?_⟩
          · rw [if_neg (by rw [BitVec.lt_def]; omega)]
            exact hq
          · intro x hx
            rw [hbits x hx, pmmMarkFrames_entry_bits _ _ hx]
            simp only [List.mem_cons, exists_eq_or_imp, ne_eq, hav, not_false_eq_true,
              true_and]
            rw [or_left_comm, or_assoc]

/-! ### The cleared bitmap -/

theorem bitmapPaddr_mod (physicalMemStart : Paddr) :
    (bitmapPaddr physicalMemStart).toNat % 8 = 0 := by
  have hlt := physicalMemStart.isLt
  have hwide : (physicalMemStart.setWidth 64).toNat = physicalMemStart.toNat := by
    rw [BitVec.toNat_setWidth]
    omega
  have halign := toNat_alignUp (physicalMemStart.setWidth 64) (k := 3) (by decide) (by omega)
  have hpow : pmmMemMapFramesPerByte.setWidth 64 = BitVec.twoPow 64 3 := by decide
  rw [bitmapPaddr, hpow, BitVec.toNat_setWidth, halign]
  omega

/-- Every frame bit whose byte `memset` covers reads clear, also where the address
counter wraps. -/
theorem bitsetBits_memset (m : Mem) {bitset : Bitset32} (n : BitVec 32) {x : Nat}
    (halign : bitset.toNat % 8 = 0) (hx : x < 2 ^ 32) (hcover : x / 8 < n.toNat) :
    bitsetBits (memset m bitset 0#8 n) bitset x = false := by
  have hxNat : (BitVec.ofNat 32 x).toNat = x := by
    rw [BitVec.toNat_ofNat, Nat.mod_eq_of_lt hx]
  have hword : bitsetWord bitset (bitsetIndex (BitVec.ofNat 32 x)) =
      (bitset.toNat + 4 * (x / 32)) % 2 ^ 32 := by
    rw [bitsetWord, BitVec.toNat_add, BitVec.toNat_mul, toNat_bitsetIndex, hxNat,
      show (4#32).toNat = 4 from rfl]
    omega
  have hb := bitset.isLt
  have hn := n.isLt
  rw [bitsetBits, bitsetTest_eq_getLsbD, hxNat, hword,
    getLsbD_load32 _ _ _ (Nat.mod_lt _ (by decide))]
  have hoff : (BitVec.ofNat 32 ((bitset.toNat + 4 * (x / 32)) % 2 ^ 32 + x % 32 / 8) -
      bitset).toNat = x / 8 := by
    rw [BitVec.toNat_sub, BitVec.toNat_ofNat]
    omega
  rw [memset, if_pos ⟨by omega, by rw [BitVec.lt_def, hoff]; exact hcover⟩]
  exact BitVec.getLsbD_zero

/-! ### The state after `PMM_init` -/

structure PmmInitState (memMap : List BootMemMapInfoEntry) (physicalMemStart : Paddr)
    (kernelStart kernelSize : BitVec 32) (p : Pmm) : Prop where
  noHighWords : NoHighWords memMap
  totalFrames : p.totalFrames.toNat = (highestEnd memMap + 4095) / 4096
  framesMap : p.framesMap = bitmapPaddr physicalMemStart
  bits : ∀ f < p.totalFrames.toNat, p.bits f = true ↔
    f ∈ initMarked memMap physicalMemStart kernelStart kernelSize p.totalFrames
  accounted :
    (kernelStart + kernelSize).toNat ≤ highestEnd memMap →
    (bitmapPaddr physicalMemStart + memMapSize p.totalFrames).toNat ≤ highestEnd memMap →
    p.Accounted

theorem pmmInit_spec (mem : Mem) {memMap : List BootMemMapInfoEntry}
    (physicalMemStart : Paddr) (kernelStart kernelSize : BitVec 32)
    (hno : NoHighWords memMap) :
    ∃ p, pmmInit mem memMap physicalMemStart kernelStart kernelSize = some p ∧
      PmmInitState memMap physicalMemStart kernelStart kernelSize p := by
  obtain ⟨high, hhigh⟩ : ∃ high, pmmHighEnd 0#64 memMap = some high ∧
      high.toNat = highestEnd memMap :=
    ⟨BitVec.ofNat 64 (highestEnd memMap), by
      have := highestEnd_le memMap
      rw [pmmHighEnd_eq_some_iff]
      exact ⟨hno, by simp; omega⟩, by
      have := highestEnd_le memMap
      rw [BitVec.toNat_ofNat]
      omega⟩
  have hhighLe := highestEnd_le memMap
  have htotal : (endFrameOf high).toNat = (highestEnd memMap + 4095) / 4096 := by
    rw [toNat_endFrameOf (by omega), hhigh.2]
  generalize hT : endFrameOf high = total at htotal
  have hends : ∀ e ∈ memMap, (endFrameOf (entryEnd e)).toNat ≤ total.toNat := by
    intro e he
    have := le_highestEnd he
    rw [toNat_endFrameOf_entry, htotal]
    omega
  let p0 : Pmm :=
    { mem := memset mem (bitmapPaddr physicalMemStart) 0#8 (memMapSize total)
      totalFrames := total
      usedFrames := 0#32
      framesMap := bitmapPaddr physicalMemStart }
  have hclear (x : Nat) (hx : x < total.toNat) : p0.bits x = false := by
    apply bitsetBits_memset _ _ (bitmapPaddr_mod _) (by omega)
    rw [toNat_memMapSize (by omega)]
    omega
  have hacc0 : p0.Accounted := by
    have : p0.markedFrames = ∅ := by
      apply Finset.filter_eq_empty_iff.mpr
      intro x hx
      simp [hclear x (Finset.mem_range.mp hx)]
    rw [Pmm.Accounted, this]
    rfl
  obtain ⟨q, hq, hqTotal, hqMap, hqAcc, hqBits⟩ := pmmMarkEntries_spec memMap p0 hends
  let p1 := pmmMarkFrames q (kernelStart / pmmFrameSize)
    (endFrameOf ((kernelStart + kernelSize).setWidth 64))
  let p2 := pmmMarkFrames p1 (bitmapPaddr physicalMemStart / pmmFrameSize)
    (endFrameOf ((bitmapPaddr physicalMemStart + memMapSize total).setWidth 64))
  have hp2Total : p2.totalFrames = total := by simp [p2, p1, hqTotal, p0]
  refine ⟨p2, ?_, hno, by rw [hp2Total, htotal], by simp [p2, p1, hqMap, p0], ?_, ?_⟩
  · rw [pmmInit, hhigh.1]
    simp only [Option.bind_eq_bind, Option.bind_some, hT]
    rw [show pmmMarkEntries _ memMap = some q from hq]
    rfl
  · intro f hf
    rw [hp2Total] at hf ⊢
    have hf32 : f < 2 ^ 32 := by omega
    rw [pmmMarkFrames_range_bits _ _ _ hf32, pmmMarkFrames_range_bits _ _ _ hf32,
      hqBits f hf32, hclear f hf]
    simp only [Bool.false_eq_true, or_false]
    constructor
    · rintro (h | h | h)
      · exact Or.inr (Or.inr h)
      · exact Or.inr (Or.inl h)
      · exact Or.inl h
    · rintro (h | h | h)
      · exact Or.inr (Or.inr h)
      · exact Or.inr (Or.inl h)
      · exact Or.inl h
  · intro hkernel hbitmap
    rw [hp2Total] at hbitmap
    have hq : q.Accounted := hqAcc hacc0
    have hp1 : p1.Accounted := by
      apply hq.markFrames
      rw [toNat_endFrameOf_range, hqTotal, htotal]
      omega
    apply hp1.markFrames
    rw [toNat_endFrameOf_range, show p1.totalFrames = total by simp [p1, hqTotal, p0], htotal]
    omega

theorem pmmInit_state {mem : Mem} {memMap : List BootMemMapInfoEntry}
    {physicalMemStart : Paddr} {kernelStart kernelSize : BitVec 32} {p : Pmm}
    (h : pmmInit mem memMap physicalMemStart kernelStart kernelSize = some p) :
    PmmInitState memMap physicalMemStart kernelStart kernelSize p := by
  have hno : NoHighWords memMap := by
    cases hhigh : pmmHighEnd 0#64 memMap with
    | none =>
        rw [pmmInit, hhigh] at h
        cases h
    | some high => exact ((pmmHighEnd_eq_some_iff memMap 0#64 high).mp hhigh).1
  obtain ⟨q, hq, state⟩ := pmmInit_spec mem physicalMemStart kernelStart kernelSize hno
  rw [h] at hq
  injection hq with hq
  rwa [hq]

def mappedFrames (memMap : List BootMemMapInfoEntry) : BitVec 32 :=
  BitVec.ofNat 32 ((highestEnd memMap + 4095) / 4096)

theorem PmmInitState.totalFrames_eq {memMap : List BootMemMapInfoEntry}
    {physicalMemStart : Paddr} {kernelStart kernelSize : BitVec 32} {p : Pmm}
    (h : PmmInitState memMap physicalMemStart kernelStart kernelSize p) :
    p.totalFrames = mappedFrames memMap := by
  have := highestEnd_le memMap
  apply BitVec.eq_of_toNat_eq
  rw [h.totalFrames, mappedFrames, BitVec.toNat_ofNat, Nat.mod_eq_of_lt (by omega)]

theorem PmmInitState.totalFrames_le {memMap : List BootMemMapInfoEntry}
    {physicalMemStart : Paddr} {kernelStart kernelSize : BitVec 32} {p : Pmm}
    (h : PmmInitState memMap physicalMemStart kernelStart kernelSize p) :
    p.totalFrames.toNat ≤ 2 ^ 21 := by
  rw [h.totalFrames]
  have := highestEnd_le memMap
  omega

theorem PmmInitState.clear_iff {memMap : List BootMemMapInfoEntry}
    {physicalMemStart : Paddr} {kernelStart kernelSize : BitVec 32} {p : Pmm}
    (state : PmmInitState memMap physicalMemStart kernelStart kernelSize p) {f : Nat}
    (hf : f < p.totalFrames.toNat) :
    p.bits f = false ↔
      f ∉ initMarked memMap physicalMemStart kernelStart kernelSize (mappedFrames memMap) := by
  rw [← state.totalFrames_eq, ← state.bits f hf, Bool.not_eq_true]

end Bros
