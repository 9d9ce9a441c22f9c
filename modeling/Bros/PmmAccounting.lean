import Bros.PmmRuns
import Mathlib.Order.Interval.Finset.Nat

/-!
The frame counter of the allocator over runs.

`g_PMM_used_frames` is kept apart from the bitmap: `PMM_malloc` adds the length of a
run whose bits it sets without testing them, `PMM_free` subtracts one. The counter
stays the number of set bits because a granted run is clear and a live block is set.
-/

namespace Bros
open ByteMemory Pages Runs Ownership

theorem Pmm.Accounted.frames {p : Pmm} (h : p.Accounted) (hT : p.totalFrames.toNat ≤ 2 ^ 21) :
    pmmFramesUsed p = p.markedFrames.card ∧
      pmmFramesFree p = p.totalFrames.toNat - p.markedFrames.card ∧
      p.markedFrames.card ≤ p.totalFrames.toNat := by
  have hcard : p.markedFrames.card ≤ p.totalFrames.toNat := by
    have := Finset.card_filter_le (Finset.range p.totalFrames.toNat) fun f => p.bits f = true
    rwa [Finset.card_range] at this
  unfold Pmm.Accounted at h
  have hfree : (p.totalFrames - p.usedFrames).toNat =
      p.totalFrames.toNat - p.usedFrames.toNat := by
    rw [BitVec.toNat_sub]
    omega
  refine ⟨?_, ?_, hcard⟩
  · rw [pmmFramesUsed, BitVec.toInt_eq_toNat_of_lt (by omega), h]
  · rw [pmmFramesFree, BitVec.toInt_eq_toNat_of_lt (by omega), hfree, h]
    omega

/-- A run of clear managed bits is set: its length is what the marked frames gain. -/
theorem card_markedFrames_set {p q : Pmm} {pos n : Nat} (htotal : q.totalFrames = p.totalFrames)
    (hend : pos + n ≤ p.totalFrames.toNat)
    (hclear : ∀ f, pos ≤ f → f < pos + n → p.bits f = false)
    (hbits : ∀ x < 2 ^ 32, q.bits x = true ↔ (pos ≤ x ∧ x < pos + n) ∨ p.bits x = true) :
    q.markedFrames.card = p.markedFrames.card + n := by
  have hlt := p.totalFrames.isLt
  have hunion : q.markedFrames = p.markedFrames ∪ Finset.Ico pos (pos + n) := by
    apply Finset.ext
    intro x
    simp only [Pmm.markedFrames, htotal, Finset.mem_filter, Finset.mem_range,
      Finset.mem_union, Finset.mem_Ico]
    constructor
    · intro hmem
      obtain ⟨hx, hset⟩ := hmem
      exact ((hbits x (by omega)).mp hset).symm.imp_left fun hset => ⟨hx, hset⟩
    · intro hmem
      cases hmem with
      | inl hold =>
          obtain ⟨hx, hset⟩ := hold
          exact ⟨hx, (hbits x (by omega)).mpr (Or.inr hset)⟩
      | inr hrun => exact ⟨by omega, (hbits x (by omega)).mpr (Or.inl hrun)⟩
  have hdisjoint : Disjoint p.markedFrames (Finset.Ico pos (pos + n)) := by
    rw [Finset.disjoint_left]
    intro x hx hrun
    have hset := (Finset.mem_filter.mp hx).2
    rw [Finset.mem_Ico] at hrun
    rw [hclear x hrun.1 hrun.2] at hset
    cases hset
  rw [hunion, Finset.card_union_of_disjoint hdisjoint, Nat.card_Ico, Nat.add_sub_cancel_left]

theorem mem_Ico_blockFrames {b : PmmBlock} {f : Nat} :
    f ∈ Finset.Ico (b.ptr.toNat / 4096) (b.ptr.toNat / 4096 + (size2frame b.size).toNat) ↔
      f ∈ blockFrames b := Finset.mem_Ico

/-- The frames of a live block are marked, and there are as many as its size asks for. -/
theorem PmmInv.block_marked {p0 : Pmm} {w : PmmWorld} (inv : PmmInv p0 w) {b : PmmBlock}
    (hb : b ∈ w.live) :
    Finset.Ico (b.ptr.toNat / 4096) (b.ptr.toNat / 4096 + (size2frame b.size).toNat) ⊆
      w.pmm.markedFrames := by
  intro f hf
  rw [mem_Ico_blockFrames] at hf
  refine Finset.mem_filter.mpr ⟨?_, (inv.owned.live_used b hb hf).2⟩
  rw [Finset.mem_range, inv.totalFrames]
  exact inv.managed b hb f hf

theorem PmmInv.size_le_marked {p0 : Pmm} {w : PmmWorld} (inv : PmmInv p0 w) {b : PmmBlock}
    (hb : b ∈ w.live) : (size2frame b.size).toNat ≤ w.pmm.markedFrames.card := by
  have := Finset.card_le_card (inv.block_marked hb)
  rwa [Nat.card_Ico, Nat.add_sub_cancel_left] at this

/-- Clearing the bits of a block takes its frames out of the marked ones. -/
theorem markedFrames_clear {p q : Pmm} {b : PmmBlock} (htotal : q.totalFrames = p.totalFrames)
    (hbits : ∀ x < 2 ^ 32, q.bits x = true ↔ x ∉ blockFrames b ∧ p.bits x = true) :
    q.markedFrames = p.markedFrames \
      Finset.Ico (b.ptr.toNat / 4096) (b.ptr.toNat / 4096 + (size2frame b.size).toNat) := by
  have hlt := p.totalFrames.isLt
  apply Finset.ext
  intro x
  rw [Finset.mem_sdiff, mem_Ico_blockFrames]
  simp only [Pmm.markedFrames, htotal, Finset.mem_filter, Finset.mem_range]
  constructor
  · intro hmem
    obtain ⟨hx, hset⟩ := hmem
    obtain ⟨hnot, hset⟩ := (hbits x (by omega)).mp hset
    exact ⟨⟨hx, hset⟩, hnot⟩
  · intro hmem
    obtain ⟨⟨hx, hset⟩, hnot⟩ := hmem
    exact ⟨hx, (hbits x (by omega)).mpr ⟨hnot, hset⟩⟩

/-- The bits of a marked block are cleared: its length is what the marked frames lose. -/
theorem card_markedFrames_clear {p q : Pmm} {b : PmmBlock}
    (hmarked : Finset.Ico (b.ptr.toNat / 4096)
      (b.ptr.toNat / 4096 + (size2frame b.size).toNat) ⊆ p.markedFrames)
    (htotal : q.totalFrames = p.totalFrames)
    (hbits : ∀ x < 2 ^ 32, q.bits x = true ↔ x ∉ blockFrames b ∧ p.bits x = true) :
    q.markedFrames.card = p.markedFrames.card - (size2frame b.size).toNat := by
  rw [markedFrames_clear htotal hbits, Finset.card_sdiff_of_subset hmarked, Nat.card_Ico,
    Nat.add_sub_cancel_left]

theorem PmmInv.step_accounted {p0 : Pmm} (hT : p0.totalFrames.toNat ≤ 2 ^ 21)
    {w w' : PmmWorld} {op : PmmOp} (inv : PmmInv p0 w) (hacc : w.pmm.Accounted)
    (sound : PmmOpSound w op) (h : pmmStep w op = some w') : w'.pmm.Accounted := by
  have hTw : w.pmm.totalFrames.toNat ≤ 2 ^ 21 := by rwa [inv.totalFrames]
  rcases pmmStep_cases h with ⟨size, rfl, -, rfl⟩ |
    ⟨size, pos, rfl, hfind, hpmm, -⟩ | ⟨b, rfl, hb, hfree, -⟩
  · exact hacc
  · have found := pmmFind_found hTw hfind
    obtain ⟨hclear, h20⟩ := found.free_run sound
    obtain ⟨-, htotal, -, hused, hbits⟩ := pmmMalloc_some hfind (by omega)
    obtain ⟨-, -, hcard⟩ := hacc.frames hTw
    unfold Pmm.Accounted at hacc ⊢
    rw [hpmm, card_markedFrames_set htotal found.end_le hclear hbits, hused,
      BitVec.toNat_add, hacc]
    omega
  · obtain ⟨htotal, -, hused, hle, hbits⟩ := pmmFree_some hfree
    have hn := inv.size_le_marked hb
    have hlt := w.pmm.usedFrames.isLt
    unfold Pmm.Accounted at hacc ⊢
    rw [card_markedFrames_clear (inv.block_marked hb) htotal hbits, hused, BitVec.toNat_sub, hacc]
    omega

/-- The counter of a state: it counts the set bits, used and free frames add up to the
same number as before, and no live block makes `PMM_free` panic. -/
structure FrameAccounting (p0 : Pmm) (w : PmmWorld) : Prop where
  accounted : w.pmm.Accounted
  constant : pmmFramesUsed w.pmm + pmmFramesFree w.pmm = pmmFramesUsed p0 + pmmFramesFree p0
  free_nonneg : 0 ≤ pmmFramesFree w.pmm
  free_succeeds : ∀ b ∈ w.live, (pmmFree w.pmm b.ptr b.size).isSome

theorem PmmInv.frameAccounting {p0 : Pmm} (hT : p0.totalFrames.toNat ≤ 2 ^ 21)
    (hacc0 : p0.Accounted) {w : PmmWorld} (inv : PmmInv p0 w) (hacc : w.pmm.Accounted) :
    FrameAccounting p0 w := by
  obtain ⟨hused0, hfree0, -⟩ := hacc0.frames hT
  obtain ⟨hused, hfree, hcard⟩ := hacc.frames (by rwa [inv.totalFrames])
  have htotal := inv.totalFrames
  refine ⟨hacc, ?_, by omega, ?_⟩
  · rw [hused, hfree, hused0, hfree0, htotal]
    omega
  · intro b hb
    have hn := inv.size_le_marked hb
    unfold Pmm.Accounted at hacc
    rw [pmmFree, if_neg (by rw [BitVec.lt_def]; omega)]
    rfl

/-- Frame accounting from the state `PMM_init` leaves, over every run whose searches all
settle on free runs. -/
theorem pmm_frames_accounted {mem : Mem} {memMap : List BootMemMapInfoEntry}
    {physicalMemStart : Paddr} {kernelStart kernelSize : BitVec 32} {p : Pmm}
    (init : pmmInit mem memMap physicalMemStart kernelStart kernelSize = some p)
    (kernel : kernelStart.toNat + kernelSize.toNat ≤ highestEnd memMap)
    (bitmap : (bitmapPaddr physicalMemStart).toNat + (memMapSize p.totalFrames).toNat ≤
      highestEnd memMap)
    {ops : List PmmOp} {w : PmmWorld}
    (sound : Along pmmStep PmmOpSound ⟨p, []⟩ ops)
    (h : run pmmStep ⟨p, []⟩ ops = some w) : FrameAccounting p w := by
  have state := pmmInit_state init
  have hT := state.totalFrames_le
  have hacc0 : p.Accounted := by
    apply state.accounted
    · rw [BitVec.toNat_add]
      exact (Nat.mod_le _ _).trans kernel
    · rw [BitVec.toNat_add]
      exact (Nat.mod_le _ _).trans bitmap
  have keep : ∀ s a s', (PmmInv p s ∧ s.pmm.Accounted) → PmmOpSound s a →
      pmmStep s a = some s' → PmmInv p s' ∧ s'.pmm.Accounted :=
    fun s a s' hs ok hstep =>
      ⟨hs.1.step hT ok hstep, hs.1.step_accounted hT hs.2 ok hstep⟩
  obtain ⟨inv, hacc⟩ := sound.invariant keep ⟨PmmInv.init p, hacc0⟩ h
  exact inv.frameAccounting hT hacc0 hacc

theorem pmm_frames_accounted_two_frames :
    ∃ p w, twoMiBInit = some p ∧
      run pmmStep ⟨p, []⟩ [.malloc 4096#32, .malloc 100#32] = some w ∧
      FrameAccounting p w := by
  obtain ⟨p, hp, htotal, -, -⟩ := twoMiBInit_spec
  obtain ⟨sound, w, hw⟩ := two_frames_run htotal
  exact ⟨p, w, hp, hw,
    pmm_frames_accounted hp (by decide) (by rw [htotal]; decide) sound hw⟩

/-- One request for a MiB counts the bitmap's frame a second time. -/
theorem pmm_frames_counted_twice :
    ∃ p w, twoMiBInit = some p ∧ run pmmStep ⟨p, []⟩ [.malloc 0x100000#32] = some w ∧
      ¬ FrameAccounting p w := by
  obtain ⟨p, hp, htotal, hused, hbits⟩ := twoMiBInit_spec
  have hfind := twoMiB_find htotal hused hbits
  obtain ⟨-, htotal', -, hused', hbits'⟩ := pmmMalloc_some hfind (by decide)
  refine ⟨p, _, hp, rfl, ?_⟩
  intro h
  have hacc : (pmmMalloc p 0x100000#32).1.Accounted := h.accounted
  have hmarked : (pmmMalloc p 0x100000#32).1.markedFrames =
      (Finset.range 512).filter fun f => (7 ≤ f ∧ f < 263) ∨ twoMiBBits f = true := by
    rw [Pmm.markedFrames, htotal', htotal]
    apply Finset.filter_congr
    intro f hf
    have hf := Finset.mem_range.mp hf
    rw [hbits' f (by omega), hbits f hf]
    rfl
  rw [Pmm.Accounted, hmarked, hused', hused] at hacc
  revert hacc
  decide +kernel

end Bros
