import Bros.BitsetFind

/-!
Frame numbers as 32-bit pointers.

A pointer names a frame only while the frame's address fits in 32 bits, and `NULL` is
the address of frame 0. The first part is about the maps `PMM_init` accepts, the second
about the pointers `PMM_malloc` returns.
-/

namespace Bros
open ByteMemory Pages Runs

/-! ### Addresses that fit -/

/-- Addresses and frame numbers of a state are mutually inverse. -/
structure FramesAddressable (p : Pmm) : Prop where
  total : p.totalFrames.toNat * 4096 ≤ 2 ^ 32
  recovered : ∀ pos < p.totalFrames, pos * pmmFrameSize / pmmFrameSize = pos
  granted : ∀ size pos, pmmFind p size = some pos →
    (pmmMalloc p size).2 / pmmFrameSize = pos ∧
      (pmmMalloc p size).2 / pmmFrameSize * pmmFrameSize = (pmmMalloc p size).2
  distinct : ∀ pos < p.totalFrames, ∀ pos' < p.totalFrames,
    pos * pmmFrameSize = pos' * pmmFrameSize → pos = pos'

theorem mul_div_frameSize {pos : BitVec 32} (h : pos.toNat * 4096 < 2 ^ 32) :
    pos * pmmFrameSize / pmmFrameSize = pos := by
  apply BitVec.eq_of_toNat_eq
  rw [toNat_div_frameSize, BitVec.toNat_mul, show pmmFrameSize.toNat = 4096 from rfl,
    Nat.mod_eq_of_lt h, Nat.mul_div_cancel _ (by decide)]

theorem pmmFind_lt_total {p : Pmm} {size pos : BitVec 32} (h : pmmFind p size = some pos) :
    pos < p.totalFrames :=
  BitVec.lt_def.mpr ((pmmFind_eq_some (pmmFind_positive h)).mp h).2.lt_total

theorem framesAddressable {p : Pmm} (h : p.totalFrames.toNat * 4096 ≤ 2 ^ 32) :
    FramesAddressable p := by
  have recovered (pos : BitVec 32) (hpos : pos < p.totalFrames) :
      pos * pmmFrameSize / pmmFrameSize = pos := by
    have := BitVec.lt_def.mp hpos
    exact mul_div_frameSize (by omega)
  refine ⟨h, recovered, ?_, ?_⟩
  · intro size pos hfind
    have hptr : (pmmMalloc p size).2 = pos * pmmFrameSize := by
      rw [pmmMalloc, hfind]
    rw [hptr, recovered pos (pmmFind_lt_total hfind)]
    exact ⟨rfl, rfl⟩
  · intro pos hpos pos' hpos' heq
    rw [← recovered pos hpos, heq, recovered pos' hpos']

theorem highestEnd_le_iff {memMap : List BootMemMapInfoEntry} {n : Nat} :
    highestEnd memMap ≤ n ↔ ∀ e ∈ memMap, e.baseAddrLo.toNat + e.lengthLo.toNat ≤ n := by
  induction memMap with
  | nil => simp [highestEnd]
  | cons e es ih =>
      rw [List.forall_mem_cons, ← ih]
      exact max_le_iff

/-- In every state after `PMM_init` frames have addresses of their own exactly when no
listed range ends past 4 GiB. The guard of `PMM_init` reads only the high words. -/
theorem pmm_frames_addressable_iff {mem : Mem} {memMap : List BootMemMapInfoEntry}
    {physicalMemStart : Paddr} {kernelStart kernelSize : BitVec 32} {p : Pmm}
    (init : pmmInit mem memMap physicalMemStart kernelStart kernelSize = some p) :
    (∀ ops w, run pmmStep ⟨p, []⟩ ops = some w → FramesAddressable w.pmm) ↔
      ∀ e ∈ memMap, e.baseAddrLo.toNat + e.lengthLo.toNat ≤ 2 ^ 32 := by
  have htotal := (pmmInit_state init).totalFrames
  rw [← highestEnd_le_iff]
  constructor
  · intro haddr
    have hfit := (haddr [] ⟨p, []⟩ rfl).total
    change p.totalFrames.toNat * 4096 ≤ 2 ^ 32 at hfit
    omega
  · intro hhigh ops w hrun
    apply framesAddressable
    rw [run_totalFrames hrun]
    omega

theorem pmm_frames_addressable_two_MiB :
    ∃ p, twoMiBInit = some p ∧
      ((∀ ops w, run pmmStep ⟨p, []⟩ ops = some w → FramesAddressable w.pmm) ↔
        ∀ e ∈ twoMiBMap, e.baseAddrLo.toNat + e.lengthLo.toNat ≤ 2 ^ 32) := by
  obtain ⟨p, hp, -⟩ := twoMiBInit_spec
  exact ⟨p, hp, pmm_frames_addressable_iff hp⟩

/-- One entry that crosses 4 GiB with both high words zero. -/
def crossingMap : List BootMemMapInfoEntry :=
  [{ baseAddrLo := 0xFFFFF000#32, baseAddrHi := 0#32, lengthLo := 0x2000#32,
     lengthHi := 0#32, type := memMapTypeAvailable, acpi := 0#32 }]

/-- The map is accepted, and frames 0 and 2^20 share the address 0. -/
theorem pmm_frames_share_address :
    ∃ p, pmmInit (fun _ => 0#8) crossingMap 0x106000#32 0x1000#32 0x6000#32 = some p ∧
      ¬ FramesAddressable p := by
  obtain ⟨p, hp, state⟩ := pmmInit_spec (fun _ => 0#8) 0x106000#32 0x1000#32 0x6000#32
    (show NoHighWords crossingMap by decide)
  have htotal : p.totalFrames = 0x100001#32 := by
    rw [state.totalFrames_eq]
    decide
  refine ⟨p, hp, fun h => ?_⟩
  have := h.distinct 0#32 (by rw [htotal]; decide) 0x100000#32 (by rw [htotal]; decide)
    (by decide)
  cases this

/-! ### The address of frame 0 -/

/-- `PMM_malloc` returns `NULL` exactly when it changes nothing, and a block it grants
does not hold frame 0. -/
def MallocUnambiguous (w : PmmWorld) : PmmOp → Prop
  | .malloc size =>
      let q := (pmmMalloc w.pmm size).1
      let ptr := (pmmMalloc w.pmm size).2
      (ptr = 0#32 ↔ (∀ f < w.pmm.totalFrames.toNat, q.bits f = w.pmm.bits f) ∧
        q.usedFrames = w.pmm.usedFrames) ∧
      (q.usedFrames ≠ w.pmm.usedFrames → 0 ∉ blockFrames ⟨ptr, size⟩)
  | .free _ => True

/-- Frame 0 is clear, and so are `n` of the `n + 1` frames after it, all managed. -/
def FrameZeroMet (p : Pmm) (n : Nat) : Prop :=
  32 ≤ p.totalFrames.toNat ∧ n + 1 ≤ p.totalFrames.toNat ∧ p.bits 0 = false ∧
    n ≤ Nat.count (fun k => p.bits (1 + k) = false) (n + 1)

/-- The request is one whose search meets a frame with address 0: frame 0 itself or, on
a map past 4 GiB, frame 2^20. -/
def NullFrameMet (p : Pmm) (size : BitVec 32) : Prop :=
  let n := (size2frame size).toNat
  0 < n ∧ size2frame size ≤ BitVec.ofInt 32 (pmmFramesFree p) ∧
    (FrameZeroMet p n ∨ Selects p.bits p.totalFrames.toNat n (2 ^ 20))

def NoNullGrant (w : PmmWorld) : PmmOp → Prop
  | .malloc size => ¬ NullFrameMet w.pmm size
  | .free _ => True

theorem selects_zero_iff {p : Pmm} {n : Nat} (hn : n ≤ 2 ^ 20) :
    Selects p.bits p.totalFrames.toNat n 0 ↔ FrameZeroMet p n := by
  have hstart : probeStart 0 = 1 := rfl
  have haccepts : WindowAccepts p.bits n 0 ↔
      n ≤ Nat.count (fun k => p.bits (1 + k) = false) (n + 1) := by
    rw [WindowAccepts, hstart, Nat.one_mod_eq_one.mpr (by decide), or_iff_right (by omega)]
  have hfits : WindowFits p.totalFrames.toNat n 0 ↔ n + 1 ≤ p.totalFrames.toNat := by
    rw [WindowFits, hstart, Nat.mod_eq_of_lt (by omega), Nat.add_comm]
  constructor
  · intro hsel
    have hword := hsel.word
    exact ⟨by omega, hfits.mp (hsel.room 0 le_rfl hsel.clear), hsel.clear,
      haccepts.mp hsel.accepts⟩
  · intro hmet
    obtain ⟨hword, hroom, hclear, hcount⟩ := hmet
    refine ⟨by omega, hclear, haccepts.mpr hcount, fun q hq => absurd hq q.not_lt_zero, ?_⟩
    intro q hq _
    rw [Nat.le_zero.mp hq]
    exact hfits.mpr hroom

theorem usedFrames_add_ne {p : Pmm} {size : BitVec 32} (hn : 0 < (size2frame size).toNat) :
    p.usedFrames + size2frame size ≠ p.usedFrames := by
  intro heq
  have hzero : size2frame size = 0#32 := by
    rw [← BitVec.add_sub_cancel (size2frame size) p.usedFrames, BitVec.add_comm, heq,
      BitVec.sub_self]
  rw [hzero] at hn
  cases hn

theorem zero_mem_blockFrames {ptr size : BitVec 32} (halign : ptr.toNat % 4096 = 0) :
    0 ∈ blockFrames ⟨ptr, size⟩ ↔ ptr = 0#32 ∧ 0 < (size2frame size).toNat := by
  rw [BitVec.toNat_eq, show (0#32).toNat = 0 from rfl]
  change ptr.toNat / 4096 ≤ 0 ∧ 0 < ptr.toNat / 4096 + (size2frame size).toNat ↔ _
  omega

/-- One call is unambiguous exactly when its search does not settle on address 0. -/
theorem mallocUnambiguous_iff {w : PmmWorld} {size : BitVec 32}
    (hT : w.pmm.totalFrames.toNat ≤ 2 ^ 21) :
    MallocUnambiguous w (.malloc size) ↔ ¬ NullFrameMet w.pmm size := by
  have hle := size2frame_le size
  cases hfind : pmmFind w.pmm size with
  | none =>
      have hnotMet : ¬ NullFrameMet w.pmm size := by
        intro hmet
        obtain ⟨hn, henough, hframe⟩ := hmet
        have hnever (pos : BitVec 32) :
            ¬ Selects w.pmm.bits w.pmm.totalFrames.toNat (size2frame size).toNat pos.toNat := by
          intro hsel
          rw [(pmmFind_eq_some hn).mpr ⟨henough, hsel⟩] at hfind
          cases hfind
        cases hframe with
        | inl hzero => exact hnever 0#32 ((selects_zero_iff hle).mpr hzero)
        | inr hwrap => exact hnever 0x100000#32 hwrap
      simp only [MallocUnambiguous, pmmMalloc_none hfind, hnotMet, implies_true, and_self,
        ne_eq, not_true, false_implies, not_false_eq_true]
  | some pos =>
      have hn := pmmFind_positive hfind
      obtain ⟨henough, hsel⟩ := (pmmFind_eq_some hn).mp hfind
      have hlt := hsel.lt_total
      have hmet : NullFrameMet w.pmm size ↔ pos * pmmFrameSize = 0#32 := by
        rw [mul_frameSize_eq_zero]
        constructor
        · intro hmet
          obtain ⟨-, -, hframe⟩ := hmet
          cases hframe with
          | inl hzero => rw [hsel.unique ((selects_zero_iff hle).mpr hzero), Nat.zero_mod]
          | inr hwrap => rw [hsel.unique hwrap, Nat.mod_self]
        · intro hpos
          refine ⟨hn, henough, ?_⟩
          by_cases hzero : pos.toNat = 0
          · rw [hzero] at hsel
            exact Or.inl ((selects_zero_iff hle).mp hsel)
          · have hword := hsel.word
            have hwrap : pos.toNat = 2 ^ 20 := by omega
            rw [hwrap] at hsel
            exact Or.inr hsel
      have halign : (pos * pmmFrameSize).toNat % 4096 = 0 := by
        rw [BitVec.toNat_mul, show pmmFrameSize.toNat = 4096 from rfl]
        omega
      have hptr : (pmmMalloc w.pmm size).2 = pos * pmmFrameSize := by
        rw [pmmMalloc, hfind]
      have hused : (pmmMalloc w.pmm size).1.usedFrames ≠ w.pmm.usedFrames := by
        rw [pmmMalloc, hfind]
        exact usedFrames_add_ne hn
      simp only [MallocUnambiguous, hptr, hused, and_false, iff_false, ne_eq,
        not_false_eq_true, true_implies, zero_mem_blockFrames halign, hn, and_true, and_self,
        hmet]

/-- Over every run from `PMM_init`: all its calls are unambiguous exactly when none of
their searches meets a frame with address 0. -/
theorem pmm_null_unambiguous_iff {mem : Mem} {memMap : List BootMemMapInfoEntry}
    {physicalMemStart : Paddr} {kernelStart kernelSize : BitVec 32} {p : Pmm}
    (init : pmmInit mem memMap physicalMemStart kernelStart kernelSize = some p)
    (ops : List PmmOp) :
    Along pmmStep MallocUnambiguous ⟨p, []⟩ ops ↔ Along pmmStep NoNullGrant ⟨p, []⟩ ops := by
  have hT := (pmmInit_state init).totalFrames_le
  refine along_congr (fun w _ _ (inv : w.pmm.totalFrames.toNat ≤ 2 ^ 21) _ hstep => ?_) ?_ hT
  · rw [pmmStep_totalFrames hstep]
    exact inv
  · intro w op inv
    cases op with
    | malloc size => exact mallocUnambiguous_iff inv
    | free b => exact Iff.rfl

theorem pmm_null_unambiguous_two_MiB :
    ∃ p, twoMiBInit = some p ∧
      (Along pmmStep MallocUnambiguous ⟨p, []⟩ [.malloc 4096#32, .malloc 0x100000#32] ↔
        Along pmmStep NoNullGrant ⟨p, []⟩ [.malloc 4096#32, .malloc 0x100000#32]) := by
  obtain ⟨p, hp, -⟩ := twoMiBInit_spec
  exact ⟨p, hp, pmm_null_unambiguous_iff hp _⟩

/-- With a kernel of one page frame 0 is granted, and its address reads as `NULL`. -/
theorem pmm_null_ambiguous :
    ∃ p, pmmInit (fun _ => 0#8) twoMiBMap 0x102000#32 0x1000#32 0x1000#32 = some p ∧
      ¬ Along pmmStep MallocUnambiguous ⟨p, []⟩ [.malloc 4096#32] := by
  obtain ⟨p, hp, state⟩ := pmmInit_spec (fun _ => 0#8) 0x102000#32 0x1000#32 0x1000#32
    (show NoHighWords twoMiBMap by decide)
  have htotal : p.totalFrames = 512#32 := by
    rw [state.totalFrames_eq]
    decide
  have hclear (f : Nat) (hf : f ∈ [0, 2]) : p.bits f = false := by
    have hlt : f < 512 := by
      revert f
      decide
    rw [state.clear_iff (by rw [htotal]; exact hlt)]
    intro hmarked
    cases hmarked with
    | inl hentry =>
        obtain ⟨e, he, hother, -⟩ := hentry
        revert e
        decide
    | inr hrange =>
        revert f
        decide
  have h0 := hclear 0 (by decide)
  have hacc : p.Accounted := state.accounted (by decide) (by rw [htotal]; decide)
  have hrun : FreeRun p.bits p.totalFrames.toNat (size2frame 4096#32).toNat 0 := by
    refine ⟨by decide, by rw [htotal]; decide, ?_⟩
    intro k hk
    rw [Nat.lt_one_iff.mp hk]
    exact h0
  have hcount : 1 ≤ Nat.count (fun k => p.bits (1 + k) = false) 2 := by
    simp [Nat.count_succ, hclear 2 (by decide)]
  have hmet : FrameZeroMet p 1 :=
    ⟨by rw [htotal]; decide, by rw [htotal]; decide, h0, hcount⟩
  refine ⟨p, hp, fun along => ?_⟩
  exact (mallocUnambiguous_iff (by rw [htotal]; decide)).mp along.1
    ⟨by decide, hacc.run_le_free (by rw [htotal]; decide) hrun, Or.inl hmet⟩

/-- Two marked frames after frame 0 keep every search away from it. -/
theorem not_frameZeroMet {p : Pmm} {n : Nat} (hn : 0 < n) (h1 : p.bits 1 = true)
    (h2 : p.bits 2 = true) : ¬ FrameZeroMet p n := by
  intro hmet
  obtain ⟨-, -, -, hcount⟩ := hmet
  obtain ⟨k, rfl⟩ : ∃ k, n = k + 1 := ⟨n - 1, by omega⟩
  have hhead : Nat.count (fun k => p.bits (1 + k) = false) 2 = 0 := by
    simp [Nat.count_succ, h1, h2]
  have hle := Nat.count_le (p := fun j => p.bits (1 + (2 + j)) = false) (n := k)
  rw [show k + 1 + 1 = 2 + k by omega, Nat.count_add, hhead] at hcount
  omega

/-- The kernel range given to `PMM_init` starts at frame 1: when it covers two frames,
no run of sound searches below 4 GiB is granted the address 0. -/
theorem null_frame_not_granted {mem : Mem} {memMap : List BootMemMapInfoEntry}
    {physicalMemStart : Paddr} {kernelStart kernelSize : BitVec 32} {p : Pmm}
    (init : pmmInit mem memMap physicalMemStart kernelStart kernelSize = some p)
    (below : p.totalFrames.toNat ≤ 2 ^ 20) (h1 : p.bits 1 = true) (h2 : p.bits 2 = true)
    {ops : List PmmOp} {w : PmmWorld} (sound : Along pmmStep PmmOpSound ⟨p, []⟩ ops)
    (h : run pmmStep ⟨p, []⟩ ops = some w) (size : BitVec 32) : ¬ NullFrameMet w.pmm size := by
  have inv := (PmmInv.init p).run (pmmInit_state init).totalFrames_le sound h
  intro hmet
  obtain ⟨hn, -, hframe⟩ := hmet
  cases hframe with
  | inl hzero =>
      refine not_frameZeroMet hn ?_ ?_ hzero
      · exact (inv.owned.reserved_used ⟨by decide, h1⟩).2
      · exact (inv.owned.reserved_used ⟨by decide, h2⟩).2
  | inr hwrap =>
      have := hwrap.lt_total
      rw [inv.totalFrames] at this
      omega

end Bros
