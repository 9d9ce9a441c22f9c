import Bros.PmmInit
import Bros.Lib.Runs
import Bros.Lib.Ownership

/-!
Runs of the frame allocator.

A run interleaves `PMM_malloc` with `PMM_free` of live blocks. The ghost list of
live blocks refines to frame ownership: as long as each search settles on a run that
is really free, no frame has two owners and the counter agrees with the bitmap.
-/

namespace Bros
open ByteMemory Pages Search Runs Ownership

/-- What a caller of `PMM_malloc` holds: the returned pointer and the size it asked for. -/
structure PmmBlock where
  ptr : Paddr
  size : BitVec 32
deriving DecidableEq

def blockFrames (b : PmmBlock) : Set Nat :=
  {f | b.ptr.toNat / 4096 ≤ f ∧ f < b.ptr.toNat / 4096 + (size2frame b.size).toNat}

structure PmmWorld where
  pmm : Pmm
  live : List PmmBlock

inductive PmmOp where
  | malloc (size : BitVec 32)
  | free (b : PmmBlock)
deriving DecidableEq

/-- One call. A `PMM_malloc` that marks frames adds its block, also when the pointer it
returns for frame 0 reads as `NULL`; only live blocks are freed. -/
def pmmStep (w : PmmWorld) : PmmOp → Option PmmWorld
  | .malloc size =>
      let (pmm, ptr) := pmmMalloc w.pmm size
      let live := if (pmmFind w.pmm size).isSome then ⟨ptr, size⟩ :: w.live else w.live
      some { pmm, live }
  | .free b =>
      if b ∈ w.live then
        (pmmFree w.pmm b.ptr b.size).map fun pmm => { pmm, live := w.live.erase b }
      else none

/-- If the search is entered, the first clear bit whose window it accepts is the start
of a free run of the requested length, below the 4 GiB that a 32-bit pointer can name. -/
def MeetsFreeRun (p : Pmm) (size : BitVec 32) : Prop :=
  let n := (size2frame size).toNat
  let total := p.totalFrames.toNat
  0 < n → size2frame size ≤ BitVec.ofInt 32 (pmmFramesFree p) →
  ∀ pos < 32 * (total / 32), ProbeAccepts p.bits n pos →
    (∀ q < pos, ¬ ProbeAccepts p.bits n q) → (∀ q ≤ pos, ¬ ProbeRefuses p.bits total n q) →
    (∀ k < n, p.bits (pos + k) = false) ∧ pos + n ≤ 2 ^ 20

def PmmOpSound (w : PmmWorld) : PmmOp → Prop
  | .malloc size => MeetsFreeRun w.pmm size
  | .free _ => True

/-! ### The two operations -/

structure Found (p : Pmm) (size pos : BitVec 32) : Prop where
  positive : 0 < (size2frame size).toNat
  enough : size2frame size ≤ BitVec.ofInt 32 (pmmFramesFree p)
  word : pos.toNat < 32 * (p.totalFrames.toNat / 32)
  accepts : ProbeAccepts p.bits (size2frame size).toNat pos.toNat
  first : ∀ q < pos.toNat, ¬ ProbeAccepts p.bits (size2frame size).toNat q
  room : ∀ q ≤ pos.toNat,
    ¬ ProbeRefuses p.bits p.totalFrames.toNat (size2frame size).toNat q

theorem pmmFind_positive {p : Pmm} {size pos : BitVec 32} (h : pmmFind p size = some pos) :
    0 < (size2frame size).toNat := by
  apply Nat.pos_of_ne_zero
  intro hzero
  rw [pmmFind, bitsetFind, if_pos (BitVec.eq_of_toNat_eq (y := 0#32) hzero)] at h
  split at h <;> cases h

theorem pmmFind_found {p : Pmm} {size pos : BitVec 32} (hT : p.totalFrames.toNat ≤ 2 ^ 21)
    (h : pmmFind p size = some pos) : Found p size pos := by
  have hn := size2frame_le size
  have hpos := pmmFind_positive h
  obtain ⟨henough, hsel⟩ := (pmmFind_eq_some hpos).mp h
  obtain ⟨hword, haccepts, hfirst, hroom⟩ := (selects_iff (by omega)).mp hsel
  exact ⟨hpos, henough, hword, haccepts, hfirst, hroom⟩

theorem lt_probeStart (p : Nat) : p < probeStart p := by
  have := Nat.lt_two_pow_self (n := p % 32)
  unfold probeStart
  omega

/-- A granted run ends inside the managed frames: its window does, and starts later. -/
theorem Found.end_le {p : Pmm} {size pos : BitVec 32} (h : Found p size pos) :
    pos.toNat + (size2frame size).toNat ≤ p.totalFrames.toNat := by
  have hroom := h.room pos.toNat le_rfl
  have hlt := lt_probeStart pos.toNat
  rw [ProbeRefuses, and_iff_right h.accepts.1] at hroom
  omega

theorem pmmMalloc_none {p : Pmm} {size : BitVec 32} (h : pmmFind p size = none) :
    pmmMalloc p size = (p, 0#32) := by
  rw [pmmMalloc, h]

/-- A successful `PMM_malloc` sets the bits of its run and adds its length. -/
theorem pmmMalloc_some {p : Pmm} {size pos : BitVec 32} (h : pmmFind p size = some pos)
    (hroom : pos.toNat + (size2frame size).toNat ≤ 2 ^ 32) :
    (pmmMalloc p size).2 = pos * pmmFrameSize ∧
      (pmmMalloc p size).1.totalFrames = p.totalFrames ∧
      (pmmMalloc p size).1.framesMap = p.framesMap ∧
      (pmmMalloc p size).1.usedFrames = p.usedFrames + size2frame size ∧
      ∀ x < 2 ^ 32, (pmmMalloc p size).1.bits x = true ↔
        (pos.toNat ≤ x ∧ x < pos.toNat + (size2frame size).toNat) ∨ p.bits x = true := by
  rw [pmmMalloc, h]
  refine ⟨rfl, rfl, rfl, rfl, ?_⟩
  intro x hx
  simp only [Pmm.bits, foldl_frames]
  rw [bitsetBits_foldl_set _ _ _ (fun f hf => by rw [List.mem_range'_1] at hf; omega) hx,
    Bool.or_eq_true, decide_eq_true_eq, List.mem_range'_1]

/-- A `PMM_free` that does not panic clears the bits of its block and subtracts its
length. -/
theorem pmmFree_some {p q : Pmm} {b : PmmBlock} (h : pmmFree p b.ptr b.size = some q) :
    q.totalFrames = p.totalFrames ∧ q.framesMap = p.framesMap ∧
      q.usedFrames = p.usedFrames - size2frame b.size ∧
      size2frame b.size ≤ p.usedFrames ∧
      ∀ x < 2 ^ 32, q.bits x = true ↔ x ∉ blockFrames b ∧ p.bits x = true := by
  simp only [pmmFree] at h
  split at h
  · cases h
  · next hle =>
      injection h with h
      subst h
      refine ⟨rfl, rfl, rfl, BitVec.not_lt.mp hle, ?_⟩
      intro x hx
      have hpos : (b.ptr / pmmFrameSize).toNat = b.ptr.toNat / 4096 := toNat_div_frameSize _
      have hn := size2frame_le b.size
      have hptr := b.ptr.isLt
      simp only [Pmm.bits, foldl_frames]
      rw [bitsetBits_foldl_clear _ _ _ (fun f hf => by rw [List.mem_range'_1] at hf; omega) hx,
        Bool.and_eq_true, Bool.not_eq_true', decide_eq_false_iff_not, List.mem_range'_1, hpos]
      rfl

/-- The search at a bit depends only on the bits of its window. -/
theorem probeAccepts_congr {bits bits' : Nat → Bool} {total n p : Nat}
    (h : ∀ f < total, bits f = bits' f) (hp : p < total) (hwindow : probeStart p + n < total) :
    ProbeAccepts bits n p ↔ ProbeAccepts bits' n p := by
  have hcount : Nat.count (fun k => bits (probeStart p + k) = false) (n + 1) =
      Nat.count (fun k => bits' (probeStart p + k) = false) (n + 1) := by
    rw [Nat.count_eq_card_filter_range, Nat.count_eq_card_filter_range]
    congr 1
    apply Finset.filter_congr
    intro k hk
    have := Finset.mem_range.mp hk
    rw [h _ (by omega)]
  rw [ProbeAccepts, ProbeAccepts, h p hp, hcount]

/-- Everything one call can do to the world. -/
theorem pmmStep_cases {w w' : PmmWorld} {op : PmmOp} (h : pmmStep w op = some w') :
    (∃ size, op = .malloc size ∧ pmmFind w.pmm size = none ∧ w' = w) ∨
    (∃ size pos, op = .malloc size ∧ pmmFind w.pmm size = some pos ∧
      w'.pmm = (pmmMalloc w.pmm size).1 ∧
      w'.live = ⟨(pmmMalloc w.pmm size).2, size⟩ :: w.live) ∨
    (∃ b, op = .free b ∧ b ∈ w.live ∧ pmmFree w.pmm b.ptr b.size = some w'.pmm ∧
      w'.live = w.live.erase b) := by
  cases op with
  | malloc size =>
      simp only [pmmStep, Option.some.injEq] at h
      rcases Option.eq_none_or_eq_some (pmmFind w.pmm size) with hf | ⟨pos, hf⟩
      · rw [pmmMalloc_none hf, hf] at h
        exact Or.inl ⟨size, rfl, hf, h.symm⟩
      · rw [hf] at h
        subst h
        exact Or.inr (Or.inl ⟨size, pos, rfl, hf, rfl, rfl⟩)
  | free b =>
      simp only [pmmStep] at h
      split at h
      · next hb =>
          obtain ⟨pmm, hfree, rfl⟩ := Option.map_eq_some_iff.mp h
          exact Or.inr (Or.inr ⟨b, rfl, hb, hfree, rfl⟩)
      · cases h

@[simp] theorem pmmMalloc_totalFrames (p : Pmm) (size : BitVec 32) :
    (pmmMalloc p size).1.totalFrames = p.totalFrames := by
  rw [pmmMalloc]
  split <;> rfl

theorem pmmStep_totalFrames {w w' : PmmWorld} {op : PmmOp} (h : pmmStep w op = some w') :
    w'.pmm.totalFrames = w.pmm.totalFrames := by
  cases pmmStep_cases h with
  | inl hfail =>
      obtain ⟨size, -, -, heq⟩ := hfail
      rw [heq]
  | inr h =>
    cases h with
    | inl hgrant =>
        obtain ⟨size, pos, -, -, hpmm, -⟩ := hgrant
        rw [hpmm, pmmMalloc_totalFrames]
    | inr hfree =>
        obtain ⟨b, -, -, hfree, -⟩ := hfree
        exact (pmmFree_some hfree).1

/-- No call changes the number of managed frames. -/
theorem run_totalFrames {p : Pmm} {ops : List PmmOp} {w : PmmWorld}
    (h : run pmmStep ⟨p, []⟩ ops = some w) : w.pmm.totalFrames = p.totalFrames :=
  run_invariant (fun _ _ _ inv hstep => (pmmStep_totalFrames hstep).trans inv) rfl h

/-! ### Ownership of frames -/

/-- The run invariant: the bitmap is owned by the frames marked at the start and by the
live blocks, and the blocks are managed frames. -/
structure PmmInv (p0 : Pmm) (w : PmmWorld) : Prop where
  totalFrames : w.pmm.totalFrames = p0.totalFrames
  owned : Owned blockFrames w.pmm.usedSet p0.usedSet w.live
  managed : ∀ b ∈ w.live, ∀ f ∈ blockFrames b, f < p0.totalFrames.toNat

theorem PmmInv.init (p : Pmm) : PmmInv p ⟨p, []⟩ :=
  ⟨rfl, Owned.init, by simp⟩

theorem blockFrames_grant {pos size : BitVec 32}
    (h : pos.toNat + (size2frame size).toNat ≤ 2 ^ 20) (hn : 0 < (size2frame size).toNat) :
    blockFrames ⟨pos * pmmFrameSize, size⟩ =
      {f | pos.toNat ≤ f ∧ f < pos.toNat + (size2frame size).toNat} := by
  have hptr : (pos * pmmFrameSize).toNat / 4096 = pos.toNat := by
    rw [BitVec.toNat_mul, show pmmFrameSize.toNat = 4096 from rfl]
    omega
  simp only [blockFrames, hptr]

theorem Found.free_run {p : Pmm} {size pos : BitVec 32} (h : Found p size pos)
    (sound : MeetsFreeRun p size) :
    (∀ f, pos.toNat ≤ f → f < pos.toNat + (size2frame size).toNat → p.bits f = false) ∧
      pos.toNat + (size2frame size).toNat ≤ 2 ^ 20 := by
  obtain ⟨hclear, hle⟩ :=
    sound h.positive h.enough pos.toNat h.word h.accepts h.first h.room
  refine ⟨?_, hle⟩
  intro f hlow hhigh
  have := hclear (f - pos.toNat) (by omega)
  rwa [Nat.add_sub_cancel' hlow] at this

/-- An update that sets the bits of `frames` adds them to the used frames. -/
theorem Pmm.usedSet_union {p q : Pmm} {frames : Set Nat} (hframes : ∀ x ∈ frames, x < 2 ^ 32)
    (hbits : ∀ x < 2 ^ 32, q.bits x = true ↔ x ∈ frames ∨ p.bits x = true) :
    q.usedSet = p.usedSet ∪ frames := by
  apply Set.ext
  intro x
  constructor
  · intro hmem
    obtain ⟨hx, hb⟩ := hmem
    exact ((hbits x hx).mp hb).symm.imp_left fun hb => ⟨hx, hb⟩
  · intro hmem
    cases hmem with
    | inl hold =>
        obtain ⟨hx, hb⟩ := hold
        exact ⟨hx, (hbits x hx).mpr (Or.inr hb)⟩
    | inr hnew => exact ⟨hframes x hnew, (hbits x (hframes x hnew)).mpr (Or.inl hnew)⟩

theorem Pmm.usedSet_sdiff {p q : Pmm} {frames : Set Nat}
    (hbits : ∀ x < 2 ^ 32, q.bits x = true ↔ x ∉ frames ∧ p.bits x = true) :
    q.usedSet = p.usedSet \ frames := by
  apply Set.ext
  intro x
  constructor
  · intro hmem
    obtain ⟨hx, hset⟩ := hmem
    exact ⟨⟨hx, ((hbits x hx).mp hset).2⟩, ((hbits x hx).mp hset).1⟩
  · intro hmem
    obtain ⟨⟨hx, hset⟩, hnot⟩ := hmem
    exact ⟨hx, (hbits x hx).mpr ⟨hnot, hset⟩⟩

theorem PmmInv.step {p0 : Pmm} (hT : p0.totalFrames.toNat ≤ 2 ^ 21) {w w' : PmmWorld}
    {op : PmmOp} (inv : PmmInv p0 w) (sound : PmmOpSound w op)
    (h : pmmStep w op = some w') : PmmInv p0 w' := by
  have hTw : w.pmm.totalFrames.toNat ≤ 2 ^ 21 := by rwa [inv.totalFrames]
  rcases pmmStep_cases h with ⟨size, rfl, -, rfl⟩ |
    ⟨size, pos, rfl, hfind, hpmm, hlive⟩ | ⟨b, rfl, hb, hfree, hlive⟩
  · exact inv
  · have found := pmmFind_found hTw hfind
    obtain ⟨hclear, h20⟩ := found.free_run sound
    obtain ⟨hptr, htotal, -, -, hbits⟩ := pmmMalloc_some hfind (by omega)
    rw [hptr] at hlive
    have hframes := blockFrames_grant h20 found.positive
    have hused : w'.pmm.usedSet =
        w.pmm.usedSet ∪ blockFrames ⟨pos * pmmFrameSize, size⟩ := by
      rw [hpmm, hframes]
      exact Pmm.usedSet_union (fun x hx => by have := hx.2; omega) hbits
    have hdisjoint : Disjoint (blockFrames ⟨pos * pmmFrameSize, size⟩) w.pmm.usedSet := by
      rw [hframes, Set.disjoint_left]
      intro f hrun hmem
      obtain ⟨hlow, hhigh⟩ := hrun
      obtain ⟨-, hset⟩ := hmem
      rw [hclear f hlow hhigh] at hset
      cases hset
    refine ⟨by rw [hpmm, htotal, inv.totalFrames], ?_, ?_⟩
    · rw [hused, hlive]
      exact inv.owned.take hdisjoint
    · intro c hc f hf
      rw [hlive] at hc
      cases List.mem_cons.mp hc with
      | inl heq =>
          subst heq
          rw [hframes] at hf
          have := found.end_le
          rw [inv.totalFrames] at this
          have := hf.2
          omega
      | inr hc => exact inv.managed c hc f hf
  · obtain ⟨htotal, -, -, -, hbits⟩ := pmmFree_some hfree
    have hused : w'.pmm.usedSet = w.pmm.usedSet \ blockFrames b := Pmm.usedSet_sdiff hbits
    refine ⟨by rw [htotal, inv.totalFrames], ?_, ?_⟩
    · rw [hused, hlive]
      exact inv.owned.release hb
    · intro c hc
      rw [hlive] at hc
      exact inv.managed c (List.mem_of_mem_erase hc)

theorem PmmInv.run {p0 : Pmm} (hT : p0.totalFrames.toNat ≤ 2 ^ 21) {w w' : PmmWorld}
    {ops : List PmmOp} (inv : PmmInv p0 w) (sound : Along pmmStep PmmOpSound w ops)
    (h : run pmmStep w ops = some w') : PmmInv p0 w' :=
  sound.invariant (fun _ _ _ hi hs hstep => hi.step hT hs hstep) inv h

/-- No frame has two owners: the live blocks are pairwise disjoint and none of them holds
a frame that was marked at the start. -/
def Exclusive (p0 : Pmm) (w : PmmWorld) : Prop :=
  w.live.Pairwise (fun a b => Disjoint (blockFrames a) (blockFrames b)) ∧
    ∀ b ∈ w.live, ∀ f ∈ blockFrames b, p0.bits f = false

theorem PmmInv.exclusive {p0 : Pmm} {w : PmmWorld} (inv : PmmInv p0 w) : Exclusive p0 w := by
  refine ⟨inv.owned.live_disjoint, ?_⟩
  intro b hb f hf
  by_contra hset
  have hmanaged := inv.managed b hb f hf
  have hlt := p0.totalFrames.isLt
  exact Set.disjoint_left.mp (inv.owned.live_reserved b hb) hf
    ⟨by omega, by simpa using hset⟩

/-- Exclusivity of the allocator from the state `PMM_init` leaves, over every run whose
searches all settle on free runs. -/
theorem pmm_blocks_exclusive {mem : Mem} {memMap : List BootMemMapInfoEntry}
    {physicalMemStart : Paddr} {kernelStart kernelSize : BitVec 32} {p : Pmm}
    (init : pmmInit mem memMap physicalMemStart kernelStart kernelSize = some p)
    {ops : List PmmOp} {w : PmmWorld}
    (sound : Along pmmStep PmmOpSound ⟨p, []⟩ ops)
    (h : run pmmStep ⟨p, []⟩ ops = some w) : Exclusive p w :=
  ((PmmInv.init p).run (pmmInit_state init).totalFrames_le sound h).exclusive

/-! ### Requests of at most one frame -/

theorem meetsFreeRun_one {p : Pmm} {size : BitVec 32} (hsize : size.toNat ≤ 4096)
    (hT : p.totalFrames.toNat ≤ 2 ^ 20) : MeetsFreeRun p size := by
  have hn : (size2frame size).toNat ≤ 1 := by
    rw [toNat_size2frame]
    omega
  intro _ _ pos hpos haccepts _ _
  refine ⟨?_, by omega⟩
  intro k hk
  have hk0 : k = 0 := by omega
  rw [hk0, Nat.add_zero]
  exact haccepts.1

/-- Runs that ask for at most one frame at a time are sound. -/
theorem single_frame_runs_sound {p : Pmm} (hT : p.totalFrames.toNat ≤ 2 ^ 20)
    {ops : List PmmOp} (hsize : ∀ size, .malloc size ∈ ops → size.toNat ≤ 4096) :
    Along pmmStep PmmOpSound ⟨p, []⟩ ops := by
  have good : ∀ w, PmmInv p w → ∀ op ∈ ops, PmmOpSound w op := by
    intro w inv op hop
    cases op with
    | malloc size => exact meetsFreeRun_one (hsize size hop) (by rwa [inv.totalFrames])
    | free b => trivial
  exact along_of_invariant (fun _ _ _ inv sound h => inv.step (by omega) sound h) good
    (PmmInv.init p)

/-! ### Two MiB of RAM -/

def twoMiBMap : List BootMemMapInfoEntry :=
  [{ baseAddrLo := 0#32, baseAddrHi := 0#32, lengthLo := 0x200000#32, lengthHi := 0#32,
     type := memMapTypeAvailable, acpi := 0#32 }]

def twoMiBInit : Option Pmm :=
  pmmInit (fun _ => 0#8) twoMiBMap 0x106000#32 0x1000#32 0x6000#32

/-- The kernel range it is given and the bitmap. -/
def twoMiBBits (f : Nat) : Bool := decide ((1 ≤ f ∧ f < 7) ∨ f = 262)

theorem twoMiBInit_spec :
    ∃ p, twoMiBInit = some p ∧ p.totalFrames = 512#32 ∧ p.usedFrames = 7#32 ∧
      ∀ f < 512, p.bits f = twoMiBBits f := by
  obtain ⟨p, hp, state⟩ := pmmInit_spec (fun _ => 0#8) 0x106000#32 0x1000#32 0x6000#32
    (show NoHighWords twoMiBMap by decide)
  have htotal : p.totalFrames.toNat = 512 := by
    rw [state.totalFrames]
    decide
  have htotal' : p.totalFrames = 512#32 := BitVec.eq_of_toNat_eq htotal
  have hkernel : ((0x1000#32 : BitVec 32) + 0x6000#32).toNat = 0x7000 := by decide
  have hbitmap : (bitmapPaddr 0x106000#32).toNat = 0x106000 := by decide
  have hbitmapEnd : (bitmapPaddr 0x106000#32 + memMapSize 512#32).toNat = 0x106040 := by
    decide
  have hbits (f : Nat) (hf : f < 512) : p.bits f = twoMiBBits f := by
    have h := state.bits f (by omega)
    rw [htotal'] at h
    rw [Bool.eq_iff_iff, h, twoMiBBits, decide_eq_true_eq]
    change (∃ e ∈ twoMiBMap, _) ∨ _ ∨ _ ↔ _
    simp only [twoMiBMap, List.mem_singleton, exists_eq_left, ne_eq, not_true, false_and,
      false_or, rangeFrames, mem_pagesOf, hkernel, hbitmap, hbitmapEnd, BitVec.reduceToNat]
    omega
  have hacc := state.accounted (by decide) (by rw [htotal']; decide)
  refine ⟨p, hp, htotal', ?_, hbits⟩
  apply BitVec.eq_of_toNat_eq
  have hmarked : p.markedFrames = (Finset.range 512).filter (fun f => twoMiBBits f = true) := by
    rw [Pmm.markedFrames, htotal]
    apply Finset.filter_congr
    intro f hf
    rw [hbits f (Finset.mem_range.mp hf)]
  rw [hacc, hmarked]
  decide +kernel

/-- A search for one MiB settles on bit 7: its window starts at bit `2 ^ 7`. -/
theorem twoMiB_find {p : Pmm} (htotal : p.totalFrames = 512#32) (hused : p.usedFrames = 7#32)
    (hbits : ∀ f < 512, p.bits f = twoMiBBits f) : pmmFind p 0x100000#32 = some 7#32 := by
  have accepts (q : Nat) (hq : q < 8) :
      ProbeAccepts p.bits 256 q ↔ ProbeAccepts twoMiBBits 256 q := by
    have hwindow : ∀ q < 8, probeStart q + 256 < 512 := by decide
    exact probeAccepts_congr hbits (by omega) (hwindow q hq)
  rw [pmmFind, pmmFramesFree, htotal, hused, if_neg (by decide),
    bitsetFind_eq_some_iff (by decide) (by decide)]
  refine ⟨by decide, (accepts 7 (by decide)).mpr (by decide +kernel), ?_, ?_⟩
  · intro q hq h
    have none : ∀ q < 7, ¬ ProbeAccepts twoMiBBits 256 q := by decide +kernel
    exact none q hq ((accepts q (Nat.lt_succ_of_lt hq)).mp h)
  · intro q hq hrefuses
    obtain ⟨-, hlt⟩ := hrefuses
    have room : ∀ q ≤ 7, probeStart q + 256 ≤ 512 := by decide
    exact Nat.not_lt.mpr (room q hq) hlt

theorem two_frames_run {p : Pmm} (htotal : p.totalFrames = 512#32) :
    Along pmmStep PmmOpSound ⟨p, []⟩ [.malloc 4096#32, .malloc 100#32] ∧
      ∃ w, run pmmStep ⟨p, []⟩ [.malloc 4096#32, .malloc 100#32] = some w := by
  refine ⟨?_, _, rfl⟩
  apply single_frame_runs_sound (by rw [htotal]; decide)
  intro size hsize
  simp only [List.mem_cons, PmmOp.malloc.injEq, List.not_mem_nil, or_false] at hsize
  rcases hsize with rfl | rfl <;> decide

theorem pmm_blocks_exclusive_two_frames :
    ∃ p w, twoMiBInit = some p ∧
      run pmmStep ⟨p, []⟩ [.malloc 4096#32, .malloc 100#32] = some w ∧ Exclusive p w := by
  obtain ⟨p, hp, htotal, -, -⟩ := twoMiBInit_spec
  obtain ⟨sound, w, hw⟩ := two_frames_run htotal
  exact ⟨p, w, hp, hw, pmm_blocks_exclusive hp sound hw⟩

/-- One request for a MiB is granted the bitmap's own frame. -/
theorem pmm_block_holds_bitmap :
    ∃ p w, twoMiBInit = some p ∧ run pmmStep ⟨p, []⟩ [.malloc 0x100000#32] = some w ∧
      ¬ Exclusive p w := by
  obtain ⟨p, hp, htotal, hused, hbits⟩ := twoMiBInit_spec
  have hfind := twoMiB_find htotal hused hbits
  refine ⟨p, _, hp, rfl, ?_⟩
  intro hexclusive
  obtain ⟨-, hreserved⟩ := hexclusive
  simp only [hfind, Option.isSome_some, if_true, List.mem_singleton, forall_eq] at hreserved
  have hset : p.bits 262 = true := by
    rw [hbits 262 (by decide)]
    decide
  have hclear := hreserved 262 ⟨by decide, by decide⟩
  rw [hset] at hclear
  cases hclear

end Bros
