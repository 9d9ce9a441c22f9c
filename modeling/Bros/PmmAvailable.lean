import Bros.PmmRuns

/-!
Which memory the allocator treats as RAM.

`PMM_init` starts from an empty bitmap and only subtracts what some entry names, so a
byte range that no entry lists stays allocatable. `pmm_only_real_ram_iff` says exactly
when no such range is left.
-/

namespace Bros
open ByteMemory Pages Runs

/-- Every byte of the frame is listed as available and none under another type. -/
def FrameIsRam (memMap : List BootMemMapInfoEntry) (f : Nat) : Prop :=
  (∀ a, a / 4096 = f → ∃ e ∈ memMap, e.type = memMapTypeAvailable ∧ e.Lists a) ∧
    ∀ e ∈ memMap, e.type ≠ memMapTypeAvailable → ∀ a, a / 4096 = f → ¬ e.Lists a

/-- Clear frames are RAM, and so are the frames of every block that a run hands out from
free runs. -/
structure OnlyRealRam (memMap : List BootMemMapInfoEntry) (p : Pmm) : Prop where
  clear : ∀ f < p.totalFrames.toNat, p.bits f = false → FrameIsRam memMap f
  handedOut : ∀ ops w, Along pmmStep PmmOpSound ⟨p, []⟩ ops →
    run pmmStep ⟨p, []⟩ ops = some w →
    ∀ b ∈ w.live, ∀ f ∈ blockFrames b, FrameIsRam memMap f

/-- Below the highest listed end, the frames that no marking loop reaches have no byte
outside the listed ranges. -/
def NoUnlistedHole (memMap : List BootMemMapInfoEntry) (physicalMemStart : Paddr)
    (kernelStart kernelSize : BitVec 32) : Prop :=
  ∀ f < (mappedFrames memMap).toNat,
    f ∉ initMarked memMap physicalMemStart kernelStart kernelSize (mappedFrames memMap) →
    ∀ a, a / 4096 = f → ∃ e ∈ memMap, e.Lists a

theorem BootMemMapInfoEntry.Lists.mem_entryFrames {e : BootMemMapInfoEntry} {a : Nat}
    (h : e.Lists a) : a / 4096 ∈ entryFrames e :=
  div_mem_pagesOf (by decide) h.1 h.2

theorem PmmInitState.clear_other {memMap : List BootMemMapInfoEntry}
    {physicalMemStart : Paddr} {kernelStart kernelSize : BitVec 32} {p : Pmm}
    (state : PmmInitState memMap physicalMemStart kernelStart kernelSize p) {f : Nat}
    (hf : f < p.totalFrames.toNat) (hclear : p.bits f = false) :
    ∀ e ∈ memMap, e.type ≠ memMapTypeAvailable → ∀ a, a / 4096 = f → ¬ e.Lists a := by
  intro e he hother a ha hlists
  subst ha
  exact (state.clear_iff hf).mp hclear (Or.inl ⟨e, he, hother, hlists.mem_entryFrames⟩)

theorem pmm_only_real_ram_iff {mem : Mem} {memMap : List BootMemMapInfoEntry}
    {physicalMemStart : Paddr} {kernelStart kernelSize : BitVec 32} {p : Pmm}
    (init : pmmInit mem memMap physicalMemStart kernelStart kernelSize = some p) :
    OnlyRealRam memMap p ↔ NoUnlistedHole memMap physicalMemStart kernelStart kernelSize := by
  have state := pmmInit_state init
  have htotal := state.totalFrames_eq
  constructor
  · intro h f hf hmarked a ha
    have clear := h.clear
    rw [← htotal] at hf
    obtain ⟨e, he, -, hlists⟩ := (clear f hf ((state.clear_iff hf).mpr hmarked)).1 a ha
    exact ⟨e, he, hlists⟩
  · intro covered
    have clear (f : Nat) (hf : f < p.totalFrames.toNat) (hbit : p.bits f = false) :
        FrameIsRam memMap f := by
      have other := state.clear_other hf hbit
      refine ⟨?_, other⟩
      intro a ha
      obtain ⟨e, he, hlists⟩ := covered f (by rwa [← htotal]) ((state.clear_iff hf).mp hbit) a ha
      refine ⟨e, he, ?_, hlists⟩
      by_contra hother
      exact other e he hother a ha hlists
    refine ⟨clear, ?_⟩
    intro ops w sound hrun b hb f hf
    have inv := (PmmInv.init p).run state.totalFrames_le sound hrun
    exact clear f (inv.managed b hb f hf) (inv.exclusive.2 b hb f hf)

theorem pmm_only_real_ram_two_MiB : ∃ p, twoMiBInit = some p ∧ OnlyRealRam twoMiBMap p := by
  obtain ⟨p, hp, -, -, -⟩ := twoMiBInit_spec
  refine ⟨p, hp, (pmm_only_real_ram_iff hp).mpr ?_⟩
  intro f hf _ a ha
  have hmapped : (mappedFrames twoMiBMap).toNat = 512 := by decide
  rw [hmapped] at hf
  refine ⟨_, List.mem_singleton_self _, Nat.zero_le a, ?_⟩
  change a < 0x200000
  omega

/-- RAM below and above the video memory window, which no entry lists. -/
def videoHoleMap : List BootMemMapInfoEntry :=
  [{ baseAddrLo := 0#32, baseAddrHi := 0#32, lengthLo := 0x9F000#32, lengthHi := 0#32,
     type := memMapTypeAvailable, acpi := 0#32 },
   { baseAddrLo := 0x100000#32, baseAddrHi := 0#32, lengthLo := 0x100000#32, lengthHi := 0#32,
     type := memMapTypeAvailable, acpi := 0#32 }]

/-- The frame of the text screen is left clear. -/
theorem pmm_video_memory_clear :
    ∃ p, pmmInit (fun _ => 0#8) videoHoleMap 0x106000#32 0x1000#32 0x6000#32 = some p ∧
      ¬ OnlyRealRam videoHoleMap p := by
  obtain ⟨p, hp, state⟩ := pmmInit_spec (fun _ => 0#8) 0x106000#32 0x1000#32 0x6000#32
    (show NoHighWords videoHoleMap by decide)
  refine ⟨p, hp, ?_⟩
  intro h
  have clear := h.clear
  have htotal : p.totalFrames.toNat = 512 := by
    rw [state.totalFrames]
    decide
  have hmarked : 0xB8 ∉ initMarked videoHoleMap 0x106000#32 0x1000#32 0x6000#32
      (mappedFrames videoHoleMap) := by
    rintro (⟨e, he, hother, -⟩ | h | h)
    · revert e
      decide
    · exact absurd h (by decide)
    · exact absurd h (by decide)
  have hbit := (state.clear_iff (f := 0xB8) (by omega)).mpr hmarked
  obtain ⟨e, he, -, hlists⟩ := (clear 0xB8 (by omega) hbit).1 0xB8000 (by decide)
  simp only [videoHoleMap, List.mem_cons, List.not_mem_nil, or_false] at he
  rcases he with rfl | rfl
  · exact absurd hlists.2 (by decide)
  · exact absurd hlists.1 (by decide)

end Bros
