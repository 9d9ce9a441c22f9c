import Bros.PmmAccounting

/-!
`PMM_free` on arbitrary arguments.

Its only guard compares the counter with the number of frames. The bits it clears are
not looked at, so the counter stays right exactly when all of them are managed and set.
-/

namespace Bros
open Pages

/-- What a call that does not panic must leave behind. -/
structure FreeKeeps (p q : Pmm) (ptr : Paddr) (size : BitVec 32) : Prop where
  accounted : q.Accounted
  outside : ∀ f < 2 ^ 32, f ∉ blockFrames ⟨ptr, size⟩ → q.bits f = p.bits f
  unmanaged : ∀ f < 2 ^ 32, p.totalFrames.toNat ≤ f → q.bits f = p.bits f

/-- `PMM_free` panics, which it does before its first store, or keeps the state lawful. -/
def FreeSafe (p : Pmm) (ptr : Paddr) (size : BitVec 32) : Prop :=
  ∀ q, pmmFree p ptr size = some q → FreeKeeps p q ptr size

/-- Every frame of the range is managed and marked. -/
def BlockMarked (p : Pmm) (ptr : Paddr) (size : BitVec 32) : Prop :=
  ∀ f ∈ blockFrames ⟨ptr, size⟩, f < p.totalFrames.toNat ∧ p.bits f = true

theorem blockMarked_iff_subset {p : Pmm} {ptr : Paddr} {size : BitVec 32} :
    BlockMarked p ptr size ↔
      Finset.Ico (ptr.toNat / 4096) (ptr.toNat / 4096 + (size2frame size).toNat) ⊆
        p.markedFrames := by
  rw [Finset.subset_iff]
  apply forall_congr'
  intro f
  rw [mem_Ico_blockFrames (b := ⟨ptr, size⟩), Pmm.markedFrames, Finset.mem_filter,
    Finset.mem_range]

theorem pmmFree_eq_none_iff {p : Pmm} (ptr : Paddr) {size : BitVec 32} :
    pmmFree p ptr size = none ↔ p.usedFrames < size2frame size := by
  rw [pmmFree]
  split <;> simp_all

/-- The counter loses the length of the range, the marked frames what they share with it. -/
theorem pmmFree_accounted_iff {p q : Pmm} {ptr : Paddr} {size : BitVec 32}
    (hacc : p.Accounted) (h : pmmFree p ptr size = some q) :
    q.Accounted ↔ BlockMarked p ptr size := by
  obtain ⟨htotal, -, hused, hle, hbits⟩ := pmmFree_some (b := ⟨ptr, size⟩) h
  have hused' : q.usedFrames.toNat = p.markedFrames.card - (size2frame size).toNat := by
    rw [hused, BitVec.toNat_sub_of_le hle, hacc]
  have hn : (size2frame size).toNat ≤ p.markedFrames.card := by
    rw [← hacc]
    exact hle
  rw [blockMarked_iff_subset]
  constructor
  · intro hacc'
    -- equal cardinalities leave no frame of the range outside the marked ones
    rw [Pmm.Accounted, hused', markedFrames_clear htotal hbits, Finset.card_sdiff] at hacc'
    change _ = _ - (Finset.Ico (ptr.toNat / 4096)
      (ptr.toNat / 4096 + (size2frame size).toNat) ∩ p.markedFrames).card at hacc'
    have hshared : (Finset.Ico (ptr.toNat / 4096)
        (ptr.toNat / 4096 + (size2frame size).toNat) ∩ p.markedFrames).card ≤
          p.markedFrames.card := Finset.card_le_card Finset.inter_subset_right
    apply Finset.inter_eq_left.mp
    apply Finset.eq_of_subset_of_card_le Finset.inter_subset_left
    rw [Nat.card_Ico, Nat.add_sub_cancel_left]
    omega
  · intro hmarked
    rw [Pmm.Accounted, hused',
      card_markedFrames_clear (b := ⟨ptr, size⟩) hmarked htotal hbits]

theorem pmmFree_outside {p q : Pmm} {ptr : Paddr} {size : BitVec 32}
    (h : pmmFree p ptr size = some q) {f : Nat} (hf : f < 2 ^ 32)
    (hout : f ∉ blockFrames ⟨ptr, size⟩) : q.bits f = p.bits f := by
  obtain ⟨-, -, -, -, hbits⟩ := pmmFree_some (b := ⟨ptr, size⟩) h
  rw [Bool.eq_iff_iff, hbits f hf, and_iff_right hout]

/-- From a lawful state `PMM_free` is safe exactly when its guard panics or the whole
range is managed and marked. -/
theorem pmmFree_safe_iff {p : Pmm} (accounted : p.Accounted) (ptr : Paddr) (size : BitVec 32) :
    FreeSafe p ptr size ↔ p.usedFrames < size2frame size ∨ BlockMarked p ptr size := by
  rw [← pmmFree_eq_none_iff ptr]
  cases hfree : pmmFree p ptr size with
  | none =>
      rw [FreeSafe, hfree]
      simp
  | some q =>
      have keeps_iff : FreeKeeps p q ptr size ↔ BlockMarked p ptr size := by
        constructor
        · intro keeps
          exact (pmmFree_accounted_iff accounted hfree).mp keeps.accounted
        · intro hmarked
          refine ⟨(pmmFree_accounted_iff accounted hfree).mpr hmarked,
            fun f hf hout => pmmFree_outside hfree hf hout, ?_⟩
          intro f hf hbeyond
          apply pmmFree_outside hfree hf
          intro hin
          have := (hmarked f hin).1
          omega
      rw [FreeSafe, hfree]
      simpa using keeps_iff

/-- One word of frames, the first two marked. -/
def twoMarkedFrames : Pmm :=
  { mem := fun a => if a = 0 then 3#8 else 0#8
    totalFrames := 32#32
    usedFrames := 2#32
    framesMap := 0#32 }

instance (p : Pmm) : Decidable p.Accounted :=
  inferInstanceAs (Decidable (p.usedFrames.toNat = p.markedFrames.card))

theorem twoMarkedFrames_accounted : twoMarkedFrames.Accounted := by
  decide +kernel

theorem pmmFree_safe_second_frame :
    twoMarkedFrames.Accounted ∧
      (FreeSafe twoMarkedFrames 0x1000#32 4096#32 ↔
        twoMarkedFrames.usedFrames < size2frame 4096#32 ∨
          BlockMarked twoMarkedFrames 0x1000#32 4096#32) :=
  ⟨twoMarkedFrames_accounted, pmmFree_safe_iff twoMarkedFrames_accounted _ _⟩

/-- The second of two frees of one block passes the guard and loses count of the frame
that is still marked. -/
theorem pmmFree_twice_unsafe :
    ∃ q, pmmFree twoMarkedFrames 0x1000#32 4096#32 = some q ∧ q.Accounted ∧
      ¬ FreeSafe q 0x1000#32 4096#32 := by
  have hmarked : BlockMarked twoMarkedFrames 0x1000#32 4096#32 := by
    intro f hf
    have hf1 : f = 1 := by
      have hlow : 1 ≤ f := hf.1
      have hhigh : f < 2 := hf.2
      omega
    subst hf1
    decide
  have hmem : 1 ∈ blockFrames ⟨0x1000#32, 4096#32⟩ := ⟨le_rfl, by decide⟩
  have hguard : ¬ twoMarkedFrames.usedFrames < size2frame 4096#32 := by decide
  cases hfree : pmmFree twoMarkedFrames 0x1000#32 4096#32 with
  | none => exact absurd ((pmmFree_eq_none_iff _).mp hfree) hguard
  | some q =>
      obtain ⟨-, -, hused, -, hbits⟩ := pmmFree_some (b := ⟨0x1000#32, 4096#32⟩) hfree
      have hacc := (pmmFree_accounted_iff twoMarkedFrames_accounted hfree).mpr hmarked
      refine ⟨q, rfl, hacc, ?_⟩
      intro hsafe
      cases hfree' : pmmFree q 0x1000#32 4096#32 with
      | none =>
          rw [pmmFree_eq_none_iff, hused] at hfree'
          revert hfree'
          decide
      | some q' =>
          have hmarked' := (pmmFree_accounted_iff hacc hfree').mp (hsafe q' hfree').accounted
          exact ((hbits 1 (by decide)).mp (hmarked' 1 hmem).2).1 hmem

end Bros
