import Bros.PmmAccounting

/-!
What `bitset_find` and `PMM_malloc` promise, against free runs.

A free run is what the caller wants; `Selects` is what the search looks for. The two
laws here say for which contents, sizes and requests the one yields the other.
-/

namespace Bros
open ByteMemory

/-- `n` clear bits from `pos` on, all of them inside the bitset. -/
structure FreeRun (bits : Nat → Bool) (total n pos : Nat) : Prop where
  positive : 0 < n
  inside : pos + n ≤ total
  clear : ∀ k < n, bits (pos + k) = false

def LeastFreeRun (bits : Nat → Bool) (total n pos : Nat) : Prop :=
  FreeRun bits total n pos ∧ ∀ q < pos, ¬ FreeRun bits total n q

theorem Selects.unique {bits : Nat → Bool} {total n pos pos' : Nat}
    (h : Selects bits total n pos) (h' : Selects bits total n pos') : pos = pos' := by
  apply Nat.le_antisymm
  · by_contra hlt
    exact h.first pos' (by omega) h'.clear h'.accepts
  · by_contra hlt
    exact h'.first pos (by omega) h.clear h.accepts

/-- No run is searched for that starts in the partial word at the end. -/
theorem Selects.lt_total {bits : Nat → Bool} {total n pos : Nat}
    (h : Selects bits total n pos) : pos < total := by
  have := h.word
  omega

theorem LeastFreeRun.unique {bits : Nat → Bool} {total n pos pos' : Nat}
    (h : LeastFreeRun bits total n pos) (h' : LeastFreeRun bits total n pos') :
    pos = pos' := by
  apply Nat.le_antisymm
  · by_contra hlt
    exact h.2 pos' (by omega) h'.1
  · by_contra hlt
    exact h'.2 pos (by omega) h.1

theorem exists_leastFreeRun {bits : Nat → Bool} {total n : Nat}
    (h : ∃ pos, FreeRun bits total n pos) : ∃ pos, LeastFreeRun bits total n pos := by
  classical
  exact ⟨Nat.find h, Nat.find_spec h, fun q hq => Nat.find_min h hq⟩

/-! ### Soundness of the search -/

def FindSound (m : Mem) (bitset : Bitset32) (bitsetSize size : BitVec 32) : Prop :=
  ∀ pos, bitsetFind m bitset bitsetSize size = some pos →
    FreeRun (bitsetBits m bitset) bitsetSize.toNat size.toNat pos.toNat

/-- The bit `pos` does not start a free run although it is clear: its space check
passes on a wrapped sum, or one of the `n - 1` bits after it is set. -/
def WindowMisleads (bits : Nat → Bool) (total n pos : Nat) : Prop :=
  (2 ^ 32 ≤ probeStart pos + n ∧ total < pos + n) ∨ ∃ k < n, 0 < k ∧ bits (pos + k) = true

theorem bitsetFind_zero (m : Mem) (bitset : Bitset32) (bitsetSize : BitVec 32) :
    bitsetFind m bitset bitsetSize 0#32 = none := if_pos rfl

/-- A selected bit starts a free run unless its window misleads. -/
theorem Selects.freeRun_iff {bits : Nat → Bool} {total n pos : Nat} (hn : 0 < n)
    (h : Selects bits total n pos) :
    FreeRun bits total n pos ↔ ¬ WindowMisleads bits total n pos := by
  constructor
  · intro hrun hmisleads
    cases hmisleads with
    | inl hwrap =>
        have := hrun.inside
        omega
    | inr hset =>
        obtain ⟨k, hk, -, hset⟩ := hset
        rw [hrun.clear k hk] at hset
        cases hset
  · intro hmisleads
    rw [WindowMisleads, not_or] at hmisleads
    obtain ⟨hwrap, hset⟩ := hmisleads
    refine ⟨hn, ?_, ?_⟩
    · by_contra hover
      -- without a wrap the window, which starts later, would end past `total` as well
      have hlt : probeStart pos + n < 2 ^ 32 := by omega
      have hfits := h.room pos le_rfl h.clear
      rw [WindowFits, Nat.mod_eq_of_lt hlt] at hfits
      have := lt_probeStart pos
      omega
    · intro k hk
      cases k with
      | zero => exact h.clear
      | succ k =>
          by_contra hbit
          exact hset ⟨k + 1, hk, k.succ_pos, by simpa using hbit⟩

/-- `bitset_find` is sound exactly when the bit its search selects, if any, is not
misleading. -/
theorem bitsetFind_sound_iff (m : Mem) (bitset : Bitset32) (bitsetSize size : BitVec 32) :
    FindSound m bitset bitsetSize size ↔
      ∀ pos, Selects (bitsetBits m bitset) bitsetSize.toNat size.toNat pos →
        ¬ WindowMisleads (bitsetBits m bitset) bitsetSize.toNat size.toNat pos := by
  cases Nat.eq_zero_or_pos size.toNat with
  | inl hzero =>
      have hsize : size = 0#32 := BitVec.eq_of_toNat_eq hzero
      constructor
      · intro _ pos hsel hmisleads
        have := hsel.lt_total
        cases hmisleads with
        | inl hwrap => omega
        | inr hset =>
            obtain ⟨k, hk, -⟩ := hset
            omega
      · intro _ pos hfind
        rw [hsize, bitsetFind_zero] at hfind
        cases hfind
  | inr hn =>
      constructor
      · intro hsound pos hsel
        have hlt := hsel.lt_total
        have hposNat : (BitVec.ofNat 32 pos).toNat = pos := by
          rw [BitVec.toNat_ofNat, Nat.mod_eq_of_lt (by omega)]
        have hrun := hsound (BitVec.ofNat 32 pos)
          ((bitsetFind_eq_some hn).mpr (by rwa [hposNat]))
        rw [hposNat] at hrun
        exact (hsel.freeRun_iff hn).mp hrun
      · intro hno pos hfind
        have hsel := (bitsetFind_eq_some hn).mp hfind
        exact (hsel.freeRun_iff hn).mpr (hno _ hsel)

/-- Requests of one bit are sound whatever the contents. -/
theorem findSound_one (m : Mem) (bitset : Bitset32) (bitsetSize : BitVec 32) :
    FindSound m bitset bitsetSize 1#32 := by
  intro pos hfind
  have hsel := (bitsetFind_eq_some (by decide)).mp hfind
  have hlt := hsel.lt_total
  refine ⟨by decide, hlt, ?_⟩
  intro k hk
  have hk0 : k = 0 := Nat.lt_one_iff.mp hk
  rw [hk0, Nat.add_zero]
  exact hsel.clear

/-- Bit 1 is set, all others are clear: bit 0 is reported for two bits. -/
theorem bitsetFind_reports_set_bit :
    ¬ FindSound (fun a => if a = 0 then 2#8 else 0#8) 0#32 32#32 2#32 := by
  intro hsound
  have hsel : Selects (bitsetBits (fun a => if a = 0 then 2#8 else 0#8) 0#32) 32 2 0 := by
    refine ⟨by decide, by decide, by decide +kernel, ?_, ?_⟩
    · intro q hq
      cases hq
    · intro q hq _
      cases Nat.le_zero.mp hq
      decide
  have hrun := hsound 0#32 ((bitsetFind_eq_some (by decide)).mpr hsel)
  exact absurd (hrun.clear 1 (by decide)) (by decide)

/-! ### Completeness of the search -/

/-- If a free run exists, the least one is reported. -/
def FindComplete (m : Mem) (bitset : Bitset32) (bitsetSize size : BitVec 32) : Prop :=
  (∃ r, FreeRun (bitsetBits m bitset) bitsetSize.toNat size.toNat r) →
    ∃ pos, bitsetFind m bitset bitsetSize size = some pos ∧
      LeastFreeRun (bitsetBits m bitset) bitsetSize.toNat size.toNat pos.toNat

/-- `PMM_malloc` fails only when no run of the required number of frames is free. -/
def MallocComplete (p : Pmm) (size : BitVec 32) : Prop :=
  (pmmMalloc p size).2 = 0#32 →
    ¬ ∃ r, FreeRun p.bits p.totalFrames.toNat (size2frame size).toNat r

/-- The window search selects the least free run: it starts in a whole word, its window
is accepted, no clear bit before it has an accepted window, and the windows up to it
pass the space check. -/
def LeastRunSelected (bits : Nat → Bool) (total n : Nat) : Prop :=
  ∀ r, LeastFreeRun bits total n r → Selects bits total n r

/-- Where a free run exists, the counter leaves enough frames and the window search
selects a frame whose 32-bit address is not 0. -/
def GrantSelected (p : Pmm) (size : BitVec 32) : Prop :=
  (∃ r, FreeRun p.bits p.totalFrames.toNat (size2frame size).toNat r) →
    size2frame size ≤ BitVec.ofInt 32 (pmmFramesFree p) ∧
      ∃ pos, Selects p.bits p.totalFrames.toNat (size2frame size).toNat pos ∧ pos % 2 ^ 20 ≠ 0

theorem bitsetFind_complete_iff (m : Mem) (bitset : Bitset32) (bitsetSize size : BitVec 32) :
    FindComplete m bitset bitsetSize size ↔
      LeastRunSelected (bitsetBits m bitset) bitsetSize.toNat size.toNat := by
  constructor
  · intro hcomplete r hleast
    obtain ⟨pos, hfind, hpos⟩ := hcomplete ⟨r, hleast.1⟩
    rw [hleast.unique hpos]
    exact (bitsetFind_eq_some hleast.1.positive).mp hfind
  · intro hselects hrun
    obtain ⟨r, hleast⟩ := exists_leastFreeRun hrun
    have hsel := hselects r hleast
    have hlt := hsel.lt_total
    have hrNat : (BitVec.ofNat 32 r).toNat = r := by
      rw [BitVec.toNat_ofNat, Nat.mod_eq_of_lt (by omega)]
    refine ⟨BitVec.ofNat 32 r, (bitsetFind_eq_some hleast.1.positive).mpr ?_, ?_⟩
    · rwa [hrNat]
    · rwa [hrNat]

theorem mul_frameSize_eq_zero (pos : BitVec 32) :
    pos * pmmFrameSize = 0#32 ↔ pos.toNat % 2 ^ 20 = 0 := by
  rw [BitVec.toNat_eq, BitVec.toNat_mul, show pmmFrameSize.toNat = 4096 from rfl,
    show (0#32).toNat = 0 from rfl]
  omega

/-- `PMM_malloc` returns a pointer other than `NULL` exactly when the counter leaves
enough frames and the search selects one whose address is not 0. -/
theorem pmmMalloc_ne_null_iff {p : Pmm} {size : BitVec 32} (hn : 0 < (size2frame size).toNat) :
    (pmmMalloc p size).2 ≠ 0#32 ↔
      size2frame size ≤ BitVec.ofInt 32 (pmmFramesFree p) ∧
        ∃ pos, Selects p.bits p.totalFrames.toNat (size2frame size).toNat pos ∧
          pos % 2 ^ 20 ≠ 0 := by
  constructor
  · intro hptr
    cases hfind : pmmFind p size with
    | none => exact absurd (by rw [pmmMalloc, hfind]) hptr
    | some pos =>
        obtain ⟨henough, hsel⟩ := (pmmFind_eq_some hn).mp hfind
        refine ⟨henough, pos.toNat, hsel, ?_⟩
        rw [Ne, ← mul_frameSize_eq_zero]
        rwa [pmmMalloc, hfind] at hptr
  · intro hselects
    obtain ⟨henough, pos, hsel, hpos⟩ := hselects
    have hlt := hsel.lt_total
    have hposNat : (BitVec.ofNat 32 pos).toNat = pos := by
      rw [BitVec.toNat_ofNat, Nat.mod_eq_of_lt (by omega)]
    have hfind : pmmFind p size = some (BitVec.ofNat 32 pos) :=
      (pmmFind_eq_some hn).mpr ⟨henough, by rwa [hposNat]⟩
    rw [pmmMalloc, hfind]
    exact fun h => hpos (by rw [← hposNat]; exact (mul_frameSize_eq_zero _).mp h)

theorem pmmMalloc_complete_iff (p : Pmm) (size : BitVec 32) :
    MallocComplete p size ↔ GrantSelected p size := by
  constructor
  · intro hcomplete hrun
    obtain ⟨r, hr⟩ := hrun
    apply (pmmMalloc_ne_null_iff hr.positive).mp
    intro hnull
    exact hcomplete hnull ⟨r, hr⟩
  · intro hselects hnull hrun
    obtain ⟨r, hr⟩ := hrun
    exact (pmmMalloc_ne_null_iff hr.positive).mpr (hselects ⟨r, hr⟩) hnull

/-- Where the counter agrees with the bitmap it never turns down a request for which a
free run exists. -/
theorem Pmm.Accounted.run_le_free {p : Pmm} (h : p.Accounted)
    (hT : p.totalFrames.toNat ≤ 2 ^ 21) {size : BitVec 32} {r : Nat}
    (hrun : FreeRun p.bits p.totalFrames.toNat (size2frame size).toNat r) :
    size2frame size ≤ BitVec.ofInt 32 (pmmFramesFree p) := by
  obtain ⟨-, hfree, -⟩ := h.frames hT
  have hdisjoint : Disjoint p.markedFrames (Finset.Ico r (r + (size2frame size).toNat)) := by
    rw [Finset.disjoint_left]
    intro x hx hmem
    have hset := (Finset.mem_filter.mp hx).2
    rw [Finset.mem_Ico] at hmem
    rw [show x = r + (x - r) by omega, hrun.clear (x - r) (by omega)] at hset
    cases hset
  have hsub : p.markedFrames ∪ Finset.Ico r (r + (size2frame size).toNat) ⊆
      Finset.range p.totalFrames.toNat := by
    intro x hx
    cases Finset.mem_union.mp hx with
    | inl hx => exact (Finset.mem_filter.mp hx).1
    | inr hx =>
        have := hrun.inside
        rw [Finset.mem_Ico] at hx
        rw [Finset.mem_range]
        omega
  have hcard := Finset.card_le_card hsub
  rw [Finset.card_union_of_disjoint hdisjoint, Nat.card_Ico, Finset.card_range] at hcard
  rw [BitVec.le_def, hfree, BitVec.toNat_ofInt]
  omega

/-- Completeness of the search and of `PMM_malloc`. -/
theorem allocation_complete_iff (m : Mem) (bitset : Bitset32) (bitsetSize size : BitVec 32)
    (p : Pmm) (bytes : BitVec 32) :
    (FindComplete m bitset bitsetSize size ↔
      LeastRunSelected (bitsetBits m bitset) bitsetSize.toNat size.toNat) ∧
    (MallocComplete p bytes ↔ GrantSelected p bytes) :=
  ⟨bitsetFind_complete_iff m bitset bitsetSize size, pmmMalloc_complete_iff p bytes⟩

/-- A word of clear bits has no room for 32: the window starts at bit 1. -/
theorem bitsetFind_misses_run : ¬ FindComplete (fun _ => 0#8) 0#32 32#32 32#32 := by
  intro hcomplete
  have hrun : FreeRun (bitsetBits (fun _ => 0#8) 0#32) 32 32 0 :=
    ⟨by decide, by decide, by decide +kernel⟩
  obtain ⟨pos, hfind, hleast⟩ := hcomplete ⟨0, hrun⟩
  have hsel := (bitsetFind_eq_some (by decide)).mp hfind
  exact absurd (hsel.room 0 (Nat.zero_le _) (by decide)) (by decide)

end Bros
