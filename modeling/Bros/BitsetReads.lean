import Bros.Bitset

/-!
The bits that `bitset_find` tests.

The space check makes room for `size` bits from the start position. The innermost loop runs up
to and including `size`, so unless the first `size` bits are clear it tests one more.
-/

namespace Bros
open ByteMemory Search

/-- The search tests a bit, lets a window through the space check, or never leaves the
innermost loop. -/
inductive FindEvent where
  | test (bit : BitVec 32)
  | window (startPos : BitVec 32)
  | spins

/-- What `bitsetFindFrom` does. -/
def bitsetFindFromEvents (m : Mem) (bitset : Bitset32) (size startPos : BitVec 32) :
    Nat → BitVec 32 → BitVec 32 → List FindEvent
  | 0, _, _ => [.spins]
  | fuel + 1, k, free =>
      if k ≤ size then
        let free := if bitsetTest m bitset (startPos + k) then free else free + 1#32
        .test (startPos + k) ::
          if free = size then []
          else bitsetFindFromEvents m bitset size startPos fuel (k + 1#32) free
      else []

/-- What `bitsetFindAt` does. -/
def bitsetFindAtEvents (m : Mem) (bitset : Bitset32) (bitsetSize size : BitVec 32) (i j : Nat) :
    List FindEvent :=
  let bit := 1#32 <<< j
  .test (BitVec.ofNat 32 i * 32#32 + BitVec.ofNat 32 j) ::
    if load32 m (bitsetWord bitset (BitVec.ofNat 32 i)) &&& bit = 0#32 then
      let startPos := BitVec.ofNat 32 i * 32#32 + bit
      if bitsetSize < startPos + size then []
      else .window startPos :: bitsetFindFromEvents m bitset size startPos findFuel 0#32 0#32
    else []

/-- What `bitsetFind` does. -/
def bitsetFindEvents (m : Mem) (bitset : Bitset32) (bitsetSize size : BitVec 32) :
    List FindEvent :=
  if size = 0#32 then []
  else
    trace (fun i => (List.range 32).findSome? (bitsetFindAt m bitset bitsetSize size i))
      (fun i => trace (bitsetFindAt m bitset bitsetSize size i)
        (bitsetFindAtEvents m bitset bitsetSize size i) (List.range 32))
      (List.range (bitsetIndex bitsetSize).toNat)

/-- Only bits of the bitset are tested, no sum that passes the space check has wrapped, and the
search ends. -/
structure StaysInside (m : Mem) (bitset : Bitset32) (bitsetSize size : BitVec 32) : Prop where
  inside : ∀ bit, .test bit ∈ bitsetFindEvents m bitset bitsetSize size → bit < bitsetSize
  noWrap : ∀ startPos, .window startPos ∈ bitsetFindEvents m bitset bitsetSize size →
    startPos.toNat + size.toNat < 2 ^ 32
  ends : .spins ∉ bitsetFindEvents m bitset bitsetSize size

/-- The search comes to bit `p`. -/
structure Reaches (bits : Nat → Bool) (total n p : Nat) : Prop where
  word : p < 32 * (total / 32)
  before : ∀ q < p, bits q = false → WindowFits total n q ∧ ¬ WindowAccepts bits n q

/-- From the start position of `p` on, `n` bits do not wrap, and one bit more is in the bitset
or not needed. -/
structure WindowInside (bits : Nat → Bool) (total n p : Nat) : Prop where
  noWrap : probeStart p % 2 ^ 32 + n < 2 ^ 32
  room : probeStart p % 2 ^ 32 + n < total ∨ ∀ k < n, bits (probeStart p % 2 ^ 32 + k) = false

/-! ### The innermost loop -/

section
variable {m : Mem} {bitset : Bitset32} {size startPos bit : BitVec 32}

theorem bitsetTest_window (k : Nat) :
    bitsetTest m bitset (startPos + BitVec.ofNat 32 k) =
      bitsetBits m bitset (startPos.toNat + k) := by
  rw [bitsetBits, BitVec.ofNat_add, BitVec.ofNat_toNat, BitVec.setWidth_eq]

theorem toNat_ofNat_le {n k : Nat} (hn : n < 2 ^ 32) (hk : k ≤ n) :
    (BitVec.ofNat 32 k).toNat = k := by
  rw [BitVec.toNat_ofNat, Nat.mod_eq_of_lt (by omega)]

/-- One round of the loop, with the count it leaves. -/
theorem mem_findFromEvents_succ {fuel : Nat} {k free : BitVec 32} {e : FindEvent} :
    e ∈ bitsetFindFromEvents m bitset size startPos (fuel + 1) k free ↔
      k ≤ size ∧ (e = .test (startPos + k) ∨
        ∃ free', free' = (if bitsetTest m bitset (startPos + k) then free else free + 1#32) ∧
          free' ≠ size ∧
            e ∈ bitsetFindFromEvents m bitset size startPos fuel (k + 1#32) free') := by
  rw [bitsetFindFromEvents]
  by_cases hle : k ≤ size
  · simp only [hle, if_true, List.mem_cons, true_and, exists_eq_left]
    split <;> simp [*]
  · simp [hle]

theorem test_mem_le {fuel : Nat} {k free : BitVec 32}
    (h : .test bit ∈ bitsetFindFromEvents m bitset size startPos fuel k free) :
    ∃ k' ≤ size, bit = startPos + k' := by
  induction fuel generalizing k free with
  | zero => cases h with | tail _ h => cases h
  | succ fuel ih =>
      obtain ⟨hle, hbit | ⟨free', -, -, h⟩⟩ := mem_findFromEvents_succ.mp h
      · exact ⟨k, hle, FindEvent.test.inj hbit⟩
      · exact ih h

/-- Over clear bits the loop stops at the last one it needs. -/
theorem test_mem_of_clear
    (hclear : ∀ i < size.toNat, bitsetBits m bitset (startPos.toNat + i) = false)
    {fuel k : Nat} (hk : k < size.toNat)
    (h : .test bit ∈ bitsetFindFromEvents m bitset size startPos fuel (BitVec.ofNat 32 k)
      (BitVec.ofNat 32 k)) :
    ∃ i < size.toNat, bit = startPos + BitVec.ofNat 32 i := by
  induction fuel generalizing k with
  | zero => cases h with | tail _ h => cases h
  | succ fuel ih =>
      obtain ⟨-, hbit | ⟨free', hfree, hne, h⟩⟩ := mem_findFromEvents_succ.mp h
      · exact ⟨k, hk, FindEvent.test.inj hbit⟩
      · rw [bitsetTest_window, hclear k hk, if_neg Bool.false_ne_true, ← BitVec.ofNat_add] at hfree
        subst hfree
        rw [← BitVec.ofNat_add] at h
        refine ih ?_ h
        by_contra hlast
        refine hne (BitVec.eq_of_toNat_eq ?_)
        rw [toNat_ofNat_le size.isLt hk]
        omega

/-- Once a set bit is met, or still to come, the loop gets to the bit behind the window. -/
theorem test_mem_behind {fuel k free : Nat} (hk : k ≤ size.toNat)
    (hfuel : size.toNat < fuel + k) (hfree : free ≤ k)
    (hset : free < k ∨
      ∃ i, k ≤ i ∧ i < size.toNat ∧ bitsetBits m bitset (startPos.toNat + i) = true) :
    .test (startPos + size) ∈
      bitsetFindFromEvents m bitset size startPos fuel (BitVec.ofNat 32 k)
        (BitVec.ofNat 32 free) := by
  induction fuel generalizing k free with
  | zero => omega
  | succ fuel ih =>
      have hkNat := toNat_ofNat_le size.isLt hk
      refine mem_findFromEvents_succ.mpr ⟨BitVec.le_def.mpr (by omega), ?_⟩
      obtain hlt | heq := Nat.lt_or_eq_of_le hk
      · obtain ⟨free', hnext, hfree', hset'⟩ : ∃ free', BitVec.ofNat 32 free' =
            (if bitsetBits m bitset (startPos.toNat + k) then BitVec.ofNat 32 free
              else BitVec.ofNat 32 free + 1#32) ∧
            free' ≤ k + 1 ∧ (free' < k + 1 ∨ ∃ i, k + 1 ≤ i ∧ i < size.toNat ∧
              bitsetBits m bitset (startPos.toNat + i) = true) := by
          cases hbit : bitsetBits m bitset (startPos.toNat + k) with
          | true => exact ⟨free, rfl, by omega, .inl (by omega)⟩
          | false =>
              refine ⟨free + 1, BitVec.ofNat_add .., by omega, ?_⟩
              obtain hless | ⟨i, hi, hin, hset⟩ := hset
              · exact .inl (by omega)
              · refine .inr ⟨i, ?_, hin, hset⟩
                by_contra hik
                obtain rfl : i = k := by omega
                rw [hset] at hbit
                cases hbit
        have hne : BitVec.ofNat 32 free' ≠ size := by
          intro heq
          have hfreeNat := toNat_ofNat_le size.isLt (show free' ≤ size.toNat by omega)
          rw [heq] at hfreeNat
          obtain hless | ⟨i, hi, hin, -⟩ := hset' <;> omega
        rw [← bitsetTest_window] at hnext
        refine .inr ⟨_, hnext, hne, ?_⟩
        rw [← BitVec.ofNat_add]
        exact ih hlt (by omega) hfree' hset'
      · have hsize : BitVec.ofNat 32 k = size := BitVec.eq_of_toNat_eq (by omega)
        rw [hsize]
        exact .inl rfl

theorem ends_of_lt (hsize : size.toNat + 1 < 2 ^ 32) {fuel k : Nat} {free : BitVec 32}
    (hk : k ≤ size.toNat + 1) (hfuel : size.toNat + 2 ≤ fuel + k) :
    .spins ∉ bitsetFindFromEvents m bitset size startPos fuel (BitVec.ofNat 32 k) free := by
  induction fuel generalizing k free with
  | zero => omega
  | succ fuel ih =>
      intro h
      obtain ⟨hle, hbit | ⟨free', -, -, h⟩⟩ := mem_findFromEvents_succ.mp h
      · cases hbit
      · rw [BitVec.le_def, toNat_ofNat_le hsize hk] at hle
        rw [← BitVec.ofNat_add] at h
        exact ih (by omega) (by omega) h

theorem ends_of_found {fuel : Nat} {k free : BitVec 32}
    (hfound : bitsetFindFrom m bitset size startPos fuel k free = true) :
    .spins ∉ bitsetFindFromEvents m bitset size startPos fuel k free := by
  induction fuel generalizing k free with
  | zero => cases hfound
  | succ fuel ih =>
      intro h
      obtain ⟨hle, hbit | ⟨free', rfl, hne, h⟩⟩ := mem_findFromEvents_succ.mp h
      · cases hbit
      · rw [bitsetFindFrom, if_pos hle] at hfound
        simp only [if_neg hne] at hfound
        exact ih hfound h

theorem window_not_mem {startPos' : BitVec 32} {fuel : Nat} {k free : BitVec 32} :
    .window startPos' ∉ bitsetFindFromEvents m bitset size startPos fuel k free := by
  induction fuel generalizing k free with
  | zero =>
      intro h
      cases h with | tail _ h => cases h
  | succ fuel ih =>
      intro h
      obtain ⟨-, htest | ⟨free', -, -, h⟩⟩ := mem_findFromEvents_succ.mp h
      · cases htest
      · exact ih h

/-- The loop behind a clear bit ends for every size. -/
theorem findFromEvents_ends {p : Nat} (hsize : 0 < size.toNat)
    (hclear : bitsetBits m bitset p = false) :
    .spins ∉ bitsetFindFromEvents m bitset size (BitVec.ofNat 32 (probeStart p)) findFuel
      0#32 0#32 := by
  by_cases hmax : size.toNat = 2 ^ 32 - 1
  · exact ends_of_found ((bitsetFindFrom_window hsize hclear).mpr (.inl hmax))
  · have hlt := size.isLt
    have hfuel : findFuel = 2 ^ 64 := rfl
    exact ends_of_lt (by omega) (Nat.zero_le _) (by omega)

end

/-! ### The search -/

section
variable {m : Mem} {bitset : Bitset32} {bitsetSize size : BitVec 32} {p : Nat} {e : FindEvent}

theorem mem_findAtEvents (hp : p < 2 ^ 32) :
    e ∈ bitsetFindAtEvents m bitset bitsetSize size (p / 32) (p % 32) ↔
      e = .test (BitVec.ofNat 32 p) ∨
        bitsetBits m bitset p = false ∧ WindowFits bitsetSize.toNat size.toNat p ∧
          (e = .window (BitVec.ofNat 32 (probeStart p)) ∨
            e ∈ bitsetFindFromEvents m bitset size (BitVec.ofNat 32 (probeStart p)) findFuel
              0#32 0#32) := by
  simp only [bitsetFindAtEvents, ofNat_probeStart, ofNat_position, wordTest_iff hp,
    spaceCheck_iff, List.mem_cons]
  refine or_congr_right ?_
  by_cases hbit : bitsetBits m bitset p = false
  · by_cases hfits : WindowFits bitsetSize.toNat size.toNat p
    · simp [hbit, hfits]
    · simp [hbit, hfits]
  · simp [hbit]

theorem mem_bitsetFindEvents (hsize : 0 < size.toNat) :
    e ∈ bitsetFindEvents m bitset bitsetSize size ↔
      ∃ p, Reaches (bitsetBits m bitset) bitsetSize.toNat size.toNat p ∧
        e ∈ bitsetFindAtEvents m bitset bitsetSize size (p / 32) (p % 32) := by
  have hne : size ≠ 0#32 := by
    rintro rfl
    cases hsize
  rw [bitsetFindEvents, if_neg hne, toNat_bitsetIndex, mem_trace_range_nested, Nat.mul_comm]
  refine exists_congr fun p => ?_
  constructor
  · rintro ⟨hp, hnone, he⟩
    exact ⟨⟨hp, fun q hq => (bitsetFindAt_eq_none_iff hsize (by omega)).mp (hnone q hq)⟩, he⟩
  · rintro ⟨⟨hp, hbefore⟩, he⟩
    exact ⟨hp, fun q hq => (bitsetFindAt_eq_none_iff hsize (by omega)).mpr (hbefore q hq), he⟩

/-- An event is the test of a bit that the outer loops come to, or belongs to the window of a
clear one. -/
theorem bitsetFindEvents_cases (he : e ∈ bitsetFindEvents m bitset bitsetSize size) :
    (∃ p < bitsetSize.toNat, e = .test (BitVec.ofNat 32 p)) ∨
      ∃ p, 0 < size.toNat ∧ Reaches (bitsetBits m bitset) bitsetSize.toNat size.toNat p ∧
        bitsetBits m bitset p = false ∧ WindowFits bitsetSize.toNat size.toNat p ∧
          (e = .window (BitVec.ofNat 32 (probeStart p)) ∨
            e ∈ bitsetFindFromEvents m bitset size (BitVec.ofNat 32 (probeStart p)) findFuel
              0#32 0#32) := by
  have hsize : 0 < size.toNat := by
    by_contra hzero
    have : size = 0#32 := BitVec.eq_of_toNat_eq (by simpa using hzero)
    rw [bitsetFindEvents, if_pos this] at he
    cases he
  have hlt := bitsetSize.isLt
  obtain ⟨p, hreach, he⟩ := (mem_bitsetFindEvents hsize).mp he
  have hword := hreach.word
  obtain htest | ⟨hclear, hfits, he⟩ := (mem_findAtEvents (by omega)).mp he
  · exact .inl ⟨p, by omega, htest⟩
  · exact .inr ⟨p, hsize, hreach, hclear, hfits, he⟩

/-- A window that is inside keeps its tests inside. -/
theorem WindowInside.test_lt (h : WindowInside (bitsetBits m bitset) bitsetSize.toNat size.toNat p)
    (hsize : 0 < size.toNat) (hfits : WindowFits bitsetSize.toNat size.toNat p) {bit : BitVec 32}
    (hbit : .test bit ∈ bitsetFindFromEvents m bitset size (BitVec.ofNat 32 (probeStart p))
      findFuel 0#32 0#32) :
    bit < bitsetSize := by
  have hstart : (BitVec.ofNat 32 (probeStart p)).toNat = probeStart p % 2 ^ 32 :=
    BitVec.toNat_ofNat ..
  have hwrap := h.noWrap
  rw [BitVec.lt_def]
  cases h.room with
  | inl hroom =>
      obtain ⟨k, hk, rfl⟩ := test_mem_le hbit
      rw [BitVec.le_def] at hk
      rw [BitVec.toNat_add, hstart, Nat.mod_eq_of_lt (by omega)]
      omega
  | inr hclear =>
      rw [← hstart] at hclear
      obtain ⟨i, hi, rfl⟩ := test_mem_of_clear hclear hsize hbit
      have hle : probeStart p % 2 ^ 32 + size.toNat ≤ bitsetSize.toNat := by
        rwa [WindowFits, ← Nat.mod_add_mod, Nat.mod_eq_of_lt hwrap] at hfits
      rw [BitVec.toNat_add, hstart, toNat_ofNat_le size.isLt hi.le, Nat.mod_eq_of_lt (by omega)]
      omega

theorem mem_bitsetFindEvents_of_window (hsize : 0 < size.toNat)
    (hreach : Reaches (bitsetBits m bitset) bitsetSize.toNat size.toNat p)
    (hclear : bitsetBits m bitset p = false) (hfits : WindowFits bitsetSize.toNat size.toNat p)
    (he : e = .window (BitVec.ofNat 32 (probeStart p)) ∨
      e ∈ bitsetFindFromEvents m bitset size (BitVec.ofNat 32 (probeStart p)) findFuel
        0#32 0#32) :
    e ∈ bitsetFindEvents m bitset bitsetSize size := by
  have hlt := bitsetSize.isLt
  have hword := hreach.word
  exact (mem_bitsetFindEvents hsize).mpr
    ⟨p, hreach, (mem_findAtEvents (by omega)).mpr (.inr ⟨hclear, hfits, he⟩)⟩

theorem StaysInside.window (h : StaysInside m bitset bitsetSize size) (hsize : 0 < size.toNat)
    (hreach : Reaches (bitsetBits m bitset) bitsetSize.toNat size.toNat p)
    (hclear : bitsetBits m bitset p = false)
    (hfits : WindowFits bitsetSize.toNat size.toNat p) :
    WindowInside (bitsetBits m bitset) bitsetSize.toNat size.toNat p := by
  have hstart : (BitVec.ofNat 32 (probeStart p)).toNat = probeStart p % 2 ^ 32 :=
    BitVec.toNat_ofNat ..
  have hwrap : probeStart p % 2 ^ 32 + size.toNat < 2 ^ 32 := by
    rw [← hstart]
    exact h.noWrap _ (mem_bitsetFindEvents_of_window hsize hreach hclear hfits (.inl rfl))
  refine ⟨hwrap, ?_⟩
  by_contra hroom
  rw [not_or, not_forall] at hroom
  obtain ⟨hroom, i, hset⟩ := hroom
  rw [Classical.not_imp, Bool.not_eq_false, ← hstart] at hset
  have hfuel : findFuel = 2 ^ 64 := rfl
  have hlt := size.isLt
  have hbehind := h.inside _ (mem_bitsetFindEvents_of_window hsize hreach hclear hfits
    (.inr (test_mem_behind (k := 0) (Nat.zero_le _) (by omega) le_rfl
      (.inr ⟨i, Nat.zero_le _, hset⟩))))
  rw [BitVec.lt_def, BitVec.toNat_add, hstart, Nat.mod_eq_of_lt hwrap] at hbehind
  exact hroom hbehind

end

/-- The search stays inside exactly when the window of every clear bit it comes to does. -/
theorem bitsetFind_staysInside_iff (m : Mem) (bitset : Bitset32) (bitsetSize size : BitVec 32) :
    StaysInside m bitset bitsetSize size ↔
      ∀ p, 0 < size.toNat → Reaches (bitsetBits m bitset) bitsetSize.toNat size.toNat p →
        bitsetBits m bitset p = false → WindowFits bitsetSize.toNat size.toNat p →
          WindowInside (bitsetBits m bitset) bitsetSize.toNat size.toNat p := by
  constructor
  · intro h p hsize hreach hclear hfits
    exact h.window hsize hreach hclear hfits
  · intro hinside
    constructor
    case inside =>
      intro bit he
      obtain ⟨p, hp, htest⟩ | ⟨p, hsize, hreach, hclear, hfits, hwindow | he⟩ :=
        bitsetFindEvents_cases he
      · rw [FindEvent.test.inj htest, BitVec.lt_def, toNat_ofNat_le bitsetSize.isLt hp.le]
        exact hp
      · cases hwindow
      · exact (hinside p hsize hreach hclear hfits).test_lt hsize hfits he
    case noWrap =>
      intro startPos he
      obtain ⟨p, hp, htest⟩ | ⟨p, hsize, hreach, hclear, hfits, hwindow | he⟩ :=
        bitsetFindEvents_cases he
      · cases htest
      · rw [FindEvent.window.inj hwindow, BitVec.toNat_ofNat]
        exact (hinside p hsize hreach hclear hfits).noWrap
      · exact absurd he window_not_mem
    case ends =>
      intro he
      obtain ⟨p, hp, htest⟩ | ⟨p, hsize, hreach, hclear, hfits, hwindow | he⟩ :=
        bitsetFindEvents_cases he
      · cases htest
      · cases hwindow
      · exact findFromEvents_ends hsize hclear he

/-- 31 bits asked of a word in which only bit 0 is clear: bit 32 is tested. -/
theorem bitsetFind_tests_behind :
    ¬ StaysInside (fun a => if a = 0 then 0xFE#8 else 0xFF#8) 0#32 32#32 31#32 := by
  intro h
  have hreach : Reaches (bitsetBits (fun a => if a = 0 then 0xFE#8 else 0xFF#8) 0#32) 32 31 0 :=
    ⟨by decide, fun q hq => absurd hq q.not_lt_zero⟩
  have hwindow := h.window (by decide) hreach (by decide) (by decide)
  cases hwindow.room with
  | inl hroom => exact absurd hroom (by decide)
  | inr hclear => exact absurd (hclear 0 (by decide)) (by decide)

end Bros
