import Bros.Lib.Memory
import Bros.Lib.Search

/-!
The bitset of `lib/bitset.c` over byte memory, and what its search returns.

The search tests the window that starts at the bit *mask* of a clear bit and
reports the bit's own *position*. `ProbeAccepts` and `ProbeRefuses` name the two
ways a clear bit ends the search; `bitsetFind_eq_some_iff` is the exact law.
-/

namespace Bros
open ByteMemory Search

/-- A `bitset32_t` is the address of its first word. -/
abbrev Bitset32 := BitVec 32

def bitsetIndex (x : BitVec 32) : BitVec 32 := x / 32#32

def bitsetOffset (x : BitVec 32) : BitVec 32 := x % 32#32

def bitsetWord (bitset : Bitset32) (i : BitVec 32) : Nat := (bitset + 4#32 * i).toNat

def bitsetSet (m : Mem) (bitset : Bitset32) (bit : BitVec 32) : Mem :=
  let a := bitsetWord bitset (bitsetIndex bit)
  store32 m a (load32 m a ||| 1#32 <<< bitsetOffset bit)

def bitsetClear (m : Mem) (bitset : Bitset32) (bit : BitVec 32) : Mem :=
  let a := bitsetWord bitset (bitsetIndex bit)
  store32 m a (load32 m a &&& ~~~(1#32 <<< bitsetOffset bit))

def bitsetTest (m : Mem) (bitset : Bitset32) (bit : BitVec 32) : Bool :=
  load32 m (bitsetWord bitset (bitsetIndex bit)) &&& 1#32 <<< bitsetOffset bit != 0#32

/-- Iterations granted to the innermost loop of `bitset_find`. Its counter wraps when
the requested size is `UINT32_MAX`; every other size ends it after `size + 1` rounds. -/
def findFuel : Nat := 2 ^ 64

/-- `for (k = 0; k <= size; k++)`: true when the `size`-th clear bit is met. -/
def bitsetFindFrom (m : Mem) (bitset : Bitset32) (size startPos : BitVec 32) :
    Nat → BitVec 32 → BitVec 32 → Bool
  | 0, _, _ => false
  | fuel + 1, k, free =>
      if k ≤ size then
        let free := if bitsetTest m bitset (startPos + k) then free else free + 1#32
        if free = size then true
        else bitsetFindFrom m bitset size startPos fuel (k + 1#32) free
      else false

/-- The body of the two outer loops at word `i` and bit `j`. `some none` is the early
`return false`, `some (some pos)` is `return true`, `none` goes on with the loop. -/
def bitsetFindAt (m : Mem) (bitset : Bitset32) (bitsetSize size : BitVec 32) (i j : Nat) :
    Option (Option (BitVec 32)) :=
  let bit := 1#32 <<< j
  if load32 m (bitsetWord bitset (BitVec.ofNat 32 i)) &&& bit = 0#32 then
    let startPos := BitVec.ofNat 32 i * 32#32 + bit
    if bitsetSize < startPos + size then some none    -- not enough space
    else if bitsetFindFrom m bitset size startPos findFuel 0#32 0#32 then
      some (some (BitVec.ofNat 32 i * 32#32 + BitVec.ofNat 32 j))
    else none
  else none

/-- The stored `*pos`, or `none` for `return false`. -/
def bitsetFind (m : Mem) (bitset : Bitset32) (bitsetSize size : BitVec 32) :
    Option (BitVec 32) :=
  if size = 0#32 then none
  else
    ((List.range (bitsetIndex bitsetSize).toNat).findSome? fun i =>
      (List.range 32).findSome? fun j => bitsetFindAt m bitset bitsetSize size i j).join

/-! ### Single bits -/

@[simp] theorem toNat_bitsetIndex (x : BitVec 32) : (bitsetIndex x).toNat = x.toNat / 32 :=
  BitVec.toNat_udiv

@[simp] theorem toNat_bitsetOffset (x : BitVec 32) :
    (bitsetOffset x).toNat = x.toNat % 32 :=
  BitVec.toNat_umod

theorem mask_eq_twoPow (x : BitVec 32) :
    1#32 <<< bitsetOffset x = BitVec.twoPow 32 (x.toNat % 32) := by
  rw [BitVec.shiftLeft_eq', toNat_bitsetOffset, BitVec.twoPow_eq]

theorem bitsetTest_eq_getLsbD (m : Mem) (bitset : Bitset32) (bit : BitVec 32) :
    bitsetTest m bitset bit =
      (load32 m (bitsetWord bitset (bitsetIndex bit))).getLsbD (bit.toNat % 32) := by
  rw [bitsetTest, mask_eq_twoPow, BitVec.and_twoPow]
  cases h : (load32 m (bitsetWord bitset (bitsetIndex bit))).getLsbD (bit.toNat % 32)
  · rfl
  · have hne : BitVec.twoPow 32 (bit.toNat % 32) ≠ 0#32 := by
      intro h0
      have := congrArg (fun v : BitVec 32 => v.getLsbD (bit.toNat % 32)) h0
      simp [BitVec.getLsbD_twoPow] at this
      omega
    simpa using hne

theorem bitsetWord_disjoint (bitset : Bitset32) (x y : BitVec 32)
    (h : x.toNat / 32 ≠ y.toNat / 32) :
    bitsetWord bitset (bitsetIndex x) + 4 ≤ bitsetWord bitset (bitsetIndex y) ∨
      bitsetWord bitset (bitsetIndex y) + 4 ≤ bitsetWord bitset (bitsetIndex x) := by
  simp only [bitsetWord, BitVec.toNat_add, BitVec.toNat_mul, toNat_bitsetIndex,
    BitVec.reduceToNat, Nat.reducePow]
  have hx := x.isLt
  have hy := y.isLt
  omega

theorem bitsetWord_congr (bitset : Bitset32) {x y : BitVec 32}
    (h : x.toNat / 32 = y.toNat / 32) :
    bitsetWord bitset (bitsetIndex x) = bitsetWord bitset (bitsetIndex y) := by
  have : bitsetIndex x = bitsetIndex y := BitVec.eq_of_toNat_eq (by simpa using h)
  rw [this]

/-- An update of one word is seen by the bits of that word only. -/
theorem bitsetTest_store32 (m : Mem) (bitset : Bitset32) (x y : BitVec 32) (v : BitVec 32) :
    bitsetTest (store32 m (bitsetWord bitset (bitsetIndex x)) v) bitset y =
      if x.toNat / 32 = y.toNat / 32 then v.getLsbD (y.toNat % 32)
      else bitsetTest m bitset y := by
  rw [bitsetTest_eq_getLsbD]
  split
  · next h => rw [bitsetWord_congr bitset h.symm, load32_store32]
  · next h =>
      rw [store32, load32_write_outside _ _ (bitsetWord_disjoint bitset y x (Ne.symm h)),
        bitsetTest_eq_getLsbD]

theorem eq_of_bit_position {x y : BitVec 32} (hw : x.toNat / 32 = y.toNat / 32)
    (ho : x.toNat % 32 = y.toNat % 32) : x = y := by
  apply BitVec.eq_of_toNat_eq
  omega

/-- In one word, positions tell bits apart. -/
theorem decide_bit_position {x y : BitVec 32} (hw : x.toNat / 32 = y.toNat / 32) :
    decide (y.toNat % 32 = x.toNat % 32) = decide (y = x) :=
  decide_eq_decide.mpr
    ⟨fun ho => (eq_of_bit_position hw ho.symm).symm, fun hxy => by rw [hxy]⟩

theorem getLsbD_mask (x : BitVec 32) (i : Nat) :
    (1#32 <<< bitsetOffset x).getLsbD i = decide (i = x.toNat % 32) := by
  rw [mask_eq_twoPow, BitVec.getLsbD_twoPow]
  have : x.toNat % 32 < 32 := Nat.mod_lt _ (by decide)
  simp [this, eq_comm]

@[simp] theorem bitsetTest_bitsetSet (m : Mem) (bitset : Bitset32) (x y : BitVec 32) :
    bitsetTest (bitsetSet m bitset x) bitset y =
      (decide (y = x) || bitsetTest m bitset y) := by
  rw [bitsetSet, bitsetTest_store32]
  split
  · next h =>
      rw [BitVec.getLsbD_or, getLsbD_mask, bitsetTest_eq_getLsbD, bitsetWord_congr bitset h,
        Bool.or_comm, decide_bit_position h]
  · next h =>
      have hne : y ≠ x := by
        intro heq
        subst heq
        exact h rfl
      simp [hne]

@[simp] theorem bitsetTest_bitsetClear (m : Mem) (bitset : Bitset32) (x y : BitVec 32) :
    bitsetTest (bitsetClear m bitset x) bitset y =
      (!decide (y = x) && bitsetTest m bitset y) := by
  rw [bitsetClear, bitsetTest_store32]
  split
  · next h =>
      have hlt : y.toNat % 32 < 32 := Nat.mod_lt _ (by decide)
      rw [BitVec.getLsbD_and, BitVec.getLsbD_not, getLsbD_mask, bitsetTest_eq_getLsbD,
        bitsetWord_congr bitset h, decide_eq_true hlt, Bool.true_and, Bool.and_comm,
        decide_bit_position h]
  · next h =>
      have hne : y ≠ x := by
        intro heq
        subst heq
        exact h rfl
      simp [hne]

/-! ### The search -/

def bitsetBits (m : Mem) (bitset : Bitset32) : Nat → Bool :=
  fun x => bitsetTest m bitset (BitVec.ofNat 32 x)

/-- `startPos` of the search at bit `p`: the mask of the bit inside its word is added,
not its offset. -/
def probeStart (p : Nat) : Nat := 32 * (p / 32) + 2 ^ (p % 32)

/-- Bit `p` is clear and `n` of the `n + 1` bits from `probeStart p` are. -/
def ProbeAccepts (bits : Nat → Bool) (n p : Nat) : Prop :=
  bits p = false ∧ n ≤ Nat.count (fun k => bits (probeStart p + k) = false) (n + 1)

/-- Bit `p` is clear and its window runs past the end of the bitset. -/
def ProbeRefuses (bits : Nat → Bool) (total n p : Nat) : Prop :=
  bits p = false ∧ total < probeStart p + n

instance (bits : Nat → Bool) (n p : Nat) : Decidable (ProbeAccepts bits n p) :=
  inferInstanceAs (Decidable (_ ∧ _))

instance (bits : Nat → Bool) (total n p : Nat) : Decidable (ProbeRefuses bits total n p) :=
  inferInstanceAs (Decidable (_ ∧ _))

/-- The innermost loop counts the clear bits of the whole window. -/
theorem bitsetFindFrom_iff (m : Mem) (bitset : Bitset32) (size startPos : BitVec 32)
    (hsize : size.toNat + 1 < 2 ^ 32) (fuel k free : Nat)
    (hfuel : size.toNat + 2 ≤ fuel + k) (hk : k ≤ size.toNat + 1)
    (hcount : free =
      Nat.count (fun i => bitsetBits m bitset (startPos.toNat + i) = false) k)
    (hfree : free < size.toNat) :
    bitsetFindFrom m bitset size startPos fuel (BitVec.ofNat 32 k) (BitVec.ofNat 32 free) ↔
      size.toNat ≤ Nat.count
        (fun i => bitsetBits m bitset (startPos.toNat + i) = false) (size.toNat + 1) := by
  induction fuel generalizing k free with
  | zero => omega
  | succ fuel ih =>
      have hkNat : (BitVec.ofNat 32 k).toNat = k := by
        rw [BitVec.toNat_ofNat, Nat.mod_eq_of_lt (by omega)]
      rw [bitsetFindFrom]
      by_cases hle : k ≤ size.toNat
      · have hbit : bitsetBits m bitset (startPos.toNat + k) =
            bitsetTest m bitset (startPos + BitVec.ofNat 32 k) := by
          rw [bitsetBits, BitVec.ofNat_add, BitVec.ofNat_toNat, BitVec.setWidth_eq]
        have hfree' : (if bitsetTest m bitset (startPos + BitVec.ofNat 32 k) then
              BitVec.ofNat 32 free else BitVec.ofNat 32 free + 1#32) =
            BitVec.ofNat 32 (Nat.count
              (fun i => bitsetBits m bitset (startPos.toNat + i) = false) (k + 1)) := by
          rw [Nat.count_succ, ← hcount, hbit]
          cases bitsetTest m bitset (startPos + BitVec.ofNat 32 k) <;>
            simp [BitVec.ofNat_add]
        have hstep := Nat.count_succ
          (fun i => bitsetBits m bitset (startPos.toNat + i) = false) k
        have hcount' : Nat.count (fun i => bitsetBits m bitset (startPos.toNat + i) = false)
            (k + 1) ≤ free + 1 := by
          rw [hstep, ← hcount]
          split <;> omega
        rw [if_pos (BitVec.le_def.mpr (by omega)), hfree']
        generalize hc : Nat.count
          (fun i => bitsetBits m bitset (startPos.toNat + i) = false) (k + 1) = c at *
        have hcNat : (BitVec.ofNat 32 c).toNat = c := by
          rw [BitVec.toNat_ofNat, Nat.mod_eq_of_lt (by omega)]
        by_cases heq : c = size.toNat
        · have hmono := Nat.count_monotone
            (fun i => bitsetBits m bitset (startPos.toNat + i) = false)
            (show k + 1 ≤ size.toNat + 1 by omega)
          have hcs : BitVec.ofNat 32 c = size := BitVec.eq_of_toNat_eq (by omega)
          simp only [hcs, if_true, true_iff]
          omega
        · have hne : BitVec.ofNat 32 c ≠ size := by
            intro h
            exact heq (by rw [← hcNat, h])
          have hk1 : BitVec.ofNat 32 k + 1#32 = BitVec.ofNat 32 (k + 1) := by
            rw [BitVec.ofNat_add]
          simp only [hne, if_false, hk1]
          exact ih (k + 1) c (by omega) (by omega) hc.symm (by omega)
      · have hlast : k = size.toNat + 1 := by omega
        rw [if_neg (by rw [BitVec.le_def]; omega), ← hlast, ← hcount]
        simp only [Bool.false_eq_true, false_iff]
        omega

/-- With `UINT32_MAX` bits asked for, `k <= size` never fails: the counter goes round
until the clear bits it meets add up, and each lap meets the bit at offset `j`. -/
theorem bitsetFindFrom_laps (m : Mem) (bitset : Bitset32) (startPos j : BitVec 32)
    (hclear : bitsetTest m bitset (startPos + j) = false) (fuel laps : Nat)
    (k free : BitVec 32) (hlaps : free.toNat + laps + 2 = 2 ^ 32)
    (hfuel : laps * 2 ^ 32 + (j - k).toNat < fuel) :
    bitsetFindFrom m bitset (BitVec.allOnes 32) startPos fuel k free = true := by
  induction fuel generalizing laps k free with
  | zero => omega
  | succ fuel ih =>
      have hmax : (BitVec.allOnes 32).toNat = 2 ^ 32 - 1 := BitVec.toNat_allOnes
      have hk := k.isLt
      rw [bitsetFindFrom, if_pos (BitVec.le_def.mpr (by omega))]
      cases htest : bitsetTest m bitset (startPos + k) with
      | true =>
          -- a set bit is not the clear one, so the counter comes one step closer to it
          have hkj : j.toNat ≠ k.toNat := by
            intro heq
            rw [BitVec.eq_of_toNat_eq heq, htest] at hclear
            cases hclear
          have hdist : (j - k).toNat = (j - (k + 1#32)).toNat + 1 := by
            simp only [BitVec.toNat_sub, BitVec.toNat_add, BitVec.reduceToNat]
            have := j.isLt
            omega
          have hne : free ≠ BitVec.allOnes 32 := by
            intro heq
            rw [heq] at hlaps
            omega
          simp only [if_true, hne, if_false]
          exact ih laps (k + 1#32) free hlaps (by omega)
      | false =>
          have hnext : (free + 1#32).toNat = free.toNat + 1 := by
            rw [BitVec.toNat_add, show (1#32).toNat = 1 from rfl]
            omega
          simp only [Bool.false_eq_true, if_false]
          cases laps with
          | zero =>
              have hlast : free + 1#32 = BitVec.allOnes 32 :=
                BitVec.eq_of_toNat_eq (by omega)
              rw [if_pos hlast]
          | succ laps =>
              have hmore : free + 1#32 ≠ BitVec.allOnes 32 := by
                intro heq
                rw [heq] at hnext
                omega
              have hdist := Nat.add_lt_add_left (j - (k + 1#32)).isLt (laps * 2 ^ 32)
              rw [if_neg hmore]
              exact ih laps (k + 1#32) (free + 1#32) (by omega)
                (Nat.lt_of_lt_of_le hdist (by omega))

variable {m : Mem} {bitset : Bitset32} {bitsetSize size : BitVec 32}

theorem wordTest_iff {p : Nat} (hp : p < 2 ^ 32) :
    load32 m (bitsetWord bitset (BitVec.ofNat 32 (p / 32))) &&& 1#32 <<< (p % 32) = 0#32 ↔
      bitsetBits m bitset p = false := by
  have hpNat : (BitVec.ofNat 32 p).toNat = p := by
    rw [BitVec.toNat_ofNat, Nat.mod_eq_of_lt hp]
  have hindex : bitsetIndex (BitVec.ofNat 32 p) = BitVec.ofNat 32 (p / 32) := by
    apply BitVec.eq_of_toNat_eq
    rw [toNat_bitsetIndex, hpNat, BitVec.toNat_ofNat, Nat.mod_eq_of_lt (by omega)]
  rw [bitsetBits, bitsetTest, hindex, BitVec.shiftLeft_eq', toNat_bitsetOffset, hpNat,
    bne_eq_false_iff_eq]

/-- The space check `startPos + size > bitset_size`, whose sum is a 32-bit one. -/
def WindowFits (total n p : Nat) : Prop := (probeStart p + n) % 2 ^ 32 ≤ total

/-- The innermost loop succeeds from `probeStart p`: at once when `n` is `UINT32_MAX`,
else when `n` of the `n + 1` bits are clear. -/
def WindowAccepts (bits : Nat → Bool) (n p : Nat) : Prop :=
  n = 2 ^ 32 - 1 ∨
    n ≤ Nat.count (fun k => bits (probeStart p % 2 ^ 32 + k) = false) (n + 1)

instance (total n p : Nat) : Decidable (WindowFits total n p) :=
  inferInstanceAs (Decidable (_ ≤ _))

instance (bits : Nat → Bool) (n p : Nat) : Decidable (WindowAccepts bits n p) :=
  inferInstanceAs (Decidable (_ ∨ _))

theorem bitsetFindFrom_window {p : Nat} (hsize : 0 < size.toNat)
    (hclear : bitsetBits m bitset p = false) :
    bitsetFindFrom m bitset size (BitVec.ofNat 32 (probeStart p)) findFuel 0#32 0#32 ↔
      WindowAccepts (bitsetBits m bitset) size.toNat p := by
  have hfuel : findFuel = 2 ^ 64 := rfl
  have hzero : (0#32).toNat = 0 := rfl
  by_cases hmax : size.toNat = 2 ^ 32 - 1
  · have hsizeEq : size = BitVec.allOnes 32 :=
      BitVec.eq_of_toNat_eq (hmax.trans BitVec.toNat_allOnes.symm)
    have hmeets : bitsetTest m bitset (BitVec.ofNat 32 (probeStart p) +
        (BitVec.ofNat 32 p - BitVec.ofNat 32 (probeStart p))) = false := by
      rw [BitVec.add_comm, BitVec.sub_add_cancel]
      exact hclear
    have hj := (BitVec.ofNat 32 p - BitVec.ofNat 32 (probeStart p) - 0#32).isLt
    rw [WindowAccepts, eq_true hmax, true_or, iff_true, hsizeEq]
    exact bitsetFindFrom_laps m bitset _ _ hmeets findFuel (2 ^ 32 - 2) 0#32 0#32 (by decide)
      (by omega)
  · have hlt := size.isLt
    have h := bitsetFindFrom_iff m bitset size (BitVec.ofNat 32 (probeStart p)) (by omega)
      findFuel 0 0 (by omega) (by omega) (by simp) hsize
    rw [BitVec.toNat_ofNat] at h
    rw [WindowAccepts, eq_false hmax, false_or]
    exact h

/-- `startPos` and the reported position, from the bit's number. -/
theorem ofNat_probeStart (p : Nat) :
    BitVec.ofNat 32 (p / 32) * 32#32 + 1#32 <<< (p % 32) = BitVec.ofNat 32 (probeStart p) := by
  have hmask : 1#32 <<< (p % 32) = BitVec.ofNat 32 (2 ^ (p % 32)) := by
    rw [← BitVec.twoPow_eq]
    exact BitVec.eq_of_toNat_eq (by rw [BitVec.toNat_twoPow, BitVec.toNat_ofNat])
  rw [hmask, probeStart, BitVec.ofNat_add, BitVec.ofNat_mul, BitVec.mul_comm]

theorem ofNat_position (p : Nat) :
    BitVec.ofNat 32 (p / 32) * 32#32 + BitVec.ofNat 32 (p % 32) = BitVec.ofNat 32 p := by
  rw [BitVec.mul_comm, ← BitVec.ofNat_mul, ← BitVec.ofNat_add, Nat.div_add_mod]

theorem spaceCheck_iff (bitsetSize size : BitVec 32) (p : Nat) :
    bitsetSize < BitVec.ofNat 32 (probeStart p) + size ↔
      ¬ WindowFits bitsetSize.toNat size.toNat p := by
  rw [BitVec.lt_def, BitVec.toNat_add, BitVec.toNat_ofNat, Nat.mod_add_mod, WindowFits,
    Nat.not_le]

theorem bitsetFindAt_eq (hsize : 0 < size.toNat) {p : Nat}
    (hp : p < 32 * (bitsetSize.toNat / 32)) :
    bitsetFindAt m bitset bitsetSize size (p / 32) (p % 32) =
      if bitsetBits m bitset p = true then none
      else if ¬ WindowFits bitsetSize.toNat size.toNat p then some none
      else if WindowAccepts (bitsetBits m bitset) size.toNat p then
        some (some (BitVec.ofNat 32 p))
      else none := by
  have hp32 : p < 2 ^ 32 := by
    have := bitsetSize.isLt
    omega
  rw [bitsetFindAt]
  cases hbit : bitsetBits m bitset p with
  | true =>
      have hword : ¬ load32 m (bitsetWord bitset (BitVec.ofNat 32 (p / 32))) &&&
          1#32 <<< (p % 32) = 0#32 := by
        rw [wordTest_iff hp32, hbit]
        exact Bool.noConfusion
      rw [if_neg hword, if_pos rfl]
  | false =>
      simp only [(wordTest_iff hp32).mpr hbit, if_true, ofNat_probeStart, ofNat_position,
        spaceCheck_iff, bitsetFindFrom_window hsize hbit, Bool.false_eq_true, if_false]

theorem bitsetFindAt_eq_none_iff (hsize : 0 < size.toNat) {p : Nat}
    (hp : p < 32 * (bitsetSize.toNat / 32)) :
    bitsetFindAt m bitset bitsetSize size (p / 32) (p % 32) = none ↔
      (bitsetBits m bitset p = false → WindowFits bitsetSize.toNat size.toNat p ∧
        ¬ WindowAccepts (bitsetBits m bitset) size.toNat p) := by
  rw [bitsetFindAt_eq hsize hp]
  cases hbit : bitsetBits m bitset p with
  | true => simp
  | false =>
      by_cases hfits : WindowFits bitsetSize.toNat size.toNat p
      · simp [hfits]
      · simp [hfits]

theorem bitsetFindAt_eq_some_iff (hsize : 0 < size.toNat) {p : Nat}
    (hp : p < 32 * (bitsetSize.toNat / 32)) {pos : BitVec 32} :
    bitsetFindAt m bitset bitsetSize size (p / 32) (p % 32) = some (some pos) ↔
      bitsetBits m bitset p = false ∧ WindowFits bitsetSize.toNat size.toNat p ∧
        WindowAccepts (bitsetBits m bitset) size.toNat p ∧ BitVec.ofNat 32 p = pos := by
  rw [bitsetFindAt_eq hsize hp]
  cases hbit : bitsetBits m bitset p with
  | true => simp
  | false =>
      by_cases hfits : WindowFits bitsetSize.toNat size.toNat p
      · simp [hfits]
      · simp [hfits]

/-- The bit the search reports: the first clear bit whose window is accepted, with no
clear bit up to it whose window fails the space check. -/
structure Selects (bits : Nat → Bool) (total n pos : Nat) : Prop where
  word : pos < 32 * (total / 32)
  clear : bits pos = false
  accepts : WindowAccepts bits n pos
  first : ∀ q < pos, bits q = false → ¬ WindowAccepts bits n q
  room : ∀ q ≤ pos, bits q = false → WindowFits total n q

/-- The exact law of the search, for every bitset size and every request. -/
theorem bitsetFind_eq_some (hsize : 0 < size.toNat) {pos : BitVec 32} :
    bitsetFind m bitset bitsetSize size = some pos ↔
      Selects (bitsetBits m bitset) bitsetSize.toNat size.toNat pos.toNat := by
  have hne : size ≠ 0#32 := by
    intro heq
    subst heq
    cases hsize
  have hlt := bitsetSize.isLt
  rw [bitsetFind, if_neg hne, toNat_bitsetIndex, findSome?_range_nested,
    Option.join_eq_some_iff, findSome?_range_eq_some, Nat.mul_comm]
  constructor
  · intro hfound
    obtain ⟨p, hp, hat, hbefore⟩ := hfound
    obtain ⟨hclear, hfits, haccepts, rfl⟩ := (bitsetFindAt_eq_some_iff hsize hp).mp hat
    have hnone (q : Nat) (hq : q < p) :=
      (bitsetFindAt_eq_none_iff hsize (by omega)).mp (hbefore q hq)
    rw [BitVec.toNat_ofNat, Nat.mod_eq_of_lt (by omega)]
    refine ⟨hp, hclear, haccepts, fun q hq hc => (hnone q hq hc).2, ?_⟩
    intro q hq hqclear
    cases Nat.lt_or_eq_of_le hq with
    | inl hlt => exact (hnone q hlt hqclear).1
    | inr heq => exact heq ▸ hfits
  · intro hsel
    have hword := hsel.word
    refine ⟨pos.toNat, hword, (bitsetFindAt_eq_some_iff hsize hword).mpr ?_, ?_⟩
    · refine ⟨hsel.clear, hsel.room _ le_rfl hsel.clear, hsel.accepts, ?_⟩
      rw [BitVec.ofNat_toNat, BitVec.setWidth_eq]
    · intro q hq
      refine (bitsetFindAt_eq_none_iff hsize (by omega)).mpr fun hqclear => ?_
      exact ⟨hsel.room q (by omega) hqclear, hsel.first q hq hqclear⟩

theorem probeStart_le {p total : Nat} (hp : p < 32 * (total / 32)) :
    probeStart p ≤ total + 2 ^ 31 := by
  have hpow : 2 ^ (p % 32) ≤ 2 ^ 31 :=
    Nat.pow_le_pow_right (by decide) (by omega)
  unfold probeStart
  omega

/-- Where no sum of the search wraps, the law in terms of the two probes. -/
theorem selects_iff {bits : Nat → Bool} {total n pos : Nat} (hroom : total + n < 2 ^ 31) :
    Selects bits total n pos ↔
      pos < 32 * (total / 32) ∧ ProbeAccepts bits n pos ∧
      (∀ q < pos, ¬ ProbeAccepts bits n q) ∧ ∀ q ≤ pos, ¬ ProbeRefuses bits total n q := by
  have haccepts (q : Nat) (hq : q < 32 * (total / 32)) (hclear : bits q = false) :
      WindowAccepts bits n q ↔ ProbeAccepts bits n q := by
    have := probeStart_le hq
    rw [WindowAccepts, ProbeAccepts, and_iff_right hclear, Nat.mod_eq_of_lt (by omega),
      or_iff_right (by omega)]
  have hfits (q : Nat) (hq : q < 32 * (total / 32)) (hclear : bits q = false) :
      WindowFits total n q ↔ ¬ ProbeRefuses bits total n q := by
    have := probeStart_le hq
    rw [WindowFits, ProbeRefuses, and_iff_right hclear, Nat.mod_eq_of_lt (by omega), Nat.not_lt]
  constructor
  · intro hsel
    have hword := hsel.word
    refine ⟨hword, (haccepts pos hword hsel.clear).mp hsel.accepts, ?_, ?_⟩
    · intro q hq haccept
      exact hsel.first q hq haccept.1 ((haccepts q (by omega) haccept.1).mpr haccept)
    · intro q hq hrefuses
      exact (hfits q (by omega) hrefuses.1).mp (hsel.room q hq hrefuses.1) hrefuses
  · intro hprobes
    obtain ⟨hword, haccept, hfirst, hrefuses⟩ := hprobes
    refine ⟨hword, haccept.1, (haccepts pos hword haccept.1).mpr haccept, ?_, ?_⟩
    · intro q hq hclear hwindow
      exact hfirst q hq ((haccepts q (by omega) hclear).mp hwindow)
    · intro q hq hclear
      exact (hfits q (by omega) hclear).mpr (hrefuses q hq)

/-- The position the search reports is the first clear bit whose window holds enough
clear bits, provided no clear bit up to it has a window past the end. -/
theorem bitsetFind_eq_some_iff (hroom : bitsetSize.toNat + size.toNat < 2 ^ 31)
    (hsize : 0 < size.toNat) {pos : BitVec 32} :
    bitsetFind m bitset bitsetSize size = some pos ↔
      pos.toNat < 32 * (bitsetSize.toNat / 32) ∧
      ProbeAccepts (bitsetBits m bitset) size.toNat pos.toNat ∧
      (∀ q < pos.toNat, ¬ ProbeAccepts (bitsetBits m bitset) size.toNat q) ∧
      ∀ q ≤ pos.toNat,
        ¬ ProbeRefuses (bitsetBits m bitset) bitsetSize.toNat size.toNat q := by
  rw [bitsetFind_eq_some hsize, selects_iff hroom]

end Bros
