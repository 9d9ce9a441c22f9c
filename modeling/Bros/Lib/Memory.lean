import Mathlib.Algebra.Group.Nat.Defs
import Mathlib.Tactic.Common

/-!
Byte-addressed memory with little-endian words.

A memory is a total function from addresses to bytes. Every store is an instance
of `write`, so one pair of inside/outside lemmas frames all of them. Addresses are
natural numbers: a machine that computes them in fixed-width arithmetic converts
at the access, which keeps disjointness a matter of linear arithmetic.
-/

namespace ByteMemory

abbrev Byte := BitVec 8

abbrev Mem := Nat → Byte

/-- Replace the `n` bytes from `a` by `data 0, data 1, ...`. -/
def write (m : Mem) (a n : Nat) (data : Nat → Byte) : Mem :=
  fun b => if a ≤ b ∧ b < a + n then data (b - a) else m b

theorem write_inside (m : Mem) {a n b : Nat} (data : Nat → Byte)
    (h : a ≤ b ∧ b < a + n) : write m a n data b = data (b - a) :=
  if_pos h

theorem write_outside (m : Mem) {a n b : Nat} (data : Nat → Byte)
    (h : b < a ∨ a + n ≤ b) : write m a n data b = m b :=
  if_neg (by omega)

@[simp] theorem write_offset (m : Mem) (a n i : Nat) (data : Nat → Byte) (h : i < n) :
    write m a n data (a + i) = data i := by
  rw [write_inside m data ⟨by omega, by omega⟩, Nat.add_sub_cancel_left]

@[simp] theorem write_zero (m : Mem) (a : Nat) (data : Nat → Byte) :
    write m a 0 data = m := by
  funext b
  exact write_outside m data (by omega)

/-- The `i`-th byte of a word in memory order. -/
def byteAt {w : Nat} (v : BitVec w) (i : Nat) : Byte :=
  v.extractLsb' (8 * i) 8

theorem getLsbD_byteAt {w : Nat} (v : BitVec w) (i j : Nat) (hj : j < 8) :
    (byteAt v i).getLsbD j = v.getLsbD (8 * i + j) := by
  simp [byteAt, hj]

section
variable {w : Nat}

/-- A word's low byte, masked and narrowed. -/
theorem toNat_low_byte (hw : 8 ≤ w) (x : BitVec w) :
    ((x &&& 0xFF#w).setWidth 8).toNat = x.toNat % 2 ^ 8 := by
  have hle : 2 ^ 8 ≤ 2 ^ w := Nat.pow_le_pow_right (by decide) hw
  have hmask : (0xFF#w).toNat = 2 ^ 8 - 1 := Nat.mod_eq_of_lt (by omega)
  rw [BitVec.toNat_setWidth, BitVec.toNat_and, hmask, Nat.and_two_pow_sub_one_eq_mod,
    Nat.mod_mod]

theorem toNat_shifted_byte (hw : 8 ≤ w) (x : BitVec w) (k : Nat) :
    ((x >>> k &&& 0xFF#w).setWidth 8).toNat = x.toNat / 2 ^ k % 2 ^ 8 := by
  rw [toNat_low_byte hw, BitVec.toNat_ushiftRight, Nat.shiftRight_eq_div_pow]

/-- The two low bytes of a word, put together again. -/
theorem toNat_two_bytes (hw : 8 ≤ w) (x : BitVec w) :
    ((x >>> 8 &&& 0xFF#w).setWidth 8 ++ (x &&& 0xFF#w).setWidth 8).toNat =
      x.toNat % 2 ^ 16 := by
  rw [BitVec.toNat_append, toNat_shifted_byte hw, Nat.shiftLeft_eq, Nat.mul_comm,
    toNat_low_byte hw, ← Nat.two_pow_add_eq_or_of_lt (Nat.mod_lt _ (by decide))]
  omega

end

def store8 (m : Mem) (a : Nat) (v : Byte) : Mem := write m a 1 (fun _ => v)

def store16 (m : Mem) (a : Nat) (v : BitVec 16) : Mem := write m a 2 (byteAt v)

def store32 (m : Mem) (a : Nat) (v : BitVec 32) : Mem := write m a 4 (byteAt v)

def load16 (m : Mem) (a : Nat) : BitVec 16 := m (a + 1) ++ m a

def load32 (m : Mem) (a : Nat) : BitVec 32 :=
  m (a + 3) ++ (m (a + 2) ++ (m (a + 1) ++ m a))

theorem getLsbD_load16 (m : Mem) (a i : Nat) (h : i < 16) :
    (load16 m a).getLsbD i = (m (a + i / 8)).getLsbD (i % 8) := by
  have hi : i / 8 = 0 ∨ i / 8 = 1 := by omega
  rcases hi with hi | hi <;> simp only [load16, BitVec.getLsbD_append, hi]
  · rw [if_pos (by omega), Nat.mod_eq_of_lt (by omega)]
    rfl
  · rw [if_neg (by omega), show i % 8 = i - 8 by omega]

theorem getLsbD_load32 (m : Mem) (a i : Nat) (h : i < 32) :
    (load32 m a).getLsbD i = (m (a + i / 8)).getLsbD (i % 8) := by
  have hi : i / 8 = 0 ∨ i / 8 = 1 ∨ i / 8 = 2 ∨ i / 8 = 3 := by omega
  rcases hi with hi | hi | hi | hi <;> simp only [load32, BitVec.getLsbD_append, hi]
  · rw [if_pos (by omega), if_pos (by omega), if_pos (by omega),
      Nat.mod_eq_of_lt (by omega)]
    rfl
  · rw [if_pos (by omega), if_pos (by omega), if_neg (by omega),
      show i % 8 = i - 8 by omega]
  · rw [if_pos (by omega), if_neg (by omega), show i % 8 = i - (8 + 8) by omega]
  · rw [if_neg (by omega), show i % 8 = i - (8 + (8 + 8)) by omega]

theorem toNat_load16 (m : Mem) (a : Nat) :
    (load16 m a).toNat = (m a).toNat + 256 * (m (a + 1)).toNat := by
  rw [load16, BitVec.toNat_append, ← Nat.shiftLeft_add_eq_or_of_lt (m a).isLt,
    Nat.shiftLeft_eq]
  omega

theorem load16_congr {m m' : Mem} {a : Nat} (h : ∀ b, a ≤ b → b < a + 2 → m b = m' b) :
    load16 m a = load16 m' a := by
  simp only [load16, h a (by omega) (by omega), h (a + 1) (by omega) (by omega)]

theorem load32_congr {m m' : Mem} {a : Nat} (h : ∀ b, a ≤ b → b < a + 4 → m b = m' b) :
    load32 m a = load32 m' a := by
  simp only [load32, h a (by omega) (by omega), h (a + 1) (by omega) (by omega),
    h (a + 2) (by omega) (by omega), h (a + 3) (by omega) (by omega)]

theorem load32_write_outside (m : Mem) {a n b : Nat} (data : Nat → Byte)
    (h : b + 4 ≤ a ∨ a + n ≤ b) : load32 (write m a n data) b = load32 m b :=
  load32_congr (fun _ _ _ => write_outside m data (by omega))

@[simp] theorem load16_store16 (m : Mem) (a : Nat) (v : BitVec 16) :
    load16 (store16 m a v) a = v := by
  apply BitVec.eq_of_getLsbD_eq
  intro i hi
  rw [getLsbD_load16 _ _ _ hi, store16, write_offset _ _ _ _ _ (by omega),
    getLsbD_byteAt _ _ _ (by omega), Nat.div_add_mod]

@[simp] theorem load32_store32 (m : Mem) (a : Nat) (v : BitVec 32) :
    load32 (store32 m a v) a = v := by
  apply BitVec.eq_of_getLsbD_eq
  intro i hi
  rw [getLsbD_load32 _ _ _ hi, store32, write_offset _ _ _ _ _ (by omega),
    getLsbD_byteAt _ _ _ (by omega), Nat.div_add_mod]

def storeBytes (m : Mem) (a : Nat) (bs : List Byte) : Mem :=
  write m a bs.length fun i => bs.getD i 0#8

@[simp] theorem storeBytes_nil (m : Mem) (a : Nat) : storeBytes m a [] = m := write_zero m a _

theorem storeBytes_cons (m : Mem) (a : Nat) (b : Byte) (bs : List Byte) :
    storeBytes m a (b :: bs) = storeBytes (store8 m a b) (a + 1) bs := by
  funext c
  simp only [storeBytes, store8, write, List.length_cons]
  by_cases hrest : a + 1 ≤ c ∧ c < a + 1 + bs.length
  · have hindex : c - a = c - (a + 1) + 1 := by omega
    rw [if_pos hrest, if_pos (by omega), hindex, List.getD_cons_succ]
  · rw [if_neg hrest]
    by_cases hfirst : c = a
    · rw [if_pos (by omega), if_pos (by omega), hfirst, Nat.sub_self]
      rfl
    · rw [if_neg (by omega), if_neg (by omega)]

theorem storeBytes_apply (m : Mem) (a : Nat) (b : Byte) (bs : List Byte) :
    storeBytes m a (b :: bs) a = b := by
  rw [storeBytes, write_inside _ _ (by simp), Nat.sub_self]
  rfl

def loadBytes (m : Mem) (a n : Nat) : List Byte := (List.range n).map fun i => m (a + i)

/-- What has been stored comes first. -/
theorem loadBytes_storeBytes (m : Mem) (a : Nat) (bs : List Byte) (n : Nat) :
    ∃ rest, loadBytes (storeBytes m a bs) a (bs.length + n) = bs ++ rest := by
  refine ⟨(List.range n).map fun i => storeBytes m a bs (a + (bs.length + i)), ?_⟩
  rw [loadBytes, List.range_add, List.map_append, List.map_map]
  congr 1
  apply List.ext_getElem
  · rw [List.length_map, List.length_range]
  · intro i hi hbs
    rw [List.getElem_map, List.getElem_range, storeBytes, write_offset _ _ _ _ _ hbs,
      (List.getElem_eq_getD 0#8).symm]

/-- An ascending copy of `n` chunks of `k` bytes, each chunk read before it is written. -/
def copyChunks (k : Nat) : Nat → Mem → Nat → Nat → Mem
  | 0, m, _, _ => m
  | n + 1, m, dst, src =>
      copyChunks k n (write m dst k (fun i => m (src + i))) (dst + k) (src + k)

/-- Ascending copies are exact when the destination does not run into bytes still
to be read: it lies below the source, or past its end. -/
theorem copyChunks_apply (k n : Nat) (m : Mem) (dst src : Nat)
    (h : dst ≤ src ∨ src + k * n ≤ dst) :
    copyChunks k n m dst src = write m dst (k * n) (fun i => m (src + i)) := by
  induction n generalizing m dst src with
  | zero => simp [copyChunks]
  | succ n ih =>
      have hk : k * (n + 1) = k * n + k := Nat.mul_succ k n
      rw [copyChunks, ih _ _ _ (by omega)]
      funext b
      by_cases hb : dst + k ≤ b ∧ b < dst + k + k * n
      · rw [write_inside _ _ hb, write_outside _ _ (by omega), write_inside _ _ (by omega)]
        congr 1
        omega
      · rw [write_outside _ _ (by omega)]
        by_cases hb' : dst ≤ b ∧ b < dst + k
        · rw [write_inside _ _ hb', write_inside _ _ (by omega)]
        · rw [write_outside _ _ (by omega), write_outside _ _ (by omega)]

/-- A copy writes nowhere but to its destination. -/
theorem copyChunks_outside (k n : Nat) (m : Mem) {dst a : Nat} (src : Nat)
    (h : a < dst ∨ dst + k * n ≤ a) : copyChunks k n m dst src a = m a := by
  induction n generalizing m dst src with
  | zero => rfl
  | succ n ih =>
      have hk : k * (n + 1) = k * n + k := Nat.mul_succ k n
      rw [copyChunks, ih _ _ (by omega), write_outside _ _ (by omega)]

/-! ### Agreement from an address on -/

/-- The memories agree from address `b` on. -/
def AgreeFrom (b : Nat) (m m' : Mem) : Prop := ∀ a, b ≤ a → m a = m' a

theorem AgreeFrom.refl (b : Nat) (m : Mem) : AgreeFrom b m m := fun _ _ => rfl

theorem AgreeFrom.trans {b : Nat} {m m' m'' : Mem} (h : AgreeFrom b m m')
    (h' : AgreeFrom b m' m'') : AgreeFrom b m m'' := fun a ha => (h a ha).trans (h' a ha)

theorem agreeFrom_write {b a n : Nat} (m : Mem) (data : Nat → Byte) (h : a + n ≤ b) :
    AgreeFrom b (write m a n data) m :=
  fun _ hb => write_outside m data (by omega)

theorem agreeFrom_store8 {b a : Nat} (m : Mem) (v : Byte) (h : a + 1 ≤ b) :
    AgreeFrom b (store8 m a v) m := agreeFrom_write m _ h

theorem agreeFrom_store32 {b a : Nat} (m : Mem) (v : BitVec 32) (h : a + 4 ≤ b) :
    AgreeFrom b (store32 m a v) m := agreeFrom_write m _ h

end ByteMemory
