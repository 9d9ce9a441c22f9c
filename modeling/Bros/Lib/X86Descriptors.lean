import Bros.Lib.Memory

/-!
Gates and segment descriptors as a 32-bit x86 reads them.

A descriptor is eight bytes of memory. The fields of an address lie apart in it.
-/

namespace X86Descriptors
open ByteMemory

@[ext]
structure Gate where
  offset : BitVec 32
  selector : BitVec 16
  /-- The type, with the bit that tells system descriptors from segments. -/
  kind : BitVec 5
  dpl : BitVec 2
  present : Bool
deriving DecidableEq

def gateAt (m : Mem) (a : Nat) : Gate where
  offset := load16 m (a + 6) ++ load16 m a
  selector := load16 m (a + 2)
  kind := (m (a + 5)).extractLsb' 0 5
  dpl := (m (a + 5)).extractLsb' 5 2
  present := (m (a + 5)).getLsbD 7

def interruptGate32 : BitVec 5 := 0xE#5

@[ext]
structure Segment where
  base : BitVec 32
  limit : BitVec 20
  kind : BitVec 5
  dpl : BitVec 2
  present : Bool
  /-- 32-bit code, or a 32-bit stack pointer. -/
  big : Bool
  granular : Bool
deriving DecidableEq

def segmentAt (m : Mem) (a : Nat) : Segment where
  base := (m (a + 7) ++ m (a + 4)) ++ load16 m (a + 2)
  limit := (m (a + 6)).extractLsb' 0 4 ++ load16 m a
  kind := (m (a + 5)).extractLsb' 0 5
  dpl := (m (a + 5)).extractLsb' 5 2
  present := (m (a + 5)).getLsbD 7
  big := (m (a + 6)).getLsbD 6
  granular := (m (a + 6)).getLsbD 7

/-- The last byte of an expand-up segment. -/
def Segment.lastOffset (s : Segment) : Nat :=
  if s.granular then 4096 * s.limit.toNat + 4095 else s.limit.toNat

def codeReadable : BitVec 5 := 0x1A#5

def dataWritable : BitVec 5 := 0x12#5

def tssAvailable32 : BitVec 5 := 0x09#5

/-- The exceptions for which the processor pushes an error code. -/
def pushesErrorCode (v : Nat) : Bool := v ∈ [8, 10, 11, 12, 13, 14, 17, 21]

theorem gateAt_congr {m m' : Mem} {a : Nat} (h : ∀ b, a ≤ b → b < a + 8 → m b = m' b) :
    gateAt m a = gateAt m' a := by
  have word (k : Nat) (hk : k + 2 ≤ 8) : load16 m (a + k) = load16 m' (a + k) :=
    load16_congr fun b hb hb' => h b (by omega) (by omega)
  have word0 : load16 m a = load16 m' a := word 0 (by decide)
  simp only [gateAt, word0, word 2 (by decide), word 6 (by decide), h (a + 5) (by omega) (by omega)]

theorem segmentAt_congr {m m' : Mem} {a a' : Nat} (h : ∀ k < 8, m (a + k) = m' (a' + k)) :
    segmentAt m a = segmentAt m' a' := by
  have h0 : m a = m' a' := h 0 (by decide)
  simp only [segmentAt, load16, Nat.add_assoc, Nat.reduceAdd, h0, h 1 (by decide), h 2 (by decide),
    h 3 (by decide), h 4 (by decide), h 5 (by decide), h 6 (by decide), h 7 (by decide)]

/-- Masking to the width of a field is what narrowing to it does anyway. -/
theorem setWidth_and_mask {n w : Nat} (x : BitVec n) {mask : BitVec n}
    (h : mask.toNat = 2 ^ w - 1) : (x &&& mask).setWidth w = x.setWidth w := by
  apply BitVec.eq_of_toNat_eq
  rw [BitVec.toNat_setWidth, BitVec.toNat_and, h, Nat.and_two_pow_sub_one_eq_mod, Nat.mod_mod,
    BitVec.toNat_setWidth]

/-- The halves of an address, masked and shifted into their fields. -/
theorem append_halves (x : BitVec 32) :
    (x >>> 16 &&& 0xFFFF#32).setWidth 16 ++ (x &&& 0xFFFF#32).setWidth 16 = x := by
  rw [setWidth_and_mask _ rfl, setWidth_and_mask _ rfl]
  apply BitVec.eq_of_getLsbD_eq
  intro i hi
  rw [BitVec.getLsbD_append]
  by_cases hlow : i < 16
  · simp [hlow]
  · have hhigh : i - 16 < 16 := by omega
    simp [hlow, hhigh, Nat.add_sub_cancel' (Nat.not_lt.mp hlow)]

/-- The same for a low half and two bytes. -/
theorem append_half_bytes (x : BitVec 32) :
    ((x >>> 24 &&& 0xFF#32).setWidth 8 ++ (x >>> 16 &&& 0xFF#32).setWidth 8) ++
      (x &&& 0xFFFF#32).setWidth 16 = x := by
  have hhigh : (x >>> 24 &&& 0xFF#32).setWidth 8 ++ (x >>> 16 &&& 0xFF#32).setWidth 8 =
      (x >>> 16 &&& 0xFFFF#32).setWidth 16 := by
    have hshift : x >>> 24 = x >>> 16 >>> 8 := by rw [← BitVec.shiftRight_add]
    apply BitVec.eq_of_toNat_eq
    rw [hshift, toNat_two_bytes (by decide), setWidth_and_mask _ rfl, BitVec.toNat_setWidth]
  rw [hhigh, append_halves]

end X86Descriptors
