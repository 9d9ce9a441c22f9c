import Bros.Lib.Memory

/-!
The `SYS_INFO` block of `bios/boot_info.h` as the kernel reads it, and
`boot_info_sanitize`. The entry array is passed between kernel functions by pointer
and nothing else writes it, so those functions take it as a list.
-/

namespace Bros
open ByteMemory

/-- `KERNEL_SEG`: the boot-time load address; the stack grows down from it. -/
def kernelSeg : BitVec 32 := 0x1000#32

/-- `KERNEL_HIMEM`: where the boot loader relocates the image to. -/
def kernelHimem : BitVec 32 := 0x100000#32

def sysInfoBegin : BitVec 32 := 0x12345678#32

def sysInfoEnd : BitVec 32 := 0x87654321#32

def memMapTypeError : BitVec 32 := 0#32

def memMapTypeAvailable : BitVec 32 := 1#32

def memMapTypeReserved : BitVec 32 := 2#32

def memMapTypeBad : BitVec 32 := 5#32

structure BootMemMapInfoEntry where
  baseAddrLo : BitVec 32
  baseAddrHi : BitVec 32
  lengthLo : BitVec 32
  lengthHi : BitVec 32
  type : BitVec 32
  acpi : BitVec 32
deriving DecidableEq, Repr

def bootSysInfoSize : BitVec 32 := 14#32

def bootMemMapInfoEntrySize : BitVec 32 := 24#32

def readEntry (m : Mem) (a : Nat) : BootMemMapInfoEntry where
  baseAddrLo := load32 m a
  baseAddrHi := load32 m (a + 4)
  lengthLo := load32 m (a + 8)
  lengthHi := load32 m (a + 12)
  type := load32 m (a + 16)
  acpi := load32 m (a + 20)

theorem readEntry_congr {m m' : Mem} {a : Nat} (h : ∀ b, a ≤ b → b < a + 24 → m b = m' b) :
    readEntry m a = readEntry m' a := by
  have word (k : Nat) (hk : k ≤ 20) : load32 m (a + k) = load32 m' (a + k) :=
    load32_congr fun b _ _ => h b (by omega) (by omega)
  simp only [readEntry, word 4 (by omega), word 8 (by omega), word 12 (by omega),
    word 16 (by omega), word 20 (by omega), show load32 m a = load32 m' a from word 0 (by omega)]

def sysInfoBeginMarker (m : Mem) (sysInfo : BitVec 32) : BitVec 32 :=
  load32 m sysInfo.toNat

def sysInfoTotMem (m : Mem) (sysInfo : BitVec 32) : BitVec 32 :=
  load32 m (sysInfo + 4#32).toNat

def sysInfoNumMemMapEntries (m : Mem) (sysInfo : BitVec 32) : Byte :=
  m (sysInfo + 13#32).toNat

def sysInfoEndMarkerPtr (m : Mem) (sysInfo : BitVec 32) : BitVec 32 :=
  sysInfo + bootSysInfoSize +
    (sysInfoNumMemMapEntries m sysInfo).setWidth 32 * bootMemMapInfoEntrySize

def memMapEntryPtr (sysInfo : BitVec 32) : BitVec 32 := sysInfo + bootSysInfoSize

/-- The `num_mem_map_entries` entries the kernel walks from `MEM_MAP_ENTRY_PTR`. -/
def memMapEntries (m : Mem) (sysInfo : BitVec 32) : List BootMemMapInfoEntry :=
  (List.range (sysInfoNumMemMapEntries m sysInfo).toNat).map fun i =>
    readEntry m ((memMapEntryPtr sysInfo).toNat + 24 * i)

/-- The type fix at the head of the sanitizing loop. -/
def sanitizeEntry (e : BootMemMapInfoEntry) : BootMemMapInfoEntry :=
  if memMapTypeBad ≤ e.type ∨ e.type = memMapTypeError then
    { e with type := memMapTypeReserved }
  else e

/-- The loop of `boot_info_sanitize` with its running total. -/
def bootInfoSanitizeLoop (totMemMap : BitVec 32) :
    List BootMemMapInfoEntry → BitVec 32 × List BootMemMapInfoEntry
  | [] => (totMemMap, [])
  | e :: es =>
      let e := sanitizeEntry e
      let totMemMap :=
        if e.type = memMapTypeAvailable then totMemMap + e.lengthLo / 1024#32 else totMemMap
      let rest := bootInfoSanitizeLoop totMemMap es
      (rest.1, e :: rest.2)

def bootInfoSanitize (totMem : BitVec 32) (memMap : List BootMemMapInfoEntry) :
    BitVec 32 × List BootMemMapInfoEntry :=
  if memMap.length = 0 then (totMem, memMap)
  else
    let (totMemMap, memMap) := bootInfoSanitizeLoop 0#32 memMap
    (if totMem < totMemMap then totMemMap else totMem, memMap)

@[simp] theorem bootInfoSanitizeLoop_snd (totMemMap : BitVec 32)
    (memMap : List BootMemMapInfoEntry) :
    (bootInfoSanitizeLoop totMemMap memMap).2 = memMap.map sanitizeEntry := by
  induction memMap generalizing totMemMap with
  | nil => rfl
  | cons e es ih => simp only [bootInfoSanitizeLoop, List.map_cons, ih]

@[simp] theorem bootInfoSanitize_snd (totMem : BitVec 32) (memMap : List BootMemMapInfoEntry) :
    (bootInfoSanitize totMem memMap).2 = memMap.map sanitizeEntry := by
  unfold bootInfoSanitize
  split
  · next h => simp [List.length_eq_zero_iff.mp h]
  · simp

theorem sanitizeEntry_available (e : BootMemMapInfoEntry) :
    (sanitizeEntry e).type = memMapTypeAvailable ↔ e.type = memMapTypeAvailable := by
  unfold sanitizeEntry
  split
  · next h =>
      have hne : e.type ≠ memMapTypeAvailable := by
        intro he
        rw [he] at h
        revert h
        decide
      simp only [hne, iff_false]
      decide
  · rfl

@[simp] theorem sanitizeEntry_range (e : BootMemMapInfoEntry) :
    (sanitizeEntry e).baseAddrLo = e.baseAddrLo ∧ (sanitizeEntry e).lengthLo = e.lengthLo ∧
      (sanitizeEntry e).baseAddrHi = e.baseAddrHi ∧
      (sanitizeEntry e).lengthHi = e.lengthHi := by
  unfold sanitizeEntry
  split <;> exact ⟨rfl, rfl, rfl, rfl⟩

end Bros
