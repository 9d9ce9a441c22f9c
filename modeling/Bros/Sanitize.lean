import Bros.StartInit
import Mathlib.Algebra.GroupWithZero.Nat

/-!
What `boot_info_sanitize` leaves in the memory map, and the total it reports.

The running total is one of 32 bits. A map has at most 255 entries, as `num_mem_map_entries`
is a byte, and each of them adds less than `2 ^ 22`.
-/

namespace Bros
open ByteMemory

/-- `mem_types` of `_start_PMM_init`. -/
def memTypes : List String := ["Available", "Reserved", "ACPI recl", "ACPI nvs"]

/-- `mem_types[memi.type - 1]` -/
def memTypeIndex (e : BootMemMapInfoEntry) : BitVec 32 := e.type - 1#32

/-- The four types of the table stay, any other becomes `MEM_MAP_TYPE_RESERVED`. -/
def knownType (type : BitVec 32) : BitVec 32 :=
  if 1 ≤ type.toNat ∧ type.toNat ≤ 4 then type else memMapTypeReserved

/-- The KiB an entry contributes. -/
def BootMemMapInfoEntry.availableKib (e : BootMemMapInfoEntry) : Nat :=
  if e.type = memMapTypeAvailable then e.lengthLo.toNat / 1024 else 0

/-- In whole KiB for each entry, of the low length words. -/
def availableKib (memMap : List BootMemMapInfoEntry) : Nat :=
  (memMap.map BootMemMapInfoEntry.availableKib).sum

/-- The running total of the loop after `k` entries. -/
def sanitizeTotal (memMap : List BootMemMapInfoEntry) (k : Nat) : BitVec 32 :=
  (bootInfoSanitizeLoop 0#32 (memMap.take k)).1

/-- Only types change, all of them are in the table afterwards, the running total is exact
all the way, the reported one is its maximum with the old, and a second call does nothing. -/
structure Sanitizes (totMem : BitVec 32) (memMap : List BootMemMapInfoEntry)
    (r : BitVec 32 × List BootMemMapInfoEntry) : Prop where
  types : r.2 = memMap.map fun e => { e with type := knownType e.type }
  indexed : ∀ e ∈ r.2, (memTypeIndex e).toNat < memTypes.length
  sums : ∀ k ≤ memMap.length, (sanitizeTotal memMap k).toNat = availableKib (r.2.take k)
  total : r.1.toNat = max totMem.toNat (availableKib r.2)
  again : bootInfoSanitize r.1 r.2 = r

/-! ### Types -/

theorem sanitizeEntry_eq (e : BootMemMapInfoEntry) :
    sanitizeEntry e = { e with type := knownType e.type } := by
  have hbad : memMapTypeBad ≤ e.type ↔ 5 ≤ e.type.toNat := Iff.rfl
  have herror : e.type = memMapTypeError ↔ e.type.toNat = 0 := BitVec.toNat_inj.symm
  rw [sanitizeEntry, knownType]
  by_cases hknown : 1 ≤ e.type.toNat ∧ e.type.toNat ≤ 4
  · rw [if_pos hknown, if_neg]
    rw [hbad, herror]
    omega
  · rw [if_neg hknown, if_pos]
    rw [hbad, herror]
    omega

theorem knownType_range (type : BitVec 32) :
    1 ≤ (knownType type).toNat ∧ (knownType type).toNat ≤ 4 := by
  rw [knownType]
  split
  · next h => exact h
  · decide

theorem knownType_knownType (type : BitVec 32) : knownType (knownType type) = knownType type :=
  if_pos (knownType_range type)

theorem sanitizeEntry_sanitizeEntry (e : BootMemMapInfoEntry) :
    sanitizeEntry (sanitizeEntry e) = sanitizeEntry e := by
  rw [sanitizeEntry_eq, sanitizeEntry_eq, knownType_knownType]

theorem sanitizeEntry_indexed (e : BootMemMapInfoEntry) :
    (memTypeIndex (sanitizeEntry e)).toNat < memTypes.length := by
  obtain ⟨hpos, hle⟩ := knownType_range e.type
  rw [sanitizeEntry_eq, memTypeIndex, BitVec.toNat_sub]
  change (2 ^ 32 - 1 + (knownType e.type).toNat) % 2 ^ 32 < 4
  omega

/-- No entry of the map `_start_PMM_init` walks is outside its table of names. -/
theorem startBootInfo_indexed {m : Mem} {sysInfo : BitVec 32} {memMap : List BootMemMapInfoEntry}
    (h : startBootInfo m sysInfo = some memMap) :
    ∀ e ∈ memMap, (memTypeIndex e).toNat < memTypes.length := by
  simp only [startBootInfo, bootInfoSanitize_snd] at h
  split at h
  · cases h
  · intro e he
    rw [← Option.some.inj h] at he
    obtain ⟨e', -, rfl⟩ := List.mem_map.mp he
    exact sanitizeEntry_indexed e'

/-! ### The total -/

theorem BootMemMapInfoEntry.availableKib_lt (e : BootMemMapInfoEntry) :
    e.availableKib < 2 ^ 22 := by
  have hlt := e.lengthLo.isLt
  rw [availableKib]
  split <;> omega

/-- One round adds what the entry contributes, as long as the total has room for it. -/
theorem toNat_sanitizeStep (totMemMap : BitVec 32) (e : BootMemMapInfoEntry)
    (hroom : totMemMap.toNat + e.availableKib < 2 ^ 32) :
    (if e.type = memMapTypeAvailable then totMemMap + e.lengthLo / 1024#32
      else totMemMap).toNat = totMemMap.toNat + e.availableKib := by
  rw [BootMemMapInfoEntry.availableKib] at hroom ⊢
  split
  · next h =>
      rw [if_pos h] at hroom
      rw [BitVec.toNat_add, BitVec.toNat_udiv]
      exact Nat.mod_eq_of_lt hroom
  · rfl

theorem bootInfoSanitizeLoop_fst {totMemMap : BitVec 32} {memMap : List BootMemMapInfoEntry}
    (hroom : totMemMap.toNat + memMap.length * 2 ^ 22 < 2 ^ 32) :
    (bootInfoSanitizeLoop totMemMap memMap).1.toNat =
      totMemMap.toNat + availableKib (memMap.map sanitizeEntry) := by
  induction memMap generalizing totMemMap with
  | nil => rfl
  | cons e es ih =>
      have hlt := (sanitizeEntry e).availableKib_lt
      rw [List.length_cons] at hroom
      have hstep := toNat_sanitizeStep totMemMap (sanitizeEntry e) (by omega)
      rw [bootInfoSanitizeLoop]
      dsimp only
      rw [ih (by omega), hstep, availableKib, availableKib, List.map_cons, List.map_cons,
        List.sum_cons, Nat.add_assoc]

/-- A second pass adds the same lengths. -/
theorem bootInfoSanitizeLoop_again (totMemMap : BitVec 32) (memMap : List BootMemMapInfoEntry) :
    bootInfoSanitizeLoop totMemMap (memMap.map sanitizeEntry) =
      bootInfoSanitizeLoop totMemMap memMap := by
  induction memMap generalizing totMemMap with
  | nil => rfl
  | cons e es ih =>
      simp only [List.map_cons, bootInfoSanitizeLoop, sanitizeEntry_sanitizeEntry, ih]

theorem bootInfoSanitize_fst (totMem : BitVec 32) {memMap : List BootMemMapInfoEntry}
    (hne : memMap.length ≠ 0) : (bootInfoSanitize totMem memMap).1 =
      if totMem < (bootInfoSanitizeLoop 0#32 memMap).1 then (bootInfoSanitizeLoop 0#32 memMap).1
      else totMem := by
  rw [bootInfoSanitize, if_neg hne]

theorem bootInfoSanitize_again (totMem : BitVec 32) (memMap : List BootMemMapInfoEntry) :
    bootInfoSanitize (bootInfoSanitize totMem memMap).1 (bootInfoSanitize totMem memMap).2 =
      bootInfoSanitize totMem memMap := by
  rw [bootInfoSanitize_snd]
  by_cases hempty : memMap.length = 0
  · rw [List.length_eq_zero_iff.mp hempty]
    rfl
  · have hempty' : (memMap.map sanitizeEntry).length ≠ 0 := by rwa [List.length_map]
    refine Prod.ext ?_ ?_
    · rw [bootInfoSanitize_fst _ hempty', bootInfoSanitizeLoop_again,
        bootInfoSanitize_fst _ hempty]
      split
      · exact if_neg (BitVec.lt_irrefl _)
      · rfl
    · rw [bootInfoSanitize_snd, bootInfoSanitize_snd, List.map_map]
      exact List.map_congr_left fun e _ => sanitizeEntry_sanitizeEntry e

/-- Each prefix of the map has its exact running total. -/
theorem toNat_sanitizeTotal {memMap : List BootMemMapInfoEntry} (hlength : memMap.length ≤ 255)
    (k : Nat) :
    (sanitizeTotal memMap k).toNat = availableKib ((memMap.map sanitizeEntry).take k) := by
  have hle := List.length_take_le' k memMap
  have hzero : (0#32).toNat = 0 := rfl
  rw [sanitizeTotal, bootInfoSanitizeLoop_fst (by omega), hzero, Nat.zero_add, List.map_take]

theorem bootInfoSanitize_total (totMem : BitVec 32) {memMap : List BootMemMapInfoEntry}
    (hlength : memMap.length ≤ 255) : (bootInfoSanitize totMem memMap).1.toNat =
      max totMem.toNat (availableKib (memMap.map sanitizeEntry)) := by
  by_cases hempty : memMap.length = 0
  · rw [List.length_eq_zero_iff.mp hempty]
    exact (Nat.max_zero _).symm
  · have hsum := toNat_sanitizeTotal hlength memMap.length
    rw [sanitizeTotal, List.take_length, ← List.length_map sanitizeEntry, List.take_length] at hsum
    rw [bootInfoSanitize_fst totMem hempty, ← hsum]
    split
    · next hlt => exact (Nat.max_eq_right (Nat.le_of_lt hlt)).symm
    · next hle => exact (Nat.max_eq_left (Nat.le_of_not_lt hle)).symm

/-- Every map that can be handed over is sanitized, whatever is in it and whatever total the
boot loader reports. -/
theorem memory_map_sanitized (totMem : BitVec 32) (memMap : List BootMemMapInfoEntry)
    (hlength : memMap.length ≤ 255) :
    Sanitizes totMem memMap (bootInfoSanitize totMem memMap) := by
  refine ⟨?_, ?_, fun k _ => ?_, ?_, bootInfoSanitize_again totMem memMap⟩
  · rw [bootInfoSanitize_snd]
    exact List.map_congr_left fun e _ => sanitizeEntry_eq e
  · intro e he
    rw [bootInfoSanitize_snd] at he
    obtain ⟨e', -, rfl⟩ := List.mem_map.mp he
    exact sanitizeEntry_indexed e'
  · rw [bootInfoSanitize_snd]
    exact toNat_sanitizeTotal hlength k
  · rw [bootInfoSanitize_snd]
    exact bootInfoSanitize_total totMem hlength

/-- Low memory, an entry without a type, memory above 1 MiB, ACPI tables, and a type that is
not in the table. -/
def mixedMap : List BootMemMapInfoEntry :=
  [{ baseAddrLo := 0#32, baseAddrHi := 0#32, lengthLo := 0x9FC00#32, lengthHi := 0#32,
     type := memMapTypeAvailable, acpi := 0#32 },
   { baseAddrLo := 0x9FC00#32, baseAddrHi := 0#32, lengthLo := 0x400#32, lengthHi := 0#32,
     type := 0#32, acpi := 0#32 },
   { baseAddrLo := 0x100000#32, baseAddrHi := 0#32, lengthLo := 0x1EE0000#32, lengthHi := 0#32,
     type := memMapTypeAvailable, acpi := 0#32 },
   { baseAddrLo := 0x1FE0000#32, baseAddrHi := 0#32, lengthLo := 0x10000#32, lengthHi := 0#32,
     type := 3#32, acpi := 0#32 },
   { baseAddrLo := 0xFFFC0000#32, baseAddrHi := 0#32, lengthLo := 0x40000#32, lengthHi := 0#32,
     type := 7#32, acpi := 0#32 }]

theorem memory_map_sanitized_mixed :
    Sanitizes 1024#32 mixedMap (bootInfoSanitize 1024#32 mixedMap) ∧
      (bootInfoSanitize 1024#32 mixedMap).1 = 32255#32 ∧
      (bootInfoSanitize 1024#32 mixedMap).2.map BootMemMapInfoEntry.type =
        [1#32, 2#32, 1#32, 3#32, 2#32] :=
  ⟨memory_map_sanitized 1024#32 mixedMap (by decide), by decide, by decide⟩

end Bros
