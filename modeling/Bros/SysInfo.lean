import Bros.BootInfo

/-!
The `SYS_INFO` block that `boot2.asm` writes at `0x600`, with `GetMemoryMap`.

The BIOS answers each `int 15h` with a reply record. `counted` is a ghost: the slots
that `GetMemoryMap` counts, each with the entry it held at that moment. The kernel finds
the end marker by the stored count; `sys_info_handover_iff` says when the two agree.
-/

namespace Bros
open ByteMemory

/-- What `int 15h`, `EAX = E820h` returns, with the bytes it stores at `ES:DI`. -/
structure E820Reply where
  carry : Bool
  eax : BitVec 32
  ebx : BitVec 32
  cx : BitVec 16
  data : List Byte
  data_le : data.length ≤ 24

def smap : BitVec 32 := 0x534D4150#32

def entrySize : BitVec 16 := 24#16

structure MemMapState where
  mem : Mem
  di : BitVec 16
  bp : BitVec 16
  counted : List (Nat × BootMemMapInfoEntry)

/-- `add di, ENTRY_SIZE` and `inc bp`. -/
def countEntry (s : MemMapState) : MemMapState :=
  { s with
    di := s.di + entrySize
    bp := s.bp + 1#16
    counted := s.counted ++ [(s.di.toNat, readEntry s.mem s.di.toNat)] }

def storeReply (s : MemMapState) (r : E820Reply) : MemMapState :=
  { s with mem := write s.mem s.di.toNat r.data.length fun i => r.data.getD i 0#8 }

/-- `GetMemoryMap_loop`; `none` when it asks for more replies than are listed. -/
def getMemoryMapLoop (s : MemMapState) : List E820Reply → Option MemMapState
  | [] => none
  | r :: rs =>
      let s := storeReply s r
      if r.carry ∨ r.eax ≠ smap then some { s with bp := 0#16 }    -- GetMemoryMap_error
      else
        let s := if r.cx = 0#16 then s else countEntry s
        if r.ebx = 0#32 then some s else getMemoryMapLoop s rs

def getMemoryMap (m : Mem) (di : BitVec 16) (replies : List E820Reply) :
    Option MemMapState :=
  getMemoryMapLoop { mem := m, di, bp := 0#16, counted := [] } replies

def sysInfoSeg : BitVec 16 := 0x600#16

/-- The block once it is stored: the memory, the address of the end marker and the
result of `GetMemoryMap`. -/
structure StoredSysInfo where
  mem : Mem
  endMarker : Nat
  map : MemMapState

/-- `Store SYS_INFO values`, from the total memory and the kernel file size that the
earlier steps have left in registers. -/
def storeSysInfo (m : Mem) (totMem fileSize : BitVec 32) (drvNum : Byte)
    (replies : List E820Reply) : Option StoredSysInfo :=
  let di := sysInfoSeg
  let m := store32 m di.toNat sysInfoBegin
  let m := store32 m (di + 4#16).toNat totMem
  let m := store32 m (di + 8#16).toNat fileSize
  let m := store8 m (di + 12#16).toNat drvNum
  let di := di + 13#16
  (getMemoryMap m (di + 1#16) replies).map fun map =>
    let m := store8 map.mem di.toNat (map.bp.setWidth 8)
    { mem := store32 m map.di.toNat sysInfoEnd, endMarker := map.di.toNat, map }

/-! ### Complete reply sequences -/

/-- The reply passes both error checks. -/
def E820Reply.Succeeds (r : E820Reply) : Prop := ¬ (r.carry ∨ r.eax ≠ smap)

/-- `GetMemoryMap` asks for another reply after this one. -/
def E820Reply.Continues (r : E820Reply) : Prop := r.Succeeds ∧ r.ebx ≠ 0#32

instance (r : E820Reply) : Decidable r.Succeeds := inferInstanceAs (Decidable (¬ (_ ∨ _)))

instance (r : E820Reply) : Decidable r.Continues := inferInstanceAs (Decidable (_ ∧ _))

/-- The replies of one `GetMemoryMap`: only the last one ends the loop. -/
structure E820Replies where
  more : List E820Reply
  last : E820Reply
  more_continues : ∀ r ∈ more, r.Continues
  last_ends : ¬ last.Continues

def E820Replies.toList (rs : E820Replies) : List E820Reply := rs.more ++ [rs.last]

def numEntries (rs : List E820Reply) : Nat :=
  rs.countP fun r => decide (r.Succeeds ∧ r.cx ≠ 0#16)

def E820Replies.numEntries (rs : E820Replies) : Nat := Bros.numEntries rs.toList

/-! ### The loop -/

def firstEntry : Nat := 0x60E

/-- The loop invariant. Slots follow each other from `0x60E`; as long as the next one
starts below the 64 KiB wrap, those before it read back and nothing below them moves. -/
structure MemMapInv (m0 : Mem) (s : MemMapState) : Prop where
  di : s.di = BitVec.ofNat 16 (firstEntry + 24 * s.counted.length)
  bp : s.bp = BitVec.ofNat 16 s.counted.length
  slots : s.counted.map Prod.fst =
    (List.range s.counted.length).map fun i => (firstEntry + 24 * i) % 2 ^ 16
  entries : s.counted.length ≤ 106 → s.counted.map Prod.snd =
    (List.range s.counted.length).map fun i => readEntry s.mem (firstEntry + 24 * i)
  header : s.counted.length ≤ 106 → ∀ a < firstEntry, s.mem a = m0 a

theorem MemMapInv.di_toNat {m0 : Mem} {s : MemMapState} (inv : MemMapInv m0 s)
    (h : s.counted.length ≤ 106) :
    s.di.toNat = firstEntry + 24 * s.counted.length := by
  have hfirst : firstEntry = 0x60E := rfl
  rw [inv.di, BitVec.toNat_ofNat]
  omega

theorem MemMapInv.init (m : Mem) :
    MemMapInv m { mem := m, di := 0x60E#16, bp := 0#16, counted := [] } :=
  ⟨rfl, rfl, rfl, fun _ => rfl, fun _ _ _ => rfl⟩

theorem MemMapInv.store {m0 : Mem} {s : MemMapState} (inv : MemMapInv m0 s) (r : E820Reply) :
    MemMapInv m0 (storeReply s r) := by
  have below (h : s.counted.length ≤ 106) (a : Nat)
      (ha : a < firstEntry + 24 * s.counted.length) : (storeReply s r).mem a = s.mem a := by
    have hlt : a < s.di.toNat := by rwa [inv.di_toNat h]
    exact write_outside s.mem (fun i => r.data.getD i 0#8) (Or.inl hlt)
  refine ⟨inv.di, inv.bp, inv.slots, ?_, ?_⟩
  · intro h
    refine (inv.entries h).trans (List.map_congr_left ?_)
    intro i hi
    have hi := List.mem_range.mp hi
    exact readEntry_congr fun a _ ha => (below h a (by omega)).symm
  · intro h a ha
    exact (below h a (by omega)).trans (inv.header h a ha)

theorem MemMapInv.count {m0 : Mem} {s : MemMapState} (inv : MemMapInv m0 s) :
    MemMapInv m0 (countEntry s) := by
  have hlen : (countEntry s).counted.length = s.counted.length + 1 := by
    simp [countEntry]
  refine ⟨?_, ?_, ?_, ?_, ?_⟩
  · rw [hlen, Nat.mul_succ, ← Nat.add_assoc, BitVec.ofNat_add, ← inv.di]
    rfl
  · rw [hlen, BitVec.ofNat_add, ← inv.bp]
    rfl
  · rw [hlen, List.range_succ, List.map_append, ← inv.slots, countEntry, List.map_append,
      inv.di, BitVec.toNat_ofNat]
    rfl
  · intro h
    rw [hlen] at h
    rw [hlen, List.range_succ, List.map_append, countEntry, List.map_append,
      inv.entries (by omega), inv.di_toNat (by omega)]
    rfl
  · intro h
    rw [hlen] at h
    exact inv.header (by omega)

def takeReply (s : MemMapState) (r : E820Reply) : MemMapState :=
  if r.cx = 0#16 then storeReply s r else countEntry (storeReply s r)

theorem MemMapInv.take {m0 : Mem} {s : MemMapState} (inv : MemMapInv m0 s) (r : E820Reply) :
    MemMapInv m0 (takeReply s r) := by
  unfold takeReply
  split
  · exact inv.store r
  · exact (inv.store r).count

theorem takeReply_length {s : MemMapState} {r : E820Reply} (h : r.Succeeds) :
    (takeReply s r).counted.length = s.counted.length + numEntries [r] := by
  by_cases hcx : r.cx = 0#16
  · simp [takeReply, numEntries, hcx, storeReply]
  · simp [takeReply, numEntries, hcx, storeReply, countEntry, h]

/-- The loop goes through the replies that continue it. -/
theorem getMemoryMapLoop_continues (more rest : List E820Reply) (s : MemMapState)
    (h : ∀ r ∈ more, r.Continues) :
    getMemoryMapLoop s (more ++ rest) = getMemoryMapLoop (more.foldl takeReply s) rest := by
  induction more generalizing s with
  | nil => rfl
  | cons r more ih =>
      obtain ⟨hok, hebx⟩ := h r List.mem_cons_self
      rw [List.cons_append, getMemoryMapLoop, if_neg hok, if_neg hebx]
      exact ih (takeReply s r) fun r' hr' => h r' (List.mem_cons_of_mem r hr')

theorem MemMapInv.more {m0 : Mem} (more : List E820Reply) {s : MemMapState}
    (inv : MemMapInv m0 s) (h : ∀ r ∈ more, r.Succeeds) :
    MemMapInv m0 (more.foldl takeReply s) ∧
      (more.foldl takeReply s).counted.length = s.counted.length + numEntries more := by
  induction more generalizing s with
  | nil => exact ⟨inv, rfl⟩
  | cons r more ih =>
      obtain ⟨hinv, hlen⟩ := ih (inv.take r) fun r' hr' => h r' (List.mem_cons_of_mem r hr')
      refine ⟨hinv, ?_⟩
      rw [List.foldl_cons, hlen, takeReply_length (h r List.mem_cons_self)]
      simp only [numEntries, List.countP_cons, List.countP_nil]
      omega

/-- What `GetMemoryMap` returns: the slots it advanced over, and as count either their
number or, when the last reply failed, zero. -/
theorem getMemoryMap_spec (m : Mem) (rs : E820Replies) :
    ∃ s bp, getMemoryMap m 0x60E#16 rs.toList = some { s with bp } ∧ MemMapInv m s ∧
      s.counted.length = rs.numEntries ∧
      bp = if rs.last.Succeeds then s.bp else 0#16 := by
  obtain ⟨inv, hlen⟩ := (MemMapInv.init m).more rs.more fun r hr => (rs.more_continues r hr).1
  have hnum : rs.numEntries = numEntries rs.more + numEntries [rs.last] :=
    List.countP_append
  rw [getMemoryMap, E820Replies.toList, getMemoryMapLoop_continues _ _ _ rs.more_continues]
  generalize rs.more.foldl takeReply _ = s at inv hlen
  by_cases hok : rs.last.Succeeds
  · have hebx : rs.last.ebx = 0#32 := by
      by_contra hebx
      exact rs.last_ends ⟨hok, hebx⟩
    refine ⟨takeReply s rs.last, (takeReply s rs.last).bp, ?_, inv.take _, ?_, by rw [if_pos hok]⟩
    · rw [getMemoryMapLoop, if_neg hok, if_pos hebx]
      rfl
    · rw [takeReply_length hok, hlen, hnum, List.length_nil, Nat.zero_add]
  · refine ⟨storeReply s rs.last, 0#16, ?_, inv.store _, ?_, by rw [if_neg hok]⟩
    · rw [getMemoryMapLoop, if_pos (not_not.mp hok)]
    · have hlast : numEntries [rs.last] = 0 := by simp [numEntries, hok]
      rw [hnum, hlast]
      exact hlen.trans (Nat.zero_add _)

/-! ### The hand-over -/

/-- The kernel's view of the block agrees with what was stored, and the block ends below
the kernel image: each counted slot and the end marker lie below `0x1000`, the marker is
where the kernel looks for it, and the entries are the counted ones. -/
structure HandedOver (b : StoredSysInfo) : Prop where
  slots_below : ∀ slot ∈ b.map.counted, slot.1 + 24 ≤ 0x1000
  marker_below : b.endMarker + 4 ≤ 0x1000
  begin_marker : sysInfoBeginMarker b.mem 0x600#32 = sysInfoBegin
  marker_ptr : (sysInfoEndMarkerPtr b.mem 0x600#32).toNat = b.endMarker
  marker : load32 b.mem (sysInfoEndMarkerPtr b.mem 0x600#32).toNat = sysInfoEnd
  entries : memMapEntries b.mem 0x600#32 =
    (b.map.counted.map Prod.snd).take b.map.bp.toNat

theorem storeSysInfo_spec (m : Mem) (totMem fileSize : BitVec 32) (drvNum : Byte)
    (rs : E820Replies) :
    ∃ b m0 s, storeSysInfo m totMem fileSize drvNum rs.toList = some b ∧ MemMapInv m0 s ∧
      s.counted.length = rs.numEntries ∧ load32 m0 0x600 = sysInfoBegin ∧
      b.map.counted = s.counted ∧ b.endMarker = s.di.toNat ∧
      b.map.bp = (if rs.last.Succeeds then s.bp else 0#16) ∧
      b.mem = store32 (store8 s.mem 0x60D (b.map.bp.setWidth 8)) s.di.toNat sysInfoEnd := by
  obtain ⟨s, bp, hmap, inv, hlen, hbp⟩ := getMemoryMap_spec
    (store8 (store32 (store32 (store32 m 0x600 sysInfoBegin) 0x604 totMem) 0x608 fileSize)
      0x60C drvNum) rs
  refine ⟨_, _, s, Option.map_eq_some_iff.mpr ⟨_, hmap, rfl⟩, inv, hlen, ?_, rfl, rfl, hbp, rfl⟩
  rw [store8, load32_write_outside _ _ (by omega), store32, load32_write_outside _ _ (by omega),
    store32, load32_write_outside _ _ (by omega), load32_store32]

theorem HandedOver.numEntries_le {m0 : Mem} {b : StoredSysInfo} {s : MemMapState}
    (h : HandedOver b) (inv : MemMapInv m0 s) (hcounted : b.map.counted = s.counted)
    (hmarker : b.endMarker = s.di.toNat) : s.counted.length ≤ 105 := by
  have hfirst : firstEntry = 0x60E := rfl
  by_contra hgt
  have hslots := h.slots_below
  rw [hcounted] at hslots
  by_cases h106 : s.counted.length = 106
  · have := h.marker_below
    rw [hmarker, inv.di_toNat (by omega)] at this
    omega
  · -- the 107th slot starts two bytes below the image
    have hmem : (firstEntry + 24 * 106) % 2 ^ 16 ∈ s.counted.map Prod.fst := by
      rw [inv.slots]
      exact List.mem_map_of_mem (List.mem_range.mpr (by omega))
    obtain ⟨slot, hslot, haddr⟩ := List.mem_map.mp hmem
    have := hslots slot hslot
    omega

/-- The kernel reads the count that is stored, and nothing below the marker moves. -/
theorem sysInfo_readback {m0 : Mem} {s : MemMapState} (inv : MemMapInv m0 s)
    (h : s.counted.length ≤ 105) (num : Byte) :
    let mem := store32 (store8 s.mem 0x60D num) s.di.toNat sysInfoEnd
    sysInfoNumMemMapEntries mem 0x600#32 = num ∧
      sysInfoBeginMarker mem 0x600#32 = load32 m0 0x600 ∧
      (sysInfoEndMarkerPtr mem 0x600#32).toNat = firstEntry + 24 * num.toNat ∧
      load32 mem s.di.toNat = sysInfoEnd ∧
      (num.toNat ≤ s.counted.length →
        memMapEntries mem 0x600#32 = (s.counted.map Prod.snd).take num.toNat) := by
  intro mem
  have hfirst : firstEntry = 0x60E := rfl
  have hdi := inv.di_toNat (by omega)
  have hmem (a : Nat) (ha : a < s.di.toNat) (hne : a ≠ 0x60D) : mem a = s.mem a := by
    rw [show mem a = _ from write_outside _ _ (Or.inl ha)]
    exact write_outside _ _ (by omega)
  have hnum : sysInfoNumMemMapEntries mem 0x600#32 = num := by
    change mem 0x60D = num
    rw [show mem 0x60D = _ from write_outside _ _ (Or.inl (by omega))]
    exact write_offset s.mem 0x60D 1 0 _ (by decide)
  have hlt := num.isLt
  refine ⟨hnum, ?_, ?_, load32_store32 _ _ _, ?_⟩
  · change load32 mem 0x600 = load32 m0 0x600
    apply load32_congr
    intro a hlow hhigh
    rw [hmem a (by omega) (by omega), inv.header (by omega) a (by omega)]
  · rw [sysInfoEndMarkerPtr, hnum]
    simp only [BitVec.toNat_add, BitVec.toNat_mul, BitVec.toNat_setWidth, bootSysInfoSize,
      bootMemMapInfoEntrySize, BitVec.reduceToNat, hfirst]
    omega
  · intro hle
    rw [memMapEntries, hnum, inv.entries (by omega), ← List.map_take, List.take_range,
      Nat.min_eq_left hle]
    apply List.map_congr_left
    intro i hi
    have hi := List.mem_range.mp hi
    have hentry : (memMapEntryPtr 0x600#32).toNat = firstEntry := rfl
    exact readEntry_congr fun a hlow hhigh => hmem a (by omega) (by omega)

/-- The sequences for which the hand-over works: a failure comes before the first entry,
and the entries with the header and the marker fit below the image. -/
def E820Replies.Fits (rs : E820Replies) : Prop :=
  (¬ rs.last.Succeeds → rs.numEntries = 0) ∧ rs.numEntries ≤ 105

/-- A failure after entries leaves the marker behind the entries and a count of zero. -/
theorem HandedOver.fits {m0 : Mem} {b : StoredSysInfo} {s : MemMapState} {rs : E820Replies}
    (h : HandedOver b) (inv : MemMapInv m0 s) (hlen : s.counted.length = rs.numEntries)
    (hcounted : b.map.counted = s.counted) (hmarker : b.endMarker = s.di.toNat)
    (hbp : b.map.bp = if rs.last.Succeeds then s.bp else 0#16)
    (hmem : b.mem =
      store32 (store8 s.mem 0x60D (b.map.bp.setWidth 8)) s.di.toNat sysInfoEnd) : rs.Fits := by
  have hle := h.numEntries_le inv hcounted hmarker
  refine ⟨?_, by omega⟩
  intro hfail
  rw [if_neg hfail] at hbp
  have hptr := (sysInfo_readback inv hle (b.map.bp.setWidth 8)).2.2.1
  have hread := h.marker_ptr
  rw [hmem, hptr, hmarker, hbp, inv.di_toNat (by omega)] at hread
  simp only [BitVec.setWidth_zero, BitVec.toNat_zero] at hread
  omega

/-- The block `boot2` stores is handed over exactly when no failure follows an entry and
at most 105 entries are counted. -/
theorem sys_info_handover_iff (m : Mem) (totMem fileSize : BitVec 32) (drvNum : Byte)
    (rs : E820Replies) :
    (∃ b, storeSysInfo m totMem fileSize drvNum rs.toList = some b ∧ HandedOver b) ↔
      rs.Fits := by
  obtain ⟨b, m0, s, hb, inv, hlen, hbegin, hcounted, hmarker, hbp, hmem⟩ :=
    storeSysInfo_spec m totMem fileSize drvNum rs
  have hfirst : firstEntry = 0x60E := rfl
  constructor
  · intro hstored
    obtain ⟨b', hb', h⟩ := hstored
    rw [hb] at hb'
    injection hb' with hb'
    subst hb'
    exact h.fits inv hlen hcounted hmarker hbp hmem
  · intro hfits
    obtain ⟨hfail, hle⟩ := hfits
    have hbpNat : b.map.bp.toNat = s.counted.length := by
      rw [hbp]
      split
      · rw [inv.bp, BitVec.toNat_ofNat]
        omega
      · next h => rw [hlen, hfail h, BitVec.toNat_zero]
    have hnum : (b.map.bp.setWidth 8).toNat = s.counted.length := by
      rw [BitVec.toNat_setWidth, hbpNat]
      omega
    obtain ⟨-, hread, hptr, hload, hentries⟩ :=
      sysInfo_readback inv (by omega) (b.map.bp.setWidth 8)
    rw [← hmem] at hread hptr hload hentries
    have hdi := inv.di_toNat (by omega)
    have hptr' : (sysInfoEndMarkerPtr b.mem 0x600#32).toNat = b.endMarker := by
      rw [hptr, hnum, hmarker, hdi]
    refine ⟨b, hb, ?_, ?_, by rw [hread, hbegin], hptr', by rw [hptr', hmarker, hload], ?_⟩
    · intro slot hslot
      have haddr := List.mem_map_of_mem (f := Prod.fst) hslot
      rw [hcounted, inv.slots] at haddr
      obtain ⟨i, hi, haddr⟩ := List.mem_map.mp haddr
      have hi := List.mem_range.mp hi
      rw [Nat.mod_eq_of_lt (by omega)] at haddr
      omega
    · rw [hmarker, hdi]
      omega
    · rw [hentries (by omega), hcounted, hnum, hbpNat]

def replyAvailable : E820Reply where
  carry := false
  eax := smap
  ebx := 1#32
  cx := 20#16
  data := [0, 0, 0, 0, 0, 0, 0, 0, 0, 0, 16, 0, 0, 0, 0, 0, 1, 0, 0, 0]
  data_le := by decide

/-- The carry flag with error code `86h` in `AH`. -/
def replyFailure : E820Reply where
  carry := true
  eax := 0x8600#32
  ebx := 0#32
  cx := 0#16
  data := []
  data_le := by decide

/-- An entry, then a failure: the count is zero and the marker is not where the kernel
looks for it. -/
theorem sys_info_failure_after_entry :
    ∃ rs : E820Replies, rs.toList = [replyAvailable, replyFailure] ∧
      ¬ ∃ b, storeSysInfo (fun _ => 0#8) 0x8000#32 0x6000#32 0#8 rs.toList = some b ∧
        HandedOver b := by
  let rs : E820Replies :=
    { more := [replyAvailable]
      last := replyFailure
      more_continues := by decide
      last_ends := by decide }
  refine ⟨rs, rfl, ?_⟩
  intro hstored
  obtain ⟨b, hb, h⟩ := hstored
  obtain ⟨b', m0, s, hb', inv, hlen, -, hcounted, hmarker, hbp, hmem⟩ :=
    storeSysInfo_spec (fun _ => 0#8) 0x8000#32 0x6000#32 0#8 rs
  rw [hb] at hb'
  injection hb' with hb'
  subst hb'
  have hfits := h.fits inv hlen hcounted hmarker hbp hmem
  exact absurd (hfits.1 (by decide)) (by decide)

end Bros
