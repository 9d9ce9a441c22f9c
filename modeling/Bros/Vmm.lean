import Bros.BitsetFind
import Bros.IsrIrq
import Bros.Lib.Paging

/-!
`VMM_init` of `arch/x86/mmu/VMM.c` and the translation it sets up.

The page directory and the page table are frames of `PMM_malloc`, cleared and filled by
loops over physical memory. The statics of `VMM.c` are fields of the state: no frame holds
them. `isr_handlers` of `ISR_IRQ.c` is in memory, and `VMM_init` stores to it between filling
the table and loading `cr3`.
-/

namespace Bros
open ByteMemory Paging

/-- `isrHandlers` is the address of `isr_handlers`. -/
structure VmmState where
  pmm : Pmm
  isrHandlers : Nat
  kernelDirectory : Paddr
  currentDirectory : Paddr
  cr0 : BitVec 32
  cr3 : BitVec 32

/-- `sizeof(page_table_t)` and `sizeof(page_directory_t)`. -/
def pageTableSize : BitVec 32 := 4096#32

def pageTableEntries : Nat := 1024

def pteFrame (x : BitVec 32) : BitVec 32 := x <<< 12

def ptePresent : BitVec 32 := 1#32

def pteWritable : BitVec 32 := 2#32

def intPageFault : BitVec 8 := 14#8

def cr0PgMask : BitVec 32 := 0x80000000#32

/-- `for (i = first; i < last; ++i)` over the stores to `page_table->entries[i]`. -/
def vmmFillTable (m : Mem) (pageTable : Paddr) (first last : Nat) : Mem :=
  (List.range' first (last - first)).foldl
    (fun m i => store32 m (pageTable + 4#32 * BitVec.ofNat 32 i).toNat
      (pteFrame (BitVec.ofNat 32 i) ||| ptePresent ||| pteWritable)) m

/-- What `VMM_init` does to memory between its allocations and `cr3`: both structures
are cleared, the table is filled and becomes entry 0 of the directory. -/
def vmmInitTables (m : Mem) (directory pageTable : Paddr) : Mem :=
  let m := memset m directory 0#8 pageTableSize
  let m := memset m pageTable 0#8 pageTableSize
  -- first 1MB
  let m := vmmFillTable m pageTable 0 256
  -- first 4MB after 1st 1MB
  let m := vmmFillTable m pageTable 256 pageTableEntries
  store32 m directory.toNat (pageTable ||| ptePresent ||| pteWritable)

def vmmSwitchPageDirectory (s : VmmState) (pageDirectory : Paddr) : Bool × VmmState :=
  if pageDirectory = 0#32 then (false, s)
  else (true, { s with currentDirectory := pageDirectory, cr3 := pageDirectory })

def vmmEnablePaging (s : VmmState) : VmmState := { s with cr0 := s.cr0 ||| cr0PgMask }

def vmmDisablePaging (s : VmmState) : VmmState := { s with cr0 := s.cr0 ||| ~~~cr0PgMask }

def vmmInit (pageFaultHandler : BitVec 32) (s : VmmState) : Bool × VmmState :=
  let (pmm, directory) := pmmMalloc s.pmm pageTableSize
  let (pmm, pageTable) := pmmMalloc pmm pageTableSize
  let s := { s with pmm, kernelDirectory := directory }
  if pageTable = 0#32 ∨ directory = 0#32 then (false, s)
  else
    let m := vmmInitTables pmm.mem directory pageTable
    let m := isrStoreHandler m s.isrHandlers intPageFault pageFaultHandler
    let s := { s with pmm := { pmm with mem := m } }
    match vmmSwitchPageDirectory s s.kernelDirectory with
    | (false, s) => (false, s)
    | (true, s) => (true, vmmEnablePaging s)

/-! ### Pages of physical memory -/

theorem memset_page (m : Mem) {buf : Paddr} (val : Byte) (halign : buf.toNat % 2 ^ 12 = 0) :
    memset m buf val pageTableSize = write m buf.toNat 4096 fun _ => val := by
  have hsize : pageTableSize.toNat = 4096 := rfl
  have hlt := buf.isLt
  funext a
  have hcond : (a < 2 ^ 32 ∧ BitVec.ofNat 32 a - buf < pageTableSize) ↔
      buf.toNat ≤ a ∧ a < buf.toNat + 4096 := by
    rw [BitVec.lt_def, BitVec.toNat_sub, BitVec.toNat_ofNat, hsize]
    omega
  rw [memset, write]
  exact if_congr hcond rfl rfl

theorem vmmFillTable_eq_fill (m : Mem) {pageTable : Paddr} (first : Nat) {last : Nat}
    (halign : pageTable.toNat % 2 ^ 12 = 0) (hlast : last ≤ 1024) :
    vmmFillTable m pageTable first last =
      fill pageTable.toNat
        (fun i => pteFrame (BitVec.ofNat 32 i) ||| (ptePresent ||| pteWritable))
        (List.range' first (last - first)) m := by
  rw [vmmFillTable, fill]
  apply List.foldl_ext
  intro m i hi
  have hi' := List.mem_range'_1.mp hi
  have hlt := pageTable.isLt
  have haddr : (pageTable + 4#32 * BitVec.ofNat 32 i).toNat = pageTable.toNat + 4 * i := by
    rw [BitVec.toNat_add, BitVec.toNat_mul, show (4#32).toNat = 4 from rfl, BitVec.toNat_ofNat]
    omega
  rw [haddr, BitVec.or_assoc]

theorem toNat_pteFrame {i : Nat} (hi : i < 2 ^ 20) :
    (pteFrame (BitVec.ofNat 32 i)).toNat = i * 4096 := by
  rw [pteFrame, BitVec.toNat_shiftLeft, BitVec.toNat_ofNat, Nat.shiftLeft_eq]
  omega

/-- The page table and directory in memory, in terms of their entries. -/
structure IdentityTables (m : Mem) (directory pageTable : Paddr) : Prop where
  directoryAligned : directory.toNat % 2 ^ 12 = 0
  tableAligned : pageTable.toNat % 2 ^ 12 = 0
  pde : load32 m directory.toNat = pageTable ||| (ptePresent ||| pteWritable)
  absent : ∀ k, 0 < k → k < 1024 → load32 m (directory.toNat + 4 * k) = 0#32
  pte : ∀ i < 1024, load32 m (pageTable.toNat + 4 * i) =
    pteFrame (BitVec.ofNat 32 i) ||| (ptePresent ||| pteWritable)

/-- Two different pages do not meet. -/
theorem pages_apart {a b : BitVec 32} (ha : a.toNat % 2 ^ 12 = 0) (hb : b.toNat % 2 ^ 12 = 0)
    (hne : a ≠ b) : a.toNat + 4096 ≤ b.toNat ∨ b.toNat + 4096 ≤ a.toNat := by
  have hne' : a.toNat ≠ b.toNat := fun h => hne (BitVec.eq_of_toNat_eq h)
  omega

theorem identityTables (m : Mem) {directory pageTable : Paddr}
    (hdir : directory.toNat % 2 ^ 12 = 0) (htable : pageTable.toNat % 2 ^ 12 = 0)
    (hne : directory ≠ pageTable) :
    IdentityTables (vmmInitTables m directory pageTable) directory pageTable := by
  have hapart := pages_apart hdir htable hne
  rw [vmmInitTables, vmmFillTable_eq_fill _ _ htable (show 256 ≤ 1024 by decide),
    vmmFillTable_eq_fill _ _ htable (show pageTableEntries ≤ 1024 by decide),
    memset_page _ _ hdir, memset_page _ _ htable, BitVec.or_assoc]
  have hlow : ∀ i ∈ List.range' 0 (256 - 0), i < 1024 := by
    intro i hi
    have := List.mem_range'_1.mp hi
    omega
  have hhigh : ∀ i ∈ List.range' 256 (pageTableEntries - 256), i < 1024 := by
    intro i hi
    have := List.mem_range'_1.mp hi
    simp only [pageTableEntries] at this
    omega
  refine ⟨hdir, htable, load32_store32 _ _ _, ?_, ?_⟩
  · intro k hk hk'
    -- the slot is in the cleared directory, which the table's stores do not reach
    have hword : ∀ b, directory.toNat + 4 * k ≤ b → b < directory.toNat + 4 * k + 4 →
        store32 (fill pageTable.toNat
          (fun i => pteFrame (BitVec.ofNat 32 i) ||| (ptePresent ||| pteWritable))
          (List.range' 256 (pageTableEntries - 256))
          (fill pageTable.toNat
            (fun i => pteFrame (BitVec.ofNat 32 i) ||| (ptePresent ||| pteWritable))
            (List.range' 0 (256 - 0))
            (write (write m directory.toNat 4096 fun _ => 0#8) pageTable.toNat 4096
              fun _ => 0#8))) directory.toNat (pageTable ||| (ptePresent ||| pteWritable)) b =
          0#8 := by
      intro b hb hb'
      rw [store32, write_outside _ _ (by omega), fill_outside _ hhigh _ (by omega),
        fill_outside _ hlow _ (by omega), write_outside _ _ (by omega),
        write_inside _ _ (by omega)]
    rw [load32, hword _ (by omega) (by omega), hword _ (by omega) (by omega),
      hword _ (by omega) (by omega), hword _ (by omega) (by omega)]
    rfl
  · intro i hi
    rw [store32, load32_write_outside _ _ (by omega), load32_fill, load32_fill]
    by_cases hi256 : 256 ≤ i
    · rw [if_pos (List.mem_range'_1.mpr (by simp only [pageTableEntries]; omega))]
    · rw [if_neg (fun h => hi256 (List.mem_range'_1.mp h).1),
        if_pos (List.mem_range'_1.mpr (by omega))]

/-- A store outside the two pages. -/
theorem IdentityTables.store_outside {m : Mem} {directory pageTable : Paddr}
    (h : IdentityTables m directory pageTable) {a : Nat} (v : BitVec 32)
    (hdir : a + 4 ≤ directory.toNat ∨ directory.toNat + 4096 ≤ a)
    (htable : a + 4 ≤ pageTable.toNat ∨ pageTable.toNat + 4096 ≤ a) :
    IdentityTables (store32 m a v) directory pageTable := by
  have hsame {b : Nat} (hb : b + 4 ≤ a ∨ a + 4 ≤ b) : load32 (store32 m a v) b = load32 m b := by
    rw [store32, load32_write_outside _ _ hb]
  refine ⟨h.directoryAligned, h.tableAligned, ?_, ?_, ?_⟩
  · rw [hsame (by omega)]
    exact h.pde
  · intro k hk hk'
    rw [hsame (by omega)]
    exact h.absent k hk hk'
  · intro i hi
    rw [hsame (by omega)]
    exact h.pte i hi

/-! ### The walk -/

theorem IdentityTables.walk_below {m : Mem} {directory pageTable : Paddr}
    (h : IdentityTables m directory pageTable) {v : BitVec 32} (hv : v.toNat < 2 ^ 22) :
    walk m directory v = some ⟨v, true, false⟩ := by
  have hdirIndex : directoryIndex v = 0 := Nat.div_eq_of_lt hv
  have htableIndex : tableIndex v = v.toNat / 2 ^ 12 := Nat.mod_eq_of_lt (by omega)
  have hpage := toNat_pteFrame (i := v.toNat / 2 ^ 12) (by omega)
  have hpde : load32 m ((frameBase directory).toNat + 4 * directoryIndex v) =
      pageTable ||| (ptePresent ||| pteWritable) := by
    rw [frameBase_of_aligned h.directoryAligned, hdirIndex]
    exact h.pde
  have hpte : load32 m (pageTable.toNat + 4 * tableIndex v) =
      pteFrame (BitVec.ofNat 32 (v.toNat / 2 ^ 12)) ||| (ptePresent ||| pteWritable) := by
    rw [htableIndex]
    exact h.pte _ (by omega)
  rw [walk_present h.tableAligned (by rw [hpage]; omega) (by decide) (by decide) hpde hpte]
  have hphys : pteFrame (BitVec.ofNat 32 (v.toNat / 2 ^ 12)) +
      BitVec.ofNat 32 (v.toNat % 2 ^ 12) = v := by
    apply BitVec.eq_of_toNat_eq
    rw [BitVec.toNat_add, hpage, BitVec.toNat_ofNat]
    omega
  rw [hphys]
  rfl

theorem IdentityTables.walk_above {m : Mem} {directory pageTable : Paddr}
    (h : IdentityTables m directory pageTable) {v : BitVec 32} (hv : 2 ^ 22 ≤ v.toNat) :
    walk m directory v = none := by
  have hlt := v.isLt
  have hindex : 0 < directoryIndex v ∧ directoryIndex v < 1024 := by
    unfold directoryIndex
    omega
  apply walk_not_present
  rw [frameBase_of_aligned h.directoryAligned, h.absent _ hindex.1 hindex.2]
  rfl

/-! ### Two pages of the allocator -/

theorem size2frame_page : size2frame pageTableSize = 1#32 := by decide

/-- A request for one page passes the check of the counter and settles on frame `pos`. -/
def GrantsPage (p : Pmm) (pos : BitVec 32) : Prop :=
  1#32 ≤ BitVec.ofInt 32 (pmmFramesFree p) ∧ Selects p.bits p.totalFrames.toNat 1 pos.toNat

theorem pmmFind_page_iff {p : Pmm} {pos : BitVec 32} :
    pmmFind p pageTableSize = some pos ↔ GrantsPage p pos := by
  rw [pmmFind_eq_some (by decide), size2frame_page]
  rfl

/-- The page is marked and counted, as `PMM_init` marks a clear frame. -/
theorem pmmMalloc_page_eq {p : Pmm} {pos : BitVec 32} (h : GrantsPage p pos) :
    pmmMalloc p pageTableSize = (pmmMarkFrame p pos, pos * pmmFrameSize) := by
  have hclear : bitsetTest p.mem p.framesMap pos = false := by
    have hclear := h.2.clear
    rwa [Pmm.bits, bitsetBits, BitVec.ofNat_toNat, BitVec.setWidth_eq] at hclear
  have hloop : (List.range (1#32).toNat).foldl
      (fun m i => bitsetSet m p.framesMap (pos + BitVec.ofNat 32 i)) p.mem =
        bitsetSet p.mem p.framesMap pos := by
    change bitsetSet p.mem p.framesMap (pos + 0#32) = _
    rw [BitVec.add_zero]
  rw [pmmMalloc, pmmFind_page_iff.mpr h, pmmMarkFrame, hclear, size2frame_page]
  simp only [hloop, Bool.false_eq_true, if_false]

theorem pmmMalloc_page_none {p : Pmm} (h : ∀ pos, ¬ GrantsPage p pos) :
    pmmMalloc p pageTableSize = (p, 0#32) := by
  apply pmmMalloc_none
  cases hfind : pmmFind p pageTableSize with
  | none => rfl
  | some pos => exact absurd (pmmFind_page_iff.mp hfind) (h pos)

theorem GrantsPage.usedFrames {p : Pmm} {pos : BitVec 32} (h : GrantsPage p pos) :
    (pmmMarkFrame p pos).usedFrames = p.usedFrames + 1#32 := by
  have heq := congrArg (fun r => r.1.usedFrames) (pmmMalloc_page_eq h)
  rw [pmmMalloc, pmmFind_page_iff.mpr h] at heq
  exact heq.symm

/-- A frame of `PMM_malloc` is aligned, was clear, and is marked afterwards. -/
theorem pmmMalloc_page {p : Pmm} (hT : p.totalFrames.toNat ≤ 2 ^ 20)
    (h : (pmmMalloc p pageTableSize).2 ≠ 0#32) :
    ∃ f < 2 ^ 20, (pmmMalloc p pageTableSize).2.toNat = f * 4096 ∧ p.bits f = false ∧
      (pmmMalloc p pageTableSize).1.bits f = true := by
  cases hfind : pmmFind p pageTableSize with
  | none =>
      rw [pmmMalloc_none hfind] at h
      exact absurd rfl h
  | some pos =>
      have hsel := ((pmmFind_eq_some (pmmFind_positive hfind)).mp hfind).2
      have hlt := hsel.lt_total
      have hn : (size2frame pageTableSize).toNat = 1 := by
        rw [size2frame_page]
        rfl
      obtain ⟨hptr, -, -, -, hbits⟩ := pmmMalloc_some hfind (by omega)
      refine ⟨pos.toNat, by omega, ?_, hsel.clear, ?_⟩
      · rw [hptr, BitVec.toNat_mul, show pmmFrameSize.toNat = 4096 from rfl,
          Nat.mod_eq_of_lt (by omega)]
      · exact (hbits _ pos.isLt).mpr (Or.inl ⟨le_rfl, by omega⟩)

/-- Two pages in a row are different frames: the first is marked when the second is
searched for. -/
theorem pmmMalloc_two_pages {p : Pmm} (hT : p.totalFrames.toNat ≤ 2 ^ 20)
    (h : (pmmMalloc p pageTableSize).2 ≠ 0#32)
    (h' : (pmmMalloc (pmmMalloc p pageTableSize).1 pageTableSize).2 ≠ 0#32) :
    (pmmMalloc p pageTableSize).2.toNat % 2 ^ 12 = 0 ∧
      (pmmMalloc (pmmMalloc p pageTableSize).1 pageTableSize).2.toNat % 2 ^ 12 = 0 ∧
      (pmmMalloc p pageTableSize).2 ≠
        (pmmMalloc (pmmMalloc p pageTableSize).1 pageTableSize).2 := by
  obtain ⟨f, -, hf, -, hmarked⟩ := pmmMalloc_page hT h
  obtain ⟨f', -, hf', hclear, -⟩ :=
    pmmMalloc_page (by rw [pmmMalloc_totalFrames]; exact hT) h'
  refine ⟨by omega, by omega, ?_⟩
  intro heq
  have hff : f = f' := by
    rw [heq] at hf
    omega
  rw [hff, hclear] at hmarked
  cases hmarked

/-! ### Identity paging -/

/-- The address of `isr_handlers[INT_Page_Fault]`. -/
def VmmState.pageFaultSlot (s : VmmState) : Nat := s.isrHandlers + 4 * intPageFault.toNat

/-- The page has no byte of the slot. -/
def VmmState.SlotOutside (s : VmmState) (page : Paddr) : Prop :=
  s.pageFaultSlot + 4 ≤ page.toNat ∨ page.toNat + 4096 ≤ s.pageFaultSlot

theorem vmmInit_eq (pageFaultHandler : BitVec 32) {s : VmmState}
    (directory : (pmmMalloc s.pmm pageTableSize).2 ≠ 0#32)
    (table : (pmmMalloc (pmmMalloc s.pmm pageTableSize).1 pageTableSize).2 ≠ 0#32) :
    vmmInit pageFaultHandler s =
      (true,
        { pmm :=
            { (pmmMalloc (pmmMalloc s.pmm pageTableSize).1 pageTableSize).1 with
              mem := isrStoreHandler
                (vmmInitTables (pmmMalloc (pmmMalloc s.pmm pageTableSize).1 pageTableSize).1.mem
                  (pmmMalloc s.pmm pageTableSize).2
                  (pmmMalloc (pmmMalloc s.pmm pageTableSize).1 pageTableSize).2)
                s.isrHandlers intPageFault pageFaultHandler }
          isrHandlers := s.isrHandlers
          kernelDirectory := (pmmMalloc s.pmm pageTableSize).2
          currentDirectory := (pmmMalloc s.pmm pageTableSize).2
          cr0 := s.cr0 ||| cr0PgMask
          cr3 := (pmmMalloc s.pmm pageTableSize).2 }) := by
  simp only [vmmInit, directory, table, or_self, if_false, vmmSwitchPageDirectory,
    vmmEnablePaging]

/-- The directory in `cr3` maps the first 4 MiB to themselves, writable and for the
supervisor only, and nothing else; directory and table are two different pages. -/
structure IdentityPaging (s : VmmState) (pageTable : Paddr) : Prop where
  enabled : s.cr0.getLsbD 31 = true
  below : ∀ v : BitVec 32, v.toNat < 2 ^ 22 → walk s.pmm.mem s.cr3 v = some ⟨v, true, false⟩
  above : ∀ v : BitVec 32, 2 ^ 22 ≤ v.toNat → walk s.pmm.mem s.cr3 v = none
  directoryAligned : s.cr3.toNat % 2 ^ 12 = 0
  tableAligned : pageTable.toNat % 2 ^ 12 = 0
  apart : s.cr3.toNat + 4096 ≤ pageTable.toNat ∨ pageTable.toNat + 4096 ≤ s.cr3.toNat

/-- Unless a page holds the slot of the page fault handler, which is filled after it. -/
theorem vmmInit_identity_paging (pageFaultHandler : BitVec 32) {s : VmmState}
    (total : s.pmm.totalFrames.toNat ≤ 2 ^ 20)
    (directory : (pmmMalloc s.pmm pageTableSize).2 ≠ 0#32)
    (table : (pmmMalloc (pmmMalloc s.pmm pageTableSize).1 pageTableSize).2 ≠ 0#32)
    (directorySlot : s.SlotOutside (pmmMalloc s.pmm pageTableSize).2)
    (tableSlot :
      s.SlotOutside (pmmMalloc (pmmMalloc s.pmm pageTableSize).1 pageTableSize).2) :
    ∃ t, vmmInit pageFaultHandler s = (true, t) ∧
      t.cr3 = (pmmMalloc s.pmm pageTableSize).2 ∧
      IdentityPaging t (pmmMalloc (pmmMalloc s.pmm pageTableSize).1 pageTableSize).2 := by
  obtain ⟨hdir, htable, hne⟩ := pmmMalloc_two_pages total directory table
  have tables := (identityTables
    (pmmMalloc (pmmMalloc s.pmm pageTableSize).1 pageTableSize).1.mem hdir htable hne).store_outside
      pageFaultHandler directorySlot tableSlot
  rw [vmmInit_eq pageFaultHandler directory table]
  refine ⟨_, rfl, rfl, ?_, fun v hv => tables.walk_below hv, fun v hv => tables.walk_above hv,
    hdir, htable, pages_apart hdir htable hne⟩
  rw [BitVec.getLsbD_or, cr0PgMask, show (0x80000000#32).getLsbD 31 = true from rfl,
    Bool.or_true]

/-- A one-frame search among 512 frames whose low bits are known. -/
theorem selects_low_frame {bits bits' : Nat → Bool} (hbits : ∀ f < 512, bits f = bits' f)
    {pos : Nat} (hpos : pos < 9) (haccepts : ProbeAccepts bits' 1 pos)
    (hfirst : ∀ q < pos, ¬ ProbeAccepts bits' 1 q) : Selects bits 512 1 pos := by
  have hwindow : ∀ q < 9, probeStart q + 1 < 512 := by decide
  have hcongr (q : Nat) (hq : q < 9) : ProbeAccepts bits 1 q ↔ ProbeAccepts bits' 1 q :=
    probeAccepts_congr hbits (by omega) (hwindow q hq)
  rw [selects_iff (by decide)]
  refine ⟨by omega, (hcongr pos hpos).mpr haccepts, ?_, ?_⟩
  · intro q hq
    rw [hcongr q (by omega)]
    exact hfirst q hq
  · intro q hq hrefuses
    have := hwindow q (by omega)
    have := hrefuses.2
    omega

/-- The two frames that follow the kernel range. -/
theorem twoMiB_pages {p : Pmm} (htotal : p.totalFrames = 512#32) (hused : p.usedFrames = 7#32)
    (hbits : ∀ f < 512, p.bits f = twoMiBBits f) :
    pmmMalloc p pageTableSize = (pmmMarkFrame p 7#32, 0x7000#32) ∧
      (pmmMalloc (pmmMarkFrame p 7#32) pageTableSize).2 = 0x8000#32 := by
  have hn : (size2frame pageTableSize).toNat = 1 := by decide
  have hdirectory : GrantsPage p 7#32 := by
    refine ⟨?_, ?_⟩
    · rw [pmmFramesFree, htotal, hused]
      decide
    · rw [htotal]
      exact selects_low_frame hbits (by decide) (by decide +kernel) (by decide +kernel)
  have hmalloc := pmmMalloc_page_eq hdirectory
  obtain ⟨-, htotal', -, hused', hbits'⟩ :=
    pmmMalloc_some (pmmFind_page_iff.mpr hdirectory) (by rw [hn]; decide)
  rw [hmalloc] at htotal' hused' hbits'
  have hlow (f : Nat) (hf : f < 512) : (pmmMarkFrame p 7#32).bits f =
      (decide (7 ≤ f ∧ f < 8) || twoMiBBits f) := by
    rw [Bool.eq_iff_iff, hbits' f (by omega), hbits f hf, Bool.or_eq_true, decide_eq_true_eq]
    rfl
  have htable : GrantsPage (pmmMarkFrame p 7#32) 8#32 := by
    refine ⟨?_, ?_⟩
    · rw [pmmFramesFree, htotal', htotal, hused', hused]
      decide
    · rw [htotal', htotal]
      exact selects_low_frame hlow (by decide) (by decide +kernel) (by decide +kernel)
  refine ⟨hmalloc, ?_⟩
  rw [pmmMalloc_page_eq htable]
  rfl

theorem vmmInit_identity_paging_two_MiB :
    ∃ (p : Pmm) (t : VmmState), twoMiBInit = some p ∧
      vmmInit 0x100200#32 ⟨p, 0x104000, 0#32, 0#32, 0x11#32, 0#32⟩ = (true, t) ∧
      t.cr3 = (pmmMalloc p pageTableSize).2 ∧
      IdentityPaging t (pmmMalloc (pmmMalloc p pageTableSize).1 pageTableSize).2 := by
  obtain ⟨p, hp, htotal, hused, hbits⟩ := twoMiBInit_spec
  obtain ⟨hdirectory, htable⟩ := twoMiB_pages htotal hused hbits
  have hfirst : (pmmMalloc p pageTableSize).2 = 0x7000#32 := by rw [hdirectory]
  have hsecond : (pmmMalloc (pmmMalloc p pageTableSize).1 pageTableSize).2 = 0x8000#32 := by
    rw [hdirectory, htable]
  have hslot (page : Paddr) (hpage : page.toNat + 4096 ≤ 0x104038) :
      VmmState.SlotOutside ⟨p, 0x104000, 0#32, 0#32, 0x11#32, 0#32⟩ page := Or.inr hpage
  obtain ⟨t, ht⟩ := vmmInit_identity_paging 0x100200#32
    (s := ⟨p, 0x104000, 0#32, 0#32, 0x11#32, 0#32⟩) (by rw [htotal]; decide)
    (by rw [hfirst]; decide) (by rw [hsecond]; decide)
    (hslot _ (by rw [hfirst]; decide)) (hslot _ (by rw [hsecond]; decide))
  exact ⟨p, t, hp, ht⟩

/-- 2 MiB with the first one reserved, the bitmap behind the kernel's image and its own frame
marked. -/
def lowReserved : Pmm :=
  { mem := fun a =>
      if 0x106000 ≤ a ∧ a < 0x106020 then 0xFF#8 else if a = 0x106020 then 0x40#8 else 0#8
    totalFrames := 512#32
    usedFrames := 257#32
    framesMap := 0x106000#32 }

/-- The first two frames of the image become the directory and the table, and the second one
holds `isr_handlers`: its slot for page faults is the entry of the page at `E000`. -/
theorem vmmInit_handler_in_table :
    ∃ t, vmmInit 0x100200#32 ⟨lowReserved, 0x101000, 0#32, 0#32, 0x11#32, 0#32⟩ = (true, t) ∧
      (pmmMalloc lowReserved pageTableSize).2 ≠ 0#32 ∧
      (pmmMalloc (pmmMalloc lowReserved pageTableSize).1 pageTableSize).2 ≠ 0#32 ∧
      ¬ IdentityPaging t
        (pmmMalloc (pmmMalloc lowReserved pageTableSize).1 pageTableSize).2 := by
  have hdirectory : GrantsPage lowReserved 256#32 := by
    refine ⟨by decide, (selects_iff (by decide)).mpr ?_⟩
    decide +kernel
  have htable : GrantsPage (pmmMarkFrame lowReserved 256#32) 257#32 := by
    refine ⟨by decide +kernel, (selects_iff (by decide +kernel)).mpr ?_⟩
    decide +kernel
  have hmalloc := pmmMalloc_page_eq hdirectory
  have hmalloc' := pmmMalloc_page_eq htable
  have hnull : (pmmMalloc lowReserved pageTableSize).2 ≠ 0#32 := by
    rw [hmalloc]
    decide
  have hnull' : (pmmMalloc (pmmMalloc lowReserved pageTableSize).1 pageTableSize).2 ≠ 0#32 := by
    rw [hmalloc, hmalloc']
    decide
  refine ⟨_, vmmInit_eq 0x100200#32 hnull hnull', hnull, hnull', fun h => ?_⟩
  have hbelow := h.below 0xE000#32 (by decide)
  simp only [hmalloc, hmalloc'] at hbelow
  generalize (pmmMarkFrame (pmmMarkFrame lowReserved 256#32) 257#32).mem = m at hbelow
  have tables : IdentityTables (vmmInitTables m 0x100000#32 0x101000#32) 0x100000#32 0x101000#32 :=
    identityTables m (by decide) (by decide) (by decide)
  have hpde : load32 (isrStoreHandler (vmmInitTables m 0x100000#32 0x101000#32) 0x101000
      intPageFault 0x100200#32) ((frameBase 0x100000#32).toNat + 4 * directoryIndex 0xE000#32) =
        0x101000#32 ||| (ptePresent ||| pteWritable) := by
    rw [isrStoreHandler, store32, load32_write_outside _ _ (by decide)]
    exact tables.pde
  have hpte : load32 (isrStoreHandler (vmmInitTables m 0x100000#32 0x101000#32) 0x101000
      intPageFault 0x100200#32) ((0x101000#32).toNat + 4 * tableIndex 0xE000#32) =
        0x100200#32 := load32_store32 _ _ _
  have habsent := walk_absent_page (by decide) (by decide) (by decide) hpde
    (by rw [hpte]; decide)
  cases habsent.symm.trans hbelow

/-! ### A failed `VMM_init` -/

/-- Bitmap and counter are as before, and no page directory has been installed. -/
structure VmmUntouched (s t : VmmState) : Prop where
  bitmap : ∀ f < 2 ^ 32, t.pmm.bits f = s.pmm.bits f
  usedFrames : t.pmm.usedFrames = s.pmm.usedFrames
  notInstalled : t.cr3 = s.cr3 ∧ t.currentDirectory = s.currentDirectory ∧ t.cr0 = s.cr0

def VmmFailureAtomic (pageFaultHandler : BitVec 32) (s : VmmState) : Prop :=
  ∀ t, vmmInit pageFaultHandler s = (false, t) → VmmUntouched s t

/-- The state in which the check of the two pointers leaves `VMM_init`. -/
theorem vmmInit_false {pageFaultHandler : BitVec 32} {s : VmmState}
    (h : (pmmMalloc (pmmMalloc s.pmm pageTableSize).1 pageTableSize).2 = 0#32 ∨
      (pmmMalloc s.pmm pageTableSize).2 = 0#32) :
    vmmInit pageFaultHandler s =
      (false,
        { s with
          pmm := (pmmMalloc (pmmMalloc s.pmm pageTableSize).1 pageTableSize).1
          kernelDirectory := (pmmMalloc s.pmm pageTableSize).2 }) := by
  simp only [vmmInit, h, if_true]

theorem vmmInit_eq_false_iff {pageFaultHandler : BitVec 32} {s t : VmmState} :
    vmmInit pageFaultHandler s = (false, t) ↔
      ((pmmMalloc (pmmMalloc s.pmm pageTableSize).1 pageTableSize).2 = 0#32 ∨
        (pmmMalloc s.pmm pageTableSize).2 = 0#32) ∧
      t = { s with
        pmm := (pmmMalloc (pmmMalloc s.pmm pageTableSize).1 pageTableSize).1
        kernelDirectory := (pmmMalloc s.pmm pageTableSize).2 } := by
  by_cases h : (pmmMalloc (pmmMalloc s.pmm pageTableSize).1 pageTableSize).2 = 0#32 ∨
      (pmmMalloc s.pmm pageTableSize).2 = 0#32
  · rw [vmmInit_false h, and_iff_right h, Prod.mk.injEq, and_iff_right rfl, eq_comm]
  · have hne := not_or.mp h
    rw [vmmInit_eq pageFaultHandler hne.2 hne.1]
    simp [h]

/-- The first request is turned down, or both pages are granted at addresses other than
`NULL`, the second one with the first marked. -/
def PagesGrantedTogether (p : Pmm) : Prop :=
  (∀ pos, ¬ GrantsPage p pos) ∨
    ∃ pos pos', GrantsPage p pos ∧ pos * pmmFrameSize ≠ 0#32 ∧
      GrantsPage (pmmMarkFrame p pos) pos' ∧ pos' * pmmFrameSize ≠ 0#32

/-- The counter after two requests of which the first was granted. -/
theorem usedFrames_ne_of_first_page {p : Pmm} {pos : BitVec 32} (h : GrantsPage p pos) :
    (pmmMalloc (pmmMarkFrame p pos) pageTableSize).1.usedFrames ≠ p.usedFrames := by
  intro heq
  by_cases hsecond : ∃ pos', GrantsPage (pmmMarkFrame p pos) pos'
  · obtain ⟨pos', hpos'⟩ := hsecond
    rw [pmmMalloc_page_eq hpos', hpos'.usedFrames, h.usedFrames] at heq
    rw [BitVec.toNat_eq, BitVec.toNat_add, BitVec.toNat_add,
      show (1#32).toNat = 1 from rfl] at heq
    have := p.usedFrames.isLt
    omega
  · rw [pmmMalloc_page_none (not_exists.mp hsecond), h.usedFrames] at heq
    rw [BitVec.toNat_eq, BitVec.toNat_add, show (1#32).toNat = 1 from rfl] at heq
    have := p.usedFrames.isLt
    omega

/-- A failed `VMM_init` leaves no trace exactly when its two requests fare alike. -/
theorem vmmInit_failure_atomic_iff (pageFaultHandler : BitVec 32) (s : VmmState) :
    VmmFailureAtomic pageFaultHandler s ↔ PagesGrantedTogether s.pmm := by
  constructor
  · intro hatomic
    by_cases hfirst : ∃ pos, GrantsPage s.pmm pos
    · obtain ⟨pos, hpos⟩ := hfirst
      -- a failure now would be seen in the counter
      have hgranted : ¬ ((pmmMalloc (pmmMarkFrame s.pmm pos) pageTableSize).2 = 0#32 ∨
          pos * pmmFrameSize = 0#32) := by
        intro hnull
        have huntouched := hatomic _ (vmmInit_false (by rwa [pmmMalloc_page_eq hpos]))
        have hused := huntouched.usedFrames
        rw [pmmMalloc_page_eq hpos] at hused
        exact usedFrames_ne_of_first_page hpos hused
      obtain ⟨htable, hdirectory⟩ := not_or.mp hgranted
      by_cases hsecond : ∃ pos', GrantsPage (pmmMarkFrame s.pmm pos) pos'
      · obtain ⟨pos', hpos'⟩ := hsecond
        rw [pmmMalloc_page_eq hpos'] at htable
        exact Or.inr ⟨pos, pos', hpos, hdirectory, hpos', htable⟩
      · rw [pmmMalloc_page_none (not_exists.mp hsecond)] at htable
        exact absurd rfl htable
    · exact Or.inl (not_exists.mp hfirst)
  · intro htogether t hfail
    obtain ⟨hnull, rfl⟩ := vmmInit_eq_false_iff.mp hfail
    cases htogether with
    | inl hnone =>
        simp only [pmmMalloc_page_none hnone]
        exact ⟨fun _ _ => rfl, rfl, rfl, rfl, rfl⟩
    | inr hboth =>
        obtain ⟨pos, pos', hpos, hdirectory, hpos', htable⟩ := hboth
        rw [pmmMalloc_page_eq hpos, pmmMalloc_page_eq hpos'] at hnull
        cases hnull with
        | inl h => exact absurd h htable
        | inr h => exact absurd h hdirectory

/-- Of 32 frames only 1 and 2 are free. -/
def twoFreeFrames : Pmm :=
  { mem := fun a => if a = 0 then 0xF9#8 else 0xFF#8
    totalFrames := 32#32
    usedFrames := 30#32
    framesMap := 0#32 }

/-- Frame 1 stays marked when no second frame is found. -/
theorem vmmInit_failure_keeps_page :
    ¬ VmmFailureAtomic 0x100200#32 ⟨twoFreeFrames, 0x104000, 0#32, 0#32, 0x11#32, 0#32⟩ := by
  have hfirst : GrantsPage twoFreeFrames 1#32 := by
    refine ⟨by decide, (selects_iff (by decide)).mpr ?_⟩
    decide +kernel
  have hsecond : ∀ pos, ¬ GrantsPage (pmmMarkFrame twoFreeFrames 1#32) pos := by
    intro pos hpos
    have hsel := (selects_iff (by decide)).mp hpos.2
    have hnone : ∀ q < 32, ¬ ProbeAccepts (pmmMarkFrame twoFreeFrames 1#32).bits 1 q := by
      decide +kernel
    exact hnone _ hsel.1 hsel.2.1
  have hnull : (pmmMalloc (pmmMalloc twoFreeFrames pageTableSize).1 pageTableSize).2 = 0#32 := by
    rw [pmmMalloc_page_eq hfirst, pmmMalloc_page_none hsecond]
  intro hatomic
  have huntouched := hatomic _ (vmmInit_false (Or.inl hnull))
  have hused := huntouched.usedFrames
  rw [pmmMalloc_page_eq hfirst] at hused
  exact usedFrames_ne_of_first_page hfirst hused

end Bros
