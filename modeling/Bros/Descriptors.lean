import Bros.IsrStubs
import Bros.Lib.X86Descriptors

/-!
The descriptor tables of `arch/x86/descriptors.c`, and the gates of `ISR_init` and
`IRQ_init`.

A table is memory from its address on. Where the linker puts the handlers is a function
`address`; nothing depends on it.
-/

namespace Bros
open ByteMemory X86Descriptors

/-! ### The interrupt descriptor table -/

def maxInterrupts : Nat := 256

def idtGateInt32 : Byte := 0xE#8

def idtDplRing0 : Byte := 0#8

/-- The distance of two entries of `gdtd`. -/
def gdtSel (i : Nat) : BitVec 16 := BitVec.ofNat 16 (8 * i)

def gdtKernelCodeSel : BitVec 16 := gdtSel 1

def gdtKernelDataSel : BitVec 16 := gdtSel 2

/-- `IDT_descriptor_t` is packed: `base_lo`, `selector`, `reserved`, `flags`, `base_hi`. -/
def idtSetIdtHandler (m : Mem) (idtd : Nat) (gateType dpl : Byte) (sel : BitVec 16)
    (base : BitVec 32) : Mem :=
  let m := store16 m idtd ((base &&& 0xFFFF#32).setWidth 16)
  let m := store16 m (idtd + 6) ((base >>> 16 &&& 0xFFFF#32).setWidth 16)
  let m := store8 m (idtd + 4) 0#8
  let m := store8 m (idtd + 5) (gateType ||| dpl <<< 5 ||| 0x80#8)
  store16 m (idtd + 2) sel

/-- The functions a gate can lead to. -/
inductive IdtHandler where
  | defaultHandler
  | isrInt (x : BitVec 32)
  | irqInt (x : BitVec 32)
deriving DecidableEq

section
variable (idtd : Nat) (address : IdtHandler → BitVec 32)

def idtSetGate (m : Mem) (numInt : Byte) (idtFunc : IdtHandler) : Mem :=
  idtSetIdtHandler m (idtd + 8 * numInt.toNat) idtGateInt32 idtDplRing0 gdtKernelCodeSel
    (address idtFunc)

def idtInit (m : Mem) : Mem :=
  (List.range maxInterrupts).foldl
    (fun m i => idtSetIdtHandler m (idtd + 8 * i) idtGateInt32 idtDplRing0 gdtKernelCodeSel
      (address .defaultHandler)) m

/-- The calls of `IDT_set_gate` in `ISR_init`. -/
def isrGates : List (Byte × IdtHandler) :=
  [(0#8, .isrInt 0#32), (1#8, .isrInt 1#32), (2#8, .isrInt 2#32), (3#8, .isrInt 3#32),
    (4#8, .isrInt 4#32), (5#8, .isrInt 5#32), (6#8, .isrInt 6#32), (7#8, .isrInt 7#32),
    (8#8, .isrInt 8#32), (9#8, .isrInt 9#32), (10#8, .isrInt 10#32), (11#8, .isrInt 11#32),
    (12#8, .isrInt 12#32), (13#8, .isrInt 13#32), (14#8, .isrInt 14#32), (16#8, .isrInt 16#32),
    (17#8, .isrInt 17#32), (18#8, .isrInt 18#32), (19#8, .isrInt 19#32), (20#8, .isrInt 20#32),
    (21#8, .isrInt 21#32)]

def irqTimer : Byte := 0#8
def irqKeyboard : Byte := 1#8
def irqCascade : Byte := 2#8
def irqSerial2 : Byte := 3#8
def irqSerial1 : Byte := 4#8
def irqParallel2 : Byte := 5#8
def irqDiskette : Byte := 6#8
def irqParallel1 : Byte := 7#8
def irqCmostimer : Byte := 8#8
def irqCgaretrace : Byte := 9#8
def irqOpen1 : Byte := 10#8
def irqOpen2 : Byte := 11#8
def irqAux : Byte := 12#8
def irqFpu : Byte := 13#8
def irqAtaPrimary : Byte := 14#8
def irqAtaSecondary : Byte := 15#8

/-- The calls of `IDT_set_gate` in `IRQ_init`, without `PIC1_BASE_INT`. -/
def irqGates : List (Byte × IdtHandler) :=
  [(irqTimer, .irqInt 0#32), (irqKeyboard, .irqInt 1#32), (irqCascade, .irqInt 2#32),
    (irqSerial2, .irqInt 3#32), (irqSerial1, .irqInt 4#32), (irqParallel2, .irqInt 5#32),
    (irqDiskette, .irqInt 6#32), (irqParallel1, .irqInt 7#32), (irqCmostimer, .irqInt 8#32),
    (irqCgaretrace, .irqInt 9#32), (irqOpen1, .irqInt 10#32), (irqOpen2, .irqInt 11#32),
    (irqAux, .irqInt 12#32), (irqFpu, .irqInt 13#32), (irqAtaPrimary, .irqInt 14#32),
    (irqAtaSecondary, .irqInt 15#32)]

def isrInit (m : Mem) : Mem :=
  isrGates.foldl (fun m g => idtSetGate idtd address m g.1 g.2) m

def irqInit (m : Mem) : Mem :=
  irqGates.foldl
    (fun m g => idtSetGate idtd address m (pic1BaseInt.setWidth 8 + g.1) g.2) m

end

/-! ### The global descriptor table -/

structure GdtDescriptor where
  limit : BitVec 16
  baseLo : BitVec 16
  baseMi : Byte
  attr : Byte
  limitAttr : Byte
  baseHi : Byte

def gdtCodeAttrReadable : Byte := 1#8 <<< 1
def gdtCodeAttr : Byte := 3#8 <<< 3
def gdtCodeAttrDpl (x : Byte) : Byte := (x &&& 3#8) <<< 5
def gdtCodeAttrPresent : Byte := 1#8 <<< 7
def gdtCodeDefault32 : Byte := 1#8 <<< 6
def gdtCodeGranularity : Byte := 1#8 <<< 7

def gdtDataAttrWritable : Byte := 1#8 <<< 1
def gdtDataAttr : Byte := 2#8 <<< 3
def gdtDataAttrDpl (x : Byte) : Byte := gdtCodeAttrDpl x
def gdtDataAttrPresent : Byte := gdtCodeAttrPresent
def gdtDataBig : Byte := 1#8 <<< 6
def gdtDataGranularity : Byte := gdtCodeGranularity

def gdtTaskAttrType : Byte := 9#8
def gdtTaskAttrPresent : Byte := gdtCodeAttrPresent

def gdtDplKernel : Byte := 0#8
def gdtDplUser : Byte := 3#8

/-- `sizeof(TSS_t)` -/
def sizeofTss : Nat := 0x68

def gdtNull : GdtDescriptor := ⟨0#16, 0#16, 0#8, 0#8, 0#8, 0#8⟩

/-- A code segment of all memory. -/
def gdtCode (dpl : Byte) : GdtDescriptor where
  limit := 0xFFFF#16
  baseLo := 0#16
  baseMi := 0#8
  attr := gdtCodeAttrReadable ||| gdtCodeAttr ||| gdtCodeAttrDpl dpl ||| gdtCodeAttrPresent
  limitAttr := 0xF#8 ||| gdtCodeDefault32 ||| gdtCodeGranularity
  baseHi := 0#8

def gdtData (dpl : Byte) : GdtDescriptor where
  limit := 0xFFFF#16
  baseLo := 0#16
  baseMi := 0#8
  attr := gdtDataAttrWritable ||| gdtDataAttr ||| gdtDataAttrDpl dpl ||| gdtDataAttrPresent
  limitAttr := 0xF#8 ||| gdtDataBig ||| gdtDataGranularity
  baseHi := 0#8

def gdtTask : GdtDescriptor where
  limit := BitVec.ofNat 16 (sizeofTss - 1)
  baseLo := 0#16
  baseMi := 0#8
  attr := gdtTaskAttrType ||| gdtTaskAttrPresent
  limitAttr := 0#8
  baseHi := 0#8

/-- `gdtd` as compiled. -/
def gdtd : List GdtDescriptor :=
  [gdtNull, gdtCode gdtDplKernel, gdtData gdtDplKernel, gdtCode gdtDplUser, gdtData gdtDplUser,
    gdtTask]

/-- `GDT_descriptor_t` is packed. -/
def GdtDescriptor.bytes (d : GdtDescriptor) : List Byte :=
  [byteAt d.limit 0, byteAt d.limit 1, byteAt d.baseLo 0, byteAt d.baseLo 1, d.baseMi, d.attr,
    d.limitAttr, d.baseHi]

/-- What the loader put at the address of `gdtd`. -/
def loadGdtd (m : Mem) (a : Nat) : Mem := storeBytes m a (gdtd.flatMap GdtDescriptor.bytes)

/-- The stores of `GDT_init`; `tss` is the address of `g_tss`. -/
def gdtInit (m : Mem) (a : Nat) (tss : BitVec 32) : Mem :=
  let m := store16 m (a + 8 * 5 + 2) ((tss &&& 0xFFFF#32).setWidth 16)
  let m := store8 m (a + 8 * 5 + 4) ((tss >>> 16 &&& 0xFF#32).setWidth 8)
  store8 m (a + 8 * 5 + 7) ((tss >>> 24 &&& 0xFF#32).setWidth 8)

/-- `gdtr.size` and `idtr.size` -/
def gdtrSize : Nat := 8 * gdtd.length - 1

def idtrSize : Nat := 8 * maxInterrupts - 1

/-! ### The gates -/

/-- What `IDT_set_gate` makes of a handler, as the processor reads it. -/
def gateTo (offset : BitVec 32) : Gate where
  offset
  selector := gdtKernelCodeSel
  kind := interruptGate32
  dpl := 0#2
  present := true

theorem idtSetIdtHandler_outside (m : Mem) {a b : Nat} (gateType dpl : Byte) (sel : BitVec 16)
    (base : BitVec 32) (h : b < a ∨ a + 8 ≤ b) :
    idtSetIdtHandler m a gateType dpl sel base b = m b := by
  simp only [idtSetIdtHandler, store16, store8]
  rw [write_outside _ _ (by omega), write_outside _ _ (by omega), write_outside _ _ (by omega),
    write_outside _ _ (by omega), write_outside _ _ (by omega)]

theorem load16_write_outside (m : Mem) {a n b : Nat} (data : Nat → Byte)
    (h : b + 2 ≤ a ∨ a + n ≤ b) : load16 (write m a n data) b = load16 m b :=
  load16_congr fun _ _ _ => write_outside m data (by omega)

theorem gateAt_idtSetIdtHandler (m : Mem) (a : Nat) (base : BitVec 32) :
    gateAt (idtSetIdtHandler m a idtGateInt32 idtDplRing0 gdtKernelCodeSel base) a =
      gateTo base := by
  have hlow : load16 (idtSetIdtHandler m a idtGateInt32 idtDplRing0 gdtKernelCodeSel base) a =
      (base &&& 0xFFFF#32).setWidth 16 := by
    simp only [idtSetIdtHandler, store8]
    rw [store16, load16_write_outside _ _ (by omega), load16_write_outside _ _ (by omega),
      load16_write_outside _ _ (by omega), store16, load16_write_outside _ _ (by omega),
      load16_store16]
  have hhigh : load16 (idtSetIdtHandler m a idtGateInt32 idtDplRing0 gdtKernelCodeSel base)
      (a + 6) = (base >>> 16 &&& 0xFFFF#32).setWidth 16 := by
    simp only [idtSetIdtHandler, store8]
    rw [store16, load16_write_outside _ _ (by omega), load16_write_outside _ _ (by omega),
      load16_write_outside _ _ (by omega), load16_store16]
  have hflags : idtSetIdtHandler m a idtGateInt32 idtDplRing0 gdtKernelCodeSel base (a + 5) =
      0x8E#8 := by
    simp only [idtSetIdtHandler, store8]
    rw [store16, write_outside _ _ (by omega), write_inside _ _ (by omega)]
    rfl
  have hsel : load16 (idtSetIdtHandler m a idtGateInt32 idtDplRing0 gdtKernelCodeSel base)
      (a + 2) = gdtKernelCodeSel := by
    simp only [idtSetIdtHandler, load16_store16]
  simp only [gateAt, hlow, hhigh, hflags, hsel, append_halves]
  rfl

/-- The calls that set a gate, in order, each with the number of its entry. -/
def gateWrites : List (Nat × IdtHandler) :=
  (List.range maxInterrupts).map (fun i => (i, .defaultHandler)) ++
    isrGates.map (fun g => (g.1.toNat, g.2)) ++
    irqGates.map (fun g => ((pic1BaseInt.setWidth 8 + g.1).toNat, g.2))

def writeGates (idtd : Nat) (address : IdtHandler → BitVec 32) (m : Mem)
    (gates : List (Nat × IdtHandler)) : Mem :=
  gates.foldl (fun m g => idtSetIdtHandler m (idtd + 8 * g.1) idtGateInt32 idtDplRing0
    gdtKernelCodeSel (address g.2)) m

/-- The handler of the last gate written to an entry. -/
def lastGate (gates : List (Nat × IdtHandler)) (v : Nat) : Option IdtHandler :=
  (gates.reverse.find? fun g => g.1 = v).map Prod.snd

section
variable (idtd : Nat) (address : IdtHandler → BitVec 32)

theorem init_eq_writeGates (m : Mem) :
    irqInit idtd address (isrInit idtd address (idtInit idtd address m)) =
      writeGates idtd address m gateWrites := by
  simp only [writeGates, gateWrites, List.foldl_append, List.foldl_map]
  rfl

theorem writeGates_append_singleton (m : Mem) (gates : List (Nat × IdtHandler))
    (g : Nat × IdtHandler) :
    writeGates idtd address m (gates ++ [g]) =
      idtSetIdtHandler (writeGates idtd address m gates) (idtd + 8 * g.1) idtGateInt32 idtDplRing0
        gdtKernelCodeSel (address g.2) := by
  rw [writeGates, List.foldl_append]
  rfl

theorem gateAt_writeGates (m : Mem) (gates : List (Nat × IdtHandler)) {v : Nat}
    {handler : IdtHandler} (h : lastGate gates v = some handler) :
    gateAt (writeGates idtd address m gates) (idtd + 8 * v) = gateTo (address handler) := by
  induction gates using List.reverseRecOn with
  | nil => cases h
  | append_singleton gates g ih =>
      rw [writeGates_append_singleton]
      rw [lastGate, List.reverse_append, List.reverse_singleton, List.singleton_append] at h
      by_cases hv : g.1 = v
      · rw [List.find?_cons_of_pos (by simpa using hv)] at h
        cases h
        rw [hv, gateAt_idtSetIdtHandler]
      · rw [List.find?_cons_of_neg (by simpa using hv)] at h
        rw [← ih h]
        exact gateAt_congr fun b hb hb' => idtSetIdtHandler_outside _ _ _ _ _ (by omega)

theorem writeGates_outside (m : Mem) {gates : List (Nat × IdtHandler)}
    (hgates : ∀ g ∈ gates, g.1 < maxInterrupts) {b : Nat}
    (h : b < idtd ∨ idtd + idtrSize < b) : writeGates idtd address m gates b = m b := by
  induction gates using List.reverseRecOn with
  | nil => rfl
  | append_singleton gates g ih =>
      have hg := hgates g (List.mem_append_right _ (List.mem_singleton_self g))
      rw [writeGates_append_singleton, idtSetIdtHandler_outside]
      · exact ih fun g hg => hgates g (List.mem_append_left _ hg)
      · simp only [idtrSize, maxInterrupts] at h hg
        omega

end

/-- The code at a handler's symbol, unless it is `IDT_default_handler`. -/
def IdtHandler.stub : IdtHandler → Option Stub
  | .defaultHandler => none
  | .isrInt x => (isrInts.find? fun p => p.1 = x).map fun p => Bros.isrInt p.1 p.2
  | .irqInt x => (irqInts.find? fun y => y = x).map Bros.irqInt

/-- Where each vector leads. -/
def idtHandler (v : Nat) : IdtHandler :=
  if v < 22 ∧ v ≠ 15 then .isrInt (BitVec.ofNat 32 v)
  else if 32 ≤ v ∧ v < 48 then .irqInt (BitVec.ofNat 32 (v - 32))
  else .defaultHandler

theorem lastGate_gateWrites : ∀ v < maxInterrupts, lastGate gateWrites v = some (idtHandler v) := by
  decide +kernel

theorem isrInts_find : ∀ v < 22, v ≠ 15 →
    isrInts.find? (fun p => p.1 = BitVec.ofNat 32 v) =
        some (BitVec.ofNat 32 v, if pushesErrorCode v then 1#32 else 0#32) ∧
      (BitVec.ofNat 32 v).toNat = v := by
  decide +kernel

theorem irqInts_find : ∀ v < 48, 32 ≤ v →
    irqInts.find? (fun y => y = BitVec.ofNat 32 (v - 32)) = some (BitVec.ofNat 32 (v - 32)) ∧
      (irqInt (BitVec.ofNat 32 (v - 32))).slot = v ∧ pushesErrorCode v = false := by
  decide +kernel

/-- A vector with a stub has the stub of its own slot, and the stub leaves room for an
error code exactly where the processor does not push one. -/
theorem stub_of_vector {v : Nat} {stub : Stub} (h : (idtHandler v).stub = some stub) :
    stub ∈ stubs ∧ stub.slot = v ∧ stub.hasErrCode = pushesErrorCode v := by
  unfold idtHandler at h
  split at h
  · rename_i hv
    obtain ⟨hfind, hslot⟩ := isrInts_find v hv.1 hv.2
    have hmem := List.mem_of_find?_eq_some hfind
    rw [IdtHandler.stub, hfind] at h
    cases h
    refine ⟨List.mem_append_left _ (List.mem_map_of_mem hmem), hslot, ?_⟩
    cases herr : pushesErrorCode v <;> simp [Bros.isrInt]
  · split at h
    · rename_i hv
      obtain ⟨hfind, hslot, herr⟩ := irqInts_find v hv.2 hv.1
      rw [IdtHandler.stub, hfind] at h
      cases h
      exact ⟨List.mem_append_right _ (List.mem_map_of_mem (List.mem_of_find?_eq_some hfind)),
        hslot, herr.symm⟩
    · cases h

theorem isrInts_slot : (isrInts.map fun p => isrInt p.1 p.2).all
    (fun stub => stub.slot < 22 && stub.slot ≠ 15) = true := by
  decide +kernel

theorem irqInts_slot : (irqInts.map irqInt).all
    (fun stub => 32 ≤ stub.slot && stub.slot < 48) = true := by
  decide +kernel

/-- All other vectors have the default handler, and no stub is left without a vector. -/
theorem no_stub_of_vector {v : Nat} (h : (idtHandler v).stub = none) :
    idtHandler v = .defaultHandler ∧ ∀ stub ∈ stubs, stub.slot ≠ v := by
  unfold idtHandler at h ⊢
  split at h
  · rename_i hv
    obtain ⟨hfind, -⟩ := isrInts_find v hv.1 hv.2
    rw [IdtHandler.stub, hfind] at h
    cases h
  · rename_i hisr
    split at h
    · rename_i hv
      obtain ⟨hfind, -⟩ := irqInts_find v hv.2 hv.1
      rw [IdtHandler.stub, hfind] at h
      cases h
    · rename_i hirq
      rw [if_neg hisr, if_neg hirq]
      refine ⟨rfl, fun stub hstub hslot => ?_⟩
      cases List.mem_append.mp hstub with
      | inl hmem =>
          have hrange := List.all_eq_true.mp isrInts_slot stub hmem
          rw [hslot] at hrange
          exact hisr (by simpa using hrange)
      | inr hmem =>
          have hrange := List.all_eq_true.mp irqInts_slot stub hmem
          rw [hslot] at hrange
          exact hirq (by simpa using hrange)

theorem gateWrites_lt : ∀ g ∈ gateWrites, g.1 < maxInterrupts := by
  have hall : gateWrites.all (fun g => g.1 < maxInterrupts) = true := by decide +kernel
  exact fun g hg => by simpa using List.all_eq_true.mp hall g hg

/-- After the tables are set up, every vector is a present ring 0 interrupt gate into the
kernel code segment. It leads to a stub that hands its interrupt to the handler last
registered for the vector and expects an error code exactly where the processor pushes
one, or to the default handler. Nothing outside the table is written. -/
theorem idt_complete {H : Type*} (m : Mem) (idtd : Nat) (address : IdtHandler → BitVec 32)
    (v : Byte) :
    let idt := irqInit idtd address (isrInit idtd address (idtInit idtd address m))
    gateAt idt (idtd + 8 * v.toNat) = gateTo (address (idtHandler v.toNat)) ∧
      (match (idtHandler v.toNat).stub with
      | some stub =>
        stub.hasErrCode = pushesErrorCode v.toNat ∧
          ∀ (history : List (Registration H)) (s : Interrupted) (returnAddress : BitVec 32),
            stub.caller.target.call (isrHandlersAfter history) (received stub s returnAddress) =
              (lastRegistered history v.toNat).map fun handler =>
                (handler, { interruptedFrame stub s with intNo := BitVec.ofNat 32 v.toNat })
      | none => idtHandler v.toNat = .defaultHandler ∧ ∀ stub ∈ stubs, stub.slot ≠ v.toNat) ∧
      ∀ b, b < idtd ∨ idtd + idtrSize < b → idt b = m b := by
  simp only [init_eq_writeGates]
  refine ⟨gateAt_writeGates idtd address m gateWrites (lastGate_gateWrites _ v.isLt), ?_,
    fun b hb => writeGates_outside idtd address m gateWrites_lt hb⟩
  cases hstub : (idtHandler v.toNat).stub with
  | none => exact no_stub_of_vector hstub
  | some stub =>
      obtain ⟨hmem, hslot, herr⟩ := stub_of_vector hstub
      refine ⟨herr, fun history s returnAddress => ?_⟩
      rw [received_eq hmem s, call_eq hmem s history, hslot]

/-! ### The segments -/

/-- All of memory from address 0. -/
def flatSegment (kind : BitVec 5) (dpl : BitVec 2) : Segment where
  base := 0#32
  limit := 0xFFFFF#20
  kind
  dpl
  present := true
  big := true
  granular := true

theorem flatSegment_lastOffset (kind : BitVec 5) (dpl : BitVec 2) :
    (flatSegment kind dpl).lastOffset = 2 ^ 32 - 1 := by
  rw [Segment.lastOffset, flatSegment, if_pos rfl, BitVec.toNat_ofNat]
  decide

/-- What the loader put there, and what `GDT_init` leaves of it. -/
def gdtByte (k : Nat) : Byte := (gdtd.flatMap GdtDescriptor.bytes).getD k 0#8

theorem length_gdtd_bytes : (gdtd.flatMap GdtDescriptor.bytes).length = 48 := rfl

theorem gdtInit_below (m : Mem) {a k : Nat} (tss : BitVec 32) (hk : k < 40) :
    gdtInit (loadGdtd m a) a tss (a + k) = gdtByte k := by
  simp only [gdtInit, store16, store8]
  rw [write_outside _ _ (by omega), write_outside _ _ (by omega), write_outside _ _ (by omega),
    loadGdtd, storeBytes, write_offset _ _ _ _ _ (by rw [length_gdtd_bytes]; omega)]
  rfl

theorem segmentAt_gdtInit (m : Mem) {a i : Nat} (tss : BitVec 32) (hi : i < 5) :
    segmentAt (gdtInit (loadGdtd m a) a tss) (a + 8 * i) = segmentAt gdtByte (8 * i) := by
  refine segmentAt_congr fun k hk => ?_
  rw [Nat.add_assoc, gdtInit_below m tss (by omega)]

theorem load16_gdtInit (m : Mem) (a : Nat) (tss : BitVec 32) :
    load16 (gdtInit (loadGdtd m a) a tss) (a + 8 * 5 + 2) = (tss &&& 0xFFFF#32).setWidth 16 := by
  simp only [gdtInit, store8]
  rw [load16_write_outside _ _ (by omega), load16_write_outside _ _ (by omega), load16_store16]

/-- The bytes of the task state segment that are not its base. -/
theorem gdtInit_task (m : Mem) {a k : Nat} (tss : BitVec 32)
    (hk : k < 2 ∨ k = 5 ∨ k = 6) :
    gdtInit (loadGdtd m a) a tss (a + 8 * 5 + k) = gdtByte (40 + k) := by
  simp only [gdtInit, store16, store8]
  rw [write_outside _ _ (by omega), write_outside _ _ (by omega), write_outside _ _ (by omega),
    Nat.add_assoc, loadGdtd, storeBytes,
    write_offset _ _ _ _ _ (by rw [length_gdtd_bytes]; omega)]
  rfl

theorem segmentAt_task (m : Mem) (a : Nat) (tss : BitVec 32) :
    segmentAt (gdtInit (loadGdtd m a) a tss) (a + 8 * 5) =
      { base := tss, limit := BitVec.ofNat 20 (sizeofTss - 1), kind := tssAvailable32,
        dpl := 0#2, present := true, big := false, granular := false } := by
  have task (k : Nat) (hk : k < 2 ∨ k = 5 ∨ k = 6) := gdtInit_task m (a := a) tss hk
  have hmi : gdtInit (loadGdtd m a) a tss (a + 8 * 5 + 4) =
      (tss >>> 16 &&& 0xFF#32).setWidth 8 := by
    simp only [gdtInit, store8]
    rw [write_outside _ _ (by omega), write_inside _ _ (by omega)]
  have hhi : gdtInit (loadGdtd m a) a tss (a + 8 * 5 + 7) =
      (tss >>> 24 &&& 0xFF#32).setWidth 8 := by
    simp only [gdtInit, store8]
    rw [write_inside _ _ (by omega)]
  have hlimit : load16 (gdtInit (loadGdtd m a) a tss) (a + 8 * 5) = 0x67#16 := by
    rw [load16, task 1 (by decide), ← Nat.add_zero (a + 8 * 5), task 0 (by decide)]
    decide
  have hattr : gdtByte (40 + 5) = 0x89#8 := by decide
  have hlimitAttr : gdtByte (40 + 6) = 0#8 := by decide
  simp only [segmentAt, hmi, hhi, hlimit, load16_gdtInit, append_half_bytes, task 5 (by decide),
    task 6 (by decide), hattr, hlimitAttr]
  rfl

/-- Wherever the table and the task state segment lie, the table describes flat memory for
kernel and user code and data, and that task state segment. -/
theorem gdt_segments (m : Mem) (a : Nat) (tss : BitVec 32) :
    let gdt := gdtInit (loadGdtd m a) a tss
    (segmentAt gdt a).present = false ∧
      segmentAt gdt (a + gdtKernelCodeSel.toNat) = flatSegment codeReadable 0#2 ∧
      segmentAt gdt (a + gdtKernelDataSel.toNat) = flatSegment dataWritable 0#2 ∧
      segmentAt gdt (a + (gdtSel 3).toNat) = flatSegment codeReadable 3#2 ∧
      segmentAt gdt (a + (gdtSel 4).toNat) = flatSegment dataWritable 3#2 ∧
      segmentAt gdt (a + (gdtSel 5).toNat) =
        { base := tss, limit := BitVec.ofNat 20 (sizeofTss - 1), kind := tssAvailable32,
          dpl := 0#2, present := true, big := false, granular := false } ∧
      ∀ b, b < a ∨ a + gdtrSize < b → gdt b = m b := by
  refine ⟨?_, ?_, ?_, ?_, ?_, ?_, ?_⟩
  · have hnull := segmentAt_gdtInit m (a := a) tss (i := 0) (by decide)
    rw [Nat.mul_zero, Nat.add_zero] at hnull
    rw [hnull]
    rfl
  · rw [show gdtKernelCodeSel.toNat = 8 * 1 from rfl, segmentAt_gdtInit m tss (by decide)]
    decide
  · rw [show gdtKernelDataSel.toNat = 8 * 2 from rfl, segmentAt_gdtInit m tss (by decide)]
    decide
  · rw [show (gdtSel 3).toNat = 8 * 3 from rfl, segmentAt_gdtInit m tss (by decide)]
    decide
  · rw [show (gdtSel 4).toNat = 8 * 4 from rfl, segmentAt_gdtInit m tss (by decide)]
    decide
  · exact segmentAt_task m a tss
  · intro b hb
    rw [gdtrSize, show gdtd.length = 6 from rfl] at hb
    simp only [gdtInit, store16, store8]
    rw [write_outside _ _ (by omega), write_outside _ _ (by omega), write_outside _ _ (by omega),
      loadGdtd, storeBytes, write_outside _ _ (by rw [length_gdtd_bytes]; omega)]

end Bros
