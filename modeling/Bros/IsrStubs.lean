import Bros.IsrIrq
import Bros.Lib.Stack

/-!
The interrupt stubs of `arch/x86/ISR.S` and `arch/x86/IRQ.S`.

A stub is straight-line code around one call of C. `Frame` says which words lie on the
stack; it follows the pushes down to the packed `ISR_registers_t` and the pops back up
to what the CPU pushed. The C code in the middle is any state change that keeps the
saved bytes other than `int_no`.
-/

namespace Bros
open StackMemory

structure Cpu where
  eax : BitVec 32
  ecx : BitVec 32
  edx : BitVec 32
  ebx : BitVec 32
  esp : BitVec 32
  ebp : BitVec 32
  esi : BitVec 32
  edi : BitVec 32
  ds : BitVec 16
  es : BitVec 16
  fs : BitVec 16
  gs : BitVec 16
  interruptFlag : Bool
  mem : Ram

def Cpu.push (s : Cpu) (w : Word) : Cpu :=
  { s with
    esp := s.esp - BitVec.ofNat 32 w.size
    mem := storeWord s.mem (s.esp - BitVec.ofNat 32 w.size) w }

/-- A write to `ax` keeps the upper half of `eax`. -/
def setAx (eax : BitVec 32) (ax : BitVec 16) : BitVec 32 := eax.extractLsb' 16 16 ++ ax

def getAx (eax : BitVec 32) : BitVec 16 := eax.extractLsb' 0 16

inductive Instr where
  | cli
  | sti
  | push (imm : BitVec 32)
  | pushad
  | popad
  | pushAx
  | popAx
  | movAxDs
  | movAx (imm : BitVec 16)
  | movDsAx
  | movEsAx
  | movFsAx
  | movGsAx
  | addEsp (imm : BitVec 32)

def exec (s : Cpu) : Instr → Cpu
  | .cli => { s with interruptFlag := false }
  | .sti => { s with interruptFlag := true }
  | .push imm => s.push (.w32 imm)
  | .pushad =>
      -- the pushed esp is the one before the instruction
      ((((((((s.push (.w32 s.eax)).push (.w32 s.ecx)).push (.w32 s.edx)).push
        (.w32 s.ebx)).push (.w32 s.esp)).push (.w32 s.ebp)).push (.w32 s.esi)).push (.w32 s.edi))
  | .popad =>
      -- the slot of esp is skipped
      { s with
        edi := read32 s.mem s.esp
        esi := read32 s.mem (s.esp + 4#32)
        ebp := read32 s.mem (s.esp + 8#32)
        ebx := read32 s.mem (s.esp + 16#32)
        edx := read32 s.mem (s.esp + 20#32)
        ecx := read32 s.mem (s.esp + 24#32)
        eax := read32 s.mem (s.esp + 28#32)
        esp := s.esp + 32#32 }
  | .pushAx => s.push (.w16 (getAx s.eax))
  | .popAx => { s with eax := setAx s.eax (read16 s.mem s.esp), esp := s.esp + 2#32 }
  | .movAxDs => { s with eax := setAx s.eax s.ds }
  | .movAx imm => { s with eax := setAx s.eax imm }
  | .movDsAx => { s with ds := getAx s.eax }
  | .movEsAx => { s with es := getAx s.eax }
  | .movFsAx => { s with fs := getAx s.eax }
  | .movGsAx => { s with gs := getAx s.eax }
  | .addEsp imm => { s with esp := s.esp + imm }

def execAll (s : Cpu) (code : List Instr) : Cpu := code.foldl exec s

/-! ### The stubs -/

inductive CallTarget where
  | isrUniversalHandler
  | irqUniversalHandler

/-- The code before the call, the function called, and the code up to `iretd`. -/
structure HandlerCaller where
  enter : List Instr
  target : CallTarget
  leave : List Instr

def universalHandlerCaller (target : CallTarget) : HandlerCaller where
  enter := [.pushad, .movAxDs, .pushAx, .movAx 0x10#16, .movDsAx, .movEsAx, .movFsAx, .movGsAx]
  target
  leave := [.popAx, .movDsAx, .movEsAx, .movFsAx, .movGsAx, .popad, .addEsp 8#32, .sti]

def isrUniversalHandlerCaller : HandlerCaller := universalHandlerCaller .isrUniversalHandler

def irqUniversalHandlerCaller : HandlerCaller := universalHandlerCaller .irqUniversalHandler

/-- A stub with the number it pushes, whether the CPU pushes an error code for it, and
the slot of `isr_handlers` that is its own. -/
structure Stub where
  number : BitVec 32
  hasErrCode : Bool
  slot : Nat
  code : List Instr
  caller : HandlerCaller

/-- `.macro ISR_INT x, e` -/
def isrInt (x e : BitVec 32) : Stub where
  number := x
  hasErrCode := e == 1#32
  slot := x.toNat
  code := [.cli] ++ (if e = 0#32 then [.push e] else []) ++ [.push x]
  caller := isrUniversalHandlerCaller

/-- `.macro IRQ_INT x` -/
def irqInt (x : BitVec 32) : Stub where
  number := x
  hasErrCode := false
  slot := (x + pic1BaseInt).toNat
  code := [.cli, .push 0#32, .push x]
  caller := irqUniversalHandlerCaller

/-- The uses of `ISR_INT` in `ISR.S`. -/
def isrInts : List (BitVec 32 × BitVec 32) :=
  [(0#32, 0#32), (1#32, 0#32), (2#32, 0#32), (3#32, 0#32), (4#32, 0#32), (5#32, 0#32),
    (6#32, 0#32), (7#32, 0#32), (8#32, 1#32), (9#32, 0#32), (10#32, 1#32), (11#32, 1#32),
    (12#32, 1#32), (13#32, 1#32), (14#32, 1#32), (16#32, 0#32), (17#32, 1#32), (18#32, 0#32),
    (19#32, 0#32), (20#32, 0#32), (21#32, 1#32)]

/-- The uses of `IRQ_INT` in `IRQ.S`. -/
def irqInts : List (BitVec 32) :=
  [0#32, 1#32, 2#32, 3#32, 4#32, 5#32, 6#32, 7#32, 8#32, 9#32, 10#32, 11#32, 12#32, 13#32,
    14#32, 15#32]

def stubs : List Stub := isrInts.map (fun p => isrInt p.1 p.2) ++ irqInts.map irqInt

/-! ### One interrupt -/

/-- What the CPU interrupts, and the error code it has if the vector has one. -/
structure Interrupted where
  cpu : Cpu
  eip : BitVec 32
  cs : BitVec 32
  eflags : BitVec 32
  errCode : BitVec 32

/-- What the CPU pushes before it enters a stub. -/
def deliver (s : Interrupted) (hasErrCode : Bool) : Cpu :=
  let c := ((s.cpu.push (.w32 s.eflags)).push (.w32 s.cs)).push (.w32 s.eip)
  if hasErrCode then c.push (.w32 s.errCode) else c

/-- The state in which the C function is called. -/
def atCall (stub : Stub) (s : Interrupted) : Cpu :=
  execAll (deliver s stub.hasErrCode) (stub.code ++ stub.caller.enter)

/-- `ISR_registers_t` is packed: no padding after the 16-bit `ds`. -/
def readIsrRegisters (m : Ram) (a : BitVec 32) : IsrRegisters where
  ds := read16 m a
  edi := read32 m (a + 2#32)
  esi := read32 m (a + 6#32)
  ebp := read32 m (a + 10#32)
  esp := read32 m (a + 14#32)
  ebx := read32 m (a + 18#32)
  edx := read32 m (a + 22#32)
  ecx := read32 m (a + 26#32)
  eax := read32 m (a + 30#32)
  intNo := read32 m (a + 34#32)
  errCode := read32 m (a + 38#32)
  eip := read32 m (a + 42#32)
  cs := read32 m (a + 46#32)
  eflags := read32 m (a + 50#32)
  useresp := read32 m (a + 54#32)
  ss := read32 m (a + 58#32)

/-- The argument of the C function: it lies above the return address. -/
def received (stub : Stub) (s : Interrupted) (returnAddress : BitVec 32) : IsrRegisters :=
  let c := (atCall stub s).push (.w32 returnAddress)
  readIsrRegisters c.mem (c.esp + 4#32)

def CallTarget.call {H : Type*} (isrHandlers : IsrHandlers H) (r : IsrRegisters) :
    CallTarget → Option (H × IsrRegisters)
  | .isrUniversalHandler => Bros.isrUniversalHandler isrHandlers r
  | .irqUniversalHandler => Bros.irqUniversalHandler isrHandlers r

/-- A return of the C function: `esp` is as before the call, and of the 54 saved bytes
only those of `int_no` may have changed. -/
structure CReturns (before after : Cpu) : Prop where
  esp : after.esp = before.esp
  saved : ∀ i < 54, i < 34 ∨ 38 ≤ i → view after.mem before.esp i = view before.mem before.esp i

def atIret (stub : Stub) (after : Cpu) : Cpu := execAll after stub.caller.leave

/-! ### Words on the stack -/

/-- `t` differs from `s` in its stack only: `k` bytes further down, with the words `ws`
on top. -/
structure Pushed (s : Cpu) (k : Nat) (ws : List Word) (t : Cpu) : Prop where
  eax : t.eax = s.eax
  ecx : t.ecx = s.ecx
  edx : t.edx = s.edx
  ebx : t.ebx = s.ebx
  ebp : t.ebp = s.ebp
  esi : t.esi = s.esi
  edi : t.edi = s.edi
  ds : t.ds = s.ds
  esp : t.esp = s.esp - BitVec.ofNat 32 k
  frame : Stored t.mem t.esp ws

theorem Pushed.push {s t : Cpu} {k : Nat} {ws : List Word} (h : Pushed s k ws t) (w : Word)
    (hroom : w.size + wordsSize ws ≤ 2 ^ 32) : Pushed s (k + w.size) (w :: ws) (t.push w) where
  eax := h.eax
  ecx := h.ecx
  edx := h.edx
  ebx := h.ebx
  ebp := h.ebp
  esi := h.esi
  edi := h.edi
  ds := h.ds
  esp := by rw [Cpu.push, h.esp, BitVec.sub_sub, BitVec.ofNat_add]
  frame := h.frame.push hroom

theorem Pushed.cli {s t : Cpu} {k : Nat} {ws : List Word} (h : Pushed s k ws t) :
    Pushed s k ws (exec t .cli) :=
  ⟨h.eax, h.ecx, h.edx, h.ebx, h.ebp, h.esi, h.edi, h.ds, h.esp, h.frame⟩

/-- The layout of `ISR_registers_t`. -/
def isrRegistersWords (r : IsrRegisters) : List Word :=
  [.w16 r.ds, .w32 r.edi, .w32 r.esi, .w32 r.ebp, .w32 r.esp, .w32 r.ebx, .w32 r.edx,
    .w32 r.ecx, .w32 r.eax, .w32 r.intNo, .w32 r.errCode, .w32 r.eip, .w32 r.cs,
    .w32 r.eflags, .w32 r.useresp, .w32 r.ss]

theorem wordsSize_isrRegistersWords (r : IsrRegisters) : wordsSize (isrRegistersWords r) = 62 := by
  simp only [isrRegistersWords, wordsSize, Word.size]

theorem readIsrRegisters_of_stored {m : Ram} {a : BitVec 32} {r : IsrRegisters}
    (h : Stored m a (isrRegistersWords r)) : readIsrRegisters m a = r := by
  simp only [isrRegistersWords, Stored, Word.size, BitVec.add_assoc, BitVec.reduceAdd]
    at h
  obtain ⟨ds, edi, esi, ebp, esp, ebx, edx, ecx, eax, intNo, errCode, eip, cs, eflags, useresp,
    ss, -⟩ := h
  apply IsrRegisters.ext
  · exact ds.read16
  · exact edi.read32
  · exact esi.read32
  · exact ebp.read32
  · exact esp.read32
  · exact ebx.read32
  · exact edx.read32
  · exact ecx.read32
  · exact eax.read32
  · exact intNo.read32
  · exact errCode.read32
  · exact eip.read32
  · exact cs.read32
  · exact eflags.read32
  · exact useresp.read32
  · exact ss.read32

theorem getAx_setAx (eax : BitVec 32) (ax : BitVec 16) : getAx (setAx eax ax) = ax := by
  rw [getAx, setAx]
  apply BitVec.eq_of_getLsbD_eq
  intro i hi
  rw [BitVec.getLsbD_extractLsb', BitVec.getLsbD_append]
  simp [hi]

/-- What a C function receives: the interrupted state, with `esp` as `pushad` saw it. -/
def interruptedFrame (stub : Stub) (s : Interrupted) : IsrRegisters where
  ds := s.cpu.ds
  edi := s.cpu.edi
  esi := s.cpu.esi
  ebp := s.cpu.ebp
  esp := s.cpu.esp - 20#32
  ebx := s.cpu.ebx
  edx := s.cpu.edx
  ecx := s.cpu.ecx
  eax := s.cpu.eax
  intNo := stub.number
  errCode := if stub.hasErrCode then s.errCode else 0#32
  eip := s.eip
  cs := s.cs
  eflags := s.eflags
  useresp := read32 s.cpu.mem s.cpu.esp
  ss := read32 s.cpu.mem (s.cpu.esp + 4#32)

/-- What lies on the stack before the CPU pushes anything: the words that the frame's
last two fields overlay. -/
def interruptedWords (s : Interrupted) : List Word :=
  [.w32 (read32 s.cpu.mem s.cpu.esp), .w32 (read32 s.cpu.mem (s.cpu.esp + 4#32))]

theorem pushed_interrupted (s : Interrupted) : Pushed s.cpu 0 (interruptedWords s) s.cpu :=
  ⟨rfl, rfl, rfl, rfl, rfl, rfl, rfl, rfl, (BitVec.sub_zero _).symm, holds_read32 _ _,
    holds_read32 _ _, trivial⟩

theorem pushed_deliver (s : Interrupted) :
    Pushed s.cpu 12 (.w32 s.eip :: .w32 s.cs :: .w32 s.eflags :: interruptedWords s)
      (deliver s false) :=
  (((pushed_interrupted s).push (.w32 s.eflags) (Nat.le_of_ble_eq_true rfl)).push (.w32 s.cs)
    (Nat.le_of_ble_eq_true rfl)).push (.w32 s.eip) (Nat.le_of_ble_eq_true rfl)

/-- A stub reaches its caller with number and error code on top of what the CPU pushed,
whichever of the two pushed the error code. -/
def StubPushes (stub : Stub) (s : Interrupted) : Prop :=
  Pushed s.cpu 20
    (.w32 stub.number :: .w32 (if stub.hasErrCode then s.errCode else 0#32) :: .w32 s.eip ::
      .w32 s.cs :: .w32 s.eflags :: interruptedWords s)
    (execAll (deliver s stub.hasErrCode) stub.code)

theorem stubPushes_irqInt (x : BitVec 32) (s : Interrupted) : StubPushes (irqInt x) s :=
  ((pushed_deliver s).cli.push (.w32 0#32) (Nat.le_of_ble_eq_true rfl)).push (.w32 x)
    (Nat.le_of_ble_eq_true rfl)

theorem stubPushes_isrInt_zero (x : BitVec 32) (s : Interrupted) :
    StubPushes (isrInt x 0#32) s :=
  ((pushed_deliver s).cli.push (.w32 0#32) (Nat.le_of_ble_eq_true rfl)).push (.w32 x)
    (Nat.le_of_ble_eq_true rfl)

theorem stubPushes_isrInt_one (x : BitVec 32) (s : Interrupted) :
    StubPushes (isrInt x 1#32) s :=
  ((pushed_deliver s).push (.w32 s.errCode) (Nat.le_of_ble_eq_true rfl)).cli.push (.w32 x)
    (Nat.le_of_ble_eq_true rfl)

theorem mem_stubs {stub : Stub} (h : stub ∈ stubs) :
    (∃ x, stub = isrInt x 0#32) ∨ (∃ x, stub = isrInt x 1#32) ∨ ∃ x, stub = irqInt x := by
  cases List.mem_append.mp h with
  | inl hisr =>
      obtain ⟨p, hp, heq⟩ := List.mem_map.mp hisr
      have hall : (isrInts.all fun p => p.2 == 0#32 || p.2 == 1#32) = true := by decide
      have he : p.2 = 0#32 ∨ p.2 = 1#32 := by simpa using List.all_eq_true.mp hall p hp
      cases he with
      | inl he => exact Or.inl ⟨p.1, by rw [← heq, he]⟩
      | inr he => exact Or.inr (Or.inl ⟨p.1, by rw [← heq, he]⟩)
  | inr hirq =>
      obtain ⟨x, -, heq⟩ := List.mem_map.mp hirq
      exact Or.inr (Or.inr ⟨x, heq.symm⟩)

theorem frame_pushad {c : Cpu} {ws : List Word} (h : Stored c.mem c.esp ws)
    (hroom : 34 + wordsSize ws ≤ 2 ^ 32) :
    Pushed c 32
      (.w32 c.edi :: .w32 c.esi :: .w32 c.ebp :: .w32 c.esp :: .w32 c.ebx :: .w32 c.edx ::
        .w32 c.ecx :: .w32 c.eax :: ws) (exec c .pushad) := by
  have start : Pushed c 0 ws c :=
    ⟨rfl, rfl, rfl, rfl, rfl, rfl, rfl, rfl, (BitVec.sub_zero _).symm, h⟩
  have eax := start.push (.w32 c.eax) (by simp only [Word.size]; omega)
  have ecx := eax.push (.w32 c.ecx) (by simp only [wordsSize, Word.size]; omega)
  have edx := ecx.push (.w32 c.edx) (by simp only [wordsSize, Word.size]; omega)
  have ebx := edx.push (.w32 c.ebx) (by simp only [wordsSize, Word.size]; omega)
  have esp := ebx.push (.w32 c.esp) (by simp only [wordsSize, Word.size]; omega)
  have ebp := esp.push (.w32 c.ebp) (by simp only [wordsSize, Word.size]; omega)
  have esi := ebp.push (.w32 c.esi) (by simp only [wordsSize, Word.size]; omega)
  exact esi.push (.w32 c.edi) (by simp only [wordsSize, Word.size]; omega)

/-- `mov ax, ds`, `push ax`, and the load of the kernel's data segment. -/
def saveDs : List Instr :=
  [.movAxDs, .pushAx, .movAx 0x10#16, .movDsAx, .movEsAx, .movFsAx, .movGsAx]

theorem frame_saveDs {c : Cpu} {ws : List Word} (h : Stored c.mem c.esp ws)
    (hroom : 2 + wordsSize ws ≤ 2 ^ 32) :
    (execAll c saveDs).esp = c.esp - 2#32 ∧
      Stored (execAll c saveDs).mem (execAll c saveDs).esp (.w16 c.ds :: ws) := by
  have ds := h.push (w := .w16 (getAx (setAx c.eax c.ds))) hroom
  rw [getAx_setAx] at ds
  refine ⟨rfl, ?_⟩
  simp only [execAll, saveDs, List.foldl_cons, List.foldl_nil, exec, getAx_setAx]
  exact ds

/-- Up to the call the caller saves `ds` below the registers of `pushad`. -/
theorem frame_enter {c : Cpu} {ws : List Word} (h : Stored c.mem c.esp ws)
    (hroom : 34 + wordsSize ws ≤ 2 ^ 32) (target : CallTarget) :
    (execAll c (universalHandlerCaller target).enter).esp = c.esp - 34#32 ∧
      Stored (execAll c (universalHandlerCaller target).enter).mem
        (execAll c (universalHandlerCaller target).enter).esp
        (.w16 c.ds :: .w32 c.edi :: .w32 c.esi :: .w32 c.ebp :: .w32 c.esp :: .w32 c.ebx ::
          .w32 c.edx :: .w32 c.ecx :: .w32 c.eax :: ws) := by
  have pushad := frame_pushad h hroom
  rw [show (universalHandlerCaller target).enter = .pushad :: saveDs from rfl, execAll,
    List.foldl_cons, ← execAll]
  generalize exec c .pushad = d at pushad ⊢
  obtain ⟨hesp, hframe⟩ := frame_saveDs pushad.frame (by simp only [wordsSize, Word.size]; omega)
  refine ⟨?_, ?_⟩
  · rw [hesp, pushad.esp, BitVec.sub_sub]
    rfl
  · rwa [pushad.ds] at hframe

/-- After the return the caller loads the registers from the words below the stack
pointer and leaves it where the CPU pushed `eip`. -/
theorem execAll_leave (after : Cpu) (target : CallTarget) :
    execAll after (universalHandlerCaller target).leave =
      { after with
        eax := read32 after.mem (after.esp + 30#32)
        ecx := read32 after.mem (after.esp + 26#32)
        edx := read32 after.mem (after.esp + 22#32)
        ebx := read32 after.mem (after.esp + 18#32)
        ebp := read32 after.mem (after.esp + 10#32)
        esi := read32 after.mem (after.esp + 6#32)
        edi := read32 after.mem (after.esp + 2#32)
        ds := read16 after.mem after.esp
        es := read16 after.mem after.esp
        fs := read16 after.mem after.esp
        gs := read16 after.mem after.esp
        esp := after.esp + 42#32
        interruptFlag := true } := by
  simp only [execAll, universalHandlerCaller, List.foldl_cons, List.foldl_nil, exec,
    getAx_setAx, BitVec.add_assoc, BitVec.reduceAdd]

/-! ### Transparency -/

/-- The three kinds of stub, all with the caller's code. -/
theorem stubPushes {stub : Stub} (h : stub ∈ stubs) (s : Interrupted) :
    StubPushes stub s ∧ ∃ target, stub.caller = universalHandlerCaller target := by
  cases mem_stubs h with
  | inl hzero =>
      obtain ⟨x, hx⟩ := hzero
      subst hx
      exact ⟨stubPushes_isrInt_zero x s, _, rfl⟩
  | inr h =>
    cases h with
    | inl hone =>
        obtain ⟨x, hx⟩ := hone
        subst hx
        exact ⟨stubPushes_isrInt_one x s, _, rfl⟩
    | inr hirq =>
        obtain ⟨x, hx⟩ := hirq
        subst hx
        exact ⟨stubPushes_irqInt x s, _, rfl⟩

theorem atCall_frame {stub : Stub} (h : stub ∈ stubs) (s : Interrupted) :
    (atCall stub s).esp = s.cpu.esp - 54#32 ∧
      Stored (atCall stub s).mem (atCall stub s).esp
        (isrRegistersWords (interruptedFrame stub s)) := by
  obtain ⟨code, target, hcaller⟩ := stubPushes h s
  rw [atCall, execAll, List.foldl_append, hcaller, ← execAll, ← execAll]
  unfold StubPushes at code
  generalize execAll (deliver s stub.hasErrCode) stub.code = c at code ⊢
  obtain ⟨hesp, hframe⟩ := frame_enter code.frame (Nat.le_of_ble_eq_true rfl) target
  refine ⟨?_, ?_⟩
  · rw [hesp, code.esp, BitVec.sub_sub]
    rfl
  · rw [code.ds, code.edi, code.esi, code.ebp, code.esp, code.ebx, code.edx, code.ecx,
      code.eax] at hframe
    exact hframe

/-- The C function finds the packed frame above its return address. -/
theorem readIsrRegisters_push {c : Cpu} {r : IsrRegisters}
    (h : Stored c.mem c.esp (isrRegistersWords r)) (returnAddress : BitVec 32) :
    readIsrRegisters (c.push (.w32 returnAddress)).mem
      ((c.push (.w32 returnAddress)).esp + 4#32) = r :=
  readIsrRegisters_of_stored
    (h.push (w := .w32 returnAddress) (by rw [wordsSize_isrRegistersWords, Word.size]; decide)).2

theorem received_eq {stub : Stub} (h : stub ∈ stubs) (s : Interrupted)
    (returnAddress : BitVec 32) : received stub s returnAddress = interruptedFrame stub s :=
  readIsrRegisters_push (atCall_frame h s).2 returnAddress

/-- A saved word that does not meet `int_no` is the same after the call. -/
theorem CReturns.read32 {before after : Cpu} (h : CReturns before after) (k : Nat)
    (hk : k + 4 ≤ 34 ∨ 38 ≤ k ∧ k + 4 ≤ 54) :
    read32 after.mem (before.esp + BitVec.ofNat 32 k) =
      read32 before.mem (before.esp + BitVec.ofNat 32 k) := by
  apply read32_congr
  intro i hi
  rw [view_add, view_add]
  exact h.saved _ (by omega) (by omega)

/-- The C function may write `int_no`, as `IRQ_UniversalHandler` does. -/
theorem CReturns.writeIntNo (c : Cpu) (eax v : BitVec 32) :
    CReturns c { c with eax, mem := storeWord c.mem (c.esp + 34#32) (.w32 v) } := by
  refine ⟨rfl, ?_⟩
  intro i hi hsaved
  have hoff : ¬ (c.esp + BitVec.ofNat 32 i - (c.esp + 34#32)).toNat < 4 := by
    simp only [BitVec.toNat_sub, BitVec.toNat_add, BitVec.toNat_ofNat]
    omega
  exact if_neg hoff

theorem CReturns.read16 {before after : Cpu} (h : CReturns before after) :
    read16 after.mem before.esp = read16 before.mem before.esp :=
  read16_congr fun i hi => h.saved i (by omega) (by omega)

theorem ofNat_toNat_self (x : BitVec 32) : BitVec.ofNat 32 x.toNat = x := by
  rw [BitVec.ofNat_toNat, BitVec.setWidth_eq]

/-- The handler called, with its argument, for a frame of the stub. -/
theorem call_eq {H : Type*} {stub : Stub} (h : stub ∈ stubs) (s : Interrupted)
    (history : List (Registration H)) :
    stub.caller.target.call (isrHandlersAfter history) (interruptedFrame stub s) =
      (lastRegistered history stub.slot).map fun handler =>
        (handler, { interruptedFrame stub s with intNo := BitVec.ofNat 32 stub.slot }) := by
  have isr (x e : BitVec 32) : (isrInt x e).caller.target.call (isrHandlersAfter history)
      (interruptedFrame (isrInt x e) s) =
        (lastRegistered history (isrInt x e).slot).map fun handler =>
          (handler, { interruptedFrame (isrInt x e) s with
            intNo := BitVec.ofNat 32 (isrInt x e).slot }) := by
    rw [← isrHandlersAfter_eq_lastRegistered,
      show BitVec.ofNat 32 (isrInt x e).slot = x from ofNat_toNat_self x]
    rfl
  cases mem_stubs h with
  | inl hzero =>
      obtain ⟨x, hx⟩ := hzero
      rw [hx]
      exact isr x 0#32
  | inr h =>
    cases h with
    | inl hone =>
        obtain ⟨x, hx⟩ := hone
        rw [hx]
        exact isr x 1#32
    | inr hirq =>
        obtain ⟨x, hx⟩ := hirq
        rw [hx, ← isrHandlersAfter_eq_lastRegistered,
          show BitVec.ofNat 32 (irqInt x).slot = x + pic1BaseInt from ofNat_toNat_self _]
        rfl

/-- The state at `iretd`: the stack pointer is at the words the CPU pushed and the
registers are the interrupted ones. -/
structure Resumes (s : Interrupted) (t : Cpu) : Prop where
  esp : t.esp = s.cpu.esp - 12#32
  eip : read32 t.mem t.esp = s.eip
  cs : read32 t.mem (t.esp + 4#32) = s.cs
  eflags : read32 t.mem (t.esp + 8#32) = s.eflags
  eax : t.eax = s.cpu.eax
  ecx : t.ecx = s.cpu.ecx
  edx : t.edx = s.cpu.edx
  ebx : t.ebx = s.cpu.ebx
  ebp : t.ebp = s.cpu.ebp
  esi : t.esi = s.cpu.esi
  edi : t.edi = s.cpu.edi
  ds : t.ds = s.cpu.ds
  es : t.es = s.cpu.es
  fs : t.fs = s.cpu.fs
  gs : t.gs = s.cpu.gs

/-- `ds = es = fs = gs`, as `GDT_reload_segments` leaves them. -/
structure FlatSegments (s : Cpu) : Prop where
  es : s.es = s.ds
  fs : s.fs = s.ds
  gs : s.gs = s.ds

theorem resumes {stub : Stub} (h : stub ∈ stubs) {s : Interrupted} (flat : FlatSegments s.cpu)
    {after : Cpu} (returns : CReturns (atCall stub s) after) : Resumes s (atIret stub after) := by
  obtain ⟨hesp, hframe⟩ := atCall_frame h s
  have hread := readIsrRegisters_of_stored hframe
  obtain ⟨-, target, hcaller⟩ := stubPushes h s
  have word (k : Nat) (hk : k + 4 ≤ 34 ∨ 38 ≤ k ∧ k + 4 ≤ 54) :
      read32 after.mem (after.esp + BitVec.ofNat 32 k) =
        read32 (atCall stub s).mem ((atCall stub s).esp + BitVec.ofNat 32 k) := by
    rw [returns.esp]
    exact returns.read32 k hk
  have ds : read16 after.mem after.esp = s.cpu.ds := by
    rw [returns.esp, returns.read16]
    exact congrArg IsrRegisters.ds hread
  have leave := execAll_leave after target
  rw [atIret, hcaller, leave]
  refine ⟨?_, ?_, ?_, ?_, ?_, ?_, ?_, ?_, ?_, ?_, ?_, ds, ds.trans flat.es.symm,
    ds.trans flat.fs.symm, ds.trans flat.gs.symm⟩
  · change after.esp + 42#32 = _
    rw [returns.esp, hesp]
    bv_omega
  · exact (word 42 (by decide)).trans (congrArg IsrRegisters.eip hread)
  · rw [BitVec.add_assoc]
    exact (word 46 (by decide)).trans (congrArg IsrRegisters.cs hread)
  · rw [BitVec.add_assoc]
    exact (word 50 (by decide)).trans (congrArg IsrRegisters.eflags hread)
  · exact (word 30 (by decide)).trans (congrArg IsrRegisters.eax hread)
  · exact (word 26 (by decide)).trans (congrArg IsrRegisters.ecx hread)
  · exact (word 22 (by decide)).trans (congrArg IsrRegisters.edx hread)
  · exact (word 18 (by decide)).trans (congrArg IsrRegisters.ebx hread)
  · exact (word 10 (by decide)).trans (congrArg IsrRegisters.ebp hread)
  · exact (word 6 (by decide)).trans (congrArg IsrRegisters.esi hread)
  · exact (word 2 (by decide)).trans (congrArg IsrRegisters.edi hread)

/-- Every stub hands the interrupted state over, to the handler last registered for its
slot, and returns to it. -/
theorem interrupt_stub_transparent {H : Type*} {stub : Stub} (h : stub ∈ stubs)
    (history : List (Registration H)) {s : Interrupted} (flat : FlatSegments s.cpu)
    (returnAddress : BitVec 32) {after : Cpu} (returns : CReturns (atCall stub s) after) :
    received stub s returnAddress = interruptedFrame stub s ∧
      stub.caller.target.call (isrHandlersAfter history) (received stub s returnAddress) =
        (lastRegistered history stub.slot).map (fun handler =>
          (handler, { interruptedFrame stub s with intNo := BitVec.ofNat 32 stub.slot })) ∧
      Resumes s (atIret stub after) := by
  rw [received_eq h s]
  exact ⟨rfl, call_eq h s history, resumes h flat returns⟩

/-- A page fault with a handler registered, and a C function that changes `int_no`. -/
def pageFault : Interrupted where
  cpu :=
    { eax := 1#32, ecx := 2#32, edx := 3#32, ebx := 4#32, esp := 0x1000#32, ebp := 5#32,
      esi := 6#32, edi := 7#32, ds := 0x10#16, es := 0x10#16, fs := 0x10#16, gs := 0x10#16,
      interruptFlag := true, mem := fun _ => 0xAA#8 }
  eip := 0x101234#32
  cs := 8#32
  eflags := 0x202#32
  errCode := 2#32

theorem interrupt_stub_transparent_page_fault :
    ∃ after, received (isrInt 14#32 1#32) pageFault 0x100500#32 =
        interruptedFrame (isrInt 14#32 1#32) pageFault ∧
      (isrInt 14#32 1#32).caller.target.call (isrHandlersAfter [.isr 14#8 (some "page fault")])
          (received (isrInt 14#32 1#32) pageFault 0x100500#32) =
        (lastRegistered [.isr 14#8 (some "page fault")] (isrInt 14#32 1#32).slot).map
          (fun handler => (handler, { interruptedFrame (isrInt 14#32 1#32) pageFault with
            intNo := BitVec.ofNat 32 (isrInt 14#32 1#32).slot })) ∧
      Resumes pageFault (atIret (isrInt 14#32 1#32) after) := by
  have hmem : isrInt 14#32 1#32 ∈ stubs :=
    List.mem_append_left _ (List.mem_map_of_mem (f := fun p => isrInt p.1 p.2)
      (show (14#32, 1#32) ∈ isrInts by decide))
  exact ⟨_, interrupt_stub_transparent hmem _ ⟨rfl, rfl, rfl⟩ _
    (CReturns.writeIntNo _ 99#32 0x2E#32)⟩

end Bros
