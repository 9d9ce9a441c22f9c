import Bros.Descriptors
import Bros.Pic
import Bros.Lib.Runs

/-!
Hardware interrupts from the controllers to the registered handlers.

Devices move their request lines at any time, also between two port writes and between
the pulses of an acknowledge cycle. The processor accepts interrupts between
instructions while its flag is set; the instruction after `sti` is shielded. From there
on the code is that of `IRQ.S` and `IRQ_UniversalHandler`: the writes of `PIC_EOI`, the
call of the handler, `sti`, `iretd`.
-/

namespace Bros
open ByteMemory Pic8259 Runs

section
variable {H : Type*}

/-- Where an interrupt that the processor has begun to take stands. -/
inductive Stage where
  /-- The request was seen; the first pulse of the acknowledge cycle is next. -/
  | intr
  | inta (taken : Option Line)
  /-- In the stub or in `PIC_EOI`, with these writes to come. -/
  | stub (irq : Irq) (rest : List PortWrite)
  | handler (irq : Irq)
  /-- `sti` is done and `iretd` is next. -/
  | leaving
  /-- In the code of a vector that belongs to no interrupt request. -/
  | stray (vector : Byte)
deriving DecidableEq

/-- `savedIf` is the interrupt flag in the `eflags` that were pushed. -/
structure Frame where
  savedIf : Bool
  stage : Stage
deriving DecidableEq

structure Call (H : Type*) where
  irq : Irq
  /-- The registrations at that time. -/
  history : List (Registration H)
  called : Option (H × IsrRegisters)

structure World (H : Type*) where
  pics : Pair
  /-- What `PIC_init` has still to write. -/
  booting : List PortWrite
  interruptFlag : Bool
  /-- The next instruction follows `sti`. -/
  shadow : Bool
  /-- The interrupts in progress, the innermost one first. -/
  stack : List Frame
  isrHandlers : IsrHandlers H
  history : List (Registration H)
  calls : List (Call H)
  /-- Rising edges, with those that `PIC_init` found. -/
  rises : Irq → Nat
  /-- Requests that fell again before the processor took them. -/
  falls : Irq → Nat
  /-- Cycles in which the request was gone. -/
  spurious : Irq → Nat

/-- The processor has been reset and `_start` has masked interrupts. -/
def World.start (pics : Pair) : World H where
  pics
  booting := picInit
  interruptFlag := false
  shadow := false
  stack := []
  isrHandlers _ := none
  history := []
  calls := []
  rises _ := 0
  falls _ := 0
  spurious _ := 0

inductive Act (H : Type*) where
  /-- A device drives its line. -/
  | line (irq : Irq) (level : Bool)
  /-- An instruction of the main program that is none of the others. -/
  | instr
  | accept
  /-- The next pulse of the acknowledge cycle. -/
  | inta
  /-- The next write of `PIC_init` or `PIC_EOI`. -/
  | write
  /-- `IRQ_UniversalHandler` looks up and calls the handler. -/
  | call (r : IsrRegisters)
  | sti
  | iret
  | cli
  | register (r : Registration H)

def bump (f : Irq → Nat) (irq : Irq) : Irq → Nat := fun k => if k = irq then f k + 1 else f k

def bumpSome (f : Irq → Nat) : Option Irq → Irq → Nat
  | some irq => bump f irq
  | none => f

def irqOfNumber (n : Nat) : Option Irq :=
  if h : n < 8 then some (.master ⟨n, h⟩)
  else if h : n - 8 < 8 then some (.slave ⟨n - 8, h⟩)
  else none

/-- The request whose stub the gate of a vector leads to. -/
def irqOfVector (v : Byte) : Option Irq :=
  match idtHandler v.toNat with
  | .irqInt x => irqOfNumber x.toNat
  | _ => none

/-- The stub pushes the number that `PIC_EOI` gets. -/
def enterVector (v : Byte) : Stage :=
  match irqOfVector v with
  | some irq => .stub irq (picEoi (irqNumber irq))
  | none => .stray v

def World.pending (w : World H) (irq : Irq) : Bool := (w.pics.input irq).isLatched

def World.line (w : World H) (irq : Irq) (level : Bool) : World H :=
  { w with
    pics := w.pics.drive irq level
    rises := if level && (w.pics.input irq).isLow then bump w.rises irq else w.rises
    falls := if !level && w.pending irq then bump w.falls irq else w.falls }

/-- The processor is between two instructions. -/
def executing : List Frame → Bool
  | ⟨_, .intr⟩ :: _ => false
  | ⟨_, .inta _⟩ :: _ => false
  | _ => true

def World.accept (w : World H) : Option (World H) :=
  if w.interruptFlag && !w.shadow && executing w.stack && w.pics.master.int then
    some { w with stack := ⟨w.interruptFlag, .intr⟩ :: w.stack }
  else none

/-- The request that a cycle without one is taken for. -/
def spuriousIrq (p : Pair) (taken : Option Line) : Option Irq :=
  match taken, p.answers taken with
  | none, _ => some (.master lastLine)
  | some _, .slave => if p.slave.int then none else some (.slave lastLine)
  | some _, _ => none

def World.inta (w : World H) : Option (World H) :=
  match w.stack with
  | ⟨savedIf, .intr⟩ :: stack =>
    some { w with
      pics := w.pics.firstInta.1
      stack := ⟨savedIf, .inta w.pics.firstInta.2⟩ :: stack }
  | ⟨savedIf, .inta taken⟩ :: stack =>
    -- an interrupt gate clears the flag
    some { w with
      pics := (w.pics.secondInta taken).1
      interruptFlag := false
      stack := ⟨savedIf, enterVector (w.pics.secondInta taken).2⟩ :: stack
      spurious := bumpSome w.spurious (spuriousIrq w.pics taken) }
  | _ => none

/-- From the last write of `PIC_init` on, requests count. -/
def World.booted (w : World H) : World H :=
  { w with
    rises := fun irq => (w.pending irq).toNat
    falls := fun _ => 0 }

def World.write (w : World H) : Option (World H) :=
  match w.stack, w.booting with
  | [], x :: rest =>
    let w := { w with pics := w.pics.portWrite x, booting := rest }
    some (if rest.isEmpty then w.booted else w)
  | ⟨savedIf, .stub irq (x :: rest)⟩ :: stack, _ =>
    some { w with pics := w.pics.portWrite x, stack := ⟨savedIf, .stub irq rest⟩ :: stack }
  | _, _ => none

/-- `r` is what the stub saved; the number is its own. -/
def World.call (w : World H) (r : IsrRegisters) : Option (World H) :=
  match w.stack with
  | ⟨savedIf, .stub irq []⟩ :: stack =>
    let r := { r with intNo := (irqNumber irq).setWidth 32 }
    some { w with
      stack := ⟨savedIf, .handler irq⟩ :: stack
      calls := w.calls ++ [⟨irq, w.history, irqUniversalHandler w.isrHandlers r⟩] }
  | _ => none

/-- `_start_init` executes `sti` when everything is set up, the stubs before `iretd`. -/
def World.sti (w : World H) : Option (World H) :=
  match w.stack with
  | [] => if w.booting.isEmpty then some { w with interruptFlag := true, shadow := true } else none
  | ⟨savedIf, .handler _⟩ :: stack =>
    some { w with interruptFlag := true, shadow := true, stack := ⟨savedIf, .leaving⟩ :: stack }
  | _ => none

def World.iret (w : World H) : Option (World H) :=
  match w.stack with
  | ⟨savedIf, .leaving⟩ :: stack =>
    some { w with interruptFlag := savedIf, shadow := false, stack }
  | _ => none

/-- `cli` comes from the main program or from a handler. -/
def World.cli (w : World H) : Option (World H) :=
  match w.stack with
  | [] => some { w with interruptFlag := false, shadow := false }
  | ⟨_, .handler _⟩ :: _ => some { w with interruptFlag := false }
  | _ => none

def World.register (w : World H) (r : Registration H) : Option (World H) :=
  match w.stack with
  | [] => some { w with
      isrHandlers := r.perform w.isrHandlers, history := w.history ++ [r], shadow := false }
  | ⟨_, .handler _⟩ :: _ => some { w with
      isrHandlers := r.perform w.isrHandlers, history := w.history ++ [r] }
  | _ => none

def interruptStep (w : World H) : Act H → Option (World H)
  | .line irq level => if irq = .master cascade then none else some (w.line irq level)
  | .instr => if w.stack.isEmpty then some { w with shadow := false } else none
  | .accept => w.accept
  | .inta => w.inta
  | .write => w.write
  | .call r => w.call r
  | .sti => w.sti
  | .iret => w.iret
  | .cli => w.cli
  | .register r => w.register r

/-- All that a step can do. -/
inductive Steps (w : World H) : Act H → World H → Prop where
  | line {irq : Irq} {level : Bool} (hirq : irq ≠ .master cascade) :
      Steps w (.line irq level) (w.line irq level)
  | instr (hstack : w.stack = []) : Steps w .instr { w with shadow := false }
  | accept (hflag : w.interruptFlag = true) (hshadow : w.shadow = false)
      (hexec : executing w.stack = true) (hint : w.pics.master.int = true) :
      Steps w .accept { w with stack := ⟨w.interruptFlag, .intr⟩ :: w.stack }
  | firstInta {savedIf : Bool} {stack : List Frame} (hstack : w.stack = ⟨savedIf, .intr⟩ :: stack) :
      Steps w .inta
        { w with
          pics := w.pics.firstInta.1
          stack := ⟨savedIf, .inta w.pics.firstInta.2⟩ :: stack }
  | secondInta {savedIf : Bool} {taken : Option Line} {stack : List Frame}
      (hstack : w.stack = ⟨savedIf, .inta taken⟩ :: stack) :
      Steps w .inta
        { w with
          pics := (w.pics.secondInta taken).1
          interruptFlag := false
          stack := ⟨savedIf, enterVector (w.pics.secondInta taken).2⟩ :: stack
          spurious := bumpSome w.spurious (spuriousIrq w.pics taken) }
  | bootWrite {x : PortWrite} {y : PortWrite} {rest : List PortWrite} (hstack : w.stack = [])
      (hbooting : w.booting = x :: y :: rest) :
      Steps w .write { w with pics := w.pics.portWrite x, booting := y :: rest }
  | lastBootWrite {x : PortWrite} (hstack : w.stack = []) (hbooting : w.booting = [x]) :
      Steps w .write
        (World.booted { w with pics := w.pics.portWrite x, booting := [] })
  | eoiWrite {savedIf : Bool} {irq : Irq} {x : PortWrite} {rest : List PortWrite}
      {stack : List Frame} (hstack : w.stack = ⟨savedIf, .stub irq (x :: rest)⟩ :: stack) :
      Steps w .write
        { w with
          pics := w.pics.portWrite x
          stack := ⟨savedIf, .stub irq rest⟩ :: stack }
  | call {r : IsrRegisters} {savedIf : Bool} {irq : Irq} {stack : List Frame}
      (hstack : w.stack = ⟨savedIf, .stub irq []⟩ :: stack) :
      Steps w (.call r)
        { w with
          stack := ⟨savedIf, .handler irq⟩ :: stack
          calls := w.calls ++ [⟨irq, w.history, irqUniversalHandler w.isrHandlers
            { r with intNo := (irqNumber irq).setWidth 32 }⟩] }
  | stiMain (hstack : w.stack = []) (hbooting : w.booting = []) :
      Steps w .sti { w with interruptFlag := true, shadow := true }
  | stiHandler {savedIf : Bool} {irq : Irq} {stack : List Frame}
      (hstack : w.stack = ⟨savedIf, .handler irq⟩ :: stack) :
      Steps w .sti
        { w with interruptFlag := true, shadow := true, stack := ⟨savedIf, .leaving⟩ :: stack }
  | iret {savedIf : Bool} {stack : List Frame} (hstack : w.stack = ⟨savedIf, .leaving⟩ :: stack) :
      Steps w .iret { w with interruptFlag := savedIf, shadow := false, stack }
  | cliMain (hstack : w.stack = []) :
      Steps w .cli { w with interruptFlag := false, shadow := false }
  | cliHandler {savedIf : Bool} {irq : Irq} {stack : List Frame}
      (hstack : w.stack = ⟨savedIf, .handler irq⟩ :: stack) :
      Steps w .cli { w with interruptFlag := false }
  | registerMain {r : Registration H} (hstack : w.stack = []) :
      Steps w (.register r)
        { w with
          isrHandlers := r.perform w.isrHandlers, history := w.history ++ [r], shadow := false }
  | registerHandler {r : Registration H} {savedIf : Bool} {irq : Irq} {stack : List Frame}
      (hstack : w.stack = ⟨savedIf, .handler irq⟩ :: stack) :
      Steps w (.register r)
        { w with isrHandlers := r.perform w.isrHandlers, history := w.history ++ [r] }

theorem steps_of_interruptStep {w w' : World H} {a : Act H} (hs : interruptStep w a = some w') :
    Steps w a w' := by
  cases a with
  | line irq level =>
      rw [interruptStep, Option.ite_none_left_eq_some] at hs
      cases hs.2
      exact .line hs.1
  | instr =>
      rw [interruptStep, Option.ite_none_right_eq_some] at hs
      cases hs.2
      exact .instr (List.isEmpty_iff.mp hs.1)
  | accept =>
      rw [interruptStep, World.accept, Option.ite_none_right_eq_some] at hs
      simp only [Bool.and_eq_true, Bool.not_eq_true'] at hs
      obtain ⟨⟨⟨⟨hflag, hshadow⟩, hexec⟩, hint⟩, hs⟩ := hs
      cases hs
      exact .accept hflag hshadow hexec hint
  | inta =>
      rw [interruptStep, World.inta] at hs
      split at hs
      · rename_i hstack
        cases hs
        exact .firstInta hstack
      · rename_i hstack
        cases hs
        exact .secondInta hstack
      · cases hs
  | write =>
      rw [interruptStep, World.write] at hs
      split at hs
      · rename_i x rest hstack hbooting
        cases rest with
        | nil =>
            cases hs
            exact .lastBootWrite hstack hbooting
        | cons y rest =>
            cases hs
            exact .bootWrite hstack hbooting
      · rename_i hstack
        cases hs
        exact .eoiWrite hstack
      · cases hs
  | call r =>
      rw [interruptStep, World.call] at hs
      split at hs
      · rename_i hstack
        cases hs
        exact .call hstack
      · cases hs
  | sti =>
      rw [interruptStep, World.sti] at hs
      split at hs
      · rename_i hstack
        rw [Option.ite_none_right_eq_some] at hs
        cases hs.2
        exact .stiMain hstack (List.isEmpty_iff.mp hs.1)
      · rename_i hstack
        cases hs
        exact .stiHandler hstack
      · cases hs
  | iret =>
      rw [interruptStep, World.iret] at hs
      split at hs
      · rename_i hstack
        cases hs
        exact .iret hstack
      · cases hs
  | cli =>
      rw [interruptStep, World.cli] at hs
      split at hs
      · rename_i hstack
        cases hs
        exact .cliMain hstack
      · rename_i hstack
        cases hs
        exact .cliHandler hstack
      · cases hs
  | register r =>
      rw [interruptStep, World.register] at hs
      split at hs
      · rename_i hstack
        cases hs
        exact .registerMain hstack
      · rename_i hstack
        cases hs
        exact .registerHandler hstack
      · cases hs

/-! ### Acknowledge cycles -/

/-- What the first pulse leaves in service at the master. -/
def takenIsr : Option Line → Line → Bool
  | none => idle
  | some i => serving i

/-- The request a cycle serves, which is the lowest one of the chip that answers where
there is none. -/
def servedBy (p : Pair) (taken : Option Line) : Irq :=
  if taken = some cascade then .slave (p.slave.resolve.getD lastLine)
  else .master (taken.getD lastLine)

theorem irqOfVector_master (i : Line) :
    irqOfVector ((0x20#8 &&& 0xF8#8) ||| BitVec.ofNat 8 i.val) = some (.master i) := by
  revert i
  decide +kernel

theorem irqOfVector_slave (i : Line) :
    irqOfVector ((0x28#8 &&& 0xF8#8) ||| BitVec.ofNat 8 i.val) = some (.slave i) := by
  revert i
  decide +kernel

section
variable {p : Pair} {masterIsr slaveIsr : Line → Bool}

theorem answers_slave (h : Programmed p masterIsr slaveIsr) :
    p.answers (some cascade) = .slave := by
  rw [Pair.answers, h.masterConfig, h.slaveConfig]
  decide

theorem answers_master (h : Programmed p masterIsr slaveIsr) {taken : Option Line}
    (ht : taken ≠ some cascade) : p.answers taken = .master := by
  cases taken with
  | none => rfl
  | some i =>
      have hbit : ∀ i : Line, i ≠ cascade → pic1Config.icw3.getLsbD i = false := by decide
      rw [Pair.answers, h.masterConfig, hbit i fun hi => ht (congrArg some hi)]
      rfl

theorem secondInta_master (h : Programmed p masterIsr slaveIsr) {taken : Option Line}
    (ht : taken ≠ some cascade) :
    (p.secondInta taken).1 = p ∧
      irqOfVector (p.secondInta taken).2 = some (.master (taken.getD lastLine)) := by
  rw [Pair.secondInta, answers_master h ht]
  refine ⟨rfl, ?_⟩
  change irqOfVector (p.master.vector taken) = _
  rw [Chip.vector, h.masterConfig]
  exact irqOfVector_master _

theorem secondInta_slave (h : Programmed p masterIsr idle) :
    (p.secondInta (some cascade)).1 = Pair.settle { p with slave := p.slave.acknowledge.1 } ∧
      irqOfVector (p.secondInta (some cascade)).2 =
        some (.slave (p.slave.resolve.getD lastLine)) := by
  rw [Pair.secondInta, answers_slave h]
  refine ⟨rfl, ?_⟩
  change irqOfVector (p.slave.acknowledge.1.vector p.slave.acknowledge.2) = _
  cases hi : p.slave.resolve with
  | none =>
      rw [acknowledge_none hi, Chip.vector, h.slaveConfig]
      exact irqOfVector_slave lastLine
  | some i =>
      rw [acknowledge_some h.slaveNested h.slaveIsr_eq hi, Chip.vector, h.slaveConfig]
      exact irqOfVector_slave i

theorem firstInta_taken (p : Pair) : p.firstInta.2 = p.master.resolve := by
  rw [Pair.firstInta, Chip.acknowledge]
  cases p.master.resolve <;> rfl

theorem firstInta_programmed (h : Programmed p idle idle) :
    Programmed p.firstInta.1 (takenIsr p.firstInta.2) idle := by
  cases hi : p.master.resolve with
  | none =>
      rw [Pair.firstInta, acknowledge_none hi]
      exact h
  | some i =>
      rw [Pair.firstInta, acknowledge_some h.masterNested h.masterIsr_eq hi]
      exact ⟨congrArg (serving i, ·) h.masterConfig, h.slave⟩

theorem firstInta_linked (h : Programmed p idle idle) (linked : p.Linked)
    (ht : p.firstInta.2 ≠ some cascade) : p.firstInta.1.Linked := by
  cases hi : p.master.resolve with
  | none =>
      rw [Pair.firstInta, acknowledge_none hi]
      exact linked
  | some i =>
      have hne : cascade ≠ i := fun hc => ht (by rw [firstInta_taken, hi, hc])
      rw [Pair.firstInta, acknowledge_some h.masterNested h.masterIsr_eq hi]
      exact (Function.update_of_ne hne _ _).trans linked

/-- What is in service after the second pulse. -/
theorem secondInta_spec {taken : Option Line} (h : Programmed p (takenIsr taken) idle)
    (linked : taken ≠ some cascade → p.Linked) :
    irqOfVector (p.secondInta taken).2 = some (servedBy p taken) ∧
      (p.secondInta taken).1.Linked ∧
      ∃ masterIsr slaveIsr, InService (servedBy p taken) masterIsr slaveIsr ∧
        Programmed (p.secondInta taken).1 masterIsr slaveIsr := by
  by_cases ht : taken = some cascade
  · subst ht
    obtain ⟨hpair, hvector⟩ := secondInta_slave h
    rw [servedBy, if_pos rfl]
    refine ⟨hvector, ?_, ?_⟩
    · rw [hpair]
      exact settle_linked_of_int (acknowledge_int h.slaveNested h.slaveIsr_eq)
    · rw [hpair]
      cases hi : p.slave.resolve with
      | none =>
          rw [acknowledge_none hi]
          exact ⟨_, _, .spuriousSlave, h.master, h.slave⟩
      | some i =>
          rw [acknowledge_some h.slaveNested h.slaveIsr_eq hi]
          exact ⟨_, _, .slave i, h.master, congrArg (serving i, ·) h.slaveConfig⟩
  · obtain ⟨hpair, hvector⟩ := secondInta_master h ht
    rw [servedBy, if_neg ht, hpair]
    refine ⟨hvector, linked ht, ?_⟩
    cases taken with
    | none => exact ⟨_, _, .spuriousMaster, h⟩
    | some i => exact ⟨_, _, .master i, h⟩

end

/-! ### Where the system can be -/

/-- Each place with what holds there of the controllers. The arguments are the fields
`booting`, `stack`, `interruptFlag`, `shadow` and `pics`. -/
inductive Phase : List PortWrite → List Frame → Bool → Bool → Pair → Prop where
  | booting {writes : List PortWrite} {p : Pair} (suffix : writes <:+ picInit) (ne : writes ≠ [])
      (programs : Programmed (p.run writes) idle idle)
      (linked : writes.length ≤ 6 → p.Linked) : Phase writes [] false false p
  | main {flag shadow : Bool} {p : Pair} (programmed : Programmed p idle idle)
      (linked : p.Linked) : Phase [] [] flag shadow p
  | intr {p : Pair} (programmed : Programmed p idle idle) (linked : p.Linked) :
      Phase [] [⟨true, .intr⟩] true false p
  | inta {taken : Option Line} {p : Pair} (programmed : Programmed p (takenIsr taken) idle)
      (linked : taken ≠ some cascade → p.Linked) : Phase [] [⟨true, .inta taken⟩] true false p
  | stub {irq : Irq} {rest : List PortWrite} {p : Pair}
      (programs : Programmed (p.run rest) idle idle) (linked : p.Linked)
      (eoi : ∀ x ∈ rest, x.2 = picOcw2MaskEoi) : Phase [] [⟨true, .stub irq rest⟩] false false p
  | handler {irq : Irq} {p : Pair} (programmed : Programmed p idle idle) (linked : p.Linked) :
      Phase [] [⟨true, .handler irq⟩] false false p
  | leaving {p : Pair} (programmed : Programmed p idle idle) (linked : p.Linked) :
      Phase [] [⟨true, .leaving⟩] true true p

def World.Safe (w : World H) : Prop :=
  Phase w.booting w.stack w.interruptFlag w.shadow w.pics

theorem start_safe (p : Pair) : (World.start p : World H).Safe :=
  .booting (List.suffix_refl _) nofun (picInit_programs p) fun h => absurd h (by decide : ¬ 8 ≤ 6)

section
variable {writes : List PortWrite} {stack : List Frame} {flag shadow savedIf : Bool} {p : Pair}

/-- Devices change nothing that a phase speaks of, except what the wire carries on. -/
theorem Phase.drive (h : Phase writes stack flag shadow p) {irq : Irq}
    (hirq : irq ≠ .master cascade) (level : Bool) :
    Phase writes stack flag shadow (p.drive irq level) := by
  have hcontrol := drive_control p irq level
  cases h with
  | booting suffix ne programs linked =>
      exact .booting suffix ne (programs.congr (run_control hcontrol _))
        fun hlen => (linked hlen).drive hirq level
  | main programmed linked => exact .main (programmed.congr hcontrol) (linked.drive hirq level)
  | intr programmed linked => exact .intr (programmed.congr hcontrol) (linked.drive hirq level)
  | inta programmed linked =>
      exact .inta (programmed.congr hcontrol) fun ht => (linked ht).drive hirq level
  | stub programs linked eoi =>
      exact .stub (programs.congr (run_control hcontrol _)) (linked.drive hirq level) eoi
  | handler programmed linked =>
      exact .handler (programmed.congr hcontrol) (linked.drive hirq level)
  | leaving programmed linked =>
      exact .leaving (programmed.congr hcontrol) (linked.drive hirq level)

/-- An interrupt is accepted in the main program only. -/
theorem Phase.accept (h : Phase writes stack flag shadow p) (hflag : flag = true)
    (hshadow : shadow = false) (hexec : executing stack = true) :
    Phase writes (⟨flag, .intr⟩ :: stack) flag shadow p := by
  subst hflag hshadow
  cases h with
  | main programmed linked => exact .intr programmed linked
  | intr => cases hexec
  | inta => cases hexec

theorem Phase.firstInta (h : Phase writes (⟨savedIf, .intr⟩ :: stack) flag shadow p) :
    Phase writes (⟨savedIf, .inta p.firstInta.2⟩ :: stack) flag shadow p.firstInta.1 := by
  cases h with
  | intr programmed linked =>
      exact .inta (firstInta_programmed programmed) (firstInta_linked programmed linked)

theorem picEoi_writes (numInt : Byte) : ∀ x ∈ picEoi numInt, x.2 = picOcw2MaskEoi := by
  intro x hx
  unfold picEoi at hx
  split at hx
  · rcases List.mem_pair.mp hx with rfl | rfl <;> rfl
  · rw [List.mem_singleton.mp hx]

/-- The vector of a cycle is that of the request it serves, and `PIC_EOI` will undo what
it left in service. -/
theorem Phase.secondInta {taken : Option Line}
    (h : Phase writes (⟨savedIf, .inta taken⟩ :: stack) flag shadow p) :
    enterVector (p.secondInta taken).2 =
        .stub (servedBy p taken) (picEoi (irqNumber (servedBy p taken))) ∧
      Phase writes (⟨savedIf, enterVector (p.secondInta taken).2⟩ :: stack) false shadow
        (p.secondInta taken).1 := by
  cases h with
  | inta programmed linked =>
      obtain ⟨hvector, hlinked, masterIsr, slaveIsr, service, hprogrammed⟩ :=
        secondInta_spec programmed linked
      have henter : enterVector (p.secondInta taken).2 =
          .stub (servedBy p taken) (picEoi (irqNumber (servedBy p taken))) := by
        rw [enterVector, hvector]
      refine ⟨henter, ?_⟩
      rw [henter]
      exact .stub (picEoi_idle service hprogrammed) hlinked (picEoi_writes _)

theorem picInit_data : ∀ x ∈ picInit.drop 2,
    decodePort x.1 = some .masterData ∨ decodePort x.1 = some .slaveData := by
  have hall : (picInit.drop 2).all
      (fun x => decodePort x.1 = some .masterData ∨ decodePort x.1 = some .slaveData) = true := by
    decide
  exact fun x hx => by simpa using List.all_eq_true.mp hall x hx

/-- Only the first of the eight writes can cost the master a request of the slave, and the
second one resets the slave. -/
theorem picInit_linked {x : PortWrite} {rest : List PortWrite} (suffix : x :: rest <:+ picInit)
    (linked : (x :: rest).length ≤ 6 → p.Linked) (hlen : rest.length ≤ 6) :
    (p.portWrite x).Linked := by
  cases List.suffix_cons_iff.mp suffix with
  | inl hfirst =>
      rw [(List.cons.inj hfirst).2] at hlen
      exact absurd hlen (by decide)
  | inr suffix =>
      cases List.suffix_cons_iff.mp suffix with
      | inl hsecond =>
          rw [(List.cons.inj hsecond).1]
          exact settle_linked_of_int (restart_int p.slave rfl)
      | inr suffix =>
          have linked := linked suffix.length_le
          unfold Pair.portWrite
          cases picInit_data x (suffix.mem List.mem_cons_self) with
          | inl hport =>
              rw [hport]
              exact linked.write nofun
          | inr hport =>
              rw [hport]
              exact linked.write nofun

theorem Phase.bootWrite {x : PortWrite} {rest : List PortWrite}
    (h : Phase (x :: rest) [] flag shadow p) : Phase rest [] flag shadow (p.portWrite x) := by
  cases h with
  | booting suffix ne programs linked =>
      have hlinked := picInit_linked suffix linked
      cases rest with
      | nil => exact .main programs (hlinked (by decide))
      | cons y rest =>
          exact .booting ((List.suffix_cons _ _).trans suffix) nofun programs hlinked

theorem eoi_linked (linked : p.Linked) {x : PortWrite} (hx : x.2 = picOcw2MaskEoi) :
    (p.portWrite x).Linked := by
  unfold Pair.portWrite
  cases decodePort x.1 with
  | none => exact linked
  | some r => exact linked.write fun _ => by rw [hx]; rfl

theorem Phase.eoiWrite {irq : Irq} {x : PortWrite} {rest : List PortWrite}
    (h : Phase writes (⟨savedIf, .stub irq (x :: rest)⟩ :: stack) flag shadow p) :
    Phase writes (⟨savedIf, .stub irq rest⟩ :: stack) flag shadow (p.portWrite x) := by
  cases h with
  | stub programs linked eoi =>
      exact .stub programs (eoi_linked linked (eoi x List.mem_cons_self))
        fun y hy => eoi y (List.mem_cons_of_mem x hy)

theorem Phase.call {irq : Irq}
    (h : Phase writes (⟨savedIf, .stub irq []⟩ :: stack) flag shadow p) :
    Phase writes (⟨savedIf, .handler irq⟩ :: stack) flag shadow p := by
  cases h with
  | stub programs linked eoi => exact .handler programs linked

theorem Phase.stiMain (h : Phase [] [] flag shadow p) : Phase [] [] true true p := by
  cases h with
  | booting suffix ne => exact absurd rfl ne
  | main programmed linked => exact .main programmed linked

theorem Phase.stiHandler {irq : Irq}
    (h : Phase writes (⟨savedIf, .handler irq⟩ :: stack) flag shadow p) :
    Phase writes (⟨savedIf, .leaving⟩ :: stack) true true p := by
  cases h with
  | handler programmed linked => exact .leaving programmed linked

theorem Phase.iret (h : Phase writes (⟨savedIf, .leaving⟩ :: stack) flag shadow p) :
    Phase writes stack savedIf false p := by
  cases h with
  | leaving programmed linked => exact .main programmed linked

theorem Phase.cliMain (h : Phase writes [] flag shadow p) : Phase writes [] false false p := by
  cases h with
  | booting suffix ne programs linked => exact .booting suffix ne programs linked
  | main programmed linked => exact .main programmed linked

theorem Phase.cliHandler {irq : Irq}
    (h : Phase writes (⟨savedIf, .handler irq⟩ :: stack) flag shadow p) :
    Phase writes (⟨savedIf, .handler irq⟩ :: stack) false shadow p := by
  cases h with
  | handler programmed linked => exact .handler programmed linked

theorem Phase.unshadow (h : Phase writes [] flag shadow p) : Phase writes [] flag false p := by
  cases h with
  | booting suffix ne programs linked => exact .booting suffix ne programs linked
  | main programmed linked => exact .main programmed linked

end

theorem step_safe {w w' : World H} {a : Act H} (h : w.Safe) (hs : interruptStep w a = some w') :
    w'.Safe := by
  have hsteps := steps_of_interruptStep hs
  unfold World.Safe at h ⊢
  cases hsteps with
  | line hirq => exact h.drive hirq _
  | instr hstack =>
      rw [hstack] at h ⊢
      exact h.unshadow
  | accept hflag hshadow hexec hint => exact h.accept hflag hshadow hexec
  | firstInta hstack =>
      rw [hstack] at h
      exact h.firstInta
  | secondInta hstack =>
      rw [hstack] at h
      exact h.secondInta.2
  | bootWrite hstack hbooting =>
      rw [hstack, hbooting] at h
      simpa only [hstack] using h.bootWrite
  | lastBootWrite hstack hbooting =>
      rw [hstack, hbooting] at h
      simpa only [World.booted, hstack] using h.bootWrite
  | eoiWrite hstack =>
      rw [hstack] at h
      exact h.eoiWrite
  | call hstack =>
      rw [hstack] at h
      exact h.call
  | stiMain hstack hbooting =>
      rw [hstack, hbooting] at h
      simpa only [hstack, hbooting] using h.stiMain
  | stiHandler hstack =>
      rw [hstack] at h
      exact h.stiHandler
  | iret hstack =>
      rw [hstack] at h
      exact h.iret
  | cliMain hstack =>
      rw [hstack] at h ⊢
      exact h.cliMain
  | cliHandler hstack =>
      rw [hstack] at h ⊢
      exact h.cliHandler
  | registerMain hstack =>
      rw [hstack] at h ⊢
      exact h.unshadow
  | registerHandler hstack => exact h

theorem run_safe {p : Pair} {acts : List (Act H)} {w : World H}
    (h : run interruptStep (World.start p) acts = some w) : w.Safe :=
  run_invariant (fun _ _ _ hw hs => step_safe hw hs) (start_safe p) h

end

end Bros
