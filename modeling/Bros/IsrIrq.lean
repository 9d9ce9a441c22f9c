import Bros.Lib.Memory
import Mathlib.Data.List.Induction
import Mathlib.Logic.Function.Basic

/-!
The handler table of `arch/x86/ISR_IRQ.c`.

Handlers are values of any type `H`; `none` is `NULL`. What the two universal handlers
do besides calling the registered one is output to the screen and to the PIC. The last part is
about the array in memory.
-/

namespace Bros
open ByteMemory

/-- `ISR_registers_t`. -/
@[ext]
structure IsrRegisters where
  ds : BitVec 16
  edi : BitVec 32
  esi : BitVec 32
  ebp : BitVec 32
  esp : BitVec 32
  ebx : BitVec 32
  edx : BitVec 32
  ecx : BitVec 32
  eax : BitVec 32
  intNo : BitVec 32
  errCode : BitVec 32
  eip : BitVec 32
  cs : BitVec 32
  eflags : BitVec 32
  useresp : BitVec 32
  ss : BitVec 32

section
variable {H : Type*}

/-- `isr_handlers` by index; the array has `MAX_INTERRUPTS` slots. -/
abbrev IsrHandlers (H : Type*) := Nat → Option H

def pic1BaseInt : BitVec 32 := 0x20#32

def isrRegisterInterruptHandler (isrHandlers : IsrHandlers H) (n : BitVec 8)
    (handler : Option H) : IsrHandlers H :=
  Function.update isrHandlers n.toNat handler

def irqRegisterInterruptHandler (isrHandlers : IsrHandlers H) (n : BitVec 8)
    (handler : Option H) : IsrHandlers H :=
  isrRegisterInterruptHandler isrHandlers ((pic1BaseInt + n.setWidth 32).setWidth 8) handler

/-- The handler `ISR_UniversalHandler` calls, with its argument. -/
def isrUniversalHandler (isrHandlers : IsrHandlers H) (r : IsrRegisters) :
    Option (H × IsrRegisters) :=
  (isrHandlers r.intNo.toNat).map fun handler => (handler, r)

/-- `IRQ_UniversalHandler` adds `PIC1_BASE_INT` to its own copy of `int_no`. -/
def irqUniversalHandler (isrHandlers : IsrHandlers H) (r : IsrRegisters) :
    Option (H × IsrRegisters) :=
  let r := { r with intNo := r.intNo + pic1BaseInt }
  (isrHandlers r.intNo.toNat).map fun handler => (handler, r)

/-! ### Histories of registrations -/

inductive Registration (H : Type*) where
  | isr (n : BitVec 8) (handler : Option H)
  | irq (n : BitVec 8) (handler : Option H)

def Registration.slot : Registration H → Nat
  | .isr n _ => n.toNat
  | .irq n _ => ((pic1BaseInt + n.setWidth 32).setWidth 8).toNat

def Registration.handler : Registration H → Option H
  | .isr _ handler => handler
  | .irq _ handler => handler

def Registration.perform (isrHandlers : IsrHandlers H) : Registration H → IsrHandlers H
  | .isr n handler => isrRegisterInterruptHandler isrHandlers n handler
  | .irq n handler => irqRegisterInterruptHandler isrHandlers n handler

/-- The table after some registrations; before them all slots are `NULL`. -/
def isrHandlersAfter (history : List (Registration H)) : IsrHandlers H :=
  history.foldl Registration.perform fun _ => none

/-- The handler of the latest registration for a slot. -/
def lastRegistered (history : List (Registration H)) (slot : Nat) : Option H :=
  (history.reverse.find? fun r => r.slot = slot).bind Registration.handler

theorem Registration.perform_apply (isrHandlers : IsrHandlers H) (r : Registration H)
    (slot : Nat) :
    r.perform isrHandlers slot = if r.slot = slot then r.handler else isrHandlers slot := by
  cases r with
  | isr n handler =>
      rw [perform, isrRegisterInterruptHandler, Function.update_apply]
      exact if_congr eq_comm rfl rfl
  | irq n handler =>
      rw [perform, irqRegisterInterruptHandler, isrRegisterInterruptHandler,
        Function.update_apply]
      exact if_congr eq_comm rfl rfl

theorem isrHandlersAfter_eq_lastRegistered (history : List (Registration H)) (slot : Nat) :
    isrHandlersAfter history slot = lastRegistered history slot := by
  induction history using List.reverseRecOn with
  | nil => rfl
  | append_singleton history r ih =>
      rw [isrHandlersAfter, List.foldl_append, List.foldl_cons, List.foldl_nil,
        Registration.perform_apply, lastRegistered, List.reverse_append, List.reverse_singleton,
        List.singleton_append, List.find?_cons]
      by_cases h : r.slot = slot
      · simp only [h, if_true, decide_true, Option.bind_some]
      · simp only [h, if_false, decide_false]
        exact ih

end

/-! ### The array in memory -/

/-- The table of handlers in memory; `NULL` is no handler. -/
def isrHandlersAt (m : Mem) (a : Nat) : IsrHandlers (BitVec 32) := fun n =>
  let handler := load32 m (a + 4 * n)
  if handler = 0#32 then none else some handler

/-- `isr_handlers[n] = handler` for the array at `a`. -/
def isrStoreHandler (m : Mem) (a : Nat) (n : BitVec 8) (handler : BitVec 32) : Mem :=
  store32 m (a + 4 * n.toNat) handler

end Bros
