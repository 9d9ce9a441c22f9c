import Mathlib.Tactic.Common
import Mathlib.Algebra.Group.Nat.Defs

/-!
The 8253 interval timer of a PC.

The access bits of the last control word say how a counter takes its reload value: a low
byte alone, a high byte alone, or a low byte and then a high byte. A reload value of 0
stands for 65536.
-/

namespace Timer8253

/-- `low` is the low byte while the high one is awaited. -/
structure Counter where
  control : BitVec 8
  low : Option (BitVec 8)
  reload : BitVec 16

structure Controller where
  counter : Fin 3 → Counter

inductive Register where
  | counter (c : Fin 3)
  | control
deriving DecidableEq

def decodePort (port : BitVec 16) : Option Register :=
  match port.toNat with
  | 0x40 => some (.counter 0)
  | 0x41 => some (.counter 1)
  | 0x42 => some (.counter 2)
  | 0x43 => some .control
  | _ => none

/-- The counter whose ticks are the timer interrupts. -/
def systemTimer : Fin 3 := 0

/-- The counter a control word selects; the fourth value is the read-back command. -/
def selected (v : BitVec 8) : Option (Fin 3) :=
  match (v >>> 6).toNat with
  | 0 => some 0
  | 1 => some 1
  | 2 => some 2
  | _ => none

def access (v : BitVec 8) : Nat := (v >>> 4).toNat % 4

/-- A control word without access bits latches the count and changes nothing else. -/
def Counter.command (c : Counter) (v : BitVec 8) : Counter :=
  if access v = 0 then c else { c with control := v, low := none }

def Counter.data (c : Counter) (v : BitVec 8) : Counter :=
  match access c.control with
  | 1 => { c with reload := 0#8 ++ v }
  | 2 => { c with reload := v ++ 0#8 }
  | 3 =>
      match c.low with
      | none => { c with low := some v }
      | some low => { c with low := none, reload := v ++ low }
  | _ => c

def Controller.update (d : Controller) (c : Fin 3) (f : Counter → Counter) : Controller :=
  { d with counter := fun k => if k = c then f (d.counter k) else d.counter k }

def Controller.write (d : Controller) (r : Register) (v : BitVec 8) : Controller :=
  match r with
  | .counter c => d.update c fun k => k.data v
  | .control =>
      match selected v with
      | some c => d.update c fun k => k.command v
      | none => d

def Controller.portWrite (d : Controller) (w : BitVec 16 × BitVec 8) : Controller :=
  match decodePort w.1 with
  | some r => d.write r w.2
  | none => d

def Controller.run (d : Controller) (ws : List (BitVec 16 × BitVec 8)) : Controller :=
  ws.foldl Controller.portWrite d

/-- The input clocks from one tick to the next. -/
def Counter.period (c : Counter) : Nat := if c.reload = 0#16 then 2 ^ 16 else c.reload.toNat

/-! ### Writes in sequence -/

theorem update_counter_self (d : Controller) (c : Fin 3) (f : Counter → Counter) :
    (d.update c f).counter c = f (d.counter c) := if_pos rfl

theorem write_control_counter (d : Controller) {c : Fin 3} {v : BitVec 8}
    (h : selected v = some c) : (d.write .control v).counter c = (d.counter c).command v := by
  simp only [Controller.write, h, update_counter_self]

theorem write_data_counter (d : Controller) (c : Fin 3) (v : BitVec 8) :
    (d.write (.counter c) v).counter c = (d.counter c).data v :=
  update_counter_self d c fun k => k.data v

/-- A control word for both bytes, and the two bytes, whatever the counter held. -/
theorem command_data_data (c : Counter) {v : BitVec 8} (h : access v = 3) (low high : BitVec 8) :
    ((c.command v).data low).data high =
      { control := v, low := none, reload := high ++ low } := by
  have hcommand : c.command v = { c with control := v, low := none } := if_neg (by omega)
  have hlow : ({ c with control := v, low := none } : Counter).data low =
      { c with control := v, low := some low } := by
    simp only [Counter.data, h]
  rw [hcommand, hlow]
  simp only [Counter.data, h]

end Timer8253
