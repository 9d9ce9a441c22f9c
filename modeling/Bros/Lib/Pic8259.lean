import Mathlib.Data.List.FinRange
import Mathlib.Logic.Function.Basic
import Mathlib.Tactic.Common

/-!
The 8259A interrupt controller, and the pair of them in a PC.

A chip resolves the requests at its eight inputs by priority. Edge and level triggering,
the initialization words, masks, special mask mode, all end-of-interrupt and rotation
commands and automatic end of interrupt are as documented; the poll command, buffered
mode and special fully nested mode are left out.
-/

namespace Pic8259

abbrev Line := Fin 8

/-- The line of lowest priority after a reset, which also stands for a request that is gone. -/
def lastLine : Line := 7

/-- A request input. It is `latched` from a rising edge until a cycle takes the request,
and `high` when it stays up after that. -/
inductive Input where
  | low
  | latched
  | high
deriving DecidableEq

def Input.drive : Input → Bool → Input
  | _, false => .low
  | .low, true => .latched
  | input, true => input

/-- The edge is consumed; the input stays as it is. -/
def Input.consume : Input → Input
  | .latched => .high
  | input => input

def Input.isLow : Input → Bool
  | .low => true
  | _ => false

def Input.isLatched : Input → Bool
  | .latched => true
  | _ => false

theorem isLatched_eq_true {i : Input} (h : i.isLatched = true) : i = .latched := by
  cases i with
  | latched => rfl
  | low => cases h
  | high => cases h

/-- The initialization word that the data port takes next. -/
inductive Icw where
  | icw2
  | icw3
  | icw4
deriving DecidableEq

structure Config where
  icw1 : BitVec 8
  icw2 : BitVec 8
  icw3 : BitVec 8
  icw4 : BitVec 8
  expected : Option Icw
  imr : BitVec 8
  /-- The line of lowest priority; the next one has the highest. -/
  lowest : Line
  rotateAutoEoi : Bool
  specialMask : Bool
  /-- A read of the command port gives the in-service register. -/
  readIsr : Bool
deriving DecidableEq

structure Chip where
  input : Line → Input
  isr : Line → Bool
  config : Config

/-! ### Priorities -/

def Config.levelTriggered (c : Config) : Bool := c.icw1.getLsbD 3

def Config.single (c : Config) : Bool := c.icw1.getLsbD 1

def Config.expectsIcw4 (c : Config) : Bool := c.icw1.getLsbD 0

def Config.autoEoi (c : Config) : Bool := c.icw4.getLsbD 1

/-- The lines from the highest priority to the lowest. -/
def Config.order (c : Config) : List Line := (List.finRange 8).map fun k => c.lowest + 1 + k

def Chip.irr (c : Chip) (i : Line) : Bool :=
  match c.input i with
  | .low => false
  | .latched => true
  | .high => c.config.levelTriggered

def Chip.requests (c : Chip) (i : Line) : Bool := c.irr i && !c.config.imr.getLsbD i

/-- A line in service holds back lines of its own and of lower priority. -/
def Chip.inhibits (c : Chip) (i : Line) : Bool :=
  c.isr i && !(c.config.specialMask && c.config.imr.getLsbD i)

/-- The request that an acknowledge cycle would take. -/
def Chip.resolve (c : Chip) : Option Line :=
  (c.config.order.takeWhile fun i => !c.inhibits i).find? c.requests

/-- The interrupt output. -/
def Chip.int (c : Chip) : Bool := c.resolve.isSome

/-! ### Ports -/

def Chip.endOfInterrupt (c : Chip) : Option Line → Chip
  | some i => { c with isr := Function.update c.isr i false }
  | none => c

def Config.rotate (c : Config) : Option Line → Config
  | some i => { c with lowest := i }
  | none => c

/-- The line a non-specific end of interrupt is about. -/
def Chip.inService (c : Chip) : Option Line := c.config.order.find? c.inhibits

def levelOf (v : BitVec 8) : Line := ⟨v.toNat % 8, Nat.mod_lt _ (by decide)⟩

def Chip.ocw2 (c : Chip) (v : BitVec 8) : Chip :=
  match v.toNat / 32 with
  | 0 => { c with config := { c.config with rotateAutoEoi := false } }
  | 1 => c.endOfInterrupt c.inService
  | 3 => c.endOfInterrupt (some (levelOf v))
  | 4 => { c with config := { c.config with rotateAutoEoi := true } }
  | 5 => { c.endOfInterrupt c.inService with config := c.config.rotate c.inService }
  | 6 => { c with config := c.config.rotate (some (levelOf v)) }
  | 7 => { c.endOfInterrupt (some (levelOf v)) with config := c.config.rotate (some (levelOf v)) }
  | _ => c

def Config.ocw3 (c : Config) (v : BitVec 8) : Config :=
  let c := if v.getLsbD 1 then { c with readIsr := v.getLsbD 0 } else c
  if v.getLsbD 6 then { c with specialMask := v.getLsbD 5 } else c

/-- The first initialization word resets the chip; an input that is up has to rise again
before it counts. -/
def Chip.restart (c : Chip) (v : BitVec 8) : Chip where
  input i := (c.input i).consume
  isr _ := false
  config :=
    { icw1 := v, icw2 := c.config.icw2, icw3 := c.config.icw3, icw4 := 0#8,
      expected := some .icw2, imr := 0#8, lowest := lastLine, rotateAutoEoi := false,
      specialMask := false, readIsr := false }

def Chip.command (c : Chip) (v : BitVec 8) : Chip :=
  if v.getLsbD 4 then c.restart v
  else if v.getLsbD 3 then { c with config := c.config.ocw3 v }
  else c.ocw2 v

def Config.afterIcw3 (c : Config) : Option Icw := if c.expectsIcw4 then some .icw4 else none

def Config.afterIcw2 (c : Config) : Option Icw :=
  if c.single then c.afterIcw3 else some .icw3

def Config.data (c : Config) (v : BitVec 8) : Config :=
  match c.expected with
  | none => { c with imr := v }
  | some .icw2 => { c with icw2 := v, expected := c.afterIcw2 }
  | some .icw3 => { c with icw3 := v, expected := c.afterIcw3 }
  | some .icw4 => { c with icw4 := v, expected := none }

def Chip.data (c : Chip) (v : BitVec 8) : Chip := { c with config := c.config.data v }

def byteOf (f : Line → Bool) : BitVec 8 :=
  BitVec.ofBoolListLE [f 0, f 1, f 2, f 3, f 4, f 5, f 6, f 7]

/-- What a read of the command port gives. -/
def Chip.status (c : Chip) : BitVec 8 := byteOf (if c.config.readIsr then c.isr else c.irr)

/-! ### Acknowledge cycles -/

/-- Take the request of highest priority into service. With automatic end of interrupt
its bit is gone when the cycle is over. -/
def Chip.acknowledge (c : Chip) : Chip × Option Line :=
  match c.resolve with
  | none => (c, none)
  | some i =>
    ({ input := Function.update c.input i (c.input i).consume
       isr := if c.config.autoEoi then c.isr else Function.update c.isr i true
       config :=
         if c.config.autoEoi && c.config.rotateAutoEoi then { c.config with lowest := i }
         else c.config }, some i)

/-- The vector for a request taken, or for one that was gone when the cycle came. -/
def Chip.vector (c : Chip) (taken : Option Line) : BitVec 8 :=
  (c.config.icw2 &&& 0xF8#8) ||| BitVec.ofNat 8 (taken.getD lastLine).val

/-! ### The pair -/

/-- The output of the slave is the third input of the master. -/
def cascade : Line := 2

structure Pair where
  master : Chip
  slave : Chip

def Chip.drive (c : Chip) (i : Line) (level : Bool) : Chip :=
  { c with input := Function.update c.input i ((c.input i).drive level) }

/-- The wire between the chips. -/
def Pair.settle (p : Pair) : Pair := { p with master := p.master.drive cascade p.slave.int }

/-- An interrupt request of the pair. -/
inductive Irq where
  | master (i : Line)
  | slave (i : Line)
deriving DecidableEq

def Irq.number : Irq → Nat
  | .master i => i
  | .slave i => 8 + i

/-- A device drives its request line. -/
def Pair.drive (p : Pair) (irq : Irq) (level : Bool) : Pair :=
  match irq with
  | .master i => { p with master := p.master.drive i level }
  | .slave i => { p with slave := p.slave.drive i level }.settle

def Pair.input (p : Pair) : Irq → Input
  | .master i => p.master.input i
  | .slave i => p.slave.input i

inductive Register where
  | masterCommand
  | masterData
  | slaveCommand
  | slaveData
deriving DecidableEq

def decodePort (port : BitVec 16) : Option Register :=
  match port.toNat with
  | 0x20 => some .masterCommand
  | 0x21 => some .masterData
  | 0xA0 => some .slaveCommand
  | 0xA1 => some .slaveData
  | _ => none

def Pair.write (p : Pair) (r : Register) (v : BitVec 8) : Pair :=
  match r with
  | .masterCommand => { p with master := p.master.command v }
  | .masterData => { p with master := p.master.data v }
  | .slaveCommand => { p with slave := p.slave.command v }.settle
  | .slaveData => { p with slave := p.slave.data v }.settle

def Pair.portWrite (p : Pair) (w : BitVec 16 × BitVec 8) : Pair :=
  match decodePort w.1 with
  | some r => p.write r w.2
  | none => p

/-- What a read of a port of the pair gives. -/
def Pair.portRead (p : Pair) (port : BitVec 16) : BitVec 8 :=
  match decodePort port with
  | some .masterCommand => p.master.status
  | some .masterData => p.master.config.imr
  | some .slaveCommand => p.slave.status
  | some .slaveData => p.slave.config.imr
  | none => 0xFF#8

def Pair.run (p : Pair) (ws : List (BitVec 16 × BitVec 8)) : Pair := ws.foldl Pair.portWrite p

/-- The first pulse of an acknowledge cycle freezes the master. -/
def Pair.firstInta (p : Pair) : Pair × Option Line :=
  let (master, taken) := p.master.acknowledge
  ({ p with master }, taken)

/-- The slave answers where the master has one at the line taken and it goes by that
number; nobody drives the bus for a slave that is not there. -/
inductive Answer where
  | master
  | slave
  | nobody
deriving DecidableEq

def Pair.answers (p : Pair) (taken : Option Line) : Answer :=
  match taken with
  | none => .master
  | some i =>
    if p.master.config.single || !p.master.config.icw3.getLsbD i then .master
    else if i = cascade ∧ levelOf p.slave.config.icw3 = i then .slave
    else .nobody

/-- The second pulse gives the vector. -/
def Pair.secondInta (p : Pair) (taken : Option Line) : Pair × BitVec 8 :=
  match p.answers taken with
  | .master => (p, p.master.vector taken)
  | .slave =>
    let (slave, taken) := p.slave.acknowledge
    ({ p with slave }.settle, slave.vector taken)
  | .nobody => (p, 0xFF#8)

/-! ### What the ports and the devices leave alone -/

/-- What a program can set: the in-service bits and the configuration. -/
def Chip.control (c : Chip) : (Line → Bool) × Config := (c.isr, c.config)

def Pair.control (p : Pair) : ((Line → Bool) × Config) × ((Line → Bool) × Config) :=
  (p.master.control, p.slave.control)

@[simp] theorem drive_isr (c : Chip) (i : Line) (level : Bool) : (c.drive i level).isr = c.isr :=
  rfl

@[simp] theorem drive_config (c : Chip) (i : Line) (level : Bool) :
    (c.drive i level).config = c.config := rfl

@[simp] theorem settle_slave (p : Pair) : p.settle.slave = p.slave := rfl

@[simp] theorem settle_control (p : Pair) : p.settle.control = p.control := rfl

theorem drive_control (p : Pair) (irq : Irq) (level : Bool) :
    (p.drive irq level).control = p.control := by
  cases irq <;> rfl

theorem command_control {c d : Chip} (h : c.control = d.control) (v : BitVec 8) :
    (c.command v).control = (d.command v).control := by
  obtain ⟨input, isr, config⟩ := c
  obtain ⟨input', isr', config'⟩ := d
  obtain ⟨rfl, rfl⟩ := Prod.mk.inj h
  have hinService : Chip.inService ⟨input, isr, config⟩ = Chip.inService ⟨input', isr, config⟩ :=
    rfl
  have heoi (i : Option Line) : (Chip.endOfInterrupt ⟨input, isr, config⟩ i).control =
      (Chip.endOfInterrupt ⟨input', isr, config⟩ i).control := by
    cases i <;> rfl
  simp only [Chip.command]
  split
  · rfl
  · split
    · rfl
    · simp only [Chip.ocw2, hinService]
      split
      all_goals first
        | rfl
        | exact heoi _
        | exact congrArg (fun isr => (Prod.fst isr, _)) (heoi _)

theorem portWrite_control {p q : Pair} (h : p.control = q.control) (w : BitVec 16 × BitVec 8) :
    (p.portWrite w).control = (q.portWrite w).control := by
  obtain ⟨hmaster, hslave⟩ := Prod.mk.inj h
  have hdata {c d : Chip} (h : c.control = d.control) (v : BitVec 8) :
      (c.data v).control = (d.data v).control :=
    congrArg (fun k => (k.1, k.2.data v)) h
  unfold Pair.portWrite
  cases decodePort w.1 with
  | none => exact h
  | some r =>
      cases r with
      | masterCommand => exact Prod.ext (command_control hmaster w.2) hslave
      | masterData => exact Prod.ext (hdata hmaster w.2) hslave
      | slaveCommand => exact Prod.ext hmaster (command_control hslave w.2)
      | slaveData => exact Prod.ext hmaster (hdata hslave w.2)

@[simp] theorem run_nil (p : Pair) : p.run [] = p := rfl

@[simp] theorem run_cons (p : Pair) (w : BitVec 16 × BitVec 8) (ws : List (BitVec 16 × BitVec 8)) :
    p.run (w :: ws) = (p.portWrite w).run ws := rfl

/-- Writes are about the control state alone: devices may move their lines meanwhile. -/
theorem run_control {p q : Pair} (h : p.control = q.control)
    (ws : List (BitVec 16 × BitVec 8)) : (p.run ws).control = (q.run ws).control := by
  induction ws generalizing p q with
  | nil => exact h
  | cons w ws ih => exact ih (portWrite_control h w)

/-- The first word announces a cascade and a fourth word; then nothing of the state before
is left. -/
theorem restart_control (c : Chip) (icw2 icw3 icw4 : BitVec 8) :
    ((((c.command 0x11#8).data icw2).data icw3).data icw4).control =
      (fun _ => false,
        { icw1 := 0x11#8, icw2 := icw2, icw3 := icw3, icw4 := icw4, expected := none,
          imr := 0#8, lowest := lastLine, rotateAutoEoi := false, specialMask := false,
          readIsr := false }) := by
  have hinit : c.command 0x11#8 = c.restart 0x11#8 := rfl
  simp only [hinit, Chip.control, Chip.data, Chip.restart, Config.data, Config.afterIcw2,
    Config.single, Config.afterIcw3, Config.expectsIcw4]
  rfl

/-- Edges from before the first word do not count. -/
theorem restart_int (c : Chip) {v : BitVec 8} (hv : v.getLsbD 3 = false) :
    (c.restart v).int = false := by
  have hrequests : (c.restart v).requests = fun _ => false := by
    funext i
    have hirr : (c.restart v).irr i = false := by
      rw [Chip.irr, Config.levelTriggered]
      change (match (c.input i).consume with
        | .low => false | .latched => true | .high => v.getLsbD 3) = false
      cases c.input i with
      | low => rfl
      | latched => exact hv
      | high => exact hv
    rw [Chip.requests, hirr, Bool.false_and]
  rw [Chip.int, Chip.resolve, hrequests, List.find?_eq_none.mpr fun _ _ => Bool.false_ne_true]
  rfl

/-! ### Fully nested mode -/

/-- Fixed priorities and edge triggering, nothing masked, an end of interrupt for each
interrupt. -/
structure Config.FullyNested (c : Config) : Prop where
  expected : c.expected = none
  edge : c.levelTriggered = false
  imr : c.imr = 0#8
  lowest : c.lowest = lastLine
  specialMask : c.specialMask = false
  autoEoi : c.autoEoi = false

/-- Nothing is in service. -/
def idle : Line → Bool := fun _ => false

/-- Only this line is in service. -/
def serving (i : Line) : Line → Bool := Function.update idle i true

def Chip.pending (c : Chip) (i : Line) : Bool := (c.input i).isLatched

section
variable {c : Chip}

theorem Config.FullyNested.order {c : Config} (h : c.FullyNested) : c.order = List.finRange 8 := by
  rw [Config.order, h.lowest]
  decide

theorem requests_eq_pending (h : c.config.FullyNested) : c.requests = c.pending := by
  funext i
  rw [Chip.requests, Chip.irr, Chip.pending, h.imr, h.edge]
  cases c.input i <;> simp [Input.isLatched]

theorem inhibits_eq_isr (h : c.config.FullyNested) : c.inhibits = c.isr := by
  funext i
  rw [Chip.inhibits, h.specialMask, Bool.false_and, Bool.not_false, Bool.and_true]

theorem resolve_idle (h : c.config.FullyNested) (hisr : c.isr = idle) :
    c.resolve = (List.finRange 8).find? c.pending := by
  rw [Chip.resolve, h.order, requests_eq_pending h, inhibits_eq_isr h, hisr]
  rfl

theorem int_idle (h : c.config.FullyNested) (hisr : c.isr = idle) :
    c.int = true ↔ ∃ i, c.pending i = true := by
  rw [Chip.int, resolve_idle h hisr, List.find?_isSome]
  exact ⟨fun ⟨i, _, hi⟩ => ⟨i, hi⟩, fun ⟨i, hi⟩ => ⟨i, List.mem_finRange i, hi⟩⟩

theorem resolve_latched (h : c.config.FullyNested) (hisr : c.isr = idle) {i : Line}
    (hi : c.resolve = some i) : c.input i = .latched := by
  rw [resolve_idle h hisr] at hi
  have hpending : c.pending i = true := List.find?_some hi
  exact isLatched_eq_true hpending

theorem acknowledge_none (h : c.resolve = none) : c.acknowledge = (c, none) := by
  simp only [Chip.acknowledge, h]

theorem acknowledge_some (h : c.config.FullyNested) (hisr : c.isr = idle) {i : Line}
    (hi : c.resolve = some i) :
    c.acknowledge =
      ({ input := Function.update c.input i .high, isr := serving i, config := c.config },
        some i) := by
  have hlatched := resolve_latched h hisr hi
  simp only [Chip.acknowledge, hi, h.autoEoi, Bool.false_and, Bool.false_eq_true, if_false,
    hlatched, Input.consume, hisr]
  rfl

private theorem find?_takeWhile_ne {α : Type*} [DecidableEq α] {p : α → Bool} {a : α}
    {l : List α} (h : l.find? p = some a) :
    (l.takeWhile fun b => !decide (b = a)).find? p = none := by
  induction l with
  | nil => rfl
  | cons b l ih =>
      by_cases hb : b = a
      · rw [List.takeWhile_cons, if_neg (by simp [hb]), List.find?_nil]
      · cases hp : p b with
        | true =>
            rw [List.find?_cons_of_pos hp] at h
            exact absurd (Option.some.inj h) hb
        | false =>
            have hnot : ¬ p b = true := by simp [hp]
            rw [List.find?_cons_of_neg hnot] at h
            rw [List.takeWhile_cons, if_pos (by simp [hb]), List.find?_cons_of_neg hnot]
            exact ih h

theorem serving_apply (i k : Line) : serving i k = decide (k = i) := by
  rw [serving, Function.update_apply]
  by_cases h : k = i
  · rw [if_pos h, decide_eq_true h]
  · rw [if_neg h, decide_eq_false h]
    rfl

/-- A taken request was the highest one, so nothing is left that could interrupt it. -/
theorem acknowledge_int (h : c.config.FullyNested) (hisr : c.isr = idle) :
    c.acknowledge.1.int = false := by
  cases hi : c.resolve with
  | none =>
      rw [acknowledge_none hi, Chip.int, hi]
      rfl
  | some i =>
      have hfind : (List.finRange 8).find? c.pending = some i := by rw [← resolve_idle h hisr, hi]
      have hbefore := List.find?_eq_none.mp (find?_takeWhile_ne hfind)
      rw [acknowledge_some h hisr hi, Chip.int, Chip.resolve, requests_eq_pending (by exact h),
        inhibits_eq_isr (by exact h), h.order, Option.isSome_eq_false_iff,
        Option.isNone_iff_eq_none, List.find?_eq_none]
      intro k hk hpending
      simp only [serving_apply] at hk
      refine hbefore k hk ?_
      by_cases hki : k = i
      · simp [Chip.pending, hki, Input.isLatched] at hpending
      · simpa [Chip.pending, Function.update_of_ne hki] using hpending

end

/-- The non-specific end of interrupt. -/
def nonSpecificEoi : BitVec 8 := 0x20#8

theorem command_eoi (c : Chip) :
    c.command nonSpecificEoi = c.endOfInterrupt c.inService := rfl

theorem eoi_idle {c : Chip} (h : c.config.FullyNested) (hisr : c.isr = idle) :
    c.command nonSpecificEoi = c := by
  have hnone : c.inService = none := by
    rw [Chip.inService, inhibits_eq_isr h, hisr]
    exact List.find?_eq_none.mpr fun i _ => Bool.false_ne_true
  rw [command_eoi, hnone]
  rfl

theorem eoi_serving {c : Chip} (h : c.config.FullyNested) {i : Line} (hisr : c.isr = serving i) :
    c.command nonSpecificEoi = { c with isr := idle } := by
  have hsome : c.inService = some i := by
    rw [Chip.inService, inhibits_eq_isr h, hisr, h.order]
    clear hisr
    revert i
    decide
  rw [command_eoi, hsome, Chip.endOfInterrupt, hisr, serving, Function.update_idem]
  exact congrArg (fun isr => { c with isr }) (Function.update_eq_self i idle)

/-! ### The wire between the chips -/

/-- The third input of the master shows what the slave has to report. -/
def Pair.Linked (p : Pair) : Prop :=
  p.master.input cascade = if p.slave.int then .latched else .low

theorem Pair.Linked.ne_high {p : Pair} (h : p.Linked) : p.master.input cascade ≠ .high := by
  rw [h]
  cases p.slave.int <;> nofun

theorem settle_input (p : Pair) :
    p.settle.master.input cascade = (p.master.input cascade).drive p.slave.int := by
  simp only [Pair.settle, Chip.drive, Function.update_self]

theorem settle_linked {p : Pair} (h : p.master.input cascade ≠ .high) : p.settle.Linked := by
  rw [Pair.Linked, settle_input, settle_slave]
  cases hinput : p.master.input cascade with
  | high => exact absurd hinput h
  | low => cases p.slave.int <;> rfl
  | latched => cases p.slave.int <;> rfl

theorem settle_of_linked {p : Pair} (h : p.Linked) : p.settle = p := by
  have hinput : (p.master.input cascade).drive p.slave.int = p.master.input cascade := by
    rw [h]
    cases p.slave.int <;> rfl
  rw [Pair.settle, Chip.drive, hinput, Function.update_eq_self]

/-- A slave with nothing to report pulls the wire down, whatever it was. -/
theorem settle_linked_of_int {p : Pair} (h : p.slave.int = false) : p.settle.Linked := by
  rw [Pair.Linked, settle_input, settle_slave, h]
  cases p.master.input cascade <;> rfl

theorem Pair.Linked.drive {p : Pair} (h : p.Linked) {irq : Irq} (hirq : irq ≠ .master cascade)
    (level : Bool) : (p.drive irq level).Linked := by
  cases irq with
  | master i =>
      have hne : cascade ≠ i := fun hi => hirq (congrArg Irq.master hi.symm)
      exact (Function.update_of_ne hne _ _).trans h
  | slave i => exact settle_linked h.ne_high

theorem command_input (c : Chip) {v : BitVec 8} (hv : v.getLsbD 4 = false) :
    (c.command v).input = c.input := by
  have heoi (i : Option Line) : (c.endOfInterrupt i).input = c.input := by cases i <;> rfl
  rw [Chip.command, hv, if_neg Bool.false_ne_true]
  split
  · rfl
  · unfold Chip.ocw2
    split
    all_goals first
      | rfl
      | exact heoi _

/-- Only a first initialization word loses a request that is up at the master. -/
theorem Pair.Linked.write {p : Pair} (h : p.Linked) {r : Register} {v : BitVec 8}
    (hv : r = .masterCommand → v.getLsbD 4 = false) : (p.write r v).Linked := by
  cases r with
  | masterCommand => exact (congrFun (command_input p.master (hv rfl)) cascade).trans h
  | masterData => exact h
  | slaveCommand => exact settle_linked h.ne_high
  | slaveData => exact settle_linked h.ne_high

/-! ### Inputs of the devices -/

section
variable {p : Pair} {irq k : Irq}

theorem input_settle (hk : k ≠ .master cascade) : p.settle.input k = p.input k := by
  cases k with
  | master i => exact Function.update_of_ne (fun h => hk (congrArg Irq.master h)) _ _
  | slave i => rfl

theorem input_drive_self (p : Pair) (irq : Irq) (level : Bool) :
    (p.drive irq level).input irq = (p.input irq).drive level := by
  cases irq <;> simp [Pair.drive, Pair.input, Chip.drive, Pair.settle]

theorem input_drive_of_ne (hk : k ≠ irq) (hk' : k ≠ .master cascade) (level : Bool) :
    (p.drive irq level).input k = p.input k := by
  cases irq with
  | master i =>
      cases k with
      | master j => exact Function.update_of_ne (fun h => hk (congrArg Irq.master h)) _ _
      | slave j => rfl
  | slave i =>
      rw [Pair.drive, input_settle hk']
      cases k with
      | master j => rfl
      | slave j => exact Function.update_of_ne (fun h => hk (congrArg Irq.slave h)) _ _

/-- Of all writes only a first initialization word touches the requests. -/
theorem input_write (hk : k ≠ .master cascade) (r : Register) {v : BitVec 8}
    (hv : v.getLsbD 4 = false) : (p.write r v).input k = p.input k := by
  cases r with
  | masterCommand =>
      cases k with
      | master i => exact congrFun (command_input p.master hv) i
      | slave i => rfl
  | masterData => cases k <;> rfl
  | slaveCommand =>
      rw [Pair.write, input_settle hk]
      cases k with
      | master i => rfl
      | slave i => exact congrFun (command_input p.slave hv) i
  | slaveData =>
      rw [Pair.write, input_settle hk]
      cases k <;> rfl

end

end Pic8259
