import Bros.Lib.Memory

/-!
An 8042 keyboard controller with a keyboard and perhaps a mouse.

The processor writes commands and data and reads a status and a data register. The devices
answer at once and say nothing of their own accord, as long as their ports are polled. What
a register shows is a condition on the reading.
-/

namespace I8042
open ByteMemory

/-- `argument` is set when the next byte is the argument of the last command. -/
structure KeyboardState where
  scancodeSet : Byte
  argument : Bool

inductive MouseArgument where
  | resolution
  | sampleRate

structure MouseState where
  doubleScale : Bool
  resolution : Byte
  sampleRate : Byte
  reporting : Bool
  argument : Option MouseArgument

/-- Where the next byte written to the data register goes. -/
inductive Target where
  | keyboard
  | config
  | mouse

/-- Without a mouse the controller has no second port. -/
structure Controller where
  cfg : Byte
  output : List Byte
  target : Target
  keyboard : KeyboardState
  mouse : Option MouseState

def acknowledge : Byte := 0xFA#8

def resend : Byte := 0xFE#8

/-! ### The devices -/

/-- A byte for the keyboard: what it makes of it, and what it answers. -/
def KeyboardState.send (k : KeyboardState) (b : Byte) : KeyboardState × List Byte :=
  if k.argument then
    if b = 0#8 then ({ k with argument := false }, [acknowledge, k.scancodeSet])
    else ({ scancodeSet := b, argument := false }, [acknowledge])
  else if b = 0xF0#8 then ({ k with argument := true }, [acknowledge])
  else if b = 0xFF#8 then ({ scancodeSet := 2#8, argument := false }, [acknowledge, 0xAA#8])
  else (k, [resend])

def MouseState.reset : MouseState where
  doubleScale := false
  resolution := 2#8
  sampleRate := 100#8
  reporting := false
  argument := none

def MouseState.send (m : MouseState) (b : Byte) : MouseState × List Byte :=
  match m.argument with
  | some .resolution => ({ m with resolution := b, argument := none }, [acknowledge])
  | some .sampleRate => ({ m with sampleRate := b, argument := none }, [acknowledge])
  | none =>
      if b = 0xE6#8 then ({ m with doubleScale := false }, [acknowledge])
      else if b = 0xE7#8 then ({ m with doubleScale := true }, [acknowledge])
      else if b = 0xE8#8 then ({ m with argument := some .resolution }, [acknowledge])
      else if b = 0xF3#8 then ({ m with argument := some .sampleRate }, [acknowledge])
      else if b = 0xF4#8 then ({ m with reporting := true }, [acknowledge])
      else if b = 0xFF#8 then (MouseState.reset, [acknowledge, 0xAA#8, 0#8])
      else (m, [resend])

/-! ### The controller -/

/-- Bits 4 and 5 of the configuration stop the clocks of the ports. -/
def Controller.port1 (c : Controller) : Bool := !c.cfg.getLsbD 4

def Controller.port2 (c : Controller) : Bool := !c.cfg.getLsbD 5

/-- The configuration that is stored; the clock of a missing port stands still. -/
def Controller.config (c : Controller) (v : Byte) : Byte :=
  if c.mouse.isSome then v else v ||| 0x20#8

def Controller.setConfig (c : Controller) (v : Byte) : Controller :=
  { c with cfg := c.config v }

def Controller.answer (c : Controller) (bs : List Byte) : Controller :=
  { c with output := c.output ++ bs }

def Controller.command (c : Controller) (cmd : Byte) : Controller :=
  match cmd.toNat with
  | 0x20 => c.answer [c.cfg]
  | 0x60 => { c with target := .config }
  | 0xA7 => c.setConfig (c.cfg ||| 0x20#8)
  | 0xA8 => c.setConfig (c.cfg &&& 0xDF#8)
  | 0xA9 => c.answer [0#8]
  | 0xAA => c.answer [0x55#8]
  | 0xAB => c.answer [0#8]
  | 0xAD => c.setConfig (c.cfg ||| 0x10#8)
  | 0xAE => c.setConfig (c.cfg &&& 0xEF#8)
  | 0xD4 => { c with target := .mouse }
  | _ => c

/-- A byte for a port whose clock stands still is lost. -/
def Controller.data (c : Controller) (b : Byte) : Controller :=
  match c.target with
  | .config => { c.setConfig b with target := .keyboard }
  | .keyboard =>
      if c.port1 then
        { c with keyboard := (c.keyboard.send b).1, output := c.output ++ (c.keyboard.send b).2 }
      else c
  | .mouse =>
      match c.mouse with
      | some m =>
          if c.port2 then
            { c with
              mouse := some (m.send b).1
              output := c.output ++ (m.send b).2
              target := .keyboard }
          else { c with target := .keyboard }
      | none => { c with target := .keyboard }

/-- Bit 0 of the status says whether there is something to read. -/
def Controller.status (c : Controller) (v : Byte) : Option Controller :=
  if v.getLsbD 0 = !c.output.isEmpty then some c else none

/-- With nothing to read the data register may show anything. -/
def Controller.read (c : Controller) (v : Byte) : Option Controller :=
  match c.output with
  | [] => some c
  | b :: rest => if v = b then some { c with output := rest } else none

section
variable {c c' : Controller} {v : Byte}

theorem status_eq_some :
    c.status v = some c' ↔ v.getLsbD 0 = !c.output.isEmpty ∧ c' = c := by
  simp only [Controller.status, Option.ite_none_right_eq_some, Option.some.injEq, eq_comm (b := c')]

theorem read_nil (h : c.output = []) : c.read v = some c' ↔ c' = c := by
  simp only [Controller.read, h, Option.some.injEq, eq_comm]

theorem read_cons {b : Byte} {rest : List Byte} (h : c.output = b :: rest) :
    c.read v = some c' ↔ v = b ∧ c' = { c with output := rest } := by
  simp only [Controller.read, h, Option.ite_none_right_eq_some, Option.some.injEq,
    eq_comm (b := c')]

theorem data_keyboard (h : c.target = .keyboard) (hport : c.port1 = true) (b : Byte) :
    c.data b =
      { c with
        keyboard := (c.keyboard.send b).1
        output := c.output ++ (c.keyboard.send b).2 } := by
  simp only [Controller.data, h, hport, if_true]

theorem data_mouse {m : MouseState} (h : c.target = .mouse) (hmouse : c.mouse = some m)
    (hport : c.port2 = true) (b : Byte) :
    c.data b =
      { c with
        mouse := some (m.send b).1
        output := c.output ++ (m.send b).2
        target := .keyboard } := by
  simp only [Controller.data, h, hmouse, hport, if_true]

end

end I8042
