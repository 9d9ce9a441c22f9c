import Bros.Descriptors
import Bros.Dma

/-!
The start of the PS/2 controller: `PS2_init` of `drivers/ps2.c`.

`Ps2Device` is what the status and the data register show, the `n`-th reading of each. Every
access to a port is in the log. A panic stops the program and keeps its message.
-/

namespace Bros
open ByteMemory

def ps2DataPort : Port := 0x60#16
def ps2Status : Port := 0x64#16
def ps2Command : Port := 0x64#16

def ps2PollTimeout : Nat := 1000000

def ps2CommandTest : Byte := 0xAA#8
def ps2CommandTestPort1 : Byte := 0xAB#8
def ps2CommandTestPort2 : Byte := 0xA9#8
def ps2CommandReadCfg : Byte := 0x20#8
def ps2CommandWriteCfg : Byte := 0x60#8
def ps2CommandDisablePort1 : Byte := 0xAD#8
def ps2CommandDisablePort2 : Byte := 0xA7#8
def ps2CommandEnablePort1 : Byte := 0xAE#8
def ps2CommandEnablePort2 : Byte := 0xA8#8
def ps2CommandWritePort2 : Byte := 0xD4#8

def ps2DataReset : Byte := 0xFF#8
def ps2DataKeyboardScancode : Byte := 0xF0#8
def ps2DataKeyboardGetScancode : Byte := 0x00#8
def ps2DataKeyboardSetScancode2 : Byte := 0x02#8

def ps2DataMouseSetScaling11 : Byte := 0xE6#8
def ps2DataMouseSetScaling21 : Byte := 0xE7#8
def ps2DataMouseSetResolution : Byte := 0xE8#8
def ps2DataMouseSetSampleRate : Byte := 0xF3#8
def ps2DataMouseEnableDataReporting : Byte := 0xF4#8

def ps2ResponseCtrlTestOk : Byte := 0x55#8
def ps2ResponseAck : Byte := 0xFA#8
def ps2ResponseSelfTestOk : Byte := 0xAA#8

structure Ps2Device where
  status : Nat → Byte
  data : Nat → Byte

inductive Ps2Event where
  | outb (port : Port) (value : Byte)
  | inb (port : Port) (value : Byte)
deriving DecidableEq

inductive Ps2Handler where
  | keyboardHandlerScancode
  | mouseHandler
deriving DecidableEq

/-- `registered` lists the calls of `IRQ_register_interrupt_handler`. -/
structure Ps2State where
  statusReads : Nat
  dataReads : Nat
  log : List Ps2Event
  registered : List (Byte × Ps2Handler)

def ps2Start : Ps2State := ⟨0, 0, [], []⟩

abbrev Ps2M := EStateM String Ps2State

def ps2Outb (port : Port) (value : Byte) : Ps2M Unit :=
  modify fun s => { s with log := s.log ++ [.outb port value] }

def ps2Register (irq : Byte) (handler : Ps2Handler) : Ps2M Unit :=
  modify fun s => { s with registered := s.registered ++ [(irq, handler)] }

section
variable (dev : Ps2Device)

def ps2SendCommand (command : Byte) : Ps2M Unit := ps2Outb ps2Command command

def ps2ReadStatus : Ps2M Byte := do
  let s ← get
  set { s with
    statusReads := s.statusReads + 1
    log := s.log ++ [Ps2Event.inb ps2Status (dev.status s.statusReads)] }
  return dev.status s.statusReads

def ps2ReadData : Ps2M Byte := do
  let s ← get
  set { s with
    dataReads := s.dataReads + 1
    log := s.log ++ [Ps2Event.inb ps2DataPort (dev.data s.dataReads)] }
  return dev.data s.dataReads

/-- The loop of the two waits, with some readings left. -/
def ps2PollingWait (ready : Byte → Bool) : Nat → Ps2M Unit
  | 0 => throw "PS/2 POLL TIMED-OUT"
  | i + 1 => do
      let s ← ps2ReadStatus dev
      if ready s then return () else ps2PollingWait ready i

def ps2PollingWaitUntilIsReady : Ps2M Unit :=
  ps2PollingWait dev (fun s => s &&& 1#8 != 0#8) ps2PollTimeout

def ps2PollingWaitUntilCanSend : Ps2M Unit :=
  ps2PollingWait dev (fun s => s &&& 2#8 == 0#8) ps2PollTimeout

def ps2PollingSendCommand (cmd : Byte) : Ps2M Unit := do
  ps2PollingWaitUntilCanSend dev
  ps2SendCommand cmd

def ps2PollingSendData (data : Byte) : Ps2M Unit := do
  ps2PollingWaitUntilCanSend dev
  ps2Outb ps2DataPort data

def ps2PollingSendAck (data : Byte) : Ps2M Unit := do
  ps2PollingSendData dev data
  ps2PollingWaitUntilIsReady dev
  let answer ← ps2ReadData dev
  if answer ≠ ps2ResponseAck then throw "PS/2 response not ACK" else return ()

def ps2ScancodeSet (set : Byte) : Ps2M Unit := do
  ps2PollingSendAck dev ps2DataKeyboardScancode
  ps2PollingSendAck dev set

def ps2ResetDevice : Ps2M Unit := do
  ps2PollingSendAck dev ps2DataReset
  let data ← ps2ReadData dev
  if data ≠ ps2ResponseSelfTestOk then throw "PS/2 PORT RESET FAIL"
  else
    -- 2 bytes device ID
    let _ ← ps2ReadData dev
    let _ ← ps2ReadData dev

def ps2MouseSetScaling (scale : Byte) : Ps2M Unit := do
  ps2PollingSendCommand dev ps2CommandWritePort2
  if scale = 1#8 then ps2PollingSendAck dev ps2DataMouseSetScaling11
  else ps2PollingSendAck dev ps2DataMouseSetScaling21

def ps2MouseSetResolution (resolution : Byte) : Ps2M Unit := do
  ps2PollingSendCommand dev ps2CommandWritePort2
  ps2PollingSendAck dev ps2DataMouseSetResolution
  ps2PollingSendCommand dev ps2CommandWritePort2
  ps2PollingSendAck dev resolution

def ps2MouseSetSampleRate (rate : Byte) : Ps2M Unit := do
  ps2PollingSendCommand dev ps2CommandWritePort2
  ps2PollingSendAck dev ps2DataMouseSetSampleRate
  ps2PollingSendCommand dev ps2CommandWritePort2
  ps2PollingSendAck dev rate

/-! ### `PS2_init`

The parts of the function, under its own comments. -/

/-- Disable the ports, flush the output buffer, set the configuration byte, self test. -/
def ps2InitController : Ps2M Unit := do
  ps2PollingSendCommand dev ps2CommandDisablePort1
  ps2PollingSendCommand dev ps2CommandDisablePort2
  let _ ← ps2ReadData dev
  ps2PollingSendCommand dev ps2CommandReadCfg
  let cfg ← ps2ReadData dev
  let cfg := cfg &&& ~~~(1#8 <<< 0)
  let cfg := cfg &&& ~~~(1#8 <<< 6)
  let cfg := cfg &&& ~~~(1#8 <<< 4)
  ps2PollingSendCommand dev ps2CommandWriteCfg
  ps2PollingSendData dev cfg
  ps2PollingSendCommand dev ps2CommandTest
  let data ← ps2ReadData dev
  if data ≠ ps2ResponseCtrlTestOk then throw "PS/2 Controller TEST Failed" else return ()

/-- Detect if there are 2 channels: `cfg` and `has_port2`. -/
def ps2InitChannels : Ps2M (Byte × Bool) := do
  ps2PollingSendCommand dev ps2CommandEnablePort2
  ps2PollingSendCommand dev ps2CommandReadCfg
  let cfg ← ps2ReadData dev
  if cfg &&& 32#8 = 0#8 then
    ps2PollingSendCommand dev ps2CommandDisablePort2
    let cfg := cfg &&& ~~~(1#8 <<< 1)
    let cfg := cfg &&& ~~~(1#8 <<< 5)
    ps2PollingSendCommand dev ps2CommandWriteCfg
    ps2PollingSendData dev cfg
    return (cfg, true)
  else return (cfg, false)

/-- Interface tests. -/
def ps2InitTests (hasPort2 : Bool) : Ps2M Unit := do
  ps2PollingSendCommand dev ps2CommandTestPort1
  let data ← ps2ReadData dev
  if data ≠ 0x00#8 then throw "PS/2 PORT1 TEST Failed"
  else if hasPort2 then
    ps2PollingSendCommand dev ps2CommandTestPort2
    let data ← ps2ReadData dev
    if data ≠ 0x00#8 then throw "PS/2 PORT2 TEST Failed" else return ()
  else return ()

/-- Set scancode set 2, and ask which one is set. -/
def ps2InitScancode : Ps2M Unit := do
  ps2ScancodeSet dev ps2DataKeyboardSetScancode2
  ps2ScancodeSet dev ps2DataKeyboardGetScancode
  let data ← ps2ReadData dev
  if data ≠ ps2DataKeyboardSetScancode2 then throw "PS/2 Keyboard error" else return ()

/-- Reset the devices. -/
def ps2InitDevices (hasPort2 : Bool) : Ps2M Unit := do
  ps2ResetDevice dev
  if hasPort2 then
    ps2PollingSendCommand dev ps2CommandWritePort2
    ps2ResetDevice dev
    ps2MouseSetScaling dev 1#8
    ps2MouseSetResolution dev 0#8
    ps2MouseSetSampleRate dev 20#8
    ps2PollingSendCommand dev ps2CommandWritePort2
    ps2PollingSendAck dev ps2DataMouseEnableDataReporting
  else return ()

/-- Enable the devices and register the handlers. -/
def ps2InitEnable (cfg : Byte) (hasPort2 : Bool) : Ps2M Unit := do
  ps2PollingSendCommand dev ps2CommandEnablePort1
  let cfg := cfg ||| 1#8 <<< 0
  let cfg ←
    if hasPort2 then do
      ps2PollingSendCommand dev ps2CommandEnablePort2
      pure (cfg ||| 1#8 <<< 1)
    else pure cfg
  ps2PollingSendCommand dev ps2CommandWriteCfg
  ps2PollingSendData dev cfg
  ps2Register irqKeyboard .keyboardHandlerScancode
  if hasPort2 then ps2Register irqAux .mouseHandler else return ()

def ps2Init : Ps2M Unit := do
  ps2InitController dev
  let (cfg, hasPort2) ← ps2InitChannels dev
  ps2InitTests dev hasPort2
  ps2InitScancode dev
  ps2InitDevices dev hasPort2
  ps2InitEnable dev cfg hasPort2

end

end Bros
