import Bros.Lib.Dma8237
import Bros.Lib.Memory

/-!
`drivers/dma.c`: the port writes that program a DMA channel.

A function that only calls `outb` is the list of its writes.
-/

namespace Bros
open ByteMemory

abbrev Port := BitVec 16

abbrev PortWrite := Port × Byte

def dma0ChanmaskReg : Port := 0x0A#16
def dma0ModeReg : Port := 0x0B#16
def dma0ClearbyteFlipflopReg : Port := 0x0C#16
def dma1ChanmaskReg : Port := 0xD4#16
def dma1ModeReg : Port := 0xD6#16
def dma1ClearbyteFlipflopReg : Port := 0xD8#16

def dmaModeReadTransfer : Byte := 4#8
def dmaModeMaskAuto : Byte := 0x10#8
def dmaModeTransferSingle : Byte := 0x40#8

/-- The `switch` of `dma_set_address`. -/
def dmaAddrReg (channel : Byte) : Option Port :=
  match channel.toNat with
  | 0 => some 0x00#16
  | 1 => some 0x02#16
  | 2 => some 0x04#16
  | 3 => some 0x06#16
  | 4 => some 0xC0#16
  | 5 => some 0xC4#16
  | 6 => some 0xC8#16
  | 7 => some 0xCC#16
  | _ => none

/-- The `switch` of `dma_set_count`. -/
def dmaCountReg (channel : Byte) : Option Port :=
  match channel.toNat with
  | 0 => some 0x01#16
  | 1 => some 0x03#16
  | 2 => some 0x05#16
  | 3 => some 0x07#16
  | 4 => some 0xC2#16
  | 5 => some 0xC6#16
  | 6 => some 0xCA#16
  | 7 => some 0xCE#16
  | _ => none

/-- The `switch` of `dma_set_external_page_register`. -/
def dmaPageReg (reg : Byte) : Option Port :=
  match reg.toNat with
  | 1 => some 0x83#16
  | 2 => some 0x81#16
  | 3 => some 0x82#16
  | 5 => some 0x89#16
  | 6 => some 0x87#16
  | 7 => some 0x88#16
  | _ => none    -- nothing should ever write to register 4

def outWord (port : Option Port) (low high : Byte) : List PortWrite :=
  match port with
  | none => []
  | some port => [(port, low), (port, high)]

def dmaSetAddress (channel low high : Byte) : List PortWrite :=
  outWord (dmaAddrReg channel) low high

def dmaSetCount (channel low high : Byte) : List PortWrite :=
  outWord (dmaCountReg channel) low high

def dmaSetExternalPageRegister (reg val : Byte) : List PortWrite :=
  match dmaPageReg reg with
  | none => []
  | some port => [(port, val)]

def dmaMaskChannel (channel : Byte) : List PortWrite :=
  if channel < 4#8 then [(dma0ChanmaskReg, 4#8 ||| channel)]
  else [(dma1ChanmaskReg, 4#8 ||| (channel - 4#8))]

def dmaUnmaskChannel (channel : Byte) : List PortWrite :=
  if channel < 4#8 then [(dma0ChanmaskReg, channel)] else [(dma1ChanmaskReg, channel - 4#8)]

def dmaSetMode (channel mode : Byte) : List PortWrite :=
  let chan := if channel < 4#8 then channel else channel - 4#8
  dmaMaskChannel channel ++
    [(if channel < 4#8 then dma0ModeReg else dma1ModeReg, chan ||| mode)] ++
    dmaUnmaskChannel channel

def dmaSetRead (channel : Byte) : List PortWrite :=
  dmaSetMode channel (dmaModeReadTransfer ||| dmaModeTransferSingle ||| dmaModeMaskAuto)

def dmaResetFlipflop (dma : Byte) : List PortWrite :=
  [(if dma = 0#8 then dma0ClearbyteFlipflopReg else dma1ClearbyteFlipflopReg, 0xFF#8)]

end Bros
