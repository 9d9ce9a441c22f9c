import Bros.Dma
import Bros.IsrIrq
import Bros.Lib.Pic8259

/-!
`arch/x86/PIC.c`: the port writes that program and serve the interrupt controllers.
-/

namespace Bros
open ByteMemory Pic8259

def pic1RegCmd : Port := 0x20#16
def pic1RegStatus : Port := 0x20#16
def pic1RegData : Port := 0x21#16

def pic2RegCmd : Port := 0xA0#16
def pic2RegStatus : Port := 0xA0#16
def pic2RegData : Port := 0xA1#16

def picIcw1Ic4Expect : Byte := 1#8
def picIcw1InitYes : Byte := 0x10#8
def picOcw2MaskEoi : Byte := 0x20#8
def picIcw4Upm86mode : Byte := 1#8

def pic2BaseInt : Byte := 0x28#8

def picInit : List PortWrite :=
  [(pic1RegCmd, picIcw1InitYes ||| picIcw1Ic4Expect),
    (pic2RegCmd, picIcw1InitYes ||| picIcw1Ic4Expect),
    (pic1RegData, pic1BaseInt.setWidth 8),
    (pic2RegData, pic2BaseInt),
    (pic1RegData, 0x04#8),
    (pic2RegData, 0x02#8),
    (pic1RegData, picIcw4Upm86mode),
    (pic2RegData, picIcw4Upm86mode)]

def picEoi (numInt : Byte) : List PortWrite :=
  if 7#8 < numInt then [(pic2RegStatus, picOcw2MaskEoi), (pic1RegStatus, picOcw2MaskEoi)]
  else [(pic1RegStatus, picOcw2MaskEoi)]

/-- `__pic_get_irq_reg` -/
def picGetIrqReg (p : Pair) (ocw3 : Byte) : BitVec 16 × Pair :=
  let p := p.run [(pic1RegCmd, ocw3), (pic2RegCmd, ocw3)]
  ((p.portRead pic2RegStatus).setWidth 16 <<< 8 ||| (p.portRead pic1RegStatus).setWidth 16, p)

def picGetIrr (p : Pair) : BitVec 16 × Pair := picGetIrqReg p 0x0A#8

def picGetIsr (p : Pair) : BitVec 16 × Pair := picGetIrqReg p 0x0B#8

/-! ### The programmed state -/

def pic1Config : Config where
  icw1 := 0x11#8
  icw2 := 0x20#8
  icw3 := 0x04#8
  icw4 := 0x01#8
  expected := none
  imr := 0#8
  lowest := lastLine
  rotateAutoEoi := false
  specialMask := false
  readIsr := false

def pic2Config : Config where
  icw1 := 0x11#8
  icw2 := 0x28#8
  icw3 := 0x02#8
  icw4 := 0x01#8
  expected := none
  imr := 0#8
  lowest := lastLine
  rotateAutoEoi := false
  specialMask := false
  readIsr := false

/-- Both chips as `PIC_init` programs them, with these lines in service. -/
structure Programmed (p : Pair) (masterIsr slaveIsr : Line → Bool) : Prop where
  master : p.master.control = (masterIsr, pic1Config)
  slave : p.slave.control = (slaveIsr, pic2Config)

theorem pic1Config_fullyNested : pic1Config.FullyNested := ⟨rfl, rfl, rfl, rfl, rfl, rfl⟩

theorem pic2Config_fullyNested : pic2Config.FullyNested := ⟨rfl, rfl, rfl, rfl, rfl, rfl⟩

section
variable {p q : Pair} {masterIsr slaveIsr : Line → Bool}

theorem Programmed.congr (h : Programmed p masterIsr slaveIsr) (hq : q.control = p.control) :
    Programmed q masterIsr slaveIsr := by
  obtain ⟨hmaster, hslave⟩ := Prod.mk.inj hq
  exact ⟨hmaster.trans h.master, hslave.trans h.slave⟩

theorem Programmed.masterIsr_eq (h : Programmed p masterIsr slaveIsr) :
    p.master.isr = masterIsr := congrArg Prod.fst h.master

theorem Programmed.slaveIsr_eq (h : Programmed p masterIsr slaveIsr) :
    p.slave.isr = slaveIsr := congrArg Prod.fst h.slave

theorem Programmed.masterConfig (h : Programmed p masterIsr slaveIsr) :
    p.master.config = pic1Config := congrArg Prod.snd h.master

theorem Programmed.slaveConfig (h : Programmed p masterIsr slaveIsr) :
    p.slave.config = pic2Config := congrArg Prod.snd h.slave

theorem Programmed.masterNested (h : Programmed p masterIsr slaveIsr) :
    p.master.config.FullyNested := by
  rw [h.masterConfig]
  exact pic1Config_fullyNested

theorem Programmed.slaveNested (h : Programmed p masterIsr slaveIsr) :
    p.slave.config.FullyNested := by
  rw [h.slaveConfig]
  exact pic2Config_fullyNested

/-- Whatever the chips were doing, the eight writes program them. -/
theorem picInit_programs (p : Pair) : Programmed (p.run picInit) idle idle :=
  ⟨restart_control p.master 0x20#8 0x04#8 0x01#8, restart_control p.slave 0x28#8 0x02#8 0x01#8⟩

/-! ### End of interrupt -/

/-- What is in service while the stub of an interrupt request runs: nothing at all where
the request was gone when the processor asked for it. -/
inductive InService : Irq → (Line → Bool) → (Line → Bool) → Prop where
  | master (i : Line) : InService (.master i) (serving i) idle
  | spuriousMaster : InService (.master lastLine) idle idle
  | slave (i : Line) : InService (.slave i) (serving cascade) (serving i)
  | spuriousSlave : InService (.slave lastLine) (serving cascade) idle

theorem Programmed.eoiMaster {i : Line} (h : Programmed p (serving i) slaveIsr) :
    Programmed (p.run [(pic1RegStatus, picOcw2MaskEoi)]) idle slaveIsr := by
  have heoi := eoi_serving h.masterNested h.masterIsr_eq
  exact ⟨(congrArg Chip.control heoi).trans (congrArg (idle, ·) h.masterConfig), h.slave⟩

theorem Programmed.eoiMasterIdle (h : Programmed p idle slaveIsr) :
    Programmed (p.run [(pic1RegStatus, picOcw2MaskEoi)]) idle slaveIsr := by
  have heoi := eoi_idle h.masterNested h.masterIsr_eq
  exact ⟨(congrArg Chip.control heoi).trans h.master, h.slave⟩

theorem Programmed.eoiSlave {i : Line} (h : Programmed p masterIsr (serving i)) :
    Programmed (p.portWrite (pic2RegStatus, picOcw2MaskEoi)) masterIsr idle := by
  have heoi := eoi_serving h.slaveNested h.slaveIsr_eq
  exact ⟨h.master, (congrArg Chip.control heoi).trans (congrArg (idle, ·) h.slaveConfig)⟩

theorem Programmed.eoiSlaveIdle (h : Programmed p masterIsr idle) :
    Programmed (p.portWrite (pic2RegStatus, picOcw2MaskEoi)) masterIsr idle := by
  have heoi := eoi_idle h.slaveNested h.slaveIsr_eq
  exact ⟨h.master, (congrArg Chip.control heoi).trans h.slave⟩

end

/-- The number `PIC_EOI` is called with. -/
def irqNumber (irq : Irq) : Byte := BitVec.ofNat 8 irq.number

theorem picEoi_master (i : Line) :
    picEoi (irqNumber (.master i)) = [(pic1RegStatus, picOcw2MaskEoi)] := by
  revert i
  decide

theorem picEoi_slave (i : Line) :
    picEoi (irqNumber (.slave i)) =
      [(pic2RegStatus, picOcw2MaskEoi), (pic1RegStatus, picOcw2MaskEoi)] := by
  revert i
  decide

/-- `PIC_EOI` leaves nothing in service, also after a spurious interrupt. -/
theorem picEoi_idle {p : Pair} {irq : Irq} {masterIsr slaveIsr : Line → Bool}
    (service : InService irq masterIsr slaveIsr) (h : Programmed p masterIsr slaveIsr) :
    Programmed (p.run (picEoi (irqNumber irq))) idle idle := by
  cases service with
  | master i =>
      rw [picEoi_master]
      exact h.eoiMaster
  | spuriousMaster =>
      rw [picEoi_master]
      exact h.eoiMasterIdle
  | slave i =>
      rw [picEoi_slave]
      exact h.eoiSlave.eoiMaster
  | spuriousSlave =>
      rw [picEoi_slave]
      exact h.eoiSlaveIdle.eoiMaster

/-! ### Reading the registers -/

/-- The slave's byte is the high one. -/
def irqReg (slave master : Line → Bool) : BitVec 16 :=
  (byteOf slave).setWidth 16 <<< 8 ||| (byteOf master).setWidth 16

/-- `PIC_get_isr` gives what is in service at both chips, whatever state they are in. -/
theorem picGetIsr_value (p : Pair) : (picGetIsr p).1 = irqReg p.slave.isr p.master.isr := rfl

/-- `PIC_get_irr` gives the requests of both chips. -/
theorem picGetIrr_value {p : Pair} (linked : p.Linked) :
    (picGetIrr p).1 = irqReg p.slave.irr p.master.irr := by
  have hvalue : (picGetIrr p).1 = irqReg p.slave.irr p.settle.master.irr := rfl
  rw [hvalue, settle_of_linked linked]

end Bros
