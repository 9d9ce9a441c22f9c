import Bros.Dma
import Bros.Printf
import Bros.Lib.Polling
import Bros.Lib.Programs

/-!
The floppy disk controller of `drivers/fdc.c`.

`FdcDevice` is what the hardware presents over time, the `n`-th reading of each register.
A panic and a wait that never ends stop a program and keep its state. `sleep` and the
registration of `fdc_handler` are left out; of the line that `fdc_init` prints the log keeps the
names, and a name read from behind their table is taken to print something and go on. The
second part says what each command exchange does to the state.
-/

namespace Bros
open ByteMemory CStrings Polling Programs

def fdcRetries : Nat := 500

def fdcDmaChannel : Byte := 2#8
def fdcDmaBufSize : BitVec 32 := 512#32

def fdcIoDor : Port := 0x3F2#16
def fdcIoDr : Port := 0x3F5#16
def fdcIoCcr : Port := 0xF7#16

def fdcMaskDorReset : Byte := 4#8
def fdcMaskDorDma : Byte := 8#8
def fdcMaskDorDrive0Motor : Byte := 16#8
def fdcMaskDorDrive1Motor : Byte := 32#8
def fdcMaskDorDrive2Motor : Byte := 64#8
def fdcMaskDorDrive3Motor : Byte := 128#8

def fdcMaskMsrDatareg : Byte := 128#8

def fdcCmdSpecify : Byte := 3#8
def fdcCmdReadSect : Byte := 6#8
def fdcCmdCalibrate : Byte := 7#8
def fdcCmdCheckInt : Byte := 8#8
def fdcCmdSeek : Byte := 0xF#8

def fdcCmdExtSkip : Byte := 0x20#8
def fdcCmdExtDensity : Byte := 0x40#8
def fdcCmdExtMultitrack : Byte := 0x80#8

def fdcGap3Length35 : Byte := 27#8
def fdcSectorDtl512 : Byte := 2#8

/-- Reading number `n` of the main status register, of the data register and of the CMOS,
and whether the interrupt of wait number `n` comes. -/
structure FdcDevice where
  msr : Nat → Byte
  dr : Nat → Byte
  irq : Nat → Bool
  cmos : Nat → Byte

/-- What the driver does, in order. A polling loop that gives up leaves its mark too. -/
inductive FdcEvent where
  | outb (port : Port) (value : Byte)
  | dropped (cmd : Byte)
  | data (value : Byte)
  | noData
  | irq
  | printf (driveA driveB : Option CString)
deriving DecidableEq

/-- The readings taken so far, `g_pDmaBuf` and the log. -/
structure FdcState where
  polls : Nat
  reads : Nat
  waits : Nat
  cmosReads : Nat
  dmaBuf : BitVec 32
  log : List FdcEvent

def fdcStart : FdcState :=
  { polls := 0, reads := 0, waits := 0, cmosReads := 0, dmaBuf := 0x600#32, log := [] }

inductive FdcStop where
  | panicked
  | hung
deriving DecidableEq

abbrev FdcM := EStateM FdcStop FdcState

def fdcLog (e : FdcEvent) : FdcM Unit := modify fun s => { s with log := s.log ++ [e] }

def outb (port : Port) (value : Byte) : FdcM Unit := fdcLog (.outb port value)

def outbs (ws : List PortWrite) : FdcM Unit := ws.forM fun w => outb w.1 w.2

/-- `_fdc_dma_init`. -/
def fdcDmaInit (buf : BitVec 32) (length : BitVec 32) : List PortWrite :=
  let l := length - 1#32
  dmaMaskChannel fdcDmaChannel ++ dmaResetFlipflop 0#8 ++
    dmaSetAddress fdcDmaChannel ((buf &&& 0xFF#32).setWidth 8)
      ((buf >>> 8 &&& 0xFF#32).setWidth 8) ++
    dmaSetExternalPageRegister fdcDmaChannel ((buf >>> 16 &&& 0xFF#32).setWidth 8) ++
    dmaResetFlipflop 0#8 ++
    dmaSetCount fdcDmaChannel ((l &&& 0xFF#32).setWidth 8) ((l >>> 8 &&& 0xFF#32).setWidth 8) ++
    dmaSetRead fdcDmaChannel ++ dmaUnmaskChannel fdcDmaChannel

/-- The commands that are more than one byte long. -/
inductive FdcCommand where
  | specify (stepRate loadTime unloadTime : Byte) (dma : Bool)
  | calibrate (drive : Byte)
  | seek (drive cyl head : Byte)
  | readSect (drive head track sector : Byte)
deriving DecidableEq

/-- The arguments of the `_fdc_send_command` calls, in order. -/
def FdcCommand.bytes : FdcCommand → List Byte
  | .specify stepRate loadTime unloadTime dma =>
      [fdcCmdSpecify, (stepRate &&& 0xF#8) <<< 4 ||| unloadTime &&& 0xF#8,
        -- `<<` and `|` bind tighter than `?:`
        if loadTime.setWidth 32 <<< 1 ||| (if dma then 1#32 else 0#32) ≠ 0#32 then 1#8 else 0#8]
  | .calibrate drive => [fdcCmdCalibrate, drive]
  | .seek drive cyl head => [fdcCmdSeek, head <<< 2 ||| drive, cyl]
  | .readSect drive head track sector =>
      [fdcCmdReadSect ||| fdcCmdExtMultitrack ||| fdcCmdExtSkip ||| fdcCmdExtDensity,
        head <<< 2 ||| drive, track, head, sector, fdcSectorDtl512,
        if 18 ≤ sector.toNat + 1 then 18#8 else sector + 1#8, fdcGap3Length35, 0xFF#8]

@[simp] theorem length_seek (drive cyl head : Byte) :
    (FdcCommand.seek drive cyl head).bytes.length = 3 := rfl

@[simp] theorem length_readSect (drive head track sector : Byte) :
    (FdcCommand.readSect drive head track sector).bytes.length = 9 := rfl

/-- What one reading of the main status register says about the data register. -/
def FdcDevice.ready (dev : FdcDevice) (p : Nat) : Bool :=
  dev.msr p &&& fdcMaskMsrDatareg != 0#8

/-- Whether a polling loop that starts with reading `p` finds the data register ready. -/
def FdcDevice.accepts (dev : FdcDevice) (p : Nat) : Bool := pollReady dev.ready fdcRetries p

/-- The first reading of polling loop `k` in a row that starts with reading `p`. -/
def FdcDevice.loopAt (dev : FdcDevice) (p k : Nat) : Nat := pollAt dev.ready fdcRetries p k

section
variable (dev : FdcDevice)

def fdcReadStatus : FdcM Byte := do
  let s ← get
  set { s with polls := s.polls + 1 }
  return dev.msr s.polls

/-- The loop of `_fdc_send_command` with some retries left. -/
def fdcSendCommandLoop (cmd : Byte) : Nat → FdcM Unit
  | 0 => fdcLog (.dropped cmd)
  | i + 1 => do
      let status ← fdcReadStatus dev
      if status &&& fdcMaskMsrDatareg ≠ 0#8 then outb fdcIoDr cmd
      else fdcSendCommandLoop cmd i

def fdcSendCommand (cmd : Byte) : FdcM Unit := fdcSendCommandLoop dev cmd fdcRetries

def fdcInDr : FdcM Byte := do
  let s ← get
  set { s with reads := s.reads + 1, log := s.log ++ [FdcEvent.data (dev.dr s.reads)] }
  return dev.dr s.reads

def fdcReadDataLoop : Nat → FdcM (Option Byte)
  | 0 => do
      fdcLog .noData
      return none
  | i + 1 => do
      let status ← fdcReadStatus dev
      if status &&& fdcMaskMsrDatareg ≠ 0#8 then
        let data ← fdcInDr dev
        return some data
      else fdcReadDataLoop i

/-- `none` for `return false`, which leaves `*pData` as it was. -/
def fdcReadData : FdcM (Option Byte) := fdcReadDataLoop dev fdcRetries

/-- `*st0` and `*cyl`. -/
def fdcCheckInt : FdcM (Byte × Byte) := do
  fdcSendCommand dev fdcCmdCheckInt
  match ← fdcReadData dev with
  | none => throw .panicked    -- FDC unable to read data
  | some st0 =>
      match ← fdcReadData dev with
      | none => throw .panicked
      | some cyl => return (st0, cyl)

def fdcWaitIrq : FdcM Unit := do
  let s ← get
  if dev.irq s.waits then set { s with waits := s.waits + 1, log := s.log ++ [FdcEvent.irq] }
  else throw .hung

def fdcIssue (cmd : FdcCommand) : FdcM Unit := cmd.bytes.forM (fdcSendCommand dev)

def fdcDriveData (stepRate loadTime unloadTime : Byte) (dma : Bool) : FdcM Unit :=
  fdcIssue dev (.specify stepRate loadTime unloadTime dma)

/-- The `switch` of `_fdc_control_motor`. -/
def fdcMotorMask (drive : Byte) : Option Byte :=
  match drive.toNat with
  | 0 => some fdcMaskDorDrive0Motor
  | 1 => some fdcMaskDorDrive1Motor
  | 2 => some fdcMaskDorDrive2Motor
  | 3 => some fdcMaskDorDrive3Motor
  | _ => none

def fdcControlMotor (drive : Byte) (on : Bool) : FdcM Unit :=
  if on then
    match fdcMotorMask drive with
    | some motor => outb fdcIoDor (drive ||| motor ||| fdcMaskDorReset ||| fdcMaskDorDma)
    | none => return ()
  else outb fdcIoDor fdcMaskDorReset

/-- The rounds of `_fdc_calibrate`. -/
def fdcCalibrateLoop (drive : Byte) : Nat → FdcM Bool
  | 0 => do
      fdcControlMotor drive false
      return false
  | i + 1 => do
      fdcIssue dev (.calibrate drive)
      fdcWaitIrq dev
      let (_, cyl) ← fdcCheckInt dev
      if cyl = 0#8 then
        fdcControlMotor drive false
        return true
      else fdcCalibrateLoop drive i

def fdcCalibrate (drive : Byte) : FdcM Bool :=
  if 4#8 ≤ drive then return false
  else do
    fdcControlMotor drive true
    fdcCalibrateLoop dev drive 10

def fdcReset (drive : Byte) : FdcM Unit := do
  outb fdcIoDor 0#8
  outb fdcIoDor (fdcMaskDorReset ||| fdcMaskDorDma)
  fdcWaitIrq dev
  (List.range 4).forM fun _ => do
    let _ ← fdcCheckInt dev
  outb fdcIoCcr 0#8
  fdcDriveData dev 3#8 16#8 240#8 true
  let calibrated ← fdcCalibrate dev drive
  if calibrated then return ()
  else throw .panicked    -- unable to calibrate floppy drive

/-- One round of `_fdc_seek`: the cylinder the drive reports. -/
def fdcSeekRound (drive cyl head : Byte) : FdcM Byte := do
  fdcIssue dev (.seek drive cyl head)
  fdcWaitIrq dev
  let (_, cyl0) ← fdcCheckInt dev
  return cyl0

def fdcSeekLoop (drive cyl head : Byte) : Nat → FdcM Bool
  | 0 => return false
  | i + 1 => do
      let cyl0 ← fdcSeekRound dev drive cyl head
      if cyl0 = cyl then return true    -- found the cylinder
      else fdcSeekLoop drive cyl head i

def fdcSeek (drive cyl head : Byte) : FdcM Bool :=
  if 4#8 ≤ drive then return false else fdcSeekLoop dev drive cyl head 10

def fdcReadSectorImp (drive head track sector : Byte) : FdcM Unit := do
  let s ← get
  outbs (fdcDmaInit s.dmaBuf fdcDmaBufSize)
  outbs (dmaSetRead fdcDmaChannel)
  fdcIssue dev (.readSect drive head track sector)
  fdcWaitIrq dev
  -- read status info
  (List.range 7).forM fun _ => do
    let _ ← fdcReadData dev
  let _ ← fdcCheckInt dev

/-- `*pHead`, `*pTrack` and `*pSector`; `/` and `%` truncate towards zero. -/
def fdcLbaToChs (lba : Int) : Int × Int × Int :=
  ((lba.tmod (18 * 2)).tdiv 18, lba.tdiv (18 * 2), lba.tmod 18 + 1)

/-- `inb(0x71)`. -/
def fdcInCmos : FdcM Byte := do
  let s ← get
  set { s with cmosReads := s.cmosReads + 1 }
  return dev.cmos s.cmosReads

/-- `drive_type`. -/
def driveTypes : List CString :=
  [⟨cBytes "None", by decide⟩, ⟨cBytes "360KB  5.25in", by decide⟩,
    ⟨cBytes "1.2MB  5.25in", by decide⟩, ⟨cBytes "720KB  3.5in", by decide⟩,
    ⟨cBytes "1.44MB 3.5in", by decide⟩, ⟨cBytes "2.88MB 3.5in", by decide⟩]

/-- `drive_type[i]`, or `none` for a pointer read from behind the table. -/
def driveType (i : Byte) : Option CString := driveTypes[i.toNat]?

def fdcInit : FdcM Unit := do
  outb 0x70#16 0x10#8
  let c ← fdcInCmos dev
  fdcLog (.printf (driveType (c >>> 4)) (driveType (c &&& 0xF#8)))
  (if c >>> 4 ≠ 0#8 then fdcReset dev 0#8 else return ())
  (if c &&& 0xF#8 ≠ 0#8 then fdcReset dev 1#8 else return ())
  fdcDriveData dev 13#8 1#8 15#8 true

def fdcSetDmaAddr (pBuf : BitVec 32) : FdcM Unit := modify fun s => { s with dmaBuf := pBuf }

/-- The returned pointer, `0` being `NULL`. -/
def fdcReadSector (drive : Byte) (sectorLBA : BitVec 32) : FdcM (BitVec 32) :=
  if 4#8 ≤ drive then return 0#32
  else do
    let (head, track, sector) := fdcLbaToChs sectorLBA.toInt
    fdcControlMotor drive true
    let found ← fdcSeek dev drive (BitVec.ofInt 8 track) (BitVec.ofInt 8 head)
    if found then
      fdcReadSectorImp dev drive (BitVec.ofInt 8 head) (BitVec.ofInt 8 track)
        (BitVec.ofInt 8 sector)
      fdcControlMotor drive false
      let s ← get
      return s.dmaBuf
    else return 0#32

end

/-! ### What one exchange does -/

/-- State after `k` polling loops, `r` bytes read, `w` interrupts and the events `es`. -/
def FdcState.advance (dev : FdcDevice) (s : FdcState) (k r w : Nat) (es : List FdcEvent) :
    FdcState :=
  { s with
    polls := dev.loopAt s.polls k
    reads := s.reads + r
    waits := s.waits + w
    log := s.log ++ es }

section
variable {dev : FdcDevice} {s : FdcState}

@[simp] theorem loopAt_zero (p : Nat) : dev.loopAt p 0 = p := rfl

theorem loopAt_loopAt (p k l : Nat) : dev.loopAt (dev.loopAt p k) l = dev.loopAt p (k + l) :=
  pollAt_add k l

@[simp] theorem advance_polls (k r w : Nat) (es : List FdcEvent) :
    (s.advance dev k r w es).polls = dev.loopAt s.polls k := rfl

@[simp] theorem advance_reads (k r w : Nat) (es : List FdcEvent) :
    (s.advance dev k r w es).reads = s.reads + r := rfl

@[simp] theorem advance_waits (k r w : Nat) (es : List FdcEvent) :
    (s.advance dev k r w es).waits = s.waits + w := rfl

@[simp] theorem advance_dmaBuf (k r w : Nat) (es : List FdcEvent) :
    (s.advance dev k r w es).dmaBuf = s.dmaBuf := rfl

@[simp] theorem advance_log (k r w : Nat) (es : List FdcEvent) :
    (s.advance dev k r w es).log = s.log ++ es := rfl

/-- Exchanges in a row. -/
@[simp] theorem advance_advance (k r w k' r' w' : Nat) (es es' : List FdcEvent) :
    (s.advance dev k r w es).advance dev k' r' w' es' =
      s.advance dev (k + k') (r + r') (w + w') (es ++ es') := by
  simp only [FdcState.advance, loopAt_loopAt, Nat.add_assoc, List.append_assoc]

theorem outb_run (dev : FdcDevice) (port : Port) (value : Byte) :
    (outb port value).run s = .ok () (s.advance dev 0 0 0 [.outb port value]) := rfl

theorem outbs_run (dev : FdcDevice) (ws : List PortWrite) :
    (outbs ws).run s = .ok () (s.advance dev 0 0 0 (ws.map fun w => .outb w.1 w.2)) := by
  induction ws generalizing s with
  | nil =>
      simp only [FdcState.advance, List.map_nil, List.append_nil]
      rfl
  | cons w ws ih =>
      change (outb w.1 w.2 >>= fun _ => outbs ws).run s = _
      rw [run_bind_of_ok (outb_run dev _ _), ih, advance_advance]
      rfl

/-- The first of `n + 1` loops, and the others from where it ends. -/
theorem forall_lt_succ_loopAt_iff {p n : Nat} {b : Bool} :
    (∀ k < n + 1, dev.accepts (dev.loopAt p k) = b) ↔
      dev.accepts p = b ∧ ∀ k < n, dev.accepts (dev.loopAt (dev.loopAt p 1) k) = b := by
  simp only [Nat.forall_lt_succ_left, loopAt_loopAt, Nat.add_comm 1, loopAt_zero]

/-- The event a byte handed to `_fdc_send_command` leaves when its loop starts at `p`. -/
def FdcDevice.sendEvent (dev : FdcDevice) (p : Nat) (cmd : Byte) : FdcEvent :=
  if dev.accepts p then .outb fdcIoDr cmd else .dropped cmd

theorem ready_of_status {p : Nat} (h : dev.msr p &&& fdcMaskMsrDatareg ≠ 0#8) :
    dev.ready p = true := bne_iff_ne.mpr h

theorem busy_of_status {p : Nat} (h : ¬ dev.msr p &&& fdcMaskMsrDatareg ≠ 0#8) :
    dev.ready p = false := bne_eq_false_iff_eq.mpr (not_not.mp h)

theorem fdcSendCommandLoop_run (cmd : Byte) (i : Nat) :
    (fdcSendCommandLoop dev cmd i).run s =
      .ok () { s with
        polls := pollEnd dev.ready i s.polls
        log := s.log ++
          [if pollReady dev.ready i s.polls then .outb fdcIoDr cmd else .dropped cmd] } := by
  induction i generalizing s with
  | zero => rfl
  | succ i ih =>
      rw [fdcSendCommandLoop, fdcReadStatus, pollEnd, pollReady]
      by_cases hready : dev.msr s.polls &&& fdcMaskMsrDatareg ≠ 0#8
      · simp only [ready_of_status hready, EStateM.run_bind, EStateM.run_get,
          EStateM.run_set, EStateM.run_pure, hready, if_true,
          Bool.true_or, ne_eq, not_false_eq_true]
        rfl
      · simp only [busy_of_status hready, EStateM.run_bind, EStateM.run_get,
          EStateM.run_set, EStateM.run_pure, hready, if_false, Bool.false_or, ih]
        rfl

theorem fdcSendCommand_run (cmd : Byte) :
    (fdcSendCommand dev cmd).run s =
      .ok () (s.advance dev 1 0 0 [dev.sendEvent s.polls cmd]) :=
  fdcSendCommandLoop_run cmd fdcRetries

/-- The events of the bytes of a command. -/
def FdcDevice.sendEvents (dev : FdcDevice) : Nat → List Byte → List FdcEvent
  | _, [] => []
  | p, cmd :: cmds => dev.sendEvent p cmd :: dev.sendEvents (dev.loopAt p 1) cmds

@[simp] theorem length_sendEvents (p : Nat) (cmds : List Byte) :
    (dev.sendEvents p cmds).length = cmds.length := by
  induction cmds generalizing p with
  | nil => rfl
  | cons cmd cmds ih => rw [FdcDevice.sendEvents, List.length_cons, ih, List.length_cons]

theorem sendCommands_run (cmds : List Byte) :
    (cmds.forM (fdcSendCommand dev)).run s =
      .ok () (s.advance dev cmds.length 0 0 (dev.sendEvents s.polls cmds)) := by
  induction cmds generalizing s with
  | nil =>
      simp only [FdcState.advance, FdcDevice.sendEvents, List.append_nil]
      rfl
  | cons cmd cmds ih =>
      change (fdcSendCommand dev cmd >>= fun _ => cmds.forM (fdcSendCommand dev)).run s = _
      rw [run_bind_of_ok (fdcSendCommand_run cmd), ih, advance_advance, Nat.add_comm 1]
      rfl

theorem fdcIssue_run (cmd : FdcCommand) :
    (fdcIssue dev cmd).run s =
      .ok () (s.advance dev cmd.bytes.length 0 0 (dev.sendEvents s.polls cmd.bytes)) :=
  sendCommands_run cmd.bytes

def FdcDevice.readEvent (dev : FdcDevice) (p r : Nat) : FdcEvent :=
  if dev.accepts p then .data (dev.dr r) else .noData

/-- The bytes one `_fdc_read_data` takes. -/
def FdcDevice.taken (dev : FdcDevice) (p : Nat) : Nat := if dev.accepts p then 1 else 0

theorem fdcReadDataLoop_run (i : Nat) :
    (fdcReadDataLoop dev i).run s =
      .ok (if pollReady dev.ready i s.polls then some (dev.dr s.reads) else none)
        { s with
          polls := pollEnd dev.ready i s.polls
          reads := s.reads + if pollReady dev.ready i s.polls then 1 else 0
          log := s.log ++
            [if pollReady dev.ready i s.polls then .data (dev.dr s.reads) else .noData] } := by
  induction i generalizing s with
  | zero => rfl
  | succ i ih =>
      rw [fdcReadDataLoop, fdcReadStatus, pollEnd, pollReady]
      by_cases hready : dev.msr s.polls &&& fdcMaskMsrDatareg ≠ 0#8
      · simp only [ready_of_status hready, EStateM.run_bind, EStateM.run_get,
          EStateM.run_set, EStateM.run_pure, hready, if_true,
          Bool.true_or, ne_eq, not_false_eq_true, fdcInDr]
      · simp only [busy_of_status hready, EStateM.run_bind, EStateM.run_get,
          EStateM.run_set, EStateM.run_pure, hready, if_false, Bool.false_or, ih]
        rfl

theorem fdcReadData_run :
    (fdcReadData dev).run s =
      .ok (if dev.accepts s.polls then some (dev.dr s.reads) else none)
        (s.advance dev 1 (dev.taken s.polls) 0 [dev.readEvent s.polls s.reads]) :=
  fdcReadDataLoop_run fdcRetries

/-- The events of `n` calls of `_fdc_read_data`. -/
def FdcDevice.readEvents (dev : FdcDevice) : Nat → Nat → Nat → List FdcEvent
  | _, _, 0 => []
  | p, r, n + 1 =>
      dev.readEvent p r :: dev.readEvents (dev.loopAt p 1) (r + dev.taken p) n

def FdcDevice.takenIn (dev : FdcDevice) : Nat → Nat → Nat
  | _, 0 => 0
  | p, n + 1 => dev.taken p + dev.takenIn (dev.loopAt p 1) n

@[simp] theorem length_readEvents (p r n : Nat) : (dev.readEvents p r n).length = n := by
  induction n generalizing p r with
  | zero => rfl
  | succ n ih => rw [FdcDevice.readEvents, List.length_cons, ih]

theorem readResults_run (l : List Nat) :
    (l.forM fun _ => do let _ ← fdcReadData dev).run s =
      .ok () (s.advance dev l.length (dev.takenIn s.polls l.length) 0
        (dev.readEvents s.polls s.reads l.length)) := by
  induction l generalizing s with
  | nil =>
      simp only [FdcState.advance, List.length_nil, FdcDevice.readEvents, List.append_nil]
      rfl
  | cons a l ih =>
      change ((do let _ ← fdcReadData dev) >>= fun _ => l.forM fun _ => do
        let _ ← fdcReadData dev).run s = _
      have hread : (do let _ ← fdcReadData dev : FdcM PUnit).run s =
          .ok () (s.advance dev 1 (dev.taken s.polls) 0 [dev.readEvent s.polls s.reads]) := by
        rw [run_bind_of_ok fdcReadData_run]
        rfl
      rw [run_bind_of_ok hread, ih, advance_advance, Nat.add_comm 1]
      rfl

/-- Both bytes of a `CHECK_INT` whose command is polled for from reading `p` on arrive. -/
def FdcDevice.Answers (dev : FdcDevice) (p : Nat) : Prop :=
  dev.accepts (dev.loopAt p 1) = true ∧ dev.accepts (dev.loopAt p 2) = true

theorem fdcCheckInt_run (h : dev.Answers s.polls) :
    (fdcCheckInt dev).run s = .ok (dev.dr s.reads, dev.dr (s.reads + 1))
      (s.advance dev 3 2 0 [dev.sendEvent s.polls fdcCmdCheckInt, .data (dev.dr s.reads),
        .data (dev.dr (s.reads + 1))]) := by
  obtain ⟨hst0, hcyl⟩ := h
  rw [fdcCheckInt, run_bind_of_ok (fdcSendCommand_run _), run_bind_of_ok fdcReadData_run]
  simp only [advance_polls, advance_reads, hst0, if_true, FdcDevice.taken, FdcDevice.readEvent,
    advance_advance]
  rw [run_bind_of_ok fdcReadData_run]
  simp only [advance_polls, advance_reads, hcyl, if_true, FdcDevice.taken, FdcDevice.readEvent,
    advance_advance]
  rfl

theorem fdcCheckInt_run_error (h : ¬ dev.Answers s.polls) :
    ∃ t, (fdcCheckInt dev).run s = .error .panicked t := by
  rw [fdcCheckInt, run_bind_of_ok (fdcSendCommand_run _), run_bind_of_ok fdcReadData_run]
  by_cases hst0 : dev.accepts (dev.loopAt s.polls 1) = true
  · have hcyl : ¬ dev.accepts (dev.loopAt s.polls 2) = true := fun hcyl => h ⟨hst0, hcyl⟩
    simp only [advance_polls, hst0, if_true, advance_advance]
    rw [run_bind_of_ok fdcReadData_run]
    simp only [advance_polls, hcyl]
    exact ⟨_, rfl⟩
  · simp only [advance_polls, hst0]
    exact ⟨_, rfl⟩

theorem fdcWaitIrq_run (h : dev.irq s.waits = true) :
    (fdcWaitIrq dev).run s = .ok () (s.advance dev 0 0 1 [.irq]) := by
  simp only [fdcWaitIrq, EStateM.run_bind, EStateM.run_get, h, if_true]
  rfl

theorem fdcWaitIrq_run_error (h : ¬ dev.irq s.waits = true) :
    (fdcWaitIrq dev).run s = .error .hung s := by
  simp only [fdcWaitIrq, EStateM.run_bind, EStateM.run_get, h]
  rfl

end

end Bros
