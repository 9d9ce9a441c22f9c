import Bros.FdcMotor
import Bros.FdcDma
import Bros.FdcSpecify
import Bros.Lib.Coupling
import Bros.Lib.Fdc82077

/-!
The driver of `drivers/fdc.c` on a 82077.

The readings a device hands to the driver are now those of a controller that decodes what
the driver writes. A run counts when the controller takes part in its log; each function of
the driver has one lemma that says what it makes of the controller.
-/

namespace Bros
open ByteMemory Programs Runs Coupling Fdc82077

/-- What an entry of the log is to the controller. It never keeps a polling loop waiting. -/
def floppyStep (media : Media) (w : System) : FdcEvent → Option System
  | .outb port value => some (w.outb media port value)
  | .data value => w.readDr value
  | .irq => w.takeIrq
  | .dropped _ => none
  | .noData => none
  | .printf _ _ => some w

/-- The status register gets ready in time, and interrupts that are waited for come. -/
structure FdcDevice.Working (dev : FdcDevice) : Prop where
  ready : ∀ p, dev.accepts p = true
  irq : ∀ n, dev.irq n = true

abbrev AppendsLog {α : Type} (x : FdcM α) : Prop := Appends FdcState.log x

/-- If the controller takes part in what the driver does from `s`, the driver returns. -/
abbrev OnController (media : Media) (s : FdcState) (w : System) {α : Type} (x : FdcM α)
    (Q : α → FdcState → System → Prop) : Prop :=
  Meets FdcState.log (floppyStep media) s w x Q

/-! ### The driver only adds to its log -/

section
variable {dev : FdcDevice} {drive cyl head : Byte}

instance appends_log (e : FdcEvent) : AppendsLog (fdcLog e) :=
  appends_of_ok fun _ => ⟨_, _, _, rfl, rfl⟩

instance appends_outb (port : Port) (value : Byte) : AppendsLog (outb port value) :=
  appends_of_ok fun _ => ⟨_, _, _, rfl, rfl⟩

instance appends_outbs (ws : List PortWrite) : AppendsLog (outbs ws) := by
  unfold outbs
  infer_instance

instance appends_sendCommand (cmd : Byte) : AppendsLog (fdcSendCommand dev cmd) :=
  appends_of_ok fun _ => ⟨_, _, _, fdcSendCommand_run cmd, rfl⟩

instance appends_issue (cmd : FdcCommand) : AppendsLog (fdcIssue dev cmd) := by
  unfold fdcIssue
  infer_instance

instance appends_driveData (stepRate loadTime unloadTime : Byte) (dma : Bool) :
    AppendsLog (fdcDriveData dev stepRate loadTime unloadTime dma) := by
  unfold fdcDriveData
  infer_instance

instance appends_readData : AppendsLog (fdcReadData dev) :=
  appends_of_ok fun _ => ⟨_, _, _, fdcReadData_run, rfl⟩

instance appends_waitIrq : AppendsLog (fdcWaitIrq dev) := by
  refine ⟨fun s => ?_⟩
  by_cases hirq : dev.irq s.waits = true
  · rw [fdcWaitIrq_run hirq]
    exact ⟨[.irq], rfl⟩
  · rw [fdcWaitIrq_run_error hirq]
    exact ⟨[], (List.append_nil _).symm⟩

instance appends_checkInt : AppendsLog (fdcCheckInt dev) := by
  refine (appends_sendCommand fdcCmdCheckInt).bind fun _ => appends_readData.bind fun st0 => ?_
  cases st0 with
  | none => exact appends_throw _
  | some st0 =>
      refine appends_readData.bind fun cyl => ?_
      cases cyl with
      | none => exact appends_throw _
      | some cyl => exact appends_pure _

instance appends_controlMotor (on : Bool) : AppendsLog (fdcControlMotor drive on) := by
  unfold fdcControlMotor
  cases fdcMotorMask drive <;> infer_instance

instance appends_calibrateLoop (n : Nat) : AppendsLog (fdcCalibrateLoop dev drive n) := by
  induction n with
  | zero =>
      unfold fdcCalibrateLoop
      infer_instance
  | succ n ih =>
      unfold fdcCalibrateLoop
      infer_instance

instance appends_calibrate : AppendsLog (fdcCalibrate dev drive) := by
  unfold fdcCalibrate
  infer_instance

set_option synthInstance.maxSize 4000 in
instance appends_reset : AppendsLog (fdcReset dev drive) := by
  unfold fdcReset
  infer_instance

instance appends_seekRound : AppendsLog (fdcSeekRound dev drive cyl head) := by
  unfold fdcSeekRound
  infer_instance

instance appends_seekLoop (n : Nat) : AppendsLog (fdcSeekLoop dev drive cyl head n) := by
  induction n with
  | zero =>
      unfold fdcSeekLoop
      infer_instance
  | succ n ih =>
      unfold fdcSeekLoop
      infer_instance

instance appends_seek : AppendsLog (fdcSeek dev drive cyl head) := by
  unfold fdcSeek
  infer_instance

set_option synthInstance.maxSize 400 in
instance appends_readSectorImp {track sector : Byte} :
    AppendsLog (fdcReadSectorImp dev drive head track sector) := by
  unfold fdcReadSectorImp
  infer_instance

instance appends_readSector {sectorLBA : BitVec 32} :
    AppendsLog (fdcReadSector dev drive sectorLBA) := by
  unfold fdcReadSector
  infer_instance

end

/-! ### Single exchanges -/

section
variable {media : Media} {dev : FdcDevice} {s : FdcState} {w : System}

theorem outb_spec (media : Media) (s : FdcState) (w : System) (port : Port) (value : Byte) :
    OnController media s w (outb port value) fun _ t w' =>
      t.dmaBuf = s.dmaBuf ∧ w' = w.outb media port value := by
  refine meets_of_ok (outb_run (readyDevice fun _ => 0#8) port value) rfl fun w' hw' => ⟨rfl, ?_⟩
  injection hw' with hw'
  exact hw'.symm

/-- The writes of `drivers/dma.c` go to the DMA controller. -/
theorem outbs_spec (media : Media) (s : FdcState) (w : System) {ws : List PortWrite}
    (hdor : dorPort ∉ ws.map Prod.fst) (hdr : drPort ∉ ws.map Prod.fst) :
    OnController media s w (outbs ws) fun _ t w' =>
      t.dmaBuf = s.dmaBuf ∧ w' = { w with dma := w.dma.run ws } := by
  induction ws generalizing s w with
  | nil => exact meets_pure ⟨rfl, rfl⟩
  | cons v ws ih =>
      rw [List.map_cons, List.mem_cons, not_or] at hdor hdr
      refine (outb_spec media s w v.1 v.2).bind fun _ t w' h => ?_
      obtain ⟨hbuf, rfl⟩ := h
      rw [System.outb, if_neg (Ne.symm hdor.1), if_neg (Ne.symm hdr.1)]
      refine (ih t _ hdor.2 hdr.2).weaken fun _ u w' h => ?_
      exact ⟨h.1.trans hbuf, h.2⟩

theorem fdcMotorOn_bits {drive : Byte} (hdrive : drive < 4#8) :
    (fdcMotorOn drive).getLsbD 2 = true ∧ (fdcMotorOn drive).getLsbD 3 = true ∧
      (fdcMotorOn drive).toNat % 4 = drive.toNat ∧
        (fdcMotorOn drive).getLsbD (4 + drive.toNat) = true := by
  obtain rfl | rfl | rfl | rfl := drive_cases hdrive <;> decide

theorem motorOn_spec (media : Media) (s : FdcState) {w : System} {drive : Byte}
    (hdrive : drive < 4#8) (hen : w.enabled = true) :
    OnController media s w (fdcControlMotor drive true) fun _ t w' =>
      t.dmaBuf = s.dmaBuf ∧ w' = { w with dor := fdcMotorOn drive } := by
  refine meets_of_ok (fdcControlMotor_on (readyDevice fun _ => 0#8) hdrive) rfl
    fun w' hw' => ⟨rfl, ?_⟩
  obtain ⟨w1, hw1, hrest⟩ := run_cons_eq_some.mp hw'
  rw [← Option.some.inj hrest, ← Option.some.inj hw1]
  have hout : w.outb media fdcIoDor (fdcMotorOn drive) = w.writeDor (fdcMotorOn drive) :=
    if_pos rfl
  rw [hout, System.writeDor, (fdcMotorOn_bits hdrive).1, hen]
  rfl

theorem motorOff_spec (media : Media) (s : FdcState) {w : System} (hen : w.enabled = true)
    (drive : Byte) :
    OnController media s w (fdcControlMotor drive false) fun _ t w' =>
      t.dmaBuf = s.dmaBuf ∧ w' = { w with dor := fdcMaskDorReset } := by
  refine (outb_spec media s w fdcIoDor fdcMaskDorReset).weaken fun _ t w' h => ⟨h.1, ?_⟩
  have hout : w.outb media fdcIoDor fdcMaskDorReset = w.writeDor fdcMaskDorReset := if_pos rfl
  have hbit : fdcMaskDorReset.getLsbD 2 = true := by decide
  rw [h.2, hout, System.writeDor, hbit, hen]
  rfl

theorem writeDr_checkInt (hen : w.enabled = true) (hphase : w.phase = .command []) :
    w.writeDr media fdcCmdCheckInt = w.sense :=
  foldl_writeDr_command media hen hphase (List.cons_ne_nil fdcCmdCheckInt []) rfl

/-- What the driver sends is as long as its opcode says. -/
theorem opcode_length (cmd : FdcCommand) :
    cmd.bytes ≠ [] ∧ cmd.bytes.length = (opcode (arg cmd.bytes 0)).length := by
  cases cmd with
  | specify => exact ⟨List.cons_ne_nil _ _, rfl⟩
  | calibrate => exact ⟨List.cons_ne_nil _ _, rfl⟩
  | seek => exact ⟨List.cons_ne_nil _ _, rfl⟩
  | readSect =>
      have hop : opcode 0xE6#8 = .read := by decide
      exact ⟨List.cons_ne_nil _ _, (congrArg Opcode.length hop).symm⟩

variable (working : dev.Working)
include working

theorem sendCommand_spec (media : Media) (s : FdcState) (w : System) (cmd : Byte) :
    OnController media s w (fdcSendCommand dev cmd) fun _ t w' =>
      t.dmaBuf = s.dmaBuf ∧ w' = w.writeDr media cmd := by
  have htrace : [dev.sendEvent s.polls cmd] = [.outb fdcIoDr cmd] := by
    rw [FdcDevice.sendEvent, if_pos (working.ready _)]
  refine meets_of_ok (fdcSendCommand_run cmd) (by rw [advance_log, htrace]) fun w' hw' =>
    ⟨rfl, ?_⟩
  injection hw' with hw'
  exact hw'.symm

theorem sendCommands_spec (media : Media) (s : FdcState) (w : System) (cmds : List Byte) :
    OnController media s w (cmds.forM (fdcSendCommand dev)) fun _ t w' =>
      t.dmaBuf = s.dmaBuf ∧ w' = cmds.foldl (System.writeDr media) w := by
  induction cmds generalizing s w with
  | nil => exact meets_pure ⟨rfl, rfl⟩
  | cons cmd cmds ih =>
      refine (sendCommand_spec working media s w cmd).bind fun _ t w' h => ?_
      obtain ⟨hbuf, rfl⟩ := h
      exact (ih t _).weaken fun _ u w' h => ⟨h.1.trans hbuf, h.2⟩

/-- A whole command is carried out. -/
theorem issue_spec (media : Media) (s : FdcState) {w : System} (hen : w.enabled = true)
    (hphase : w.phase = .command []) (cmd : FdcCommand) :
    OnController media s w (fdcIssue dev cmd) fun _ t w' =>
      t.dmaBuf = s.dmaBuf ∧ w' = w.execute media cmd.bytes := by
  obtain ⟨hne, hlen⟩ := opcode_length cmd
  have hall := foldl_writeDr_command media hen hphase hne hlen
  exact hall ▸ sendCommands_spec working media s w cmd.bytes

theorem waitIrq_spec (media : Media) (s : FdcState) (w : System) :
    OnController media s w (fdcWaitIrq dev) fun _ t w' =>
      t.dmaBuf = s.dmaBuf ∧ w' = { w with irq := false } := by
  refine meets_of_ok (fdcWaitIrq_run (working.irq _)) rfl fun w' hw' => ⟨rfl, ?_⟩
  obtain ⟨w1, hw1, hw'⟩ := run_cons_eq_some.mp hw'
  injection hw' with hw'
  rw [floppyStep, System.takeIrq] at hw1
  split at hw1
  · injection hw1 with hw1
    rw [← hw', hw1]
  · cases hw1

theorem readData_spec (media : Media) (s : FdcState) (w : System) :
    OnController media s w (fdcReadData dev) fun data t w' =>
      t.dmaBuf = s.dmaBuf ∧ ∃ v, data = some v ∧ w.readDr v = some w' := by
  have htrace : [dev.readEvent s.polls s.reads] = [.data (dev.dr s.reads)] := by
    rw [FdcDevice.readEvent, if_pos (working.ready _)]
  refine meets_of_ok fdcReadData_run (by rw [advance_log, htrace]) fun w' hw' =>
    ⟨rfl, dev.dr s.reads, if_pos (working.ready _), ?_⟩
  obtain ⟨w1, hw1, hw'⟩ := run_cons_eq_some.mp hw'
  injection hw' with hw'
  rwa [hw'] at hw1

/-- Three exchanges, whatever the controller is doing. -/
theorem checkInt_exchange (media : Media) (s : FdcState) (w : System) :
    OnController media s w (fdcCheckInt dev) fun r t w' =>
      t.dmaBuf = s.dmaBuf ∧ ∃ w1, (w.writeDr media fdcCmdCheckInt).readDr r.1 = some w1 ∧
        w1.readDr r.2 = some w' := by
  have htrace : [dev.sendEvent s.polls fdcCmdCheckInt, .data (dev.dr s.reads),
      .data (dev.dr (s.reads + 1))] = [.outb fdcIoDr fdcCmdCheckInt, .data (dev.dr s.reads),
        .data (dev.dr (s.reads + 1))] := by
    rw [FdcDevice.sendEvent, if_pos (working.ready _)]
  refine meets_of_ok (fdcCheckInt_run ⟨working.ready _, working.ready _⟩)
    (by rw [advance_log, htrace]) fun w' hw' => ⟨rfl, ?_⟩
  obtain ⟨w1, hw1, hrest⟩ := run_cons_eq_some.mp hw'
  obtain ⟨w2, hw2, hrest⟩ := run_cons_eq_some.mp hrest
  obtain ⟨w3, hw3, hrest⟩ := run_cons_eq_some.mp hrest
  rw [← Option.some.inj hw1] at hw2
  rw [← Option.some.inj hrest]
  exact ⟨w2, hw2, hw3⟩

/-! ### Between commands -/

/-- An interrupt has been announced. -/
theorem checkInt_reports (media : Media) (s : FdcState) {w : System} (hen : w.enabled = true)
    (hphase : w.phase = .command []) {drive : Nat} {st0 : Byte} {rest : List (Nat × Byte)}
    (hfinished : w.finished = (drive, st0) :: rest) :
    OnController media s w (fdcCheckInt dev) fun r t w' =>
      t.dmaBuf = s.dmaBuf ∧ r = (st0, w.cylinder drive) ∧ w' = { w with finished := rest } := by
  refine (checkInt_exchange working media s w).weaken fun r t w' h => ?_
  obtain ⟨hbuf, w1, hfirst, hsecond⟩ := h
  rw [writeDr_checkInt hen hphase, sense_of_cons hfinished, readDr_result rfl] at hfirst
  obtain ⟨hst0, rfl⟩ := hfirst
  rw [readDr_result rfl] at hsecond
  obtain ⟨hcyl, rfl⟩ := hsecond
  refine ⟨hbuf, Prod.ext hst0.symm hcyl.symm, ?_⟩
  rw [← hphase]
  rfl

/-- With nothing to report the command is invalid, and its second result is not one. -/
theorem checkInt_idle (media : Media) (s : FdcState) {w : System} (hen : w.enabled = true)
    (hphase : w.phase = .command []) (hfinished : w.finished = []) :
    OnController media s w (fdcCheckInt dev) fun _ t w' => t.dmaBuf = s.dmaBuf ∧ w' = w := by
  refine (checkInt_exchange working media s w).weaken fun r t w' h => ?_
  obtain ⟨hbuf, w1, hfirst, hsecond⟩ := h
  rw [writeDr_checkInt hen hphase, sense_of_nil hfinished, readDr_result rfl] at hfirst
  obtain ⟨-, rfl⟩ := hfirst
  rw [readDr_command rfl] at hsecond
  refine ⟨hbuf, hsecond.trans ?_⟩
  rw [← hphase]
  rfl

/-- A command that moves the arm, its interrupt and the check, followed by more. -/
theorem moved_then {α : Type} {cmd : FdcCommand} {drive : Nat} {cyl st0 : Byte}
    {k : Byte × Byte → FdcM α} {Q : α → FdcState → System → Prop} (hen : w.enabled = true)
    (hphase : w.phase = .command []) (hfinished : w.finished = [])
    (hexec : w.execute media cmd.bytes = w.moved drive cyl st0)
    [∀ r, AppendsLog (k r)]
    (hk : ∀ t, t.dmaBuf = s.dmaBuf →
      OnController media t (w.atCylinder drive cyl) (k (st0, cyl)) Q) :
    OnController media s w
      (fdcIssue dev cmd >>= fun _ => fdcWaitIrq dev >>= fun _ => fdcCheckInt dev >>= k) Q := by
  refine (issue_spec working media s hen hphase cmd).bind fun _ t _ h => ?_
  obtain ⟨hbuf, rfl⟩ := h
  refine (waitIrq_spec working media t _).bind fun _ u _ h => ?_
  obtain ⟨hbuf2, rfl⟩ := h
  rw [hexec]
  have hreport : ({ w.moved drive cyl st0 with irq := false } : System).finished =
      [(drive, st0)] := by
    change w.finished ++ [(drive, st0)] = _
    rw [hfinished, List.nil_append]
  refine (checkInt_reports working media u (w := { w.moved drive cyl st0 with irq := false }) hen
    rfl hreport).bind fun r v w' h => ?_
  obtain ⟨hbuf3, rfl, rfl⟩ := h
  have hcyl : (w.moved drive cyl st0).cylinder drive = cyl := if_pos rfl
  have hafter : ({ w.moved drive cyl st0 with irq := false, finished := [] } : System) =
      w.atCylinder drive cyl := by
    rw [System.atCylinder, System.moved, ← hphase, ← hfinished]
    rfl
  have hgoal := hk v (hbuf3.trans (hbuf2.trans hbuf))
  rw [← hafter] at hgoal
  change OnController media v _ (k (st0, (w.moved drive cyl st0).cylinder drive)) Q
  rw [hcyl]
  exact hgoal

/-! ### Seeks and calibration -/

/-- The first round of a seek arrives. -/
theorem seekLoop_spec (media : Media) (s : FdcState) {w : System} (hidle : w.Idle)
    {drive cyl head : Byte} (hdrive : (head <<< 2 ||| drive).toNat % 4 = drive.toNat) (n : Nat) :
    OnController media s w (fdcSeekLoop dev drive cyl head (n + 1)) fun found t w' =>
      found = true ∧ t.dmaBuf = s.dmaBuf ∧ w' = w.atCylinder drive.toNat cyl := by
  have hexec : w.execute media (FdcCommand.seek drive cyl head).bytes =
      w.moved drive.toNat cyl (0x20#8 ||| (head <<< 2 ||| drive) &&& 7#8) := by
    rw [← hdrive]
    rfl
  rw [fdcSeekLoop]
  have hround : OnController media s w (fdcSeekRound dev drive cyl head) fun cyl0 t w' =>
      cyl0 = cyl ∧ t.dmaBuf = s.dmaBuf ∧ w' = w.atCylinder drive.toNat cyl :=
    moved_then working hidle.enabled hidle.phase hidle.finished hexec
      fun t ht => meets_pure ⟨rfl, ht, rfl⟩
  refine hround.bind fun cyl0 t w' h => ?_
  obtain ⟨rfl, hbuf, rfl⟩ := h
  rw [if_pos rfl]
  exact meets_pure ⟨rfl, hbuf, rfl⟩

/-- The first round of `_fdc_calibrate` finds cylinder 0. -/
theorem calibrate_spec (media : Media) (s : FdcState) {w : System} (hidle : w.Idle)
    {drive : Byte} (hdrive : drive < 4#8) :
    OnController media s w (fdcCalibrate dev drive) fun found t w' =>
      found = true ∧ t.dmaBuf = s.dmaBuf ∧
        w' = { w.atCylinder drive.toNat 0#8 with dor := fdcMaskDorReset } := by
  have hmod : drive.toNat % 4 = drive.toNat := Nat.mod_eq_of_lt hdrive
  rw [fdcCalibrate, if_neg (BitVec.not_le.mpr hdrive)]
  refine (motorOn_spec media s hdrive hidle.enabled).bind fun _ t _ h => ?_
  obtain ⟨hbuf, rfl⟩ := h
  have hen := (fdcMotorOn_bits hdrive).1
  have hexec : ({ w with dor := fdcMotorOn drive } : System).execute media
      (FdcCommand.calibrate drive).bytes =
      ({ w with dor := fdcMotorOn drive } : System).moved drive.toNat 0#8
        (0x20#8 ||| drive &&& 3#8) := by
    rw [← hmod]
    rfl
  rw [fdcCalibrateLoop]
  refine moved_then working hen hidle.phase hidle.finished hexec fun u hu => ?_
  dsimp only
  rw [if_pos rfl]
  refine (motorOff_spec media u
    (w := ({ w with dor := fdcMotorOn drive } : System).atCylinder drive.toNat 0#8) hen
    drive).bind fun _ v w' h => ?_
  obtain ⟨hbuf2, rfl⟩ := h
  exact meets_pure ⟨rfl, hbuf2.trans (hu.trans hbuf), rfl⟩

end

end Bros
