import Bros.FdcRuns
import Bros.Lib.Runs

/-!
The motor over runs of the driver's calls.

The last value written to the digital output register says which motors run. `fdc_init`
leaves them off; `fdc_read_sector` does so unless all its seeks fail.
-/

namespace Bros
open ByteMemory CStrings Polling Programs Runs

/-- The value an event writes to the digital output register. -/
def fdcDorWrite : FdcEvent → Option Byte
  | .outb port value => if port = fdcIoDor then some value else none
  | _ => none

def lastDor (log : List FdcEvent) : Option Byte := (log.filterMap fdcDorWrite).getLast?

/-- The four motor bits of the last value written, if any, are clear. -/
def MotorOff (s : FdcState) : Prop := ∀ value, lastDor s.log = some value → value &&& 0xF0#8 = 0#8

inductive FdcOp where
  | init
  | readSector (drive : Byte) (sectorLBA : BitVec 32)

/-- The state after a call that returns. -/
def fdcStep (dev : FdcDevice) (s : FdcState) (op : FdcOp) : Option FdcState :=
  match op with
  | .init =>
      match (fdcInit dev).run s with
      | .ok _ t => some t
      | .error _ _ => none
  | .readSector drive sectorLBA =>
      match (fdcReadSector dev drive sectorLBA).run s with
      | .ok _ t => some t
      | .error _ _ => none

def ReturnsMotorOff (dev : FdcDevice) (s : FdcState) (op : FdcOp) : Prop :=
  ∀ t, fdcStep dev s op = some t → MotorOff t

/-- Not all ten rounds of the seek are answered with another cylinder. -/
def SeekSettles (dev : FdcDevice) (s : FdcState) : FdcOp → Prop
  | .init => True
  | .readSector drive sectorLBA => drive < 4#8 → ¬ dev.Misses s (fdcTrack sectorLBA) 10

section
variable {dev : FdcDevice} {s t : FdcState} {drive : Byte}

/-! ### The last write -/

theorem lastDor_append_quiet {log es : List FdcEvent} (h : ∀ e ∈ es, fdcDorWrite e = none) :
    lastDor (log ++ es) = lastDor log := by
  rw [lastDor, List.filterMap_append, List.filterMap_eq_nil_iff.mpr h, List.append_nil, lastDor]

theorem lastDor_append_outb (log : List FdcEvent) (value : Byte) :
    lastDor (log ++ [.outb fdcIoDor value]) = some value := by
  have hwrite : [FdcEvent.outb fdcIoDor value].filterMap fdcDorWrite = [value] := rfl
  rw [lastDor, List.filterMap_append, hwrite, List.getLast?_concat]

theorem fdcDorWrite_sendEvent (p : Nat) (cmd : Byte) :
    fdcDorWrite (dev.sendEvent p cmd) = none := by
  rw [FdcDevice.sendEvent]
  split <;> rfl

theorem fdcDorWrite_sendEvents {p : Nat} {cmds : List Byte} :
    ∀ e ∈ dev.sendEvents p cmds, fdcDorWrite e = none := by
  induction cmds generalizing p with
  | nil =>
      intro e he
      cases he
  | cons cmd cmds ih => exact List.forall_mem_cons.mpr ⟨fdcDorWrite_sendEvent p cmd, ih⟩

theorem lastDor_afterRound (drive cyl head : Byte) :
    lastDor (s.afterRound dev drive cyl head).log = lastDor s.log := by
  rw [FdcState.afterRound, advance_log]
  apply lastDor_append_quiet
  rw [List.forall_mem_append]
  refine ⟨fdcDorWrite_sendEvents, ?_⟩
  simp only [List.forall_mem_cons]
  exact ⟨rfl, fdcDorWrite_sendEvent _ _, rfl, rfl, List.forall_mem_nil _⟩

theorem lastDor_afterRounds (drive cyl head : Byte) (n : Nat) :
    lastDor (s.afterRounds dev drive cyl head n).log = lastDor s.log := by
  induction n with
  | zero => rfl
  | succ n ih => rw [afterRounds_succ, lastDor_afterRound, ih]

/-! ### The calls -/

theorem motorOff_motorOff (dev : FdcDevice) (s : FdcState) : MotorOff (s.motorOff dev) := by
  intro value hvalue
  rw [FdcState.motorOff, advance_log, lastDor_append_outb] at hvalue
  injection hvalue with hvalue
  rw [← hvalue]
  rfl

theorem drive_cases (h : drive < 4#8) :
    drive = 0#8 ∨ drive = 1#8 ∨ drive = 2#8 ∨ drive = 3#8 := by
  simp only [BitVec.lt_def, BitVec.toNat_eq, BitVec.reduceToNat] at h ⊢
  omega

/-- After ten rounds without success the motor is still on. -/
theorem sought_not_motorOff (hdrive : drive < 4#8) (sectorLBA : BitVec 32) (n : Nat) :
    ¬ MotorOff (s.sought dev drive sectorLBA n) := by
  intro hoff
  have hlast : lastDor (s.sought dev drive sectorLBA n).log = some (fdcMotorOn drive) := by
    rw [FdcState.sought, lastDor_afterRounds, FdcState.motorOn, advance_log, lastDor_append_outb]
  have hbits := hoff _ hlast
  have hon : ∀ drive ∈ [0#8, 1#8, 2#8, 3#8], fdcMotorOn drive &&& 0xF0#8 ≠ 0#8 := by decide
  exact hon drive (by simpa using drive_cases hdrive) hbits

/-- Both ways out of the loop of `_fdc_calibrate` turn the motor off. -/
theorem fdcCalibrateLoop_motorOff {n : Nat} {found : Bool}
    (h : (fdcCalibrateLoop dev drive n).run s = .ok found t) : MotorOff t := by
  induction n generalizing s with
  | zero =>
      injection h with _ ht
      rw [← ht]
      exact motorOff_motorOff dev s
  | succ n ih =>
      rw [fdcCalibrateLoop] at h
      obtain ⟨_, s1, -, h⟩ := run_bind_ok.mp h
      obtain ⟨_, s2, -, h⟩ := run_bind_ok.mp h
      obtain ⟨⟨st0, cyl⟩, s3, -, h⟩ := run_bind_ok.mp h
      by_cases hcyl : cyl = 0#8
      · simp only [hcyl, if_true] at h
        injection h with _ ht
        rw [← ht]
        exact motorOff_motorOff dev s3
      · simp only [hcyl, if_false] at h
        exact ih h

/-- `_fdc_reset` returns only when `_fdc_calibrate` has found cylinder 0. -/
theorem fdcReset_motorOff (hdrive : drive < 4#8) {u : Unit}
    (h : (fdcReset dev drive).run s = .ok u t) : MotorOff t := by
  rw [fdcReset] at h
  obtain ⟨_, s1, -, h⟩ := run_bind_ok.mp h
  obtain ⟨_, s2, -, h⟩ := run_bind_ok.mp h
  obtain ⟨_, s3, -, h⟩ := run_bind_ok.mp h
  obtain ⟨_, s4, -, h⟩ := run_bind_ok.mp h
  obtain ⟨_, s5, -, h⟩ := run_bind_ok.mp h
  obtain ⟨_, s6, -, h⟩ := run_bind_ok.mp h
  obtain ⟨calibrated, s7, hcalibrate, h⟩ := run_bind_ok.mp h
  have hoff : MotorOff s7 := by
    rw [fdcCalibrate, if_neg (BitVec.not_le.mpr hdrive)] at hcalibrate
    obtain ⟨_, s8, -, hloop⟩ := run_bind_ok.mp hcalibrate
    exact fdcCalibrateLoop_motorOff hloop
  cases calibrated with
  | true =>
      injection h with _ ht
      rwa [← ht]
  | false => cases h

theorem MotorOff.of_lastDor (hoff : MotorOff s) (hlast : lastDor t.log = lastDor s.log) :
    MotorOff t := fun value hvalue => hoff value (hlast ▸ hvalue)

theorem fdcDriveData_lastDor {stepRate loadTime unloadTime : Byte} {dma : Bool} {u : Unit}
    (h : (fdcDriveData dev stepRate loadTime unloadTime dma).run s = .ok u t) :
    lastDor t.log = lastDor s.log := by
  rw [fdcDriveData, fdcIssue_run] at h
  injection h with _ ht
  rw [← ht, advance_log, lastDor_append_quiet fdcDorWrite_sendEvents]

/-- One of the two conditional resets of `fdc_init`. -/
theorem resetIf_motorOff (hoff : MotorOff s) {p : Prop} [Decidable p] (hdrive : drive < 4#8)
    {u : Unit} (h : (if p then fdcReset dev drive else pure () : FdcM Unit).run s = .ok u t) :
    MotorOff t := by
  split at h
  · exact fdcReset_motorOff hdrive h
  · injection h with _ ht
    rwa [← ht]

theorem fdcInit_motorOff (hoff : MotorOff s) {u : Unit}
    (h : (fdcInit dev).run s = .ok u t) : MotorOff t := by
  have hquiet (a b : Option CString) : ∀ e ∈ [.outb 0x70#16 0x10#8, .printf a b],
      fdcDorWrite e = none := by simp [fdcDorWrite, fdcIoDor]
  rw [fdcInit, run_bind_of_ok (outb_run dev _ _)] at h
  obtain ⟨c, s0, hcmos, h⟩ := run_bind_ok.mp h
  obtain ⟨_, s1, hprint, h⟩ := run_bind_ok.mp h
  obtain ⟨_, s2, hreset0, h⟩ := run_bind_ok.mp h
  obtain ⟨_, s3, hreset1, h⟩ := run_bind_ok.mp h
  have hoff1 : MotorOff s1 := by
    injection hcmos with _ hs0
    injection hprint with _ hs1
    refine hoff.of_lastDor ?_
    rw [← hs1, ← hs0]
    change lastDor (s.log ++ [_] ++ [_]) = _
    rw [List.append_assoc]
    exact lastDor_append_quiet (hquiet _ _)
  have hoff3 := resetIf_motorOff (resetIf_motorOff hoff1 (by decide) hreset0) (by decide) hreset1
  exact hoff3.of_lastDor (fdcDriveData_lastDor h)

theorem fdcStep_init_motorOff (hoff : MotorOff s) : ReturnsMotorOff dev s .init := by
  intro t ht
  simp only [fdcStep] at ht
  split at ht
  · next hrun =>
      injection ht with ht
      rw [← ht]
      exact fdcInit_motorOff hoff hrun
  · cases ht

theorem fdcStep_readSector_missed (hdrive : drive < 4#8) {sectorLBA : BitVec 32}
    (hmiss : dev.Misses s (fdcTrack sectorLBA) 10) :
    fdcStep dev s (.readSector drive sectorLBA) = some (s.sought dev drive sectorLBA 10) := by
  simp only [fdcStep, fdcReadSector_missed hdrive hmiss]

/-- One call of `fdc_read_sector` leaves the motors off exactly when its seek settles. -/
theorem fdcStep_readSector_motorOff_iff (hoff : MotorOff s) (drive : Byte)
    (sectorLBA : BitVec 32) :
    ReturnsMotorOff dev s (.readSector drive sectorLBA) ↔
      SeekSettles dev s (.readSector drive sectorLBA) := by
  by_cases hdrive : drive < 4#8
  · constructor
    · intro hreturns _ hmiss
      exact sought_not_motorOff hdrive sectorLBA 10
        (hreturns _ (fdcStep_readSector_missed hdrive hmiss))
    · intro hsettles t ht
      simp only [fdcStep] at ht
      split at ht
      · next hrun =>
          injection ht with ht
          subst ht
          cases fdcReadSector_ok hdrive hrun with
          | inl hfound =>
              obtain ⟨i, -, -, -, -, -, -, ht⟩ := hfound
              rw [ht]
              exact motorOff_motorOff _ _
          | inr hmissed => exact absurd hmissed.1 (hsettles hdrive)
      · cases ht
  · refine iff_of_true ?_ fun h => absurd h hdrive
    intro t ht
    simp only [fdcStep, fdcReadSector_invalid hdrive] at ht
    injection ht with ht
    rwa [← ht]

/-- Over every run of calls: each call that returns leaves the motors off, exactly when
no seek of the run uses up its ten rounds. -/
theorem fdc_motor_off_iff {start : FdcState} (off : MotorOff start) (ops : List FdcOp) :
    Along (fdcStep dev) (ReturnsMotorOff dev) start ops ↔
      Along (fdcStep dev) (SeekSettles dev) start ops := by
  refine along_congr (fun s op t hoff hreturns hstep => hreturns t hstep) ?_ off
  intro s op hoff
  cases op with
  | init => exact iff_of_true (fdcStep_init_motorOff hoff) trivial
  | readSector drive sectorLBA => exact fdcStep_readSector_motorOff_iff hoff drive sectorLBA

theorem fdcStart_motorOff : MotorOff fdcStart := by
  intro value hvalue
  cases hvalue

/-- A controller that reports the wanted cylinder in the first round of each call. -/
theorem fdc_motor_off_two_reads :
    Along (fdcStep (readyDevice fun _ => 0#8)) (ReturnsMotorOff (readyDevice fun _ => 0#8))
      fdcStart [.init, .readSector 0#8 5#32, .readSector 1#8 35#32] := by
  have hhit (s : FdcState) (cyl : Byte) (hcyl : cyl = 0#8) :
      ¬ (readyDevice fun _ => 0#8).Misses s cyl 10 := fun hmiss =>
    hmiss.missed 0 (by decide) hcyl.symm
  refine (fdc_motor_off_iff fdcStart_motorOff _).mpr ⟨trivial, fun s _ => ?_⟩
  exact ⟨fun _ => hhit s _ rfl, fun t _ => ⟨fun _ => hhit t _ rfl, fun _ _ => trivial⟩⟩

/-- A controller that always reports cylinder 1 when track 0 is wanted. -/
theorem failed_seek_leaves_motor_on :
    ∃ t, fdcStep (readyDevice fun _ => 1#8) fdcStart (.readSector 0#8 0#32) = some t ∧
      ¬ MotorOff t := by
  have hmiss : (readyDevice fun _ => 1#8).Misses fdcStart (fdcTrack 0#32) 10 :=
    ⟨fun j _ => readyDevice_answersRound _ _ j, fun j _ => by
      change 1#8 ≠ 0#8
      decide⟩
  exact ⟨_, fdcStep_readSector_missed (by decide) hmiss,
    sought_not_motorOff (by decide) 0#32 10⟩

end

end Bros
