import Bros.Fdc

/-!
`_fdc_seek` and `fdc_read_sector` against every device.

A round of `_fdc_seek` takes six polling loops, one interrupt and two bytes of the data
register, so what round `i` meets can be said in the readings alone.
-/

namespace Bros
open ByteMemory Polling Programs

section
variable {dev : FdcDevice} {s t : FdcState} {drive cyl head track sector : Byte}

/-! ### Rounds of the seek -/

/-- Round `i` gets its interrupt, and both bytes of its check. -/
def FdcDevice.AnswersRound (dev : FdcDevice) (s : FdcState) (i : Nat) : Prop :=
  dev.irq (s.waits + i) = true ∧ dev.Answers (dev.loopAt s.polls (6 * i + 3))

/-- The cylinder reported in round `i`. -/
def FdcDevice.cylinder (dev : FdcDevice) (s : FdcState) (i : Nat) : Byte :=
  dev.dr (s.reads + 2 * i + 1)

def FdcState.afterRound (dev : FdcDevice) (drive cyl head : Byte) (s : FdcState) : FdcState :=
  s.advance dev 6 2 1 (dev.sendEvents s.polls (FdcCommand.seek drive cyl head).bytes ++
    [.irq, dev.sendEvent (dev.loopAt s.polls 3) fdcCmdCheckInt, .data (dev.dr s.reads),
      .data (dev.dr (s.reads + 1))])

def FdcState.afterRounds (dev : FdcDevice) (drive cyl head : Byte) (s : FdcState) (i : Nat) :
    FdcState := (FdcState.afterRound dev drive cyl head)^[i] s

theorem afterRounds_succ (i : Nat) :
    s.afterRounds dev drive cyl head (i + 1) =
      (s.afterRounds dev drive cyl head i).afterRound dev drive cyl head :=
  Function.iterate_succ_apply' _ _ _

theorem afterRounds_polls (i : Nat) :
    (s.afterRounds dev drive cyl head i).polls = dev.loopAt s.polls (6 * i) := by
  induction i with
  | zero => rfl
  | succ i ih =>
      rw [afterRounds_succ, FdcState.afterRound, advance_polls, ih, loopAt_loopAt, Nat.mul_succ]

theorem afterRounds_reads (i : Nat) :
    (s.afterRounds dev drive cyl head i).reads = s.reads + 2 * i := by
  induction i with
  | zero => rfl
  | succ i ih =>
      rw [afterRounds_succ, FdcState.afterRound, advance_reads, ih, Nat.mul_succ, Nat.add_assoc]

theorem afterRounds_waits (i : Nat) :
    (s.afterRounds dev drive cyl head i).waits = s.waits + i := by
  induction i with
  | zero => rfl
  | succ i ih => rw [afterRounds_succ, FdcState.afterRound, advance_waits, ih, Nat.add_assoc]

theorem afterRounds_dmaBuf (drive cyl head : Byte) (i : Nat) :
    (s.afterRounds dev drive cyl head i).dmaBuf = s.dmaBuf := by
  induction i with
  | zero => rfl
  | succ i ih => rw [afterRounds_succ, FdcState.afterRound, advance_dmaBuf, ih]

theorem fdcSeekRound_run (h : dev.AnswersRound s 0) :
    (fdcSeekRound dev drive cyl head).run s =
      .ok (dev.cylinder s 0) (s.afterRound dev drive cyl head) := by
  obtain ⟨hirq, hcheck⟩ := h
  rw [fdcSeekRound, run_bind_of_ok (fdcIssue_run _), length_seek,
    run_bind_of_ok (fdcWaitIrq_run (s := s.advance dev 3 0 0 _) hirq), advance_advance,
    run_bind_of_ok (fdcCheckInt_run (s := s.advance dev 3 0 1 _) hcheck), advance_advance,
    List.append_assoc]
  rfl

theorem fdcSeekRound_run_error (drive cyl head : Byte) (h : ¬ dev.AnswersRound s 0) :
    ∃ e t, (fdcSeekRound dev drive cyl head).run s = .error e t := by
  rw [fdcSeekRound, run_bind_of_ok (fdcIssue_run _), length_seek]
  by_cases hirq : dev.irq s.waits = true
  · rw [run_bind_of_ok (fdcWaitIrq_run (s := s.advance dev 3 0 0 _) hirq), advance_advance]
    obtain ⟨t, ht⟩ := fdcCheckInt_run_error
      (s := s.advance dev 3 0 1 (dev.sendEvents s.polls (FdcCommand.seek drive cyl head).bytes ++
        [.irq])) fun hcheck => h ⟨hirq, hcheck⟩
    exact ⟨_, _, run_bind_of_error ht⟩
  · exact ⟨_, _, run_bind_of_error (fdcWaitIrq_run_error (s := s.advance dev 3 0 0 _) hirq)⟩

theorem answersRound_afterRounds (drive cyl head : Byte) (i : Nat) :
    dev.AnswersRound (s.afterRounds dev drive cyl head i) 0 ↔ dev.AnswersRound s i := by
  rw [FdcDevice.AnswersRound, FdcDevice.AnswersRound, afterRounds_waits, afterRounds_polls,
    loopAt_loopAt, Nat.add_zero, Nat.mul_zero, Nat.zero_add]

theorem cylinder_afterRounds (i : Nat) :
    dev.cylinder (s.afterRounds dev drive cyl head i) 0 = dev.cylinder s i := by
  rw [FdcDevice.cylinder, FdcDevice.cylinder, afterRounds_reads, Nat.mul_zero, Nat.add_zero]

/-- Rounds that are answered with another cylinder only use up retries. -/
theorem fdcSeekLoop_skip {i : Nat} (n : Nat) (hans : ∀ j < i, dev.AnswersRound s j)
    (hmiss : ∀ j < i, dev.cylinder s j ≠ cyl) :
    (fdcSeekLoop dev drive cyl head (i + n)).run s =
      (fdcSeekLoop dev drive cyl head n).run (s.afterRounds dev drive cyl head i) := by
  induction i generalizing n with
  | zero =>
      rw [Nat.zero_add]
      rfl
  | succ i ih =>
      have hround :=
        (answersRound_afterRounds drive cyl head i).mpr (hans i (Nat.lt_succ_self i))
      have hne := hmiss i (Nat.lt_succ_self i)
      rw [Nat.add_right_comm, Nat.add_assoc,
        ih (n + 1) (fun j hj => hans j (by omega)) (fun j hj => hmiss j (by omega)),
        fdcSeekLoop, run_bind_of_ok (fdcSeekRound_run hround), cylinder_afterRounds, if_neg hne,
        afterRounds_succ]

/-- The first `i` rounds are answered, none of them with the wanted cylinder. -/
structure FdcDevice.Misses (dev : FdcDevice) (s : FdcState) (cyl : Byte) (i : Nat) : Prop where
  answered : ∀ j < i, dev.AnswersRound s j
  missed : ∀ j < i, dev.cylinder s j ≠ cyl

theorem fdcSeekLoop_found {i n : Nat} (hi : i < n) (hmiss : dev.Misses s cyl i)
    (hans : dev.AnswersRound s i) (hhit : dev.cylinder s i = cyl) :
    (fdcSeekLoop dev drive cyl head n).run s =
      .ok true (s.afterRounds dev drive cyl head (i + 1)) := by
  have hround := (answersRound_afterRounds drive cyl head i).mpr hans
  obtain ⟨k, rfl⟩ : ∃ k, n = i + (k + 1) := ⟨n - i - 1, by omega⟩
  rw [fdcSeekLoop_skip _ hmiss.answered hmiss.missed, fdcSeekLoop,
    run_bind_of_ok (fdcSeekRound_run hround), cylinder_afterRounds, if_pos hhit, afterRounds_succ]
  rfl

theorem fdcSeekLoop_missed (drive head : Byte) {n : Nat} (hmiss : dev.Misses s cyl n) :
    (fdcSeekLoop dev drive cyl head n).run s =
      .ok false (s.afterRounds dev drive cyl head n) :=
  fdcSeekLoop_skip 0 hmiss.answered hmiss.missed

theorem fdcSeekLoop_stopped (drive head : Byte) {i n : Nat} (hi : i < n)
    (hmiss : dev.Misses s cyl i) (hans : ¬ dev.AnswersRound s i) :
    ∃ e t, (fdcSeekLoop dev drive cyl head n).run s = .error e t := by
  obtain ⟨k, rfl⟩ : ∃ k, n = i + (k + 1) := ⟨n - i - 1, by omega⟩
  rw [fdcSeekLoop_skip _ hmiss.answered hmiss.missed, fdcSeekLoop]
  obtain ⟨e, t, ht⟩ := fdcSeekRound_run_error drive cyl head
    ((answersRound_afterRounds drive cyl head i).not.mpr hans)
  exact ⟨e, t, run_bind_of_error ht⟩

/-- The rounds end in one of three ways. -/
theorem misses_cases (dev : FdcDevice) (s : FdcState) (cyl : Byte) (n : Nat) :
    dev.Misses s cyl n ∨
      (∃ i < n, dev.Misses s cyl i ∧ dev.AnswersRound s i ∧ dev.cylinder s i = cyl) ∨
      ∃ i < n, dev.Misses s cyl i ∧ ¬ dev.AnswersRound s i := by
  induction n with
  | zero => exact Or.inl ⟨fun j hj => absurd hj j.not_lt_zero, fun j hj => absurd hj j.not_lt_zero⟩
  | succ n ih =>
      cases ih with
      | inl hmiss =>
          by_cases hans : dev.AnswersRound s n
          · by_cases hhit : dev.cylinder s n = cyl
            · exact Or.inr (Or.inl ⟨n, Nat.lt_succ_self n, hmiss, hans, hhit⟩)
            · exact Or.inl ⟨Nat.forall_lt_succ_right.mpr ⟨hmiss.answered, hans⟩,
                Nat.forall_lt_succ_right.mpr ⟨hmiss.missed, hhit⟩⟩
          · exact Or.inr (Or.inr ⟨n, Nat.lt_succ_self n, hmiss, hans⟩)
      | inr hdone =>
          cases hdone with
          | inl hfound =>
              obtain ⟨i, hi, h⟩ := hfound
              exact Or.inr (Or.inl ⟨i, by omega, h⟩)
          | inr hstop =>
              obtain ⟨i, hi, h⟩ := hstop
              exact Or.inr (Or.inr ⟨i, by omega, h⟩)

theorem fdcSeekLoop_false {n : Nat}
    (h : (fdcSeekLoop dev drive cyl head n).run s = .ok false t) : dev.Misses s cyl n := by
  cases misses_cases dev s cyl n with
  | inl hmiss => exact hmiss
  | inr hdone =>
      cases hdone with
      | inl hfound =>
          obtain ⟨i, hi, hmiss, hans, hhit⟩ := hfound
          rw [fdcSeekLoop_found hi hmiss hans hhit] at h
          injection h with h
          cases h
      | inr hstop =>
          obtain ⟨i, hi, hmiss, hans⟩ := hstop
          obtain ⟨e, t', ht'⟩ := fdcSeekLoop_stopped drive head hi hmiss hans
          rw [ht'] at h
          cases h

/-! ### The read -/

/-- The port writes of `_fdc_read_sector_imp` before its command. -/
def fdcDmaEvents (buf : BitVec 32) : List FdcEvent :=
  (fdcDmaInit buf fdcDmaBufSize ++ dmaSetRead fdcDmaChannel).map fun w => .outb w.1 w.2

/-- The interrupt of the read comes, and both bytes of the check after it. -/
def FdcDevice.AnswersRead (dev : FdcDevice) (s : FdcState) : Prop :=
  dev.irq s.waits = true ∧ dev.Answers (dev.loopAt s.polls 16)

/-- The bytes the seven reads of the result take. -/
def FdcDevice.results (dev : FdcDevice) (s : FdcState) : Nat :=
  dev.takenIn (dev.loopAt s.polls 9) 7

/-- The state after the seven reads of the result. -/
def FdcState.afterResults (dev : FdcDevice) (drive head track sector : Byte) (s : FdcState) :
    FdcState :=
  s.advance dev 16 (dev.results s) 1
    (fdcDmaEvents s.dmaBuf ++
      dev.sendEvents s.polls (FdcCommand.readSect drive head track sector).bytes ++ [.irq] ++
      dev.readEvents (dev.loopAt s.polls 9) s.reads 7)

def FdcState.afterRead (dev : FdcDevice) (drive head track sector : Byte) (s : FdcState) :
    FdcState :=
  (s.afterResults dev drive head track sector).advance dev 3 2 0
    [dev.sendEvent (dev.loopAt s.polls 16) fdcCmdCheckInt,
      .data (dev.dr (s.reads + dev.results s)), .data (dev.dr (s.reads + dev.results s + 1))]

/-- The state in which the command of the read has been issued. -/
theorem fdcReadSectorImp_issued :
    (fdcReadSectorImp dev drive head track sector).run s =
      (do
        fdcWaitIrq dev
        (List.range 7).forM fun _ => do
          let _ ← fdcReadData dev
        let _ ← fdcCheckInt dev : FdcM Unit).run
        (s.advance dev 9 0 0 (fdcDmaEvents s.dmaBuf ++
          dev.sendEvents s.polls (FdcCommand.readSect drive head track sector).bytes)) := by
  rw [fdcReadSectorImp, run_bind_of_ok (EStateM.run_get _), run_bind_of_ok (outbs_run dev _),
    run_bind_of_ok (outbs_run dev _), advance_advance, ← List.map_append,
    run_bind_of_ok (fdcIssue_run _), advance_advance]
  rfl

theorem fdcReadSectorImp_results (hirq : dev.irq s.waits = true) :
    (fdcReadSectorImp dev drive head track sector).run s =
      (do let _ ← fdcCheckInt dev : FdcM Unit).run
        (s.afterResults dev drive head track sector) := by
  rw [fdcReadSectorImp_issued, run_bind_of_ok (fdcWaitIrq_run (s := s.advance dev 9 0 0 _) hirq),
    advance_advance, run_bind_of_ok (readResults_run _), List.length_range, advance_advance]
  simp only [advance_polls, advance_reads, Nat.zero_add, Nat.add_zero, FdcState.afterResults,
    FdcDevice.results]

theorem fdcReadSectorImp_run (h : dev.AnswersRead s) :
    (fdcReadSectorImp dev drive head track sector).run s =
      .ok () (s.afterRead dev drive head track sector) := by
  rw [fdcReadSectorImp_results h.1,
    run_bind_of_ok (fdcCheckInt_run (s := s.afterResults dev drive head track sector) h.2)]
  rfl

theorem fdcReadSectorImp_run_error (drive head track sector : Byte) (h : ¬ dev.AnswersRead s) :
    ∃ e t, (fdcReadSectorImp dev drive head track sector).run s = .error e t := by
  by_cases hirq : dev.irq s.waits = true
  · rw [fdcReadSectorImp_results hirq]
    obtain ⟨t, ht⟩ := fdcCheckInt_run_error
      (s := s.afterResults dev drive head track sector) fun hcheck => h ⟨hirq, hcheck⟩
    exact ⟨_, _, run_bind_of_error ht⟩
  · rw [fdcReadSectorImp_issued]
    exact ⟨_, _, run_bind_of_error (fdcWaitIrq_run_error (s := s.advance dev 9 0 0 _) hirq)⟩

/-! ### A whole call -/

/-- The value `_fdc_control_motor` writes to turn the motor of `drive` on. -/
def fdcMotorOn (drive : Byte) : Byte :=
  drive ||| (fdcMotorMask drive).getD 0#8 ||| fdcMaskDorReset ||| fdcMaskDorDma

def FdcState.motorOn (dev : FdcDevice) (drive : Byte) (s : FdcState) : FdcState :=
  s.advance dev 0 0 0 [.outb fdcIoDor (fdcMotorOn drive)]

def FdcState.motorOff (dev : FdcDevice) (s : FdcState) : FdcState :=
  s.advance dev 0 0 0 [.outb fdcIoDor fdcMaskDorReset]

theorem fdcControlMotor_on (dev : FdcDevice) (hdrive : drive < 4#8) :
    (fdcControlMotor drive true).run s = .ok () (s.motorOn dev drive) := by
  have hmask : ∃ motor, fdcMotorMask drive = some motor := by
    revert drive
    decide
  obtain ⟨motor, hmotor⟩ := hmask
  rw [fdcControlMotor, if_pos rfl, FdcState.motorOn, fdcMotorOn]
  simp only [hmotor, Option.getD_some]
  rfl

theorem fdcControlMotor_off (dev : FdcDevice) (drive : Byte) :
    (fdcControlMotor drive false).run s = .ok () (s.motorOff dev) := rfl

/-- The bytes `fdc_read_sector` passes on. -/
def fdcHead (sectorLBA : BitVec 32) : Byte := BitVec.ofInt 8 (fdcLbaToChs sectorLBA.toInt).1

def fdcTrack (sectorLBA : BitVec 32) : Byte := BitVec.ofInt 8 (fdcLbaToChs sectorLBA.toInt).2.1

def fdcSector (sectorLBA : BitVec 32) : Byte := BitVec.ofInt 8 (fdcLbaToChs sectorLBA.toInt).2.2

/-- The state after the motor is on and `n` rounds of the seek are done. -/
def FdcState.sought (dev : FdcDevice) (drive : Byte) (sectorLBA : BitVec 32) (s : FdcState)
    (n : Nat) : FdcState :=
  (s.motorOn dev drive).afterRounds dev drive (fdcTrack sectorLBA) (fdcHead sectorLBA) n

variable {sectorLBA : BitVec 32}

theorem fdcReadSector_motorOn (hdrive : drive < 4#8) :
    (fdcReadSector dev drive sectorLBA).run s =
      (do
        let found ← fdcSeekLoop dev drive (fdcTrack sectorLBA) (fdcHead sectorLBA) 10
        if found then
          fdcReadSectorImp dev drive (fdcHead sectorLBA) (fdcTrack sectorLBA) (fdcSector sectorLBA)
          fdcControlMotor drive false
          let s ← get
          return s.dmaBuf
        else return 0#32 : FdcM (BitVec 32)).run (s.motorOn dev drive) := by
  have hvalid : ¬ 4#8 ≤ drive := BitVec.not_le.mpr hdrive
  rw [fdcReadSector, if_neg hvalid]
  change (fdcControlMotor drive true >>= _).run s = _
  rw [run_bind_of_ok (fdcControlMotor_on dev hdrive), fdcSeek, if_neg hvalid]
  rfl

theorem fdcReadSector_invalid (hdrive : ¬ drive < 4#8) :
    (fdcReadSector dev drive sectorLBA).run s = .ok 0#32 s := by
  rw [fdcReadSector, if_pos (BitVec.not_lt.mp hdrive)]
  rfl

/-- Turning the motor on takes no reading. -/
theorem fdcSeekLoop_sought {i : Nat} (hi : i < 10)
    (hmiss : dev.Misses s (fdcTrack sectorLBA) i) (hans : dev.AnswersRound s i)
    (hhit : dev.cylinder s i = fdcTrack sectorLBA) :
    (fdcSeekLoop dev drive (fdcTrack sectorLBA) (fdcHead sectorLBA) 10).run
        (s.motorOn dev drive) = .ok true (s.sought dev drive sectorLBA (i + 1)) :=
  fdcSeekLoop_found (s := s.motorOn dev drive) hi ⟨hmiss.answered, hmiss.missed⟩ hans hhit

theorem fdcReadSector_found (hdrive : drive < 4#8) {i : Nat} (hi : i < 10)
    (hmiss : dev.Misses s (fdcTrack sectorLBA) i) (hans : dev.AnswersRound s i)
    (hhit : dev.cylinder s i = fdcTrack sectorLBA)
    (hread : dev.AnswersRead (s.sought dev drive sectorLBA (i + 1))) :
    (fdcReadSector dev drive sectorLBA).run s = .ok s.dmaBuf
      (((s.sought dev drive sectorLBA (i + 1)).afterRead dev drive (fdcHead sectorLBA)
        (fdcTrack sectorLBA) (fdcSector sectorLBA)).motorOff dev) := by
  rw [fdcReadSector_motorOn hdrive, run_bind_of_ok (fdcSeekLoop_sought hi hmiss hans hhit),
    if_pos rfl, run_bind_of_ok (fdcReadSectorImp_run hread),
    run_bind_of_ok (fdcControlMotor_off dev _)]
  exact congrArg (fun b => EStateM.Result.ok b _)
    (afterRounds_dmaBuf (s := s.motorOn dev drive) drive _ _ (i + 1))

theorem fdcReadSector_missed (hdrive : drive < 4#8)
    (hmiss : dev.Misses s (fdcTrack sectorLBA) 10) :
    (fdcReadSector dev drive sectorLBA).run s =
      .ok 0#32 (s.sought dev drive sectorLBA 10) := by
  have hloop := fdcSeekLoop_missed (s := s.motorOn dev drive) drive (fdcHead sectorLBA)
    ⟨hmiss.answered, hmiss.missed⟩
  rw [fdcReadSector_motorOn hdrive, run_bind_of_ok hloop]
  rfl

/-- The two ways in which a call for a valid drive returns. -/
theorem fdcReadSector_ok (hdrive : drive < 4#8) {ptr : BitVec 32}
    (h : (fdcReadSector dev drive sectorLBA).run s = .ok ptr t) :
    (∃ i < 10, dev.Misses s (fdcTrack sectorLBA) i ∧ dev.AnswersRound s i ∧
      dev.cylinder s i = fdcTrack sectorLBA ∧
      dev.AnswersRead (s.sought dev drive sectorLBA (i + 1)) ∧ ptr = s.dmaBuf ∧
      t = ((s.sought dev drive sectorLBA (i + 1)).afterRead dev drive (fdcHead sectorLBA)
        (fdcTrack sectorLBA) (fdcSector sectorLBA)).motorOff dev) ∨
    (dev.Misses s (fdcTrack sectorLBA) 10 ∧ ptr = 0#32 ∧
      t = s.sought dev drive sectorLBA 10) := by
  cases misses_cases dev s (fdcTrack sectorLBA) 10 with
  | inl hmiss =>
      rw [fdcReadSector_missed hdrive hmiss] at h
      injection h with hptr ht
      exact Or.inr ⟨hmiss, hptr.symm, ht.symm⟩
  | inr hdone =>
      cases hdone with
      | inl hfound =>
          obtain ⟨i, hi, hmiss, hans, hhit⟩ := hfound
          by_cases hread : dev.AnswersRead (s.sought dev drive sectorLBA (i + 1))
          · rw [fdcReadSector_found hdrive hi hmiss hans hhit hread] at h
            injection h with hptr ht
            exact Or.inl ⟨i, hi, hmiss, hans, hhit, hread, hptr.symm, ht.symm⟩
          · obtain ⟨e, t', ht'⟩ := fdcReadSectorImp_run_error drive (fdcHead sectorLBA)
              (fdcTrack sectorLBA) (fdcSector sectorLBA) hread
            rw [fdcReadSector_motorOn hdrive,
              run_bind_of_ok (fdcSeekLoop_sought hi hmiss hans hhit), if_pos rfl,
              run_bind_of_error ht'] at h
            cases h
      | inr hstop =>
          obtain ⟨i, hi, hmiss, hans⟩ := hstop
          obtain ⟨e, t', ht'⟩ := fdcSeekLoop_stopped (s := s.motorOn dev drive) drive
            (fdcHead sectorLBA) hi ⟨hmiss.answered, hmiss.missed⟩ hans
          rw [fdcReadSector_motorOn hdrive, run_bind_of_error ht'] at h
          cases h

/-! ### A device that is always ready -/

def readyDevice (dr : Nat → Byte) : FdcDevice :=
  { msr := fun _ => 0x80#8
    dr
    irq := fun _ => true
    cmos := fun _ => 0#8 }

theorem readyDevice_accepts (dr : Nat → Byte) (p : Nat) : (readyDevice dr).accepts p = true := by
  have hready : (readyDevice dr).ready p = true := by
    change (0x80#8 &&& fdcMaskMsrDatareg != 0#8) = true
    decide
  exact pollReady_of_ready hready (by decide)

theorem readyDevice_answersRound (dr : Nat → Byte) (s : FdcState) (i : Nat) :
    (readyDevice dr).AnswersRound s i :=
  ⟨rfl, readyDevice_accepts dr _, readyDevice_accepts dr _⟩

end

end Bros
