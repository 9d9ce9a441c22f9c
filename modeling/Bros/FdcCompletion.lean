import Bros.FdcRuns

/-!
What a returned buffer says about the read.

`fdc_read_sector` returns the buffer whenever its seek has found the cylinder and the last
check is answered. Lost command bytes, missing result bytes and the status they carry are
not looked at.
-/

namespace Bros
open ByteMemory Polling Programs

/-- The log ends with the nine bytes of the read on the data register, its interrupt, seven
bytes of result with normal termination in the first, the check and the motor. -/
def ReadCompleted (drive : Byte) (sectorLBA : BitVec 32) (t : FdcState) : Prop :=
  ∃ (before check : List FdcEvent) (results : List Byte),
    t.log = before ++ (FdcCommand.readSect drive (fdcHead sectorLBA) (fdcTrack sectorLBA)
        (fdcSector sectorLBA)).bytes.map (.outb fdcIoDr) ++ [.irq] ++ results.map .data ++
      check ++ [.outb fdcIoDor fdcMaskDorReset] ∧
    check.length = 3 ∧ results.length = 7 ∧ ∃ st0 ∈ results.head?, st0 &&& 0xC0#8 = 0#8

/-- A call that returns a buffer has completed its read. -/
def BufferMeansCompleted (dev : FdcDevice) (s : FdcState) (drive : Byte)
    (sectorLBA : BitVec 32) : Prop :=
  ∀ ptr t, (fdcReadSector dev drive sectorLBA).run s = .ok ptr t → ptr ≠ 0#32 →
    ReadCompleted drive sectorLBA t

/-- Round `i` is the first to find the track, and the interrupt of the read behind it and
both bytes of the last check come. -/
structure FdcDevice.Reaches (dev : FdcDevice) (s : FdcState) (track : Byte) (i : Nat) : Prop where
  misses : dev.Misses s track i
  round : dev.AnswersRound s i
  hit : dev.cylinder s i = track
  irq : dev.irq (s.waits + (i + 1)) = true
  check : dev.Answers (dev.loopAt s.polls (6 * (i + 1) + 16))

/-- For the read behind round `i` the data register becomes ready in time for nine bytes of
command and seven of result, the first of which says normal termination. -/
structure FdcDevice.ReadsCleanly (dev : FdcDevice) (s : FdcState) (i : Nat) : Prop where
  ready : ∀ k < 16, dev.accepts (dev.loopAt s.polls (6 * (i + 1) + k)) = true
  normal : dev.dr (s.reads + 2 * (i + 1)) &&& 0xC0#8 = 0#8

section
variable {dev : FdcDevice} {s t : FdcState} {drive : Byte} {sectorLBA : BitVec 32}

/-! ### Complete exchanges -/

theorem sendEvent_eq_outb_iff {p : Nat} {cmd : Byte} :
    dev.sendEvent p cmd = .outb fdcIoDr cmd ↔ dev.accepts p = true := by
  rw [FdcDevice.sendEvent]
  split
  · next haccepts => exact iff_of_true rfl haccepts
  · next hbusy => exact iff_of_false FdcEvent.noConfusion hbusy

/-- Every byte of a command arrives exactly when every loop ends in time. -/
theorem sendEvents_eq_map_iff {p : Nat} {cmds : List Byte} :
    dev.sendEvents p cmds = cmds.map (.outb fdcIoDr) ↔
      ∀ k < cmds.length, dev.accepts (dev.loopAt p k) = true := by
  induction cmds generalizing p with
  | nil => exact iff_of_true rfl fun k hk => absurd hk k.not_lt_zero
  | cons cmd cmds ih =>
      rw [FdcDevice.sendEvents, List.map_cons, List.cons.injEq, sendEvent_eq_outb_iff, ih,
        List.length_cons, forall_lt_succ_loopAt_iff]

theorem readEvent_eq_data_iff {p r : Nat} {b : Byte} :
    dev.readEvent p r = .data b ↔ dev.accepts p = true ∧ b = dev.dr r := by
  rw [FdcDevice.readEvent]
  split
  · next haccepts =>
      rw [FdcEvent.data.injEq, eq_comm]
      exact (and_iff_right haccepts).symm
  · next hbusy => exact iff_of_false FdcEvent.noConfusion fun h => hbusy h.1

/-- All `n` bytes are read exactly when every loop ends in time, and they are then the next
`n` bytes of the register. -/
theorem readEvents_eq_map_iff {p r n : Nat} {results : List Byte} :
    dev.readEvents p r n = results.map .data ↔
      (∀ k < n, dev.accepts (dev.loopAt p k) = true) ∧
        results = (List.range' r n).map dev.dr := by
  induction n generalizing p r results with
  | zero =>
      constructor
      · intro h
        exact ⟨fun k hk => absurd hk k.not_lt_zero, List.map_eq_nil_iff.mp h.symm⟩
      · intro h
        rw [h.2]
        rfl
  | succ n ih =>
      rw [forall_lt_succ_loopAt_iff]
      cases results with
      | nil => simp [FdcDevice.readEvents, List.range'_succ]
      | cons b results =>
          rw [FdcDevice.readEvents, List.map_cons, List.cons.injEq, readEvent_eq_data_iff, ih,
            List.range'_succ, List.map_cons, List.cons.injEq]
          constructor
          · intro h
            obtain ⟨⟨haccepts, hb⟩, hrest, hresults⟩ := h
            rw [FdcDevice.taken, if_pos haccepts] at hresults
            exact ⟨⟨haccepts, hrest⟩, hb, hresults⟩
          · intro h
            obtain ⟨⟨haccepts, hrest⟩, hb, hresults⟩ := h
            rw [FdcDevice.taken, if_pos haccepts]
            exact ⟨⟨haccepts, hb⟩, hrest, hresults⟩

/-! ### The call -/

theorem sought_polls (i : Nat) :
    (s.sought dev drive sectorLBA i).polls = dev.loopAt s.polls (6 * i) := afterRounds_polls i

theorem sought_reads (i : Nat) :
    (s.sought dev drive sectorLBA i).reads = s.reads + 2 * i := afterRounds_reads i

theorem sought_waits (i : Nat) :
    (s.sought dev drive sectorLBA i).waits = s.waits + i := afterRounds_waits i

/-- The log of a call that reads, from the state its seek has left. -/
theorem afterRead_log (head track sector : Byte) :
    ((s.afterRead dev drive head track sector).motorOff dev).log =
      s.log ++ fdcDmaEvents s.dmaBuf ++
        dev.sendEvents s.polls (FdcCommand.readSect drive head track sector).bytes ++ [.irq] ++
        dev.readEvents (dev.loopAt s.polls 9) s.reads 7 ++
        [dev.sendEvent (dev.loopAt s.polls 16) fdcCmdCheckInt,
          .data (dev.dr (s.reads + dev.results s)),
          .data (dev.dr (s.reads + dev.results s + 1))] ++
        [.outb fdcIoDor fdcMaskDorReset] := by
  simp only [FdcState.motorOff, FdcState.afterRead, FdcState.afterResults, advance_log,
    List.append_assoc]

/-- The sixteen loops of the read are nine for the command and seven for the result. -/
theorem ready_read_iff {p : Nat} :
    (∀ k < 16, dev.accepts (dev.loopAt p k) = true) ↔
      (∀ k < 9, dev.accepts (dev.loopAt p k) = true) ∧
        ∀ k < 7, dev.accepts (dev.loopAt (dev.loopAt p 9) k) = true := by
  constructor
  · intro h
    refine ⟨fun k hk => h k (by omega), fun k hk => ?_⟩
    rw [loopAt_loopAt]
    exact h (9 + k) (by omega)
  · intro h k hk
    by_cases hcmd : k < 9
    · exact h.1 k hcmd
    · have := h.2 (k - 9) (by omega)
      rwa [loopAt_loopAt, show 9 + (k - 9) = k by omega] at this

theorem readCompleted_iff :
    ReadCompleted drive sectorLBA ((s.afterRead dev drive (fdcHead sectorLBA)
        (fdcTrack sectorLBA) (fdcSector sectorLBA)).motorOff dev) ↔
      (∀ k < 16, dev.accepts (dev.loopAt s.polls k) = true) ∧
        dev.dr s.reads &&& 0xC0#8 = 0#8 := by
  rw [ReadCompleted, afterRead_log, ready_read_iff]
  constructor
  · intro h
    obtain ⟨before, check, results, hlog, hcheck, hlen, st0, hst0, hbits⟩ := h
    -- every part of the log has a length of its own
    obtain ⟨hlog, -⟩ := List.append_inj' hlog rfl
    obtain ⟨hlog, -⟩ := List.append_inj' hlog hcheck.symm
    obtain ⟨hlog, hresults⟩ := List.append_inj' hlog
      (by rw [length_readEvents, List.length_map, hlen])
    obtain ⟨hlog, -⟩ := List.append_inj' hlog rfl
    obtain ⟨-, hcmd⟩ := List.append_inj' hlog (by rw [length_sendEvents, List.length_map])
    obtain ⟨hread, hresults⟩ := readEvents_eq_map_iff.mp hresults
    rw [hresults] at hst0
    injection hst0 with hst0
    exact ⟨⟨sendEvents_eq_map_iff.mp hcmd, hread⟩, by rw [hst0, hbits]⟩
  · intro h
    obtain ⟨⟨hsent, hread⟩, hbits⟩ := h
    have hcmd : dev.sendEvents s.polls (FdcCommand.readSect drive (fdcHead sectorLBA)
        (fdcTrack sectorLBA) (fdcSector sectorLBA)).bytes = _ := sendEvents_eq_map_iff.mpr hsent
    rw [hcmd, readEvents_eq_map_iff.mpr ⟨hread, rfl⟩]
    exact ⟨_, _, (List.range' s.reads 7).map dev.dr, rfl, rfl, rfl, dev.dr s.reads, rfl, hbits⟩

theorem readsCleanly_iff (i : Nat) :
    ReadCompleted drive sectorLBA
        (((s.sought dev drive sectorLBA (i + 1)).afterRead dev drive (fdcHead sectorLBA)
          (fdcTrack sectorLBA) (fdcSector sectorLBA)).motorOff dev) ↔
      dev.ReadsCleanly s i := by
  rw [readCompleted_iff, sought_polls, sought_reads]
  simp only [loopAt_loopAt]
  exact ⟨fun h => ⟨h.1, h.2⟩, fun h => ⟨h.ready, h.normal⟩⟩

theorem answersRead_sought_iff (drive : Byte) (sectorLBA : BitVec 32) (i : Nat) :
    dev.AnswersRead (s.sought dev drive sectorLBA i) ↔
      dev.irq (s.waits + i) = true ∧ dev.Answers (dev.loopAt s.polls (6 * i + 16)) := by
  rw [FdcDevice.AnswersRead, sought_waits, sought_polls, loopAt_loopAt]

/-- One read that the driver gets through and that is not clean. -/
theorem not_bufferMeansCompleted (hdrive : drive < 4#8) (hbuf : s.dmaBuf ≠ 0#32) {i : Nat}
    (hi : i < 10) (hreach : dev.Reaches s (fdcTrack sectorLBA) i)
    (hclean : ¬ dev.ReadsCleanly s i) : ¬ BufferMeansCompleted dev s drive sectorLBA := by
  intro h
  have hread :=
    (answersRead_sought_iff drive sectorLBA _).mpr ⟨hreach.irq, hreach.check⟩
  have hrun := fdcReadSector_found hdrive hi hreach.misses hreach.round hreach.hit hread
  exact hclean ((readsCleanly_iff i).mp (h _ _ hrun hbuf))

/-- A buffer means a completed read exactly when every read that the driver gets through is
clean, apart from calls that have no buffer to return. -/
theorem fdcReadSector_completed_iff (dev : FdcDevice) (s : FdcState) (drive : Byte)
    (sectorLBA : BitVec 32) :
    BufferMeansCompleted dev s drive sectorLBA ↔
      4#8 ≤ drive ∨ s.dmaBuf = 0#32 ∨
        ∀ i < 10, dev.Reaches s (fdcTrack sectorLBA) i → dev.ReadsCleanly s i := by
  by_cases hdrive : drive < 4#8
  · rw [or_iff_right (BitVec.not_le.mpr hdrive)]
    by_cases hbuf : s.dmaBuf = 0#32
    · refine iff_of_true ?_ (Or.inl hbuf)
      intro ptr t hrun hptr
      cases fdcReadSector_ok hdrive hrun with
      | inl hfound =>
          obtain ⟨i, -, -, -, -, -, hptr', -⟩ := hfound
          exact absurd (hptr'.trans hbuf) hptr
      | inr hmissed => exact absurd hmissed.2.1 hptr
    · rw [or_iff_right hbuf]
      constructor
      · intro h i hi hreach
        exact of_not_not fun hclean => not_bufferMeansCompleted hdrive hbuf hi hreach hclean h
      · intro h ptr t hrun hptr
        cases fdcReadSector_ok hdrive hrun with
        | inl hfound =>
            obtain ⟨i, hi, hmiss, hans, hhit, hread, -, ht⟩ := hfound
            obtain ⟨hirq, hcheck⟩ := (answersRead_sought_iff _ _ _).mp hread
            rw [ht, readsCleanly_iff]
            exact h i hi ⟨hmiss, hans, hhit, hirq, hcheck⟩
        | inr hmissed => exact absurd hmissed.2.1 hptr
  · refine iff_of_true ?_ (Or.inl (BitVec.not_lt.mp hdrive))
    intro ptr t hrun hptr
    rw [fdcReadSector_invalid hdrive] at hrun
    injection hrun with hptr'
    exact absurd hptr'.symm hptr

end

/-- Cylinder 0 is found, and the status says abnormal termination. -/
theorem fdcReadSector_ignores_status :
    ¬ BufferMeansCompleted (readyDevice fun n => if n = 2 then 0x40#8 else 0#8) fdcStart 0#8
      0#32 := by
  have htrack : fdcTrack 0#32 = 0#8 := by decide
  refine not_bufferMeansCompleted (by decide) (by decide) (i := 0) (by decide) ?_ ?_
  · rw [htrack]
    exact ⟨⟨fun j hj => absurd hj j.not_lt_zero, fun j hj => absurd hj j.not_lt_zero⟩,
      readyDevice_answersRound _ _ _, rfl, rfl, readyDevice_accepts _ _, readyDevice_accepts _ _⟩
  · intro hclean
    have hnormal := hclean.normal
    revert hnormal
    decide

end Bros
