import Bros.FdcDisk
import Bros.PrintfRoom

/-!
What `fdc_init` makes of the controller.

A reset ends whatever the controller was doing, and `_fdc_calibrate` finds cylinder 0. But the
last byte of the `SPECIFY` is 1, which asks for transfers without DMA, so that a read after
`fdc_init` stores nothing.
-/

namespace Bros
open ByteMemory CStrings Programs Runs Coupling Dma8237 Fdc82077

/-- The controller after `_fdc_reset`. -/
def afterReset (w : System) (drive : Nat) : System :=
  { w.atCylinder drive 0#8 with
    dor := fdcMaskDorReset
    nonDma := true
    phase := .command []
    finished := [] }

/-! ### The reset -/

section
variable {media : Media} {dev : FdcDevice} {s : FdcState} {w : System} {drive : Byte}

theorem afterReset_idle (w : System) (drive : Nat) : (afterReset w drive).Idle :=
  ⟨(by decide : fdcMaskDorReset.getLsbD 2 = true), rfl, rfl, rfl⟩

/-- A port that is neither the floppy disk controller's nor the DMA controller's. -/
theorem otherPort_spec (media : Media) (s : FdcState) (w : System) (port : Port) (value : Byte)
    (hdor : port ≠ dorPort) (hdr : port ≠ drPort) (hdma : decodePort port = none) :
    OnController media s w (outb port value) fun _ t w' => t.dmaBuf = s.dmaBuf ∧ w' = w := by
  refine (outb_spec media s w port value).weaken fun _ t w' h => ⟨h.1, ?_⟩
  rw [h.2, System.outb, if_neg hdor, if_neg hdr, Controller.portWrite, hdma]

instance appends_inCmos : AppendsLog (fdcInCmos dev) :=
  appends_of_ok fun _ => ⟨_, _, [], rfl, (List.append_nil _).symm⟩

set_option synthInstance.maxSize 4000 in
instance appends_init : AppendsLog (fdcInit dev) := by
  unfold fdcInit
  infer_instance

variable (working : dev.Working)
include working

/-- The parameters of a `SPECIFY` matter only by the last bit. -/
theorem driveData_spec (media : Media) (s : FdcState) (hidle : w.Idle)
    (stepRate loadTime unloadTime : Byte) :
    OnController media s w (fdcDriveData dev stepRate loadTime unloadTime true) fun _ t w' =>
      t.dmaBuf = s.dmaBuf ∧ w' = { w with nonDma := true } := by
  refine (issue_spec working media s hidle.enabled hidle.phase
    (.specify stepRate loadTime unloadTime true)).weaken fun _ t w' h => ⟨h.1, ?_⟩
  have hbit : (specifySecond loadTime true).getLsbD 0 = true := by
    rw [specifySecond_eq, if_neg fun h => Bool.noConfusion h.2]
    decide
  have hexec : w.execute media (FdcCommand.specify stepRate loadTime unloadTime true).bytes =
      { w with nonDma := (specifySecond loadTime true).getLsbD 0, phase := .command [] } := rfl
  rw [h.2, hexec, hbit, ← hidle.phase]

/-- As many checks as there are drives to report. -/
theorem checkAll_spec (media : Media) (s : FdcState) (hen : w.enabled = true)
    (hphase : w.phase = .command []) (finished : List (Nat × Byte)) {l : List Nat}
    (hlen : finished.length = l.length) :
    OnController media s { w with finished := finished }
      (l.forM fun _ => do let _ ← fdcCheckInt dev)
      fun _ t w' => t.dmaBuf = s.dmaBuf ∧ w' = { w with finished := [] } := by
  let I : List Nat → FdcState → System → Prop := fun l t w' =>
    t.dmaBuf = s.dmaBuf ∧ ∃ rest : List (Nat × Byte), rest.length = l.length ∧
      w' = { w with finished := rest }
  refine (meets_forM (I := I) ?_ l
    ⟨rfl, finished, hlen, rfl⟩).weaken ?_
  · intro i l t w1 h
    obtain ⟨hbuf, rest, hrest, rfl⟩ := h
    obtain ⟨d, rest, rfl⟩ := List.exists_cons_of_length_eq_add_one hrest
    refine (checkInt_reports working media t (w := { w with finished := d :: rest }) hen hphase
      rfl).bind fun r u w2 h => ?_
    obtain ⟨hbuf2, -, rfl⟩ := h
    exact meets_pure ⟨hbuf2.trans hbuf, rest, Nat.succ.inj hrest, rfl⟩
  · intro _ t w' h
    obtain ⟨hbuf, rest, hrest, rfl⟩ := h
    rw [List.length_eq_zero_iff.mp hrest]
    exact ⟨hbuf, rfl⟩

/-- The controller out of reset, its interrupt waited for, before the drives are checked. -/
def outOfReset (w : System) : System :=
  { w with
    dor := fdcMaskDorReset ||| fdcMaskDorDma
    phase := .command []
    finished := (List.range 4).map resetStatus
    irq := false }

omit working in
theorem writeDor_reset (w : System) :
    ({ (w.writeDor 0#8).writeDor (fdcMaskDorReset ||| fdcMaskDorDma) with irq := false } :
      System) = outOfReset w := by
  have hoff : w.writeDor 0#8 = { w with dor := 0#8, phase := .command [], finished := [] } := rfl
  have hset : (fdcMaskDorReset ||| fdcMaskDorDma).getLsbD 2 = true := by decide
  have hreset : ({ w with dor := 0#8, phase := .command [], finished := [] } : System).enabled =
      false := (by decide : (0#8).getLsbD 2 = false)
  rw [hoff, writeDor_of_reset hset hreset]
  rfl

set_option synthInstance.maxSize 4000 in
/-- `_fdc_reset`, from any state of the controller. -/
theorem reset_spec (media : Media) (s : FdcState) (w : System) (hdrive : drive < 4#8) :
    OnController media s w (fdcReset dev drive) fun _ t w' =>
      t.dmaBuf = s.dmaBuf ∧ w' = afterReset w drive.toNat := by
  refine (outb_spec media s w fdcIoDor 0#8).bind fun _ t1 w1 h => ?_
  obtain ⟨hbuf1, rfl⟩ := h
  refine (outb_spec media t1 _ fdcIoDor (fdcMaskDorReset ||| fdcMaskDorDma)).bind
    fun _ t2 w2 h => ?_
  obtain ⟨hbuf2, rfl⟩ := h
  refine (waitIrq_spec working media t2 _).bind fun _ t3 w3 h => ?_
  obtain ⟨hbuf3, rfl⟩ := h
  rw [show fdcIoDor = dorPort from rfl, System.outb, if_pos rfl, System.outb, if_pos rfl,
    writeDor_reset]
  have hen : (fdcMaskDorReset ||| fdcMaskDorDma).getLsbD 2 = true := by decide
  let started : System := { outOfReset w with finished := [] }
  have hidle : started.Idle := ⟨hen, rfl, rfl, rfl⟩
  refine (checkAll_spec working media t3 (w := started) hen rfl ((List.range 4).map resetStatus)
    (l := List.range 4) (List.length_map _)).bind fun _ t4 w4 h => ?_
  obtain ⟨hbuf4, rfl⟩ := h
  refine (otherPort_spec media t4 started fdcIoCcr 0#8 (by decide) (by decide)
    rfl).bind fun _ t5 w5 h => ?_
  obtain ⟨hbuf5, rfl⟩ := h
  refine (driveData_spec working media t5 hidle 3#8 16#8 240#8).bind fun _ t6 w6 h => ?_
  obtain ⟨hbuf6, rfl⟩ := h
  have hidle6 : ({ started with nonDma := true } : System).Idle := ⟨hen, rfl, rfl, rfl⟩
  refine (calibrate_spec working media t6 hidle6 hdrive).bind fun found t7 w7 h => ?_
  obtain ⟨rfl, hbuf7, rfl⟩ := h
  exact meets_pure ⟨hbuf7.trans (hbuf6.trans (hbuf5.trans (hbuf4.trans (hbuf3.trans
    (hbuf2.trans hbuf1))))), rfl⟩

theorem resetIf_spec (media : Media) (s : FdcState) (w : System) {drive : Byte}
    (hdrive : drive < 4#8) (p : Prop) [Decidable p] :
    OnController media s w (if p then fdcReset dev drive else pure () : FdcM Unit)
      fun _ t w' => t.dmaBuf = s.dmaBuf ∧ w' = if p then afterReset w drive.toNat else w := by
  by_cases hp : p
  · rw [if_pos hp, if_pos hp]
    exact reset_spec working media s w hdrive
  · rw [if_neg hp, if_neg hp]
    exact meets_pure ⟨rfl, rfl⟩

/-- The controller after the resets of `fdc_init`. -/
def afterResets (c : Byte) (w : System) : System :=
  let w1 := if c >>> 4 ≠ 0#8 then afterReset w 0 else w
  if c &&& 0xF#8 ≠ 0#8 then afterReset w1 1 else w1

omit working in
theorem afterResets_idle {c : Byte} (h : w.Idle ∨ c ≠ 0#8) : (afterResets c w).Idle := by
  by_cases hsecond : c &&& 0xF#8 ≠ 0#8
  · rw [afterResets, if_pos hsecond]
    exact afterReset_idle _ _
  · rw [afterResets, if_neg hsecond]
    by_cases hfirst : c >>> 4 ≠ 0#8
    · rw [if_pos hfirst]
      exact afterReset_idle _ _
    · have hzero : ∀ c : Byte, c &&& 0xF#8 = 0#8 → c >>> 4 = 0#8 → c = 0#8 := by decide
      rw [if_neg hfirst]
      exact h.resolve_right fun hne => hne (hzero c (not_not.mp hsecond) (not_not.mp hfirst))

omit working in
theorem afterResets_mem (c : Byte) (w : System) : (afterResets c w).mem = w.mem := by
  unfold afterResets
  dsimp only
  split <;> split <;> rfl

omit working in
theorem inCmos_spec (media : Media) (s : FdcState) (w : System) :
    OnController media s w (fdcInCmos dev) fun c t w' =>
      c = dev.cmos s.cmosReads ∧ t.dmaBuf = s.dmaBuf ∧ w' = w :=
  meets_of_quiet (t := { s with cmosReads := s.cmosReads + 1 }) rfl rfl ⟨rfl, rfl, rfl⟩

omit working in
/-- Printing is no business of the controller's. -/
theorem print_spec (media : Media) (s : FdcState) (w : System) (driveA driveB : Option CString) :
    OnController media s w (fdcLog (.printf driveA driveB)) fun _ t w' =>
      t.dmaBuf = s.dmaBuf ∧ w' = w := by
  refine meets_of_ok rfl rfl fun w' hw' => ⟨rfl, ?_⟩
  injection hw' with hw'
  exact hw'.symm

set_option synthInstance.maxSize 4000 in
/-- `fdc_init`, from any state if a drive is there to reset. -/
theorem init_spec (media : Media) (s : FdcState) (h : w.Idle ∨ dev.cmos s.cmosReads ≠ 0#8) :
    OnController media s w (fdcInit dev) fun _ t w' =>
      t.dmaBuf = s.dmaBuf ∧
        w' = { afterResets (dev.cmos s.cmosReads) w with nonDma := true } := by
  have hselect : OnController media s w (outb 0x70#16 0x10#8) fun _ t w' =>
      (t.dmaBuf = s.dmaBuf ∧ t.cmosReads = s.cmosReads) ∧ w' = w := by
    refine meets_of_ok (outb_run dev _ _) rfl fun w' hw' => ⟨⟨rfl, rfl⟩, ?_⟩
    injection hw' with hw'
    exact hw'.symm
  refine hselect.bind fun _ t1 w1 h1 => ?_
  obtain ⟨⟨hbuf1, hreads⟩, rfl⟩ := h1
  refine (inCmos_spec media t1 w1).bind fun c t2 w2 h2 => ?_
  obtain ⟨rfl, hbuf2, rfl⟩ := h2
  rw [hreads]
  generalize hc : dev.cmos s.cmosReads = c at h ⊢
  refine (print_spec media t2 w2 _ _).bind fun _ t3 w3 h3 => ?_
  obtain ⟨hbuf3, rfl⟩ := h3
  refine (resetIf_spec working media t3 w3 (by decide : 0#8 < 4#8) (c >>> 4 ≠ 0#8)).bind
    fun _ t4 w4 h4 => ?_
  obtain ⟨hbuf4, rfl⟩ := h4
  refine (resetIf_spec working media t4 _ (by decide : 1#8 < 4#8)
    (c &&& 0xF#8 ≠ 0#8)).bind fun _ t5 w5 h5 => ?_
  obtain ⟨hbuf5, rfl⟩ := h5
  refine (driveData_spec working media t5 (w := afterResets c w3) (afterResets_idle h) 13#8 1#8
    15#8).weaken fun _ t6 w6 h6 => ?_
  exact ⟨h6.1.trans (hbuf5.trans (hbuf4.trans (hbuf3.trans (hbuf2.trans hbuf1)))), h6.2⟩

end

/-! ### A first drive alone -/

/-- What the controller of one drive shows to `fdc_init` and to a read of block 40. -/
def oneDrive : FdcDevice :=
  { readyDevice fun n =>
      [0xC0#8, 7#8, 0xC1#8, 7#8, 0xC2#8, 7#8, 0xC3#8, 7#8, 0x20#8, 0#8,
        0x20#8, 1#8, 0#8, 1#8, 2#8, 3#8, 4#8, 5#8, 6#8, 7#8, 8#8].getD n 0#8 with
    cmos := fun _ => 0x40#8 }

theorem oneDrive_working : oneDrive.Working := ⟨readyDevice_accepts fun _ => 0#8, fun _ => rfl⟩

def stuck : System :=
  { powerOn with cylinder := fun _ => 7#8, phase := .command [6#8], finished := [(2, 0#8)] }

/-! ### The line that is printed -/

def fdcInitFormat : CString := ⟨cBytes "Floppy A: %s --- Floppy B: %s\n", by decide⟩

/-- The arguments of the `CON_printf` call in `fdc_init`. -/
def fdcInitArgs (driveA driveB : CString) : VaList where
  words := fun k => [0#32, 1#32].getD k 0#32
  strings := fun p => if p = 0#32 then driveA else driveB

def fdcInitLine (driveA driveB : CString) : List Byte :=
  cBytes "Floppy A: " ++ driveA.bytes ++ cBytes " --- Floppy B: " ++ driveB.bytes ++ [charByte '\n']

theorem formatArgs_fdcInit (driveA driveB : CString) :
    formatArgs (fdcInitArgs driveA driveB) fdcInitFormat =
      literals (cBytes "Floppy A: ") 0#32 ++ (.string, 0#32) ::
        (literals (cBytes " --- Floppy B: ") 1#32 ++
          [(.string, 1#32), (.literal (charByte '\n'), 0#32)]) := by
  have hdirectives : directives fdcInitFormat.bytes =
      (cBytes "Floppy A: ").map .literal ++ .string ::
        ((cBytes " --- Floppy B: ").map .literal ++ [.string, .literal (charByte '\n')]) := by
    decide +kernel
  rw [formatArgs, hdirectives, withArgs_literals, withArgs, withArgs_literals]
  rfl

theorem formatText_fdcInit (driveA driveB : CString) :
    formatText (fdcInitArgs driveA driveB) fdcInitFormat = fdcInitLine driveA driveB := by
  have hA : (fdcInitArgs driveA driveB).strings 0#32 = driveA := rfl
  have hB : (fdcInitArgs driveA driveB).strings 1#32 = driveB := rfl
  rw [formatText, formatArgs_fdcInit, List.flatMap_append, List.flatMap_cons,
    List.flatMap_append, List.flatMap_cons, List.flatMap_singleton, literals_text, literals_text,
    Directive.text, Directive.text, Directive.text, hA, hB, fdcInitLine]
  simp only [List.append_assoc]

/-- The line with two names of the table fits in the buffer of `CON_printf`. -/
theorem fdcInit_line {i j : Byte} {driveA driveB : CString} (first : driveType i = some driveA)
    (second : driveType j = some driveB) (console : Console) (buf : Mem) :
    conPrintf (fdcInitArgs driveA driveB) console fdcInitFormat.memory buf =
      some (conPuts console (fdcInitLine driveA driveB ++ [0#8])) := by
  have hlength : ∀ name ∈ driveTypes, name.bytes.length ≤ 13 := by decide +kernel
  have hA := hlength driveA (List.mem_of_getElem? first)
  have hB := hlength driveB (List.mem_of_getElem? second)
  have hcomplete : Complete fdcInitFormat :=
    (by decide +kernel : formatRest fdcInitFormat.bytes = [])
  have hfixed : (cBytes "Floppy A: ").length + (cBytes " --- Floppy B: ").length = 25 := by
    decide +kernel
  have htext := formatText_fdcInit driveA driveB
  have hfits : (formatText (fdcInitArgs driveA driveB) fdcInitFormat).length <
      conPrintfBufSize := by
    rw [htext]
    simp only [fdcInitLine, List.length_append, List.length_singleton, conPrintfBufSize]
    omega
  have hnumbers : .signed ∉ directives fdcInitFormat.bytes := by decide +kernel
  have hprinted := conPrintf_complete (fdcInitArgs driveA driveB) hcomplete
    (formatArgs_defined _ hnumbers) hfits console buf
  rwa [htext] at hprinted

/-! ### After `fdc_init` -/

section
variable {media : Media} {dev : FdcDevice} {s : FdcState} {w w' : System} {drive : Byte}

/-- Nothing but results or data is expected, and the memory is as it was. -/
structure Delivers (m : Mem) (w : System) : Prop where
  mem : w.mem = m
  enabled : w.enabled = true
  command : ∀ bytes, w.phase = .command bytes → bytes = []

theorem enterTransfer_ne_command (data : List Byte) (results : List (Option Byte))
    (bytes : List Byte) : enterTransfer data results ≠ .command bytes := by
  rw [enterTransfer]
  split <;> exact Phase.noConfusion

theorem Delivers.readDr {m : Mem} {v : Byte} (h : Delivers m w) (hread : w.readDr v = some w') :
    Delivers m w' := by
  cases hphase : w.phase with
  | command bytes =>
      rw [readDr_command hphase] at hread
      exact hread ▸ h
  | transfer data results =>
      cases data with
      | nil =>
          simp only [System.readDr, hphase] at hread
          cases hread
      | cons b rest =>
          obtain ⟨-, rfl⟩ := (readDr_transfer hphase).mp hread
          exact ⟨h.mem, h.enabled, fun bytes hb => absurd hb (enterTransfer_ne_command _ _ _)⟩
  | result results =>
      cases results with
      | nil =>
          simp only [System.readDr, hphase] at hread
          cases hread
      | cons b rest =>
          obtain ⟨-, rfl⟩ := (readDr_result hphase).mp hread
          refine ⟨h.mem, h.enabled, fun bytes hb => ?_⟩
          dsimp only at hb
          split at hb
          · injection hb with hb
            exact hb.symm
          · cases hb

/-- `CHECK_INT` is ignored, or asks for results. -/
theorem Delivers.checkInt {m : Mem} (media : Media) (h : Delivers m w) :
    Delivers m (w.writeDr media fdcCmdCheckInt) := by
  cases hphase : w.phase with
  | command bytes =>
      have hbytes := h.command bytes hphase
      subst hbytes
      rw [writeDr_checkInt h.enabled hphase]
      cases hfinished : w.finished with
      | nil =>
          rw [sense_of_nil hfinished]
          exact ⟨h.mem, h.enabled, fun _ hb => Phase.noConfusion hb⟩
      | cons d rest =>
          rw [sense_of_cons hfinished]
          exact ⟨h.mem, h.enabled, fun _ hb => Phase.noConfusion hb⟩
  | transfer data results =>
      simp only [System.writeDr, hphase]
      exact h
  | result results =>
      simp only [System.writeDr, hphase]
      exact h

variable (working : dev.Working)
include working

theorem finishRead_delivers (media : Media) (s : FdcState) {m : Mem} (h : Delivers m w) :
    OnController media s w (fdcFinishRead dev) fun _ t w' =>
      t.dmaBuf = s.dmaBuf ∧ Delivers m w' := by
  let I : List Nat → FdcState → System → Prop := fun _ t w' =>
    t.dmaBuf = s.dmaBuf ∧ Delivers m w'
  have hresults : OnController media s w
      ((List.range 7).forM fun _ => do let _ ← fdcReadData dev) fun _ => I [] := by
    refine meets_forM (I := I) (fun _ l t w1 h1 => ?_) (List.range 7) ⟨rfl, h⟩
    refine (readData_spec working media t w1).bind fun _ u w2 h2 => ?_
    obtain ⟨hbuf, v, -, hread⟩ := h2
    exact meets_pure ⟨hbuf.trans h1.1, h1.2.readDr hread⟩
  refine hresults.bind fun _ t w1 h1 => ?_
  refine (checkInt_exchange working media t w1).bind fun r u w2 h2 => ?_
  obtain ⟨hbuf, w3, hfirst, hsecond⟩ := h2
  exact meets_pure ⟨hbuf.trans h1.1, ((h1.2.checkInt media).readDr hfirst).readDr hsecond⟩

/-- Without DMA a read of the driver stores nothing. -/
theorem readSectorImp_nonDma (media : Media) (s : FdcState) (hidle : w.Idle)
    (hdma : w.nonDma = true) (head track sector : Byte) :
    OnController media s w (fdcReadSectorImp dev drive head track sector) fun _ t w' =>
      t.dmaBuf = s.dmaBuf ∧ Delivers w.mem w' := by
  refine readSectorImp_then media s w fun t1 d hbuf1 _ => ?_
  let cmd := (FdcCommand.readSect drive head track sector).bytes
  have hop : opcode (arg cmd 0) = .read := (by decide : opcode 0xE6#8 = .read)
  have hexec : ({ w with dma := d } : System).execute media cmd =
      ({ w with dma := d } : System).read media cmd := by
    rw [System.execute, hop]
  refine (issue_spec working media t1 (w := { w with dma := d }) hidle.enabled hidle.phase
    (.readSect drive head track sector)).bind fun _ t2 w2 h => ?_
  obtain ⟨hbuf2, rfl⟩ := h
  rw [hexec, read_nonDma (w := { w with dma := d }) hdma]
  refine (waitIrq_spec working media t2 _).bind fun _ t3 w3 h => ?_
  obtain ⟨hbuf3, rfl⟩ := h
  refine (finishRead_delivers working media t3 (m := w.mem) ?_).weaken fun _ t4 w4 h =>
    ⟨h.1.trans (hbuf3.trans (hbuf2.trans hbuf1)), h.2⟩
  exact ⟨rfl, hidle.enabled, fun _ hb => absurd hb (enterTransfer_ne_command _ _ _)⟩

/-- The buffer is returned as it was. -/
theorem readSector_nonDma (media : Media) (s : FdcState) (hidle : w.Idle)
    (hdma : w.nonDma = true) (hdrive : drive < 4#8) (sectorLBA : BitVec 32) :
    OnController media s w (fdcReadSector dev drive sectorLBA) fun ptr _ w' =>
      ptr = s.dmaBuf ∧ w'.mem = w.mem := by
  refine (readSector_around working media s (P := Delivers w.mem) hidle hdrive
    (fun _ h => h.enabled) fun t _ => ?_).weaken fun ptr t w' h => ?_
  · exact readSectorImp_nonDma working media t (readyToRead_idle hidle hdrive _) hdma _ _ _
  · obtain ⟨hptr, -, w1, hdelivers, rfl⟩ := h
    exact ⟨hptr, hdelivers.mem⟩

variable (hinit : w.Idle ∨ dev.cmos s.cmosReads ≠ 0#8) {es : List FdcEvent}

omit working in
set_option synthInstance.maxSize 4000 in
/-- What is printed, before anything is done to the drives. -/
theorem init_log (log : (finalState ((fdcInit dev).run s)).log = s.log ++ es) :
    ∃ rest, es = .outb 0x70#16 0x10#8 ::
      .printf (driveType (dev.cmos s.cmosReads >>> 4))
        (driveType (dev.cmos s.cmosReads &&& 0xF#8)) :: rest := by
  let c := dev.cmos s.cmosReads
  let t : FdcState :=
    { s with
      cmosReads := s.cmosReads + 1
      log := s.log ++ [.outb 0x70#16 0x10#8] ++
        [.printf (driveType (c >>> 4)) (driveType (c &&& 0xF#8))] }
  have hafter : AppendsLog (do
      (if c >>> 4 ≠ 0#8 then fdcReset dev 0#8 else return ())
      (if c &&& 0xF#8 ≠ 0#8 then fdcReset dev 1#8 else return ())
      fdcDriveData dev 13#8 1#8 15#8 true : FdcM Unit) := inferInstance
  obtain ⟨rest, hrest⟩ := hafter.appends t
  refine ⟨rest, List.append_cancel_left (log.symm.trans (hrest.trans ?_))⟩
  simp only [t, c, List.append_assoc, List.cons_append, List.nil_append]

include hinit

/-- For two drives with a name `fdc_init` prints their names and returns; the controller is
idle, the arms of the drives it has reset are at cylinder 0, and the controller will not use
DMA. -/
theorem fdc_init_resets {nameA nameB : CString}
    (first : driveType (dev.cmos s.cmosReads >>> 4) = some nameA)
    (second : driveType (dev.cmos s.cmosReads &&& 0xF#8) = some nameB)
    (log : (finalState ((fdcInit dev).run s)).log = s.log ++ es)
    (takesPart : run (floppyStep media) w es = some w') :
    (∃ t, (fdcInit dev).run s = .ok () t) ∧
      (∃ rest, es = .outb 0x70#16 0x10#8 :: .printf (some nameA) (some nameB) :: rest) ∧
      (∀ console buf, conPrintf (fdcInitArgs nameA nameB) console fdcInitFormat.memory buf =
        some (conPuts console (fdcInitLine nameA nameB ++ [0#8]))) ∧
      w'.Idle ∧ w'.nonDma = true ∧
      (dev.cmos s.cmosReads >>> 4 ≠ 0#8 → w'.cylinder 0 = 0#8) ∧
      (dev.cmos s.cmosReads &&& 0xF#8 ≠ 0#8 → w'.cylinder 1 = 0#8) ∧ w'.mem = w.mem := by
  have hprinted := init_log log
  rw [first, second] at hprinted
  obtain ⟨_, t, hrun, -, rfl⟩ := init_spec working media s hinit es w' log takesPart
  have hidle := afterResets_idle (c := dev.cmos s.cmosReads) hinit
  refine ⟨⟨t, hrun⟩, hprinted, fdcInit_line first second,
    ⟨hidle.enabled, hidle.phase, hidle.finished, hidle.irq⟩, rfl, ?_, ?_, ?_⟩
  · intro hfirst
    change (afterResets (dev.cmos s.cmosReads) w).cylinder 0 = 0#8
    rw [afterResets, if_pos hfirst]
    split <;> rfl
  · intro hsecond
    change (afterResets (dev.cmos s.cmosReads) w).cylinder 1 = 0#8
    rw [afterResets, if_pos hsecond]
    rfl
  · exact afterResets_mem _ _

omit working hinit in
/-- One drive, found in the middle of a command with its arm at cylinder 7. -/
theorem fdc_init_resets_firstDrive : ∃ w' : System, w'.Idle ∧ w'.cylinder 0 = 0#8 := by
  obtain ⟨w', hw'⟩ := Option.isSome_iff_exists.mp (by decide +kernel : (run (floppyStep oneSector)
    stuck (finalState ((fdcInit oneDrive).run fdcStart)).log).isSome = true)
  have first : driveType 4#8 = some ⟨cBytes "1.44MB 3.5in", by decide⟩ := by decide +kernel
  have second : driveType 0#8 = some ⟨cBytes "None", by decide⟩ := by decide +kernel
  obtain ⟨-, -, -, hidle, -, hcyl, -, -⟩ := fdc_init_resets (s := fdcStart) oneDrive_working
    (Or.inr (by decide)) first second (List.nil_append _).symm hw'
  exact ⟨w', hidle, hcyl (by decide)⟩

/-- The first read after `fdc_init` returns the buffer, but no byte of the memory is written. -/
theorem fdc_init_ends_dma (hdrive : drive < 4#8) (sectorLBA : BitVec 32)
    (log : (finalState ((do
      fdcInit dev
      fdcReadSector dev drive sectorLBA : FdcM (BitVec 32)).run s)).log = s.log ++ es)
    (takesPart : run (floppyStep media) w es = some w') :
    ∃ t, (do
      fdcInit dev
      fdcReadSector dev drive sectorLBA : FdcM (BitVec 32)).run s = .ok s.dmaBuf t ∧
        w'.mem = w.mem := by
  have hspec : OnController media s w (do
      fdcInit dev
      fdcReadSector dev drive sectorLBA : FdcM (BitVec 32)) fun ptr _ w' =>
        ptr = s.dmaBuf ∧ w'.mem = w.mem := by
    refine (init_spec working media s hinit).bind fun _ t1 w1 h => ?_
    obtain ⟨hbuf, rfl⟩ := h
    have hidle := afterResets_idle (c := dev.cmos s.cmosReads) hinit
    refine (readSector_nonDma working media t1 (w := { afterResets (dev.cmos s.cmosReads) w with
      nonDma := true }) ⟨hidle.enabled, hidle.phase, hidle.finished, hidle.irq⟩ rfl hdrive
      sectorLBA).weaken fun ptr t w' h => ?_
    exact ⟨h.1.trans hbuf, h.2.trans (afterResets_mem _ _)⟩
  obtain ⟨_, t, hrun, rfl, hmem⟩ := hspec es w' log takesPart
  exact ⟨t, hrun, hmem⟩

omit working hinit in
/-- Block 40 is on the disk, but its bytes are taken for results. -/
theorem fdc_init_ends_dma_firstDrive :
    ∃ t, ∃ w' : System, (do
      fdcInit oneDrive
      fdcReadSector oneDrive 0#8 40#32 : FdcM (BitVec 32)).run fdcStart = .ok 0x600#32 t ∧
        w'.mem = powerOn.mem := by
  obtain ⟨w', hw'⟩ := Option.isSome_iff_exists.mp (by decide +kernel : (run (floppyStep oneSector)
    stuck (finalState ((do
      fdcInit oneDrive
      fdcReadSector oneDrive 0#8 40#32 : FdcM (BitVec 32)).run fdcStart)).log).isSome = true)
  obtain ⟨t, hrun, hmem⟩ := fdc_init_ends_dma (s := fdcStart) oneDrive_working
    (Or.inr (by decide)) (by decide : 0#8 < 4#8) 40#32 (List.nil_append _).symm hw'
  exact ⟨t, w', hrun, hmem⟩

end

end Bros
