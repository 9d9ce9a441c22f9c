import Bros.FdcRuns

/-!
The sector that `fdc_read_sector` asks the controller for.

`_fdc_lba_to_chs` works on `int`; its results are narrowed to the bytes of the commands.
A track byte has room for 256 cylinders, so the commands name the requested sector for the
LBAs below 9216, and nothing turns the others away; a negative LBA is sought for too.
-/

namespace Bros
open ByteMemory Polling Programs

/-- The bytes that name a sector of a disk with two heads and 18 sectors per track. -/
structure SectorAddress (lba : Int) where
  head : Byte
  track : Byte
  sector : Byte
  head_lt : head.toNat < 2
  sector_pos : 1 ≤ sector.toNat
  sector_le : sector.toNat ≤ 18
  addresses : ((track.toNat : Int) * 2 + head.toNat) * 18 + (sector.toNat - 1) = lba

/-- The byte an event passes to the controller, whether or not it was taken. -/
def fdcSentByte : FdcEvent → Option Byte
  | .outb port value => if port = fdcIoDr then some value else none
  | .dropped cmd => some cmd
  | _ => none

def FdcState.sent (s : FdcState) : List Byte := s.log.filterMap fdcSentByte

/-- The bytes of `k` rounds of `_fdc_seek`. -/
def seekBytes (drive track head : Byte) (k : Nat) : List Byte :=
  (List.replicate k ((FdcCommand.seek drive track head).bytes ++ [fdcCmdCheckInt])).flatten

def readBytes (drive head track sector : Byte) : List Byte :=
  (FdcCommand.readSect drive head track sector).bytes ++ [fdcCmdCheckInt]

/-- The bytes of a call that seeks in `k` rounds and reads. -/
def SectorAddress.bytes {lba : Int} (a : SectorAddress lba) (drive : Byte) (k : Nat) : List Byte :=
  seekBytes drive a.track a.head k ++ readBytes drive a.head a.track a.sector

/-- A call refuses with no more than seeks, and for a negative LBA without a byte for the
controller, or what it sends names the requested sector. Where the driver stops the bytes may
end early. -/
def AddressesOrRefuses (dev : FdcDevice) (s : FdcState) (drive : Byte)
    (sectorLBA : BitVec 32) : Prop :=
  match (fdcReadSector dev drive sectorLBA).run s with
  | .ok ptr t =>
      (ptr = 0#32 ∧ (sectorLBA.toInt < 0 → t.sent = s.sent) ∧
          ∃ track head k, t.sent = s.sent ++ seekBytes drive track head k) ∨
        ∃ (a : SectorAddress sectorLBA.toInt) (k : Nat), t.sent = s.sent ++ a.bytes drive k
  | .error _ t =>
      ∃ (a : SectorAddress sectorLBA.toInt) (k : Nat) (bytes : List Byte),
        bytes <+: a.bytes drive k ∧ t.sent = s.sent ++ bytes

/-! ### Addresses -/

theorem SectorAddress.range {lba : Int} (a : SectorAddress lba) : 0 ≤ lba ∧ lba < 9216 := by
  have hhead := a.head_lt
  have hpos := a.sector_pos
  have hle := a.sector_le
  have htrack := a.track.isLt
  have hlba := a.addresses
  omega

theorem fdcLbaToChs_of_nonneg {lba : Int} (h : 0 ≤ lba) :
    fdcLbaToChs lba = (lba % 36 / 18, lba / 36, lba % 18 + 1) := by
  have hmod : 0 ≤ lba % 36 := Int.emod_nonneg lba (by decide)
  rw [fdcLbaToChs, Int.tmod_eq_emod_of_nonneg h, Int.tmod_eq_emod_of_nonneg h,
    Int.tdiv_eq_ediv_of_nonneg h]
  change ((lba % 36).tdiv 18, lba / 36, lba % 18 + 1) = _
  rw [Int.tdiv_eq_ediv_of_nonneg hmod]

theorem toNat_ofInt_byte {x : Int} (hpos : 0 ≤ x) (hlt : x < 256) :
    ((BitVec.ofInt 8 x).toNat : Int) = x := by
  rw [BitVec.toNat_ofInt]
  omega

section
variable {sectorLBA : BitVec 32}

theorem fdcHead_toNat (hpos : 0 ≤ sectorLBA.toInt) :
    ((fdcHead sectorLBA).toNat : Int) = sectorLBA.toInt % 36 / 18 := by
  have hbyte : sectorLBA.toInt % 36 / 18 < 256 := by omega
  rw [fdcHead, fdcLbaToChs_of_nonneg hpos]
  exact toNat_ofInt_byte (x := sectorLBA.toInt % 36 / 18) (by omega) hbyte

theorem fdcSector_toNat (hpos : 0 ≤ sectorLBA.toInt) :
    ((fdcSector sectorLBA).toNat : Int) = sectorLBA.toInt % 18 + 1 := by
  have hbyte : sectorLBA.toInt % 18 + 1 < 256 := by omega
  rw [fdcSector, fdcLbaToChs_of_nonneg hpos]
  exact toNat_ofInt_byte (x := sectorLBA.toInt % 18 + 1) (by omega) hbyte

theorem fdcTrack_toNat (hpos : 0 ≤ sectorLBA.toInt) (hlt : sectorLBA.toInt < 9216) :
    ((fdcTrack sectorLBA).toNat : Int) = sectorLBA.toInt / 36 := by
  have hbyte : sectorLBA.toInt / 36 < 256 := by omega
  rw [fdcTrack, fdcLbaToChs_of_nonneg hpos]
  exact toNat_ofInt_byte (x := sectorLBA.toInt / 36) (by omega) hbyte

/-- The bytes `fdc_read_sector` passes on, where the track fits into one. -/
def sectorAddress (hpos : 0 ≤ sectorLBA.toInt) (hlt : sectorLBA.toInt < 9216) :
    SectorAddress sectorLBA.toInt :=
  have hhead := fdcHead_toNat hpos
  have htrack := fdcTrack_toNat hpos hlt
  have hsector := fdcSector_toNat hpos
  { head := fdcHead sectorLBA
    track := fdcTrack sectorLBA
    sector := fdcSector sectorLBA
    head_lt := by omega
    sector_pos := by omega
    sector_le := by omega
    addresses := by omega }

end

/-! ### The bytes sent -/

section
variable {dev : FdcDevice} {s t : FdcState} {drive cyl head track sector : Byte}

/-- From `s` the program sends `bytes`, or stops after an initial part of them. -/
abbrev Sends (s : FdcState) {α : Type} (x : FdcM α) (bytes : List Byte) : Prop :=
  Emits FdcState.sent s x bytes

theorem sent_advance (k r w : Nat) (es : List FdcEvent) :
    (s.advance dev k r w es).sent = s.sent ++ es.filterMap fdcSentByte := by
  rw [FdcState.sent, advance_log, List.filterMap_append, FdcState.sent]

theorem sends_sendCommand (dev : FdcDevice) (s : FdcState) (cmd : Byte) :
    Sends s (fdcSendCommand dev cmd) [cmd] := by
  refine emits_of_ok (fdcSendCommand_run cmd) ?_
  rw [sent_advance, FdcDevice.sendEvent]
  split <;> rfl

theorem sends_issue (cmd : FdcCommand) : Sends s (fdcIssue dev cmd) cmd.bytes := by
  have hall := emits_forM (s := s) (fun b s => sends_sendCommand dev s b) cmd.bytes
  rwa [List.flatMap_singleton'] at hall

theorem sends_readData : Sends s (fdcReadData dev) [] := by
  refine emits_of_ok fdcReadData_run ?_
  rw [sent_advance, FdcDevice.readEvent]
  split <;> rfl

theorem sends_checkInt : Sends s (fdcCheckInt dev) [fdcCmdCheckInt] := by
  refine (sends_sendCommand dev s fdcCmdCheckInt).bind_quiet fun _ t _ => ?_
  refine sends_readData.quiet_bind fun st0 t _ => ?_
  cases st0 with
  | none => exact emits_throw _
  | some st0 =>
      refine sends_readData.quiet_bind fun cyl t _ => ?_
      cases cyl with
      | none => exact emits_throw _
      | some cyl => exact emits_pure _

theorem sends_waitIrq : Sends s (fdcWaitIrq dev) [] := by
  by_cases hirq : dev.irq s.waits = true
  · exact emits_of_ok (fdcWaitIrq_run hirq) (sent_advance 0 0 1 [.irq])
  · rw [Sends, Emits, fdcWaitIrq_run_error hirq]
    exact ⟨[], List.nil_prefix, (List.append_nil _).symm⟩

theorem sends_seekRound :
    Sends s (fdcSeekRound dev drive cyl head) (seekBytes drive cyl head 1) := by
  have hround : Sends s (fdcSeekRound dev drive cyl head)
      ((FdcCommand.seek drive cyl head).bytes ++ [fdcCmdCheckInt]) := by
    refine (sends_issue (.seek drive cyl head)).bind fun _ t _ => ?_
    refine sends_waitIrq.quiet_bind fun _ t _ => ?_
    exact sends_checkInt.bind_quiet fun _ _ _ => emits_pure _
  exact hround

/-- However many rounds it takes, and the first one is never left out. -/
theorem sends_seekLoop (dev : FdcDevice) (s : FdcState) (drive cyl head : Byte) (n : Nat) :
    ∃ k, (n ≠ 0 → k ≠ 0) ∧
      Sends s (fdcSeekLoop dev drive cyl head n) (seekBytes drive cyl head k) := by
  induction n generalizing s with
  | zero => exact ⟨0, id, emits_pure false⟩
  | succ n ih =>
      cases hround : (fdcSeekRound dev drive cyl head).run s with
      | ok cyl0 t =>
          by_cases hcyl : cyl0 = cyl
          · refine ⟨1, fun _ => Nat.one_ne_zero, sends_seekRound.bind_of_ok hround ?_⟩
            rw [if_pos hcyl]
            exact emits_pure true
          · obtain ⟨k, -, hk⟩ := ih t
            refine ⟨k + 1, fun _ => k.succ_ne_zero, ?_⟩
            have hall : seekBytes drive cyl head (k + 1) =
                seekBytes drive cyl head 1 ++ seekBytes drive cyl head k := by
              rw [seekBytes, seekBytes, seekBytes, ← List.flatten_append,
                List.replicate_append_replicate, Nat.add_comm]
            rw [hall]
            refine sends_seekRound.bind_of_ok hround ?_
            rw [if_neg hcyl]
            exact hk
      | error e t =>
          exact ⟨1, fun _ => Nat.one_ne_zero,
            sends_seekRound.bind_of_error hround List.prefix_rfl⟩

theorem filterMap_sent_outbs {ws : List PortWrite} (h : fdcIoDr ∉ ws.map Prod.fst) :
    (ws.map fun w => FdcEvent.outb w.1 w.2).filterMap fdcSentByte = [] := by
  refine List.filterMap_eq_nil_iff.mpr fun e he => ?_
  obtain ⟨w, hw, he⟩ := List.mem_map.mp he
  have hport : w.1 ≠ fdcIoDr := fun hport => h (List.mem_map.mpr ⟨w, hw, hport⟩)
  rw [← he, fdcSentByte, if_neg hport]

theorem sends_outbs {ws : List PortWrite} (h : fdcIoDr ∉ ws.map Prod.fst) :
    Sends s (outbs ws) [] := by
  refine emits_of_ok (outbs_run (readyDevice fun _ => 0#8) ws) ?_
  rw [sent_advance, filterMap_sent_outbs h]

theorem fdcDmaInit_ports (buf : BitVec 32) :
    fdcIoDr ∉ (fdcDmaInit buf fdcDmaBufSize).map Prod.fst := by
  have hports : (fdcDmaInit buf fdcDmaBufSize).map Prod.fst =
      [0x0A#16, 0x0C#16, 0x04#16, 0x04#16, 0x81#16, 0x0C#16, 0x05#16, 0x05#16, 0x0A#16, 0x0B#16,
        0x0A#16, 0x0A#16] := rfl
  rw [hports]
  decide

theorem sends_readSectorImp :
    Sends s (fdcReadSectorImp dev drive head track sector)
      (readBytes drive head track sector) := by
  have hresult (t : FdcState) : Sends t (do let _ ← fdcReadData dev : FdcM PUnit) [] :=
    sends_readData.quiet_bind fun _ _ _ => emits_pure _
  refine emits_get.quiet_bind fun s' _ _ => ?_
  refine (sends_outbs (fdcDmaInit_ports s'.dmaBuf)).quiet_bind fun _ _ _ => ?_
  refine (sends_outbs (by decide)).quiet_bind fun _ _ _ => ?_
  refine (sends_issue (.readSect drive head track sector)).bind fun _ _ _ => ?_
  refine sends_waitIrq.quiet_bind fun _ _ _ => ?_
  refine (emits_forM (fun _ => hresult) _).quiet_bind fun _ _ _ => ?_
  exact sends_checkInt.bind_quiet fun _ _ _ => emits_pure _

variable {sectorLBA : BitVec 32}

theorem sent_motorOn : (s.motorOn dev drive).sent = s.sent := by
  rw [FdcState.motorOn, sent_advance]
  exact List.append_nil _

theorem sends_motorOff : Sends s (fdcControlMotor drive false) [] :=
  emits_of_ok (fdcControlMotor_off (readyDevice fun _ => 0#8) drive)
    (sent_advance 0 0 0 [.outb fdcIoDor fdcMaskDorReset])

/-- A call that misses sends seeks and no more. -/
theorem sought_sent (drive : Byte) (hmiss : dev.Misses s (fdcTrack sectorLBA) 10) :
    ∃ k ≠ 0, (s.sought dev drive sectorLBA 10).sent =
      s.sent ++ seekBytes drive (fdcTrack sectorLBA) (fdcHead sectorLBA) k := by
  obtain ⟨k, hk0, hk⟩ := sends_seekLoop dev (s.motorOn dev drive) drive (fdcTrack sectorLBA)
    (fdcHead sectorLBA) 10
  refine ⟨k, hk0 (by decide), ?_⟩
  rw [FdcState.sought, hk.ok (fdcSeekLoop_missed drive _ ⟨hmiss.answered, hmiss.missed⟩),
    sent_motorOn]

/-- Any other call for a valid drive sends seeks and the read, or stops on the way. -/
theorem fdcReadSector_sends (hdrive : drive < 4#8)
    (hmiss : ¬ dev.Misses s (fdcTrack sectorLBA) 10) :
    ∃ k, Sends s (fdcReadSector dev drive sectorLBA)
      (seekBytes drive (fdcTrack sectorLBA) (fdcHead sectorLBA) k ++
        readBytes drive (fdcHead sectorLBA) (fdcTrack sectorLBA) (fdcSector sectorLBA)) := by
  obtain ⟨k, -, hk⟩ := sends_seekLoop dev (s.motorOn dev drive) drive (fdcTrack sectorLBA)
    (fdcHead sectorLBA) 10
  refine ⟨k, Emits.of_run ?_ (fdcReadSector_motorOn hdrive) sent_motorOn⟩
  refine hk.bind fun found t hloop => ?_
  cases found with
  | false =>
      have hmiss' := fdcSeekLoop_false hloop
      exact absurd ⟨hmiss'.answered, hmiss'.missed⟩ hmiss
  | true =>
      refine sends_readSectorImp.bind_quiet fun _ _ _ => ?_
      refine sends_motorOff.quiet_bind fun _ t _ => ?_
      exact emits_get.quiet_bind fun _ _ _ => emits_pure _

theorem length_seekBytes (k : Nat) : (seekBytes drive cyl head k).length = 4 * k := by
  simp [seekBytes, Nat.mul_comm]

/-- Seeks come in fours, so bytes with a read at the end are not seeks only. -/
theorem seekBytes_ne_read (cyl' head' : Byte) (k k' : Nat) :
    seekBytes drive cyl head k ≠
      seekBytes drive cyl' head' k' ++ readBytes drive head' cyl' sector := by
  intro h
  have hlength := congrArg List.length h
  rw [List.length_append, length_seekBytes, length_seekBytes, readBytes, List.length_append,
    length_readSect, List.length_singleton] at hlength
  omega

/-- Outside the range a call that finds the cylinder names another sector. -/
theorem not_addresses_of_not_range (hdrive : drive < 4#8)
    (hmiss : ¬ dev.Misses s (fdcTrack sectorLBA) 10)
    (hrange : ¬ (0 ≤ sectorLBA.toInt ∧ sectorLBA.toInt < 9216)) :
    ¬ AddressesOrRefuses dev s drive sectorLBA := by
  intro h
  obtain ⟨k, hk⟩ := fdcReadSector_sends hdrive hmiss
  rw [AddressesOrRefuses] at h
  split at h
  · next hrun =>
      cases h with
      | inl hrefused =>
          obtain ⟨-, -, track, head, k', hsent⟩ := hrefused
          rw [hk.ok hrun] at hsent
          exact absurd (List.append_cancel_left hsent).symm (seekBytes_ne_read _ _ _ _)
      | inr haddress =>
          obtain ⟨a, -⟩ := haddress
          exact hrange a.range
  · obtain ⟨a, -⟩ := h
    exact hrange a.range

/-- A call that misses refuses unless it has sought for a negative LBA. -/
theorem missed_addresses_iff (hdrive : drive < 4#8)
    (hmiss : dev.Misses s (fdcTrack sectorLBA) 10) :
    AddressesOrRefuses dev s drive sectorLBA ↔ 0 ≤ sectorLBA.toInt := by
  obtain ⟨k, hk0, hk⟩ := sought_sent drive hmiss
  have hsought : (s.sought dev drive sectorLBA 10).sent ≠ s.sent := by
    intro hsame
    have hempty := List.append_right_eq_self.mp (hk.symm.trans hsame)
    have hlength := congrArg List.length hempty
    rw [length_seekBytes, List.length_nil] at hlength
    omega
  rw [AddressesOrRefuses, fdcReadSector_missed hdrive hmiss]
  constructor
  · intro h
    by_contra hnegative
    cases h with
    | inl hrefused => exact hsought (hrefused.2.1 (Int.not_le.mp hnegative))
    | inr haddress =>
        obtain ⟨a, -⟩ := haddress
        exact hnegative a.range.1
  · intro hpos
    exact Or.inl ⟨rfl, fun hnegative => absurd hpos (Int.not_le.mpr hnegative), _, _, k, hk⟩

/-- The requested sector is named or refused exactly for a drive that does not exist, an LBA
whose track fits into a byte, and a seek for a larger one that finds another cylinder in every
round. -/
theorem fdcReadSector_addresses_iff (dev : FdcDevice) (s : FdcState) (drive : Byte)
    (sectorLBA : BitVec 32) :
    AddressesOrRefuses dev s drive sectorLBA ↔
      4#8 ≤ drive ∨ (0 ≤ sectorLBA.toInt ∧ sectorLBA.toInt < 9216) ∨
        9216 ≤ sectorLBA.toInt ∧ dev.Misses s (fdcTrack sectorLBA) 10 := by
  by_cases hdrive : drive < 4#8
  · rw [or_iff_right (BitVec.not_le.mpr hdrive)]
    by_cases hmiss : dev.Misses s (fdcTrack sectorLBA) 10
    · rw [missed_addresses_iff hdrive hmiss, and_iff_left hmiss]
      omega
    · rw [or_iff_left fun h => hmiss h.2]
      constructor
      · exact not_imp_not.mp (not_addresses_of_not_range hdrive hmiss)
      · intro hrange
        obtain ⟨k, hk⟩ := fdcReadSector_sends hdrive hmiss
        rw [AddressesOrRefuses]
        split
        · next hrun => exact Or.inr ⟨sectorAddress hrange.1 hrange.2, k, hk.ok hrun⟩
        · next hrun => exact ⟨sectorAddress hrange.1 hrange.2, k, hk.error hrun⟩
  · refine iff_of_true ?_ (Or.inl (BitVec.not_lt.mp hdrive))
    rw [AddressesOrRefuses, fdcReadSector_invalid hdrive]
    exact Or.inl ⟨rfl, fun _ => rfl, 0#8, 0#8, 0, (List.append_nil _).symm⟩

/-- LBA 9216 is past the last cylinder a byte can name: the bytes are those of LBA 0. -/
theorem fdcReadSector_wraps_track :
    ¬ AddressesOrRefuses (readyDevice fun _ => 0#8) fdcStart 0#8 9216#32 := by
  have htrack : fdcTrack 9216#32 = 0#8 := by decide
  have hmiss : ¬ (readyDevice fun _ => 0#8).Misses fdcStart (fdcTrack 9216#32) 10 := by
    rw [htrack]
    exact fun hmiss => hmiss.missed 0 (Nat.succ_pos 9) rfl
  exact not_addresses_of_not_range (by decide) hmiss (by decide)

end

end Bros
