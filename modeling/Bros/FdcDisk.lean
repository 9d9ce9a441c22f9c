import Bros.FdcController
import Bros.Geometry

/-!
Sectors of a disk in memory.

The driver, the floppy disk controller, the DMA controller and the memory together are a
block device with one buffer: `fdc_set_dma_addr` moves the buffer, `fdc_read_sector` copies
a sector of the disk there.
-/

namespace Bros
open ByteMemory Programs Runs Coupling Dma8237 Fdc82077 DiskGeometry

/-- The 8237 can fill a buffer there. -/
structure DmaReaches (buf : BitVec 32) : Prop where
  low : buf.toNat < 2 ^ 24
  inPage : buf.toNat % 2 ^ 16 + 511 < 2 ^ 16

/-- A sector that the disk does not have leaves the memory alone. -/
def storeSector (m : Mem) (a : Nat) (sector : Option (Nat → Byte)) : Mem :=
  match sector with
  | some data => write m a 512 data
  | none => m

/-- Between two calls of the driver. -/
structure ReadyForDma (w : System) : Prop where
  idle : w.Idle
  dma : w.nonDma = false

/-! ### The read command -/

section
variable {media : Media} {w : System} {drive head track sector : Byte} {buf : BitVec 32}

theorem fdcDma_channel (d : Controller) (buf : BitVec 32) :
    ((d.run (fdcDmaInit buf fdcDmaBufSize)).run (dmaSetRead fdcDmaChannel)).channel
        floppyChannel = fdcChannel buf := by
  have hwrites : dmaSetRead fdcDmaChannel = [(0x0A#16, 6#8), (0x0B#16, 0x56#8), (0x0A#16, 2#8)] :=
    rfl
  rw [hwrites]
  simp only [run_cons, run_nil]
  rw [portWrite_of_decode (r := .singleMask) rfl, portWrite_of_decode (r := .mode) rfl,
    portWrite_of_decode (r := .singleMask) rfl]
  rw [write_singleMask_channel (c := floppyChannel) _ rfl,
    write_mode_channel (c := floppyChannel) _ rfl,
    write_singleMask_channel (c := floppyChannel) _ rfl]
  rw [show floppyChannel = selected fdcDmaChannel from rfl, fdcDmaInit_channel]
  rfl

/-- Neither of them writes a port of the floppy disk controller. -/
theorem fdcDma_ports (buf : BitVec 32) :
    (dorPort ∉ (fdcDmaInit buf fdcDmaBufSize).map Prod.fst ∧
        drPort ∉ (fdcDmaInit buf fdcDmaBufSize).map Prod.fst) ∧
      dorPort ∉ (dmaSetRead fdcDmaChannel).map Prod.fst ∧
        drPort ∉ (dmaSetRead fdcDmaChannel).map Prod.fst := by
  have hports : (fdcDmaInit buf fdcDmaBufSize).map Prod.fst =
      [0x0A#16, 0x0C#16, 0x04#16, 0x04#16, 0x81#16, 0x0C#16, 0x05#16, 0x05#16, 0x0A#16, 0x0B#16,
        0x0A#16, 0x0A#16] := rfl
  rw [hports]
  decide

theorem seek_drive_bits (head : Byte) (hdrive : drive < 4#8) :
    (head <<< 2 ||| drive).toNat % 4 = drive.toNat := by
  have hlt : drive.toNat < 4 := hdrive
  have hshift : (head <<< 2).toNat % 2 ^ 2 = 0 := by
    rw [BitVec.toNat_shiftLeft, Nat.shiftLeft_eq]
    omega
  have hmod : drive.toNat % 2 ^ 2 = drive.toNat := Nat.mod_eq_of_lt hlt
  rw [BitVec.toNat_or, show (4 : Nat) = 2 ^ 2 from rfl, Nat.or_mod_two_pow, hshift, hmod,
    Nat.zero_or]

theorem head_drive_bits (hhead : head.toNat < 2) (hdrive : drive < 4#8) :
    (head <<< 2 ||| drive).toNat / 4 % 2 = head.toNat := by
  have hcases : head = 0#8 ∨ head = 1#8 := by
    simp only [BitVec.toNat_eq, BitVec.reduceToNat]
    omega
  obtain rfl | rfl := hcases <;> obtain rfl | rfl | rfl | rfl := drive_cases hdrive <;> decide

/-- What a read under the right cylinder finds first. -/
theorem found_readSect (media : Media) (sector : Byte) (hspin : w.spinning drive.toNat = true)
    (hcyl : w.cylinder drive.toNat = track) (hhead : head.toNat < 2) (hdrive : drive < 4#8) :
    ∃ rest, w.found media (FdcCommand.readSect drive head track sector).bytes =
      media.bytes drive.toNat track.toNat ((head.toNat, sector.toNat) :: rest) := by
  have hmod := seek_drive_bits head hdrive
  have hbit := head_drive_bits hhead hdrive
  let bytes := (FdcCommand.readSect drive head track sector).bytes
  have h0 : arg bytes 0 = 0xE6#8 := rfl
  have h1 : arg bytes 1 = head <<< 2 ||| drive := rfl
  have h2 : arg bytes 2 = track := rfl
  have h3 : arg bytes 3 = head := rfl
  have h4 : arg bytes 4 = sector := rfl
  have h5 : arg bytes 5 = 2#8 := rfl
  have hmfm : (0xE6#8).getLsbD 6 = true := by decide
  obtain ⟨rest, hrest⟩ := positions_cons ((arg bytes 0).getLsbD 7) head.toNat sector.toNat
    (arg bytes 6).toNat
  refine ⟨rest, ?_⟩
  change w.found media bytes = _
  rw [← hrest, System.found]
  simp only [h0, h1, h2, h3, h4, h5, hmod, hbit, hspin, hcyl, hmfm, beq_self_eq_true,
    Bool.and_self, if_true]

theorem bytes_cons (drive cyl head sector : Nat) (rest : List (Nat × Nat)) :
    media.bytes drive cyl ((head, sector) :: rest) =
      match media drive cyl head sector with
      | some data => (List.range 512).map data ++ media.bytes drive cyl rest
      | none => [] := rfl

/-- The channel takes the first sector, and no more. -/
theorem fill_first_sector (media : Media) (hbuf : DmaReaches buf) (m : Mem)
    (drive cyl head sector : Nat) (rest : List (Nat × Nat)) :
    let data := media.bytes drive cyl ((head, sector) :: rest)
    fill (fdcChannel buf) m (data.take (min data.length (fdcChannel buf).length)) =
      storeSector m buf.toNat (media drive cyl head sector) := by
  have haddr := (fdcChannel_addresses_iff buf).mpr ⟨hbuf.low, hbuf.inPage⟩
  have hlen : (fdcChannel buf).length = 512 := rfl
  dsimp only
  rw [hlen, bytes_cons]
  cases media drive cyl head sector with
  | none => rfl
  | some data =>
      have hsector : ((List.range 512).map data).length = 512 := by
        rw [List.length_map, List.length_range]
      dsimp only
      rw [List.length_append, hsector, Nat.min_eq_right (Nat.le_add_right _ _),
        List.take_left' hsector, fill_consecutive m (by rw [hsector]; exact haddr), hsector]
      funext b
      by_cases hin : buf.toNat ≤ b ∧ b < buf.toNat + 512
      · rw [storeSector, write_inside _ _ hin, write_inside _ _ hin,
          List.getD_eq_getElem _ _ (by rw [hsector]; omega), List.getElem_map,
          List.getElem_range]
      · rw [storeSector, write_outside _ _ (by omega), write_outside _ _ (by omega)]

/-- The read command as a whole. -/
theorem execute_readSect (media : Media) (sector : Byte) (hdma : w.nonDma = false)
    (hgate : w.gate = true) (hspin : w.spinning drive.toNat = true)
    (hcyl : w.cylinder drive.toNat = track) (hhead : head.toNat < 2) (hdrive : drive < 4#8)
    (hch : w.channel = fdcChannel buf) (hbuf : DmaReaches buf) :
    ∃ d results, results.length = 7 ∧
      w.execute media (FdcCommand.readSect drive head track sector).bytes =
        { w with
          mem := storeSector w.mem buf.toNat
            (media drive.toNat track.toNat head.toNat sector.toNat)
          dma := d
          phase := .result results
          irq := true } := by
  let cmd := (FdcCommand.readSect drive head track sector).bytes
  obtain ⟨rest, hfound⟩ := found_readSect media sector hspin hcyl hhead hdrive
  have hop : opcode (arg cmd 0) = .read := (by decide : opcode 0xE6#8 = .read)
  have hserved : w.served = true := by
    have hmode := (fdcChannel_mode buf).1
    rw [System.served, hgate, hch, hmode]
    rfl
  have hexec : w.execute media cmd = w.read media cmd := by
    rw [System.execute, hop]
  obtain ⟨d, results, hlen, hread⟩ := read_served media hdma hserved cmd
  refine ⟨d, results, hlen, ?_⟩
  have hmem := fill_first_sector media hbuf w.mem drive.toNat track.toNat head.toNat
    sector.toNat rest
  dsimp only at hmem
  rw [← hfound] at hmem
  change w.execute media cmd = _
  rw [hexec, hread, hch, hmem]

end

/-! ### The functions of the driver -/

section
variable {media : Media} {dev : FdcDevice} {s : FdcState} {w : System}
  {drive head track sector : Byte} {sectorLBA : BitVec 32}

/-- The end of `_fdc_read_sector_imp`. -/
def fdcFinishRead (dev : FdcDevice) : FdcM Unit := do
  (List.range 7).forM fun _ => do
    let _ ← fdcReadData dev
  let _ ← fdcCheckInt dev

instance appends_finishRead : AppendsLog (fdcFinishRead dev) := by
  unfold fdcFinishRead
  infer_instance

variable (working : dev.Working)
include working

/-- As many readings as there are results. -/
theorem readResults_spec (media : Media) (s : FdcState) (w : System)
    {results : List (Option Byte)} {l : List Nat} (hlen : results.length = l.length)
    (hne : results ≠ []) :
    OnController media s { w with phase := .result results }
      (l.forM fun _ => do let _ ← fdcReadData dev)
      fun _ t w' => t.dmaBuf = s.dmaBuf ∧ w' = { w with phase := .command [] } := by
  let I : List Nat → FdcState → System → Prop := fun l t w' =>
    t.dmaBuf = s.dmaBuf ∧ ∃ rest : List (Option Byte), rest.length = l.length ∧
      w' = { w with phase := if rest = [] then .command [] else .result rest }
  refine (meets_forM (I := I) ?_ l
    ⟨rfl, results, hlen, by rw [if_neg hne]⟩).weaken ?_
  · intro i l t w1 h
    obtain ⟨hbuf, rest, hrest, rfl⟩ := h
    obtain ⟨b, rest, rfl⟩ := List.exists_cons_of_length_eq_add_one hrest
    rw [if_neg (List.cons_ne_nil b rest)]
    refine (readData_spec working media t _).bind fun data u w2 h => ?_
    obtain ⟨hbuf2, v, -, hread⟩ := h
    rw [readDr_result rfl] at hread
    obtain ⟨-, rfl⟩ := hread
    exact meets_pure ⟨hbuf2.trans hbuf, rest, Nat.succ.inj hrest, rfl⟩
  · intro _ t w' h
    obtain ⟨hbuf, rest, hrest, rfl⟩ := h
    rw [List.length_eq_zero_iff.mp hrest, if_pos rfl]
    exact ⟨hbuf, rfl⟩

/-- The end of a read: its results, and a check that has nothing to report. -/
theorem finishRead_spec (media : Media) (s : FdcState) (hidle : w.Idle)
    {results : List (Option Byte)} (hlen : results.length = 7) :
    OnController media s { w with phase := .result results } (fdcFinishRead dev)
      fun _ t w' => t.dmaBuf = s.dmaBuf ∧ w' = w := by
  have hne : results ≠ [] := by
    intro h
    rw [h] at hlen
    cases hlen
  refine (readResults_spec working media s w (l := List.range 7) hlen hne).bind fun _ t _ h => ?_
  obtain ⟨hbuf, rfl⟩ := h
  refine (checkInt_idle working media t (w := { w with phase := .command [] }) hidle.enabled rfl
    hidle.finished).bind fun _ u _ h => ?_
  obtain ⟨hbuf2, rfl⟩ := h
  refine meets_pure ⟨hbuf2.trans hbuf, ?_⟩
  rw [← hidle.phase]

omit working in
/-- `_fdc_read_sector_imp` first programs the DMA controller. -/
theorem readSectorImp_then (media : Media) (s : FdcState) (w : System)
    {Q : Unit → FdcState → System → Prop}
    (h : ∀ t d, t.dmaBuf = s.dmaBuf → d.channel floppyChannel = fdcChannel s.dmaBuf →
      OnController media t { w with dma := d } (fdcIssue dev (.readSect drive head track sector) >>=
        fun _ => fdcWaitIrq dev >>= fun _ => fdcFinishRead dev) Q) :
    OnController media s w (fdcReadSectorImp dev drive head track sector) Q := by
  obtain ⟨⟨hdor, hdr⟩, hdor2, hdr2⟩ := fdcDma_ports s.dmaBuf
  change OnController media s w (get >>= fun s => outbs (fdcDmaInit s.dmaBuf fdcDmaBufSize) >>=
    fun _ => outbs (dmaSetRead fdcDmaChannel) >>= fun _ =>
      fdcIssue dev (.readSect drive head track sector) >>= fun _ =>
        fdcWaitIrq dev >>= fun _ => fdcFinishRead dev) _
  apply meets_get
  refine (outbs_spec media s w hdor hdr).bind fun _ t1 w1 h1 => ?_
  obtain ⟨hbuf1, rfl⟩ := h1
  refine (outbs_spec media t1 _ hdor2 hdr2).bind fun _ t2 w2 h2 => ?_
  obtain ⟨hbuf2, rfl⟩ := h2
  exact h t2 _ (hbuf2.trans hbuf1) (fdcDma_channel w.dma s.dmaBuf)

/-- `_fdc_read_sector_imp`, with the arm at the track and the motor on. -/
theorem readSectorImp_spec (media : Media) (s : FdcState) (hready : ReadyForDma w)
    (hgate : w.gate = true) (hspin : w.spinning drive.toNat = true)
    (hcyl : w.cylinder drive.toNat = track) (hhead : head.toNat < 2) (hdrive : drive < 4#8)
    (hbuf : DmaReaches s.dmaBuf) :
    OnController media s w (fdcReadSectorImp dev drive head track sector) fun _ t w' =>
      t.dmaBuf = s.dmaBuf ∧ ReadyForDma w' ∧
        w'.mem = storeSector w.mem s.dmaBuf.toNat
          (media drive.toNat track.toNat head.toNat sector.toNat) := by
  refine readSectorImp_then media s w fun t1 d hbuf1 hchannel => ?_
  obtain ⟨d', results, hlen, hexec⟩ := execute_readSect media sector (w := { w with dma := d })
    hready.dma hgate hspin hcyl hhead hdrive hchannel hbuf
  refine (issue_spec working media t1 (w := { w with dma := d }) hready.idle.enabled
    hready.idle.phase (.readSect drive head track sector)).bind fun _ t2 w2 h => ?_
  obtain ⟨hbuf2, rfl⟩ := h
  rw [hexec]
  refine (waitIrq_spec working media t2 _).bind fun _ t3 w3 h => ?_
  obtain ⟨hbuf3, rfl⟩ := h
  let w' : System :=
    { w with
      mem := storeSector w.mem s.dmaBuf.toNat
        (media drive.toNat track.toNat head.toNat sector.toNat)
      dma := d'
      irq := false }
  have hidle : w'.Idle := ⟨hready.idle.enabled, hready.idle.phase, hready.idle.finished, rfl⟩
  refine (finishRead_spec working media t3 hidle hlen).weaken fun _ t4 w4 h => ?_
  obtain ⟨hbuf4, rfl⟩ := h
  exact ⟨hbuf4.trans (hbuf3.trans (hbuf2.trans hbuf1)), ⟨hidle, hready.dma⟩, rfl⟩

omit working in
theorem fdcReadSector_valid (hdrive : drive < 4#8) :
    fdcReadSector dev drive sectorLBA =
      fdcControlMotor drive true >>= fun _ =>
        fdcSeekLoop dev drive (fdcTrack sectorLBA) (fdcHead sectorLBA) 10 >>= fun found =>
          if found then
            fdcReadSectorImp dev drive (fdcHead sectorLBA) (fdcTrack sectorLBA)
              (fdcSector sectorLBA) >>= fun _ =>
                fdcControlMotor drive false >>= fun _ => get >>= fun s => pure s.dmaBuf
          else pure 0#32 := by
  have hvalid : ¬ 4#8 ≤ drive := BitVec.not_le.mpr hdrive
  have hseek : fdcSeek dev drive (fdcTrack sectorLBA) (fdcHead sectorLBA) =
      fdcSeekLoop dev drive (fdcTrack sectorLBA) (fdcHead sectorLBA) 10 := if_neg hvalid
  rw [← hseek, fdcReadSector, if_neg hvalid]
  rfl

omit working in
/-- A track that fits into a byte. -/
theorem fdcAddress_eq (hpos : 0 ≤ sectorLBA.toInt) (hlt : sectorLBA.toInt < 9216) :
    (fdcTrack sectorLBA).toNat = (floppy.address sectorLBA.toInt.toNat).cylinder ∧
      (fdcHead sectorLBA).toNat = (floppy.address sectorLBA.toInt.toNat).head ∧
        (fdcSector sectorLBA).toNat = (floppy.address sectorLBA.toInt.toNat).sector := by
  have htrack := fdcTrack_toNat hpos hlt
  have hhead := fdcHead_toNat hpos
  have hsector := fdcSector_toNat hpos
  simp only [Geometry.address, floppy]
  omega

/-- The block that `fdc_read_sector` is asked for. -/
def diskBlock (media : Media) (drive lba : Nat) : Option (Nat → Byte) :=
  let a := floppy.address lba
  media drive a.cylinder a.head a.sector

/-- The controller with the motor of a drive on and its arm at a cylinder. -/
def readyToRead (w : System) (drive cyl : Byte) : System :=
  ({ w with dor := fdcMotorOn drive } : System).atCylinder drive.toNat cyl

omit working in
theorem readyToRead_idle (hidle : w.Idle) (hdrive : drive < 4#8) (cyl : Byte) :
    (readyToRead w drive cyl).Idle :=
  ⟨(fdcMotorOn_bits hdrive).1, hidle.phase, hidle.finished, rfl⟩

omit working in
theorem readyToRead_spinning (w : System) (hdrive : drive < 4#8) (cyl : Byte) :
    (readyToRead w drive cyl).spinning drive.toNat = true := by
  obtain ⟨-, -, hselect, hmotor⟩ := fdcMotorOn_bits hdrive
  change ((fdcMotorOn drive).toNat % 4 == drive.toNat &&
    (fdcMotorOn drive).getLsbD (4 + drive.toNat)) = true
  rw [hselect, hmotor, beq_self_eq_true]
  rfl

/-- `fdc_read_sector` around the read itself. -/
theorem readSector_around {P : System → Prop} (media : Media) (s : FdcState) (hidle : w.Idle)
    (hdrive : drive < 4#8) (hen : ∀ w', P w' → w'.enabled = true)
    (himp : ∀ t, t.dmaBuf = s.dmaBuf →
      OnController media t (readyToRead w drive (fdcTrack sectorLBA))
        (fdcReadSectorImp dev drive (fdcHead sectorLBA) (fdcTrack sectorLBA)
          (fdcSector sectorLBA)) fun _ u w' => u.dmaBuf = t.dmaBuf ∧ P w') :
    OnController media s w (fdcReadSector dev drive sectorLBA) fun ptr t w' =>
      ptr = s.dmaBuf ∧ t.dmaBuf = s.dmaBuf ∧
        ∃ w1, P w1 ∧ w' = { w1 with dor := fdcMaskDorReset } := by
  rw [fdcReadSector_valid hdrive]
  refine (motorOn_spec media s hdrive hidle.enabled).bind fun _ t1 w1 h => ?_
  obtain ⟨hbuf1, rfl⟩ := h
  have hrunning : ({ w with dor := fdcMotorOn drive } : System).Idle :=
    ⟨(fdcMotorOn_bits hdrive).1, hidle.phase, hidle.finished, hidle.irq⟩
  refine (seekLoop_spec working media t1 hrunning (seek_drive_bits _ hdrive) 9).bind
    fun found t2 w2 h => ?_
  obtain ⟨rfl, hbuf2, rfl⟩ := h
  rw [if_pos rfl]
  refine (himp t2 (hbuf2.trans hbuf1)).bind fun _ t3 w3 h => ?_
  obtain ⟨hbuf3, hp⟩ := h
  refine (motorOff_spec media t3 (hen w3 hp) drive).bind fun _ t4 w4 h => ?_
  obtain ⟨hbuf4, rfl⟩ := h
  have hsame : t4.dmaBuf = s.dmaBuf := hbuf4.trans (hbuf3.trans (hbuf2.trans hbuf1))
  exact meets_get (meets_pure ⟨hsame, hsame, w3, hp, rfl⟩)

/-- A whole call of `fdc_read_sector`. -/
theorem readSector_spec (media : Media) (s : FdcState) (hready : ReadyForDma w)
    (hdrive : drive < 4#8) (hpos : 0 ≤ sectorLBA.toInt) (hlt : sectorLBA.toInt < 9216)
    (hbuf : DmaReaches s.dmaBuf) :
    OnController media s w (fdcReadSector dev drive sectorLBA) fun ptr t w' =>
      ptr = s.dmaBuf ∧ t.dmaBuf = s.dmaBuf ∧ ReadyForDma w' ∧
        w'.mem = storeSector w.mem s.dmaBuf.toNat
          (diskBlock media drive.toNat sectorLBA.toInt.toNat) := by
  obtain ⟨htrack, hhead, hsector⟩ := fdcAddress_eq hpos hlt
  have hhead_lt : (fdcHead sectorLBA).toNat < 2 :=
    hhead ▸ (floppy.address sectorLBA.toInt.toNat).head_lt
  let P : System → Prop := fun w' => ReadyForDma w' ∧
    w'.mem = storeSector w.mem s.dmaBuf.toNat
      (diskBlock media drive.toNat sectorLBA.toInt.toNat)
  refine (readSector_around working media s (P := P) hready.idle hdrive
    (fun _ hp => hp.1.idle.enabled) fun t ht => ?_).weaken fun ptr u w' h => ?_
  · refine (readSectorImp_spec working media t
      ⟨readyToRead_idle hready.idle hdrive _, hready.dma⟩ (fdcMotorOn_bits hdrive).2.1
      (readyToRead_spinning w hdrive _) (atCylinder_cylinder _ _ _) hhead_lt hdrive
      (ht.symm ▸ hbuf)).weaken fun _ u w' h => ⟨h.1, h.2.1, ?_⟩
    rw [h.2.2, ht, htrack, hhead, hsector]
    rfl
  · obtain ⟨hptr, hbuf', w1, ⟨hready1, hmem⟩, rfl⟩ := h
    have hen : fdcMaskDorReset.getLsbD 2 = true := by decide
    exact ⟨hptr, hbuf', ⟨⟨hen, hready1.idle.phase, hready1.idle.finished, hready1.idle.irq⟩,
      hready1.dma⟩, hmem⟩

end

/-! ### A block device with one buffer -/

/-- The memory and the buffer that sectors are copied to. -/
structure BlockDevice where
  mem : Mem
  buf : BitVec 32
  reaches : DmaReaches buf

/-- Calls with a buffer the 8237 can fill and a track that fits into a byte. -/
inductive DiskCall where
  | setDmaAddr (pBuf : BitVec 32) (reaches : DmaReaches pBuf)
  | readSector (drive : Byte) (sectorLBA : BitVec 32)
      (inRange : drive < 4#8 → 0 ≤ sectorLBA.toInt ∧ sectorLBA.toInt < 9216)

/-- What a call makes of the memory and the buffer. -/
def BlockDevice.call (media : Media) (b : BlockDevice) : DiskCall → BlockDevice
  | .setDmaAddr pBuf reaches => { b with buf := pBuf, reaches := reaches }
  | .readSector drive sectorLBA _ =>
      if drive < 4#8 then
        { b with
          mem := storeSector b.mem b.buf.toNat
            (diskBlock media drive.toNat sectorLBA.toInt.toNat) }
      else b

/-- The pointer a read returns. -/
def BlockDevice.answer (b : BlockDevice) : DiskCall → Option (BitVec 32)
  | .setDmaAddr _ _ => none
  | .readSector drive _ _ => some (if drive < 4#8 then b.buf else 0#32)

def BlockDevice.calls (media : Media) (b : BlockDevice) (cs : List DiskCall) : BlockDevice :=
  cs.foldl (BlockDevice.call media) b

def BlockDevice.answers (media : Media) : BlockDevice → List DiskCall → List (BitVec 32)
  | _, [] => []
  | b, c :: cs => (b.answer c).toList ++ (b.call media c).answers media cs

/-- The driver's own functions. -/
def DiskCall.exec (dev : FdcDevice) : DiskCall → FdcM (Option (BitVec 32))
  | .setDmaAddr pBuf _ => do
      fdcSetDmaAddr pBuf
      return none
  | .readSector drive sectorLBA _ => do
      let ptr ← fdcReadSector dev drive sectorLBA
      return some ptr

def diskCalls (dev : FdcDevice) : List DiskCall → FdcM (List (BitVec 32))
  | [] => return []
  | c :: cs => do
      let ptr ← c.exec dev
      let ptrs ← diskCalls dev cs
      return ptr.toList ++ ptrs

/-- Driver, controllers and memory stand for the block device. -/
structure Represents (b : BlockDevice) (s : FdcState) (w : System) : Prop where
  buf : s.dmaBuf = b.buf
  mem : w.mem = b.mem
  ready : ReadyForDma w

section
variable {media : Media} {dev : FdcDevice} {b : BlockDevice} {s : FdcState} {w w' : System}

instance appends_exec (c : DiskCall) : AppendsLog (c.exec dev) := by
  cases c with
  | setDmaAddr pBuf =>
      exact appends_of_ok fun s => ⟨_, _, [], rfl, (List.append_nil _).symm⟩
  | readSector =>
      unfold DiskCall.exec
      infer_instance

instance appends_diskCalls (cs : List DiskCall) : AppendsLog (diskCalls dev cs) := by
  induction cs with
  | nil =>
      unfold diskCalls
      infer_instance
  | cons c cs ih =>
      unfold diskCalls
      infer_instance

/-- One call. -/
theorem exec_refines (working : dev.Working) (media : Media) (h : Represents b s w)
    (c : DiskCall) :
    OnController media s w (c.exec dev) fun ptr t w' =>
      ptr = b.answer c ∧ Represents (b.call media c) t w' := by
  cases c with
  | setDmaAddr pBuf reaches =>
      exact meets_of_quiet (t := { s with dmaBuf := pBuf }) rfl rfl ⟨rfl, rfl, h.mem, h.ready⟩
  | readSector drive sectorLBA inRange =>
      rw [BlockDevice.call, BlockDevice.answer]
      by_cases hdrive : drive < 4#8
      · obtain ⟨hpos, hlt⟩ := inRange hdrive
        have hbuf : DmaReaches s.dmaBuf := h.buf.symm ▸ b.reaches
        refine (readSector_spec working media s h.ready hdrive hpos hlt hbuf).bind
          fun ptr t w' hq => ?_
        obtain ⟨rfl, hbuf', hready, hmem⟩ := hq
        rw [if_pos hdrive, if_pos hdrive]
        refine meets_pure ⟨congrArg some h.buf, hbuf'.trans h.buf, ?_, hready⟩
        rw [hmem, h.mem, h.buf]
      · rw [if_neg hdrive, if_neg hdrive]
        refine meets_of_quiet (t := s) ?_ rfl ⟨rfl, h⟩
        rw [DiskCall.exec, run_bind_of_ok (fdcReadSector_invalid hdrive)]
        rfl

theorem diskCalls_refines (working : dev.Working) (media : Media) (h : Represents b s w)
    (cs : List DiskCall) :
    OnController media s w (diskCalls dev cs) fun ptrs t w' =>
      ptrs = b.answers media cs ∧ Represents (b.calls media cs) t w' := by
  induction cs generalizing b s w with
  | nil => exact meets_pure ⟨rfl, h⟩
  | cons c cs ih =>
      refine (exec_refines working media h c).bind fun ptr t w1 hc => ?_
      obtain ⟨rfl, hrep⟩ := hc
      refine (ih hrep).bind fun ptrs u w2 hcs => ?_
      obtain ⟨rfl, hrep'⟩ := hcs
      exact meets_pure ⟨rfl, hrep'⟩

/-- On a controller in DMA mode every sequence of calls is one of the block device: the
driver returns the same pointers, and the memory holds the same bytes. -/
theorem fdc_refines_block_device (working : dev.Working) (start : Represents b s w)
    (cs : List DiskCall) {es : List FdcEvent}
    (log : (finalState ((diskCalls dev cs).run s)).log = s.log ++ es)
    (takesPart : run (floppyStep media) w es = some w') :
    ∃ t, (diskCalls dev cs).run s = .ok (b.answers media cs) t ∧
      Represents (b.calls media cs) t w' := by
  obtain ⟨ptrs, t, hrun, rfl, hrep⟩ := diskCalls_refines working media start cs es w' log takesPart
  exact ⟨t, hrun, hrep⟩

/-- A disk in every drive that holds one sector, block 40. -/
def oneSector : Media := fun _ cyl head sector =>
  if cyl = 1 ∧ head = 0 ∧ sector = 5 then some fun i => BitVec.ofNat 8 i else none

def powerOn : System where
  dor := 0x0C#8
  nonDma := false
  cylinder := fun _ => 0#8
  phase := .command []
  finished := []
  irq := false
  dma := ⟨fun _ => ⟨0#16, 0#16, 0#8, 0#8, true⟩, false⟩
  mem := fun _ => 0xFF#8

def twoReads : List DiskCall :=
  [.setDmaAddr 0x10000#32 ⟨by decide, by decide⟩, .readSector 0#8 40#32 fun _ => by decide,
    .readSector 1#8 2879#32 fun _ => by decide]

/-- The second block is not on the disk, so that the buffer keeps the first. -/
theorem fdc_refines_block_device_twoReads :
    let dev := readyDevice fun n =>
      [0x20#8, 1#8, 0#8, 0#8, 0#8, 1#8, 0#8, 6#8, 2#8, 0x80#8, 0#8,
        0x25#8, 79#8, 0x45#8, 4#8, 0#8, 79#8, 1#8, 18#8, 2#8, 0x80#8, 0#8].getD n 0#8
    ∃ t, ∃ w' : System, (diskCalls dev twoReads).run fdcStart = .ok [0x10000#32, 0x10000#32] t ∧
      w'.mem 0x10007 = 7#8 := by
  intro dev
  have haccepts : (run (floppyStep oneSector) powerOn
      (finalState ((diskCalls dev twoReads).run fdcStart)).log).isSome = true := by decide +kernel
  obtain ⟨w', hw'⟩ := Option.isSome_iff_exists.mp haccepts
  let b : BlockDevice := ⟨powerOn.mem, 0x600#32, ⟨by decide, by decide⟩⟩
  have hstart : Represents b fdcStart powerOn := ⟨rfl, rfl, ⟨⟨rfl, rfl, rfl, rfl⟩, rfl⟩⟩
  have hworking : dev.Working := ⟨readyDevice_accepts _, fun _ => rfl⟩
  obtain ⟨t, hrun, hrep⟩ := fdc_refines_block_device hworking hstart twoReads
    (List.nil_append _).symm hw'
  refine ⟨t, w', hrun, ?_⟩
  rw [hrep.mem]
  decide +kernel

end

end Bros
