import Bros.Fdc

/-!
The DMA transfer that `_fdc_dma_init` programs.

The 8237 holds 24 address bits, and only the low 16 of them count; the buffer pointer is
taken apart without a look at either limit.
-/

namespace Bros
open ByteMemory Dma8237

section
variable (d : Controller) (buf : BitVec 32)

theorem fdcDmaInit_writes :
    fdcDmaInit buf fdcDmaBufSize =
      [(0x0A#16, 6#8), (0x0C#16, 0xFF#8), (0x04#16, (buf &&& 0xFF#32).setWidth 8),
        (0x04#16, (buf >>> 8 &&& 0xFF#32).setWidth 8),
        (0x81#16, (buf >>> 16 &&& 0xFF#32).setWidth 8), (0x0C#16, 0xFF#8), (0x05#16, 0xFF#8),
        (0x05#16, 1#8), (0x0A#16, 6#8), (0x0B#16, 0x56#8), (0x0A#16, 2#8), (0x0A#16, 2#8)] := rfl

/-- The channel as `_fdc_dma_init` leaves it. -/
def fdcChannel : Channel :=
  { address := (buf >>> 8 &&& 0xFF#32).setWidth 8 ++ (buf &&& 0xFF#32).setWidth 8
    count := 511#16
    page := (buf >>> 16 &&& 0xFF#32).setWidth 8
    mode := 0x56#8
    masked := false }

/-- Whatever channel 2 held before. -/
theorem fdcDmaInit_channel :
    (d.run (fdcDmaInit buf fdcDmaBufSize)).channel (selected fdcDmaChannel) = fdcChannel buf := by
  rw [fdcDmaInit_writes, show selected fdcDmaChannel = 2 from rfl]
  simp only [run_cons, run_nil]
  rw [portWrite_of_decode (r := .singleMask) rfl, portWrite_of_decode (r := .singleMask) rfl,
    portWrite_of_decode (r := .mode) rfl, portWrite_of_decode (r := .singleMask) rfl,
    portWrite_of_decode (r := .count 2) rfl, portWrite_of_decode (r := .count 2) rfl,
    portWrite_of_decode (r := .clearFlipFlop) rfl, portWrite_of_decode (r := .page 2) rfl,
    portWrite_of_decode (r := .address 2) rfl, portWrite_of_decode (r := .address 2) rfl,
    portWrite_of_decode (r := .clearFlipFlop) rfl, portWrite_of_decode (r := .singleMask) rfl]
  rw [write_singleMask_channel (c := 2) _ rfl, write_singleMask_channel (c := 2) _ rfl,
    write_mode_channel (c := 2) _ rfl, write_singleMask_channel (c := 2) _ rfl,
    (write_count_word _ _ _ _ _).1, write_page_channel, (write_address_word _ _ _ _ _).1]
  rfl

/-- An unmasked transfer of single bytes from the device to `buf`, `buf + 1`, and so on. -/
structure FillsBuffer (ch : Channel) (buf : BitVec 32) : Prop where
  length : ch.length = 512
  addresses : ∀ i < 512, ch.byteAddress i = buf.toNat + i
  direction : ch.transferType = .deviceToMemory
  service : ch.serviceMode = .single
  unmasked : ch.masked = false

/-- After `fdc_set_dma_addr(buf)` the transfer that `_fdc_dma_init` programs into any
controller fills `buf`. -/
def DmaFillsBuffer : Prop :=
  ∀ s t, (fdcSetDmaAddr buf).run s = .ok () t →
    FillsBuffer ((d.run (fdcDmaInit t.dmaBuf fdcDmaBufSize)).channel (selected fdcDmaChannel)) buf

theorem dmaFillsBuffer_iff_channel : DmaFillsBuffer d buf ↔ FillsBuffer (fdcChannel buf) buf := by
  constructor
  · intro hfills
    have hfill := hfills ⟨0, 0, 0, 0, 0#32, []⟩ ⟨0, 0, 0, 0, buf, []⟩ rfl
    rw [fdcDmaInit_channel] at hfill
    exact hfill
  · intro hfills s t ht
    injection ht with _ ht
    rw [fdcDmaInit_channel, ← ht]
    exact hfills

theorem fdcChannel_mode :
    (fdcChannel buf).transferType = .deviceToMemory ∧ (fdcChannel buf).serviceMode = .single := by
  have hmode : (fdcChannel buf).mode = 0x56#8 := rfl
  rw [Channel.transferType, Channel.serviceMode, hmode]
  decide

theorem fdcChannel_addresses_iff :
    (∀ i < 512, (fdcChannel buf).byteAddress i = buf.toNat + i) ↔
      buf.toNat < 2 ^ 24 ∧ buf.toNat % 2 ^ 16 + 511 < 2 ^ 16 := by
  have hlt := buf.isLt
  have hinc : (fdcChannel buf).decrements = false := by
    change (0x56#8).getLsbD 5 = false
    decide
  have hpage : (fdcChannel buf).page.toNat = buf.toNat / 2 ^ 16 % 2 ^ 8 :=
    toNat_shifted_byte (by decide) buf 16
  have haddress : (fdcChannel buf).address.toNat = buf.toNat % 2 ^ 16 :=
    toNat_two_bytes (by decide) buf
  rw [byteAddress_consecutive_iff hinc (by decide) (by decide), hpage, haddress]
  omega

/-- The transfer fills the buffer exactly when the buffer lies below 16 MiB and inside one
64 KiB page. -/
theorem fdc_dma_fills_buffer_iff :
    DmaFillsBuffer d buf ↔ buf.toNat < 2 ^ 24 ∧ buf.toNat % 2 ^ 16 + 511 < 2 ^ 16 := by
  rw [dmaFillsBuffer_iff_channel, ← fdcChannel_addresses_iff]
  constructor
  · exact fun hfills => hfills.addresses
  · intro haddresses
    obtain ⟨hdirection, hservice⟩ := fdcChannel_mode buf
    exact ⟨rfl, haddresses, hdirection, hservice, rfl⟩

end

/-- A buffer across a page boundary: byte 256 goes to the start of the page. -/
theorem fdc_dma_wraps_in_page :
    ¬ DmaFillsBuffer ⟨fun _ => ⟨0#16, 0#16, 0#8, 0#8, true⟩, false⟩ 0x1FF00#32 := by
  rw [dmaFillsBuffer_iff_channel]
  intro hfills
  have hbyte := hfills.addresses 256 (by decide)
  revert hbyte
  decide

end Bros
