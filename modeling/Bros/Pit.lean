import Bros.Dma
import Bros.Stdlib
import Bros.Vga
import Bros.Lib.Timer8253

/-!
The interval timer of `arch/x86/PIT.c`.

`PIT_set_timer_freq` narrows the quotient to 16 bits; the device reads 0 as 65536. What
a quotient outside the range of the device becomes is left to these two.
-/

namespace Bros
open ByteMemory Timer8253

def pitFreq : Nat := 1193180

def pitRegCounter0 : Port := 0x40#16
def pitRegCmd : Port := 0x43#16

def pitOcwBincountBinary : Byte := 0#8
def pitOcwModeSquarewavegen : Byte := 6#8
def pitOcwRlData : Byte := 0x30#8
def pitOcwCounter0 : Byte := 0#8

/-- `_ticks`, and the port writes so far. -/
structure Pit where
  ticks : BitVec 32
  writes : List PortWrite

def pitDivisor (freq : BitVec 32) : BitVec 16 := (BitVec.ofNat 32 pitFreq / freq).setWidth 16

def pitSetTimerFreq (p : Pit) (freq : BitVec 32) : Pit :=
  if freq = 0#32 then p
  else
    let divisor := pitDivisor freq
    let l := (divisor &&& 0xFF#16).setWidth 8
    let h := (divisor >>> 8 &&& 0xFF#16).setWidth 8
    { ticks := 0#32
      writes := p.writes ++
        [(pitRegCmd, pitOcwBincountBinary ||| pitOcwModeSquarewavegen ||| pitOcwRlData |||
            pitOcwCounter0),
          (pitRegCounter0, l), (pitRegCounter0, h)] }

/-- `_ticks++` -/
def timerTick (ticks : BitVec 32) : BitVec 32 := ticks + 1#32

/-- The size of `buf` in `timer_callback`. -/
def timerBufSize : Nat := 11

/-- `itoa` never writes more than 12 bytes. -/
def timerCallback (p : Pit) (m buf : Mem) : Except CFault (Pit × Mem) := do
  let ticks := timerTick p.ticks
  let buf ← itoa buf ticks 0 10#8
  return ({ p with ticks }, vgaWriteString m 70 0 (loadBytes buf 0 12) vgaColorBrightGreen)

/-! ### The reload value -/

/-- The period of the timer interrupts after the writes for `freq`. -/
def programmedPeriod (d : Controller) (freq : BitVec 32) : Nat :=
  ((d.run (pitSetTimerFreq ⟨0#32, []⟩ freq).writes).counter systemTimer).period

/-- Whatever the timer held, its period is the quotient, clamped to what it can hold. -/
def ProgramsClamped (freq : BitVec 32) : Prop :=
  ∀ d, programmedPeriod d freq = max 1 (min (2 ^ 16) (pitFreq / freq.toNat))

theorem bytes_append (w : BitVec 16) :
    (w >>> 8 &&& 0xFF#16).setWidth 8 ++ (w &&& 0xFF#16).setWidth 8 = w := by
  apply BitVec.eq_of_toNat_eq
  rw [toNat_two_bytes (by decide), Nat.mod_eq_of_lt w.isLt]

theorem run_counter (d : Controller) {freq : BitVec 32} (h : freq ≠ 0#32) :
    (d.run (pitSetTimerFreq ⟨0#32, []⟩ freq).writes).counter systemTimer =
      { control := 0x36#8, low := none, reload := pitDivisor freq } := by
  rw [pitSetTimerFreq, if_neg h]
  change (((d.write .control 0x36#8).write (.counter 0) _).write (.counter 0) _).counter 0 = _
  rw [write_data_counter, write_data_counter, write_control_counter d (c := 0) rfl,
    command_data_data _ rfl, bytes_append]

theorem toNat_pitDivisor (freq : BitVec 32) :
    (pitDivisor freq).toNat = pitFreq / freq.toNat % 2 ^ 16 := by
  rw [pitDivisor, BitVec.toNat_setWidth, BitVec.toNat_udiv, BitVec.toNat_ofNat,
    Nat.mod_eq_of_lt (show pitFreq < 2 ^ 32 by decide)]

theorem programmedPeriod_eq (d : Controller) {freq : BitVec 32} (h : freq ≠ 0#32) :
    programmedPeriod d freq =
      if pitFreq / freq.toNat % 2 ^ 16 = 0 then 2 ^ 16 else pitFreq / freq.toNat % 2 ^ 16 := by
  rw [programmedPeriod, run_counter d h, Counter.period]
  have hzero : pitDivisor freq = 0#16 ↔ pitFreq / freq.toNat % 2 ^ 16 = 0 := by
    rw [← toNat_pitDivisor, ← BitVec.toNat_inj]
    rfl
  exact if_congr hzero rfl (toNat_pitDivisor freq)

/-- The frequencies whose quotient the device can hold. -/
def Programmable (freq : BitVec 32) : Prop := 19 ≤ freq.toNat ∧ freq.toNat ≤ pitFreq

theorem quotient_bounds {f : Nat} (hlow : 19 ≤ f) (hhigh : f ≤ pitFreq) :
    1 ≤ pitFreq / f ∧ pitFreq / f < 2 ^ 16 := by
  constructor
  · exact Nat.div_pos hhigh (by omega)
  · have hle := Nat.div_le_div_left (a := pitFreq) hlow (by decide)
    exact Nat.lt_of_le_of_lt hle (by decide)

/-- Below 19 Hz no quotient has its low 16 bits zero. -/
theorem quotient_low {f : Nat} (hpos : 0 < f) (hlow : f < 19) :
    2 ^ 16 < pitFreq / f ∧ pitFreq / f % 2 ^ 16 ≠ 0 := by
  have hall : ∀ f < 19, 0 < f → 2 ^ 16 < pitFreq / f ∧ pitFreq / f % 2 ^ 16 ≠ 0 := by
    decide +kernel
  exact hall f hlow hpos

theorem programmedPeriod_of_programmable (d : Controller) {freq : BitVec 32}
    (h : Programmable freq) : programmedPeriod d freq = pitFreq / freq.toNat := by
  obtain ⟨hpos, hlt⟩ := quotient_bounds h.1 h.2
  have hne : freq ≠ 0#32 := by
    intro hzero
    have hlow := h.1
    rw [hzero] at hlow
    exact absurd hlow (by decide)
  rw [programmedPeriod_eq d hne, Nat.mod_eq_of_lt hlt, if_neg (by omega)]

theorem programsClamped_iff {freq : BitVec 32} (h : freq ≠ 0#32) :
    ProgramsClamped freq ↔ Programmable freq := by
  have hpos : 0 < freq.toNat := by
    have := mt BitVec.eq_of_toNat_eq h
    exact Nat.pos_of_ne_zero this
  constructor
  · intro hclamped
    have hperiod := hclamped ⟨fun _ => ⟨0#8, none, 0#16⟩⟩
    rw [programmedPeriod_eq _ h] at hperiod
    by_contra hnot
    by_cases hlow : 19 ≤ freq.toNat
    · have hzero : pitFreq / freq.toNat = 0 :=
        Nat.div_eq_of_lt (Nat.lt_of_not_le fun hle => hnot ⟨hlow, hle⟩)
      rw [hzero] at hperiod
      exact absurd hperiod (by decide)
    · obtain ⟨hlarge, hbits⟩ := quotient_low hpos (Nat.lt_of_not_le hlow)
      have hmod := Nat.mod_lt (pitFreq / freq.toNat) (show 0 < 2 ^ 16 by decide)
      rw [if_neg hbits] at hperiod
      omega
  · intro hprogrammable d
    obtain ⟨hone, hlt⟩ := quotient_bounds hprogrammable.1 hprogrammable.2
    rw [programmedPeriod_of_programmable d hprogrammable]
    omega

/-- The period is the clamped quotient exactly from 19 Hz to the input frequency, and there
a higher frequency never has a longer period. -/
theorem pit_period_clamped_iff (freq : BitVec 32) (nonzero : freq ≠ 0#32) :
    (ProgramsClamped freq ↔ Programmable freq) ∧
      ∀ d freq', Programmable freq → Programmable freq' → freq.toNat ≤ freq'.toNat →
        programmedPeriod d freq' ≤ programmedPeriod d freq := by
  refine ⟨programsClamped_iff nonzero, fun d freq' h h' hle => ?_⟩
  rw [programmedPeriod_of_programmable d h, programmedPeriod_of_programmable d h']
  exact Nat.div_le_div_left hle (by have := h.1; omega)

theorem pit_period_clamped_hundred :
    ProgramsClamped 100#32 ∧
      ∀ d, programmedPeriod d 1000#32 ≤ programmedPeriod d 100#32 := by
  have hhundred : Programmable 100#32 := ⟨by decide, by decide⟩
  have hthousand : Programmable 1000#32 := ⟨by decide, by decide⟩
  obtain ⟨hclamped, hmonotone⟩ := pit_period_clamped_iff 100#32 (by decide)
  exact ⟨hclamped.mpr hhundred, fun d => hmonotone d 1000#32 hhundred hthousand (by decide)⟩

/-- The 1 Hz of `_start` become 88 Hz. -/
theorem pit_one_hertz_not_clamped : ¬ ProgramsClamped 1#32 := by
  rw [programsClamped_iff (by decide), Programmable]
  decide

end Bros
