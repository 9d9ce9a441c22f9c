import Bros.FdcAddress
import Bros.Lib.Nibbles

/-!
The parameters that `_fdc_drive_data` programs.

The second parameter byte is the value of a conditional: `<<` and `|` bind tighter than `?:`,
so that head load time and DMA flag together are only its test.
-/

namespace Bros
open ByteMemory Programs

/-- What the controller reads from the two bytes of a `SPECIFY`. -/
structure DecodesSpecify (stepRate loadTime unloadTime : Byte) (dma : Bool)
    (first second : Byte) : Prop where
  stepRate : first.toNat / 16 = stepRate.toNat
  unloadTime : first.toNat % 16 = unloadTime.toNat
  loadTime : second.toNat / 2 = loadTime.toNat
  nonDma : second.getLsbD 0 = !dma

/-- The two bytes behind the opcode stand for the parameters. -/
def SpecifyFaithful (stepRate loadTime unloadTime : Byte) (dma : Bool) : Prop :=
  ∀ dev s t, (fdcDriveData dev stepRate loadTime unloadTime dma).run s = .ok () t →
    ∃ first second, t.sent = s.sent ++ [fdcCmdSpecify, first, second] ∧
      DecodesSpecify stepRate loadTime unloadTime dma first second

def specifyFirst (stepRate unloadTime : Byte) : Byte :=
  (stepRate &&& 0xF#8) <<< 4 ||| unloadTime &&& 0xF#8

def specifySecond (loadTime : Byte) (dma : Bool) : Byte :=
  if loadTime.setWidth 32 <<< 1 ||| (if dma then 1#32 else 0#32) ≠ 0#32 then 1#8 else 0#8

theorem specifyFirst_inj {stepRate unloadTime stepRate' unloadTime' : Byte} :
    specifyFirst stepRate unloadTime = specifyFirst stepRate' unloadTime' ↔
      stepRate.toNat % 16 = stepRate'.toNat % 16 ∧
        unloadTime.toNat % 16 = unloadTime'.toNat % 16 := by
  rw [← BitVec.toNat_inj, specifyFirst, specifyFirst, toNat_nibbles, toNat_nibbles]
  omega

/-- The conditional has a nonzero test unless both of its parts are zero. -/
theorem specifySecond_eq (loadTime : Byte) (dma : Bool) :
    specifySecond loadTime dma = if loadTime = 0#8 ∧ dma = false then 0#8 else 1#8 := by
  have hzero : loadTime.setWidth 32 <<< 1 = 0#32 ↔ loadTime = 0#8 := by
    rw [← BitVec.toNat_inj, ← BitVec.toNat_inj, BitVec.toNat_shiftLeft, BitVec.toNat_setWidth,
      Nat.shiftLeft_eq]
    change loadTime.toNat % 2 ^ 32 * 2 ^ 1 % 2 ^ 32 = 0 ↔ loadTime.toNat = 0
    have := loadTime.isLt
    omega
  have hflag : (if dma then 1#32 else 0#32) = 0#32 ↔ dma = false := by cases dma <;> decide
  have htest : loadTime.setWidth 32 <<< 1 ||| (if dma then 1#32 else 0#32) ≠ 0#32 ↔
      ¬ (loadTime = 0#8 ∧ dma = false) := by
    rw [ne_eq, BitVec.or_eq_zero_iff, hzero, hflag]
  unfold specifySecond
  by_cases hboth : loadTime = 0#8 ∧ dma = false
  · rw [if_pos hboth, if_neg fun h => htest.mp h hboth]
  · rw [if_neg hboth, if_pos (htest.mpr hboth)]

theorem specifySecond_inj {loadTime loadTime' : Byte} {dma dma' : Bool} :
    specifySecond loadTime dma = specifySecond loadTime' dma' ↔
      (loadTime = 0#8 ∧ dma = false ↔ loadTime' = 0#8 ∧ dma' = false) := by
  rw [specifySecond_eq, specifySecond_eq]
  by_cases h : loadTime = 0#8 ∧ dma = false <;>
    by_cases h' : loadTime' = 0#8 ∧ dma' = false <;> simp [h, h']

/-- For no parameters do the bytes stand for them. -/
theorem not_decodesSpecify (stepRate loadTime unloadTime : Byte) (dma : Bool) :
    ¬ DecodesSpecify stepRate loadTime unloadTime dma (specifyFirst stepRate unloadTime)
      (specifySecond loadTime dma) := by
  intro h
  have hload := h.loadTime
  have hdma := h.nonDma
  rw [specifySecond_eq] at hload hdma
  by_cases hzero : loadTime = 0#8
  · subst hzero
    revert hdma
    cases dma <;> decide
  · rw [if_neg fun hboth => hzero hboth.1] at hload
    exact hzero (BitVec.eq_of_toNat_eq hload.symm)

/-- Whatever the status register says, the three bytes are handed over. -/
theorem fdcDriveData_sent {dev : FdcDevice} {s t : FdcState}
    {stepRate loadTime unloadTime : Byte} {dma : Bool}
    (h : (fdcDriveData dev stepRate loadTime unloadTime dma).run s = .ok () t) :
    t.sent = s.sent ++ [fdcCmdSpecify, specifyFirst stepRate unloadTime,
      specifySecond loadTime dma] :=
  (sends_issue (.specify stepRate loadTime unloadTime dma)).ok h

theorem not_specifyFaithful (stepRate loadTime unloadTime : Byte) (dma : Bool) :
    ¬ SpecifyFaithful stepRate loadTime unloadTime dma := by
  intro hfaithful
  have hrun : (fdcDriveData (readyDevice fun _ => 0#8) stepRate loadTime unloadTime dma).run
      fdcStart = .ok () _ := fdcIssue_run _
  obtain ⟨first, second, hsent, hdecodes⟩ := hfaithful _ _ _ hrun
  have hbytes := (fdcDriveData_sent hrun).symm.trans hsent
  obtain ⟨rfl, rfl⟩ : specifyFirst stepRate unloadTime = first ∧
      specifySecond loadTime dma = second := by simpa using hbytes
  exact not_decodesSpecify stepRate loadTime unloadTime dma hdecodes

/-- No parameters are programmed faithfully: the head load time survives only as whether it
is zero, and only without DMA. -/
theorem specify_never_faithful (stepRate loadTime unloadTime : Byte) (dma : Bool)
    (stepRate' loadTime' unloadTime' : Byte) (dma' : Bool) :
    ¬ SpecifyFaithful stepRate loadTime unloadTime dma ∧
      ((FdcCommand.specify stepRate loadTime unloadTime dma).bytes =
          (FdcCommand.specify stepRate' loadTime' unloadTime' dma').bytes ↔
        (stepRate.toNat % 16 = stepRate'.toNat % 16 ∧
          unloadTime.toNat % 16 = unloadTime'.toNat % 16) ∧
        (loadTime = 0#8 ∧ dma = false ↔ loadTime' = 0#8 ∧ dma' = false)) := by
  refine ⟨not_specifyFaithful stepRate loadTime unloadTime dma, ?_⟩
  rw [← specifyFirst_inj, ← specifySecond_inj]
  change [fdcCmdSpecify, specifyFirst stepRate unloadTime, specifySecond loadTime dma] =
    [fdcCmdSpecify, specifyFirst stepRate' unloadTime', specifySecond loadTime' dma'] ↔ _
  simp

/-- The parameters of `fdc_init` go out as `DF 01`. -/
theorem specify_drops_load_time : ¬ SpecifyFaithful 13#8 1#8 15#8 true :=
  not_specifyFaithful 13#8 1#8 15#8 true

end Bros
