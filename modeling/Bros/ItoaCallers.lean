import Bros.IsrIrq
import Bros.Pit
import Bros.Printf

/-!
The buffers that are handed to `itoa`.

Both interrupt handlers pass an unsigned value on as an `int`. `CON_vsprintf` has the
largest buffer of the three.
-/

namespace Bros
open ByteMemory

/-- The size of `buf` in `ISR_UniversalHandler`. -/
def isrBufSize : Nat := 10

/-- `ISR_UniversalHandler` without a registered handler. -/
def isrUnhandled (m buf : Mem) (r : IsrRegisters) : Except CFault Mem := do
  let m := vgaClear m
  let buf ← itoa buf r.intNo 0 16#8
  let m := vgaWriteString m 1 2 (loadBytes buf 0 12) vgaColorWhite
  let buf ← itoa buf r.errCode 0 16#8
  return vgaWriteString m 1 3 (loadBytes buf 0 12) vgaColorWhite

/-- The callback has a result unless it negates `INT_MIN`. -/
theorem timerCallback_returns_iff (p : Pit) (m buf : Mem) :
    (∃ r, timerCallback p m buf = .ok r) ↔ timerTick p.ticks ≠ intMin := by
  rw [timerCallback]
  by_cases hmin : timerTick p.ticks = intMin
  · refine iff_of_false (fun h => ?_) (not_not.mpr hmin)
    obtain ⟨r, hr⟩ := h
    rw [hmin, itoa_intMin] at hr
    cases hr
  · refine iff_of_true ?_ hmin
    rw [itoa_eq_text (Or.inl rfl) hmin]
    exact ⟨_, rfl⟩

theorem isrUnhandled_returns_iff (m buf : Mem) (r : IsrRegisters) :
    (∃ m', isrUnhandled m buf r = .ok m') ↔ r.intNo ≠ intMin ∧ r.errCode ≠ intMin := by
  rw [isrUnhandled]
  by_cases hno : r.intNo = intMin
  · refine iff_of_false (fun h => ?_) fun h => h.1 hno
    obtain ⟨m', hm'⟩ := h
    rw [hno, itoa_intMin] at hm'
    cases hm'
  · rw [itoa_eq_text (Or.inr rfl) hno, and_iff_right hno]
    by_cases hcode : r.errCode = intMin
    · refine iff_of_false (fun h => ?_) (not_not.mpr hcode)
      obtain ⟨m', hm'⟩ := h
      simp only [bind, Except.bind, hcode, itoa_intMin] at hm'
      cases hm'
    · refine iff_of_true ?_ hcode
      simp only [bind, Except.bind, itoa_eq_text (Or.inr rfl) hcode]
      exact ⟨_, rfl⟩

/-- `_ticks` when `n` interrupts have come since the timer was set up. -/
def ticksAfter (n : Nat) : BitVec 32 := timerTick^[n] 0#32

theorem ticksAfter_eq (n : Nat) : ticksAfter n = BitVec.ofNat 32 n := by
  induction n with
  | zero => rfl
  | succ n ih =>
      rw [ticksAfter] at ih ⊢
      rw [Function.iterate_succ_apply', ih, timerTick, ← BitVec.ofNat_add]

/-- The text of the tick count in callback number `n` stays in its buffer. -/
def TimerFits (n : Nat) : Prop := ItoaFits timerBufSize (ticksAfter n) 10#8

/-- So do those of the vector and of the error code. -/
def IsrFits (r : IsrRegisters) : Prop :=
  ItoaFits isrBufSize r.intNo 16#8 ∧ ItoaFits isrBufSize r.errCode 16#8

theorem timerFits_iff (n : Nat) :
    TimerFits n ↔ n % 2 ^ 32 < 2 ^ 31 ∨ 2 ^ 32 - 10 ^ 9 < n % 2 ^ 32 := by
  have hlt := Nat.mod_lt n (show 0 < 2 ^ 32 by decide)
  rw [TimerFits, timerBufSize, itoaFits_eleven_iff, ticksAfter_eq, BitVec.toInt_eq_toNat_cond,
    BitVec.toNat_ofNat]
  split <;> omega

theorem isrFits_iff (r : IsrRegisters) :
    IsrFits r ↔ r.intNo ≠ intMin ∧ r.errCode ≠ intMin :=
  and_congr itoaFits_hex_iff itoaFits_hex_iff

/-- The callback that counts to a number its buffer is long enough for. -/
theorem TimerFits.returns {n : Nat} (h : TimerFits n) {p : Pit}
    (hticks : timerTick p.ticks = ticksAfter n) (m buf : Mem) :
    ∃ t, timerCallback p m buf = .ok t := by
  rw [timerCallback_returns_iff, hticks]
  intro hmin
  rw [TimerFits, timerBufSize, hmin, itoaFits_eleven_iff] at h
  exact absurd h (by decide)

theorem IsrFits.returns {r : IsrRegisters} (h : IsrFits r) (m buf : Mem) :
    ∃ m', isrUnhandled m buf r = .ok m' :=
  (isrUnhandled_returns_iff m buf r).mpr ((isrFits_iff r).mp h)

/-- The timer's buffer is too short for the numbers with ten digits and a sign; nothing is
long enough for `INT_MIN`, which `itoa` negates. A handler whose buffer is long enough returns. -/
theorem itoa_callers_fit_iff (n : Nat) (r : IsrRegisters) (value : BitVec 32) :
    (TimerFits n ↔ n % 2 ^ 32 < 2 ^ 31 ∨ 2 ^ 32 - 10 ^ 9 < n % 2 ^ 32) ∧
      (IsrFits r ↔ r.intNo ≠ intMin ∧ r.errCode ≠ intMin) ∧
      (ItoaFits bufSize value 10#8 ↔ value ≠ intMin) ∧
      (TimerFits n → ∀ p m buf, timerTick p.ticks = ticksAfter n →
        ∃ t, timerCallback p m buf = .ok t) ∧
      (IsrFits r → ∀ m buf, ∃ m', isrUnhandled m buf r = .ok m') :=
  ⟨timerFits_iff n, isrFits_iff r, itoaFits_decimal_iff,
    fun h _ m buf hticks => h.returns hticks m buf, fun h m buf => h.returns m buf⟩

/-- The tick behind `INT_MIN` needs twelve bytes. -/
theorem timer_buffer_overrun : ¬ TimerFits (2 ^ 31 + 1) := by
  rw [timerFits_iff]
  decide

end Bros
