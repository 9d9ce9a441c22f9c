import Bros.Utoa

/-!
The string `itoa` writes, and the room it takes.

`itoa` is not told how large its destination is. `ItoaFits` says that a destination of so
many bytes is large enough: the call is defined and nothing beside it changes.
-/

namespace Bros
open ByteMemory CStrings Numerals

def intMin : BitVec 32 := 0x80000000#32

/-- The string `itoa` writes. -/
def itoaString (value : BitVec 32) (base : Byte) : List Byte :=
  match itoa (fun _ => 0#8) value 0 base with
  | .ok m => untilNul (loadBytes m 0 13)
  | .error _ => []

def ItoaFits (capacity : Nat) (value : BitVec 32) (base : Byte) : Prop :=
  ∀ m str, ∃ m', itoa m value str base = .ok m' ∧
    ∀ a, a < str ∨ str + capacity ≤ a → m' a = m a

theorem toInt_intMin : intMin.toInt = -2 ^ 31 := by decide

section
variable {base : Byte} {value : BitVec 32}

theorem eq_intMin_iff : value = intMin ↔ value.toInt = -2 ^ 31 := by
  rw [← toInt_intMin]
  exact BitVec.toInt_inj.symm

theorem itoa_intMin (m : Mem) (str : Nat) (base : Byte) :
    itoa m intMin str base = .error .overflow := formatSigned_of_min toInt_intMin m str

/-- The numeral, and the sign behind it. -/
def itoaText (base : Nat) (value : BitVec 32) : List Byte :=
  numeralBytes base value.toInt.natAbs ++ if value.toInt < 0 then [charByte '-'] else []

theorem itoa_eq_text (hbase : base = 10#8 ∨ base = 16#8) (hmin : value ≠ intMin) (m : Mem)
    (str : Nat) :
    itoa m value str base = .ok (storeBytes m str (itoaText base.toNat value ++ [0#8])) := by
  by_cases hvalue : value.toInt < 0
  · rw [itoaText, if_pos hvalue]
    exact formatSigned_of_neg hbase (by decide) hvalue (mt eq_intMin_iff.mpr hmin) m str
  · rw [itoaText, if_neg hvalue, List.append_nil]
    exact formatSigned_of_nonneg hbase (by decide) (Int.not_lt.mp hvalue) m str

theorem itoaText_noNul (hbase : base = 10#8 ∨ base = 16#8) (value : BitVec 32) :
    0#8 ∉ itoaText base.toNat value := by
  obtain ⟨hlow, hhigh⟩ := base_bounds hbase
  rw [itoaText, List.mem_append, not_or]
  refine ⟨numeralBytes_noNul hlow hhigh, ?_⟩
  split
  · decide
  · exact List.not_mem_nil

theorem length_itoaText (base : Nat) (value : BitVec 32) :
    (itoaText base value).length =
      (lowFirst base value.toInt.natAbs).length + if value.toInt < 0 then 1 else 0 := by
  rw [itoaText, List.length_append, length_numeralBytes]
  split <;> rfl

theorem length_itoaText_le (hbase : base = 10#8 ∨ base = 16#8) (value : BitVec 32) :
    (itoaText base.toNat value).length ≤ 11 := by
  have hlength := length_lowFirst_int hbase (natAbs_toInt_le value)
  rw [length_itoaText]
  split <;> omega

theorem itoaString_eq (hbase : base = 10#8 ∨ base = 16#8) (hmin : value ≠ intMin) :
    itoaString value base = itoaText base.toNat value := by
  have hlength := length_itoaText_le hbase value
  obtain ⟨rest, hrest⟩ := loadBytes_terminated (fun _ => 0#8) 0
    (show (itoaText base.toNat value).length < 13 by omega)
  rw [itoaString, itoa_eq_text hbase hmin]
  simp only [hrest]
  exact untilNul_append (itoaText_noNul hbase value) rest

/-! ### Room -/

/-- A string that runs over its buffer has at least its terminator outside. -/
theorem itoaFits_iff (hbase : base = 10#8 ∨ base = 16#8) (capacity : Nat) :
    ItoaFits capacity value base ↔
      value ≠ intMin ∧ (itoaText base.toNat value).length < capacity := by
  by_cases hmin : value = intMin
  · refine iff_of_false (fun hfits => ?_) fun h => h.1 hmin
    obtain ⟨m', hrun, -⟩ := hfits (fun _ => 0#8) 0
    rw [hmin, itoa_intMin] at hrun
    cases hrun
  · rw [and_iff_right hmin]
    constructor
    · intro hfits
      by_contra hlong
      obtain ⟨m', hrun, hframe⟩ := hfits (fun _ => 1#8) 0
      rw [itoa_eq_text hbase hmin] at hrun
      injection hrun with hrun
      have hend := hframe (0 + (itoaText base.toNat value).length) (Or.inr (by omega))
      rw [← hrun, storeBytes, write_offset _ _ _ _ _ (by simp)] at hend
      simp at hend
    · intro hlength m str
      refine ⟨_, itoa_eq_text hbase hmin m str, fun a ha => ?_⟩
      rw [storeBytes]
      refine write_outside _ _ ?_
      rw [List.length_append, List.length_singleton]
      omega

/-- Eight digits, a sign and the terminator. -/
theorem itoaFits_hex_iff : ItoaFits 10 value 16#8 ↔ value ≠ intMin := by
  rw [itoaFits_iff (Or.inr rfl), and_iff_left]
  have hdigits : (lowFirst (16#8).toNat value.toInt.natAbs).length ≤ 8 :=
    length_lowFirst_le (by decide) (by decide)
      (Nat.lt_of_le_of_lt (natAbs_toInt_le value) (by decide))
  rw [length_itoaText]
  split <;> omega

theorem itoaFits_decimal_iff : ItoaFits 13 value 10#8 ↔ value ≠ intMin := by
  rw [itoaFits_iff (Or.inl rfl), and_iff_left]
  have := length_itoaText_le (Or.inl rfl) value
  omega

/-- Behind its sign a negative number has nine digits left. -/
theorem itoaFits_eleven_iff : ItoaFits 11 value 10#8 ↔ -10 ^ 9 < value.toInt := by
  have hlow := BitVec.le_toInt value
  have hhigh := BitVec.toInt_lt (x := value)
  have hten := length_lowFirst_int (Or.inl rfl) (natAbs_toInt_le value)
  have hnine : (lowFirst (10#8).toNat value.toInt.natAbs).length ≤ 9 ↔
      value.toInt.natAbs < 10 ^ 9 := by
    rw [lowFirst]
    split
    · next hzero =>
        rw [hzero]
        decide
    · exact Nat.digits_length_le_iff (by decide) _
  rw [itoaFits_iff (Or.inl rfl), length_itoaText, Ne, eq_intMin_iff]
  split <;> omega

end

end Bros
