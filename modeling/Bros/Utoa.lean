import Bros.Stdlib
import Bros.Lib.CStrings

/-!
`utoa` writes the canonical numeral of its argument.

`IsNumeral` reads the characters of a text back, so that it does not depend on how they
were produced.
-/

namespace Bros
open ByteMemory CStrings Numerals

/-- A nonempty text of digits of the base, without leading zeros, that stands for `value`. -/
structure IsNumeral (base value : Nat) (text : List Byte) : Prop where
  ne_nil : text ≠ []
  digits : ∀ c ∈ text, c ∈ alphadigit.take base
  noLeadingZero : text.head? = some (charByte '0') → text = [charByte '0']
  value : positional base (text.map (alphadigit.idxOf ·)) = value

/-- Nothing goes wrong, the numeral with its terminator is all that is written, and these
are 11 bytes at most. -/
def PrintsUnsigned (value : BitVec 32) (base : Byte) : Prop :=
  ∃ text, IsNumeral base.toNat value.toNat text ∧ (text ++ [0#8]).length ≤ 11 ∧
    ∀ m str, utoa m value str base = .ok (storeBytes m str (text ++ [0#8]))

theorem mem_take_alphadigit {base d : Nat} (hd : d < base) (hbase : base ≤ 16) :
    alphadigit.getD d 0#8 ∈ alphadigit.take base := by
  have hlength : alphadigit.length = 16 := rfl
  have hget : (alphadigit.take base)[d]? = some (alphadigit.getD d 0#8) := by
    rw [List.getElem?_take_of_lt hd, List.getElem?_eq_getElem (by omega),
      List.getElem_eq_getD 0#8]
  exact List.mem_of_getElem? hget

theorem idxOf_alphadigit {d : Nat} (hd : d < 16) :
    alphadigit.idxOf (alphadigit.getD d 0#8) = d := by
  have hall : ∀ d < 16, alphadigit.idxOf (alphadigit.getD d 0#8) = d := by decide
  exact hall d hd

section
variable {base n : Nat}

theorem lt_of_mem_numeral (hbase : 1 < base) {d : Nat} (hd : d ∈ numeral base n) : d < base :=
  lt_of_mem_lowFirst hbase (List.mem_reverse.mp hd)

theorem idxOf_numeralBytes (hbase : 1 < base) (hle : base ≤ 16) :
    (numeralBytes base n).map (alphadigit.idxOf ·) = numeral base n := by
  rw [numeralBytes, List.map_map]
  refine (List.map_congr_left fun d hd => ?_).trans (List.map_id _)
  exact idxOf_alphadigit (Nat.lt_of_lt_of_le (lt_of_mem_numeral hbase hd) hle)

theorem numeralBytes_noNul (hbase : 1 < base) (hle : base ≤ 16) : 0#8 ∉ numeralBytes base n := by
  intro h
  obtain ⟨d, hd, hzero⟩ := List.mem_map.mp h
  have hne : ∀ d < 16, alphadigit.getD d 0#8 ≠ 0#8 := by decide
  exact hne d (Nat.lt_of_lt_of_le (lt_of_mem_numeral hbase hd) hle) hzero

theorem isNumeral_numeralBytes (hbase : 1 < base) (hle : base ≤ 16) :
    IsNumeral base n (numeralBytes base n) := by
  have hidx := idxOf_numeralBytes (n := n) hbase hle
  refine ⟨fun h => numeral_ne_nil (List.map_eq_nil_iff.mp h), ?_, ?_, ?_⟩
  · intro c hc
    obtain ⟨d, hd, hc⟩ := List.mem_map.mp hc
    rw [← hc]
    exact mem_take_alphadigit (lt_of_mem_numeral hbase hd) hle
  · intro hhead
    have hzero : (numeral base n).head? = some 0 := by
      rw [← hidx, List.head?_map, hhead]
      rfl
    rw [numeralBytes, numeral_of_head_zero hzero]
    rfl
  · rw [hidx, positional_numeral]

end

section
variable {base : Byte}

/-- Ten digits are enough for an `unsigned int`. -/
theorem length_lowFirst_unsigned (hbase : base = 10#8 ∨ base = 16#8) (value : BitVec 32) :
    (lowFirst base.toNat value.toNat).length ≤ 10 := by
  cases hbase with
  | inl h =>
      subst h
      exact length_lowFirst_le (by decide) (by decide) (Nat.lt_trans value.isLt (by decide))
  | inr h =>
      subst h
      exact length_lowFirst_le (by decide) (by decide) (Nat.lt_trans value.isLt (by decide))

theorem utoa_eq (hbase : base = 10#8 ∨ base = 16#8) (value : BitVec 32) (m : Mem) (str : Nat) :
    utoa m value str base =
      .ok (storeBytes m str (numeralBytes base.toNat value.toNat ++ [0#8])) := by
  obtain ⟨hlow, hhigh⟩ := base_bounds hbase
  have hlength := length_lowFirst_unsigned hbase value
  have hroom : ([] : List Byte).length + (lowFirst base.toNat value.toNat).length < 12 := by
    rw [List.length_nil]
    omega
  have hformat := formatDigits_eq hlow hhigh [] hroom m str
  rwa [List.reverse_nil, List.append_nil] at hformat

theorem length_numeralBytes (base n : Nat) :
    (numeralBytes base n).length = (lowFirst base n).length := by
  rw [numeralBytes, List.length_map, numeral, List.length_reverse]

theorem printsUnsigned (hbase : base = 10#8 ∨ base = 16#8) (value : BitVec 32) :
    PrintsUnsigned value base := by
  obtain ⟨hlow, hhigh⟩ := base_bounds hbase
  have hlength := length_lowFirst_unsigned hbase value
  refine ⟨_, isNumeral_numeralBytes hlow hhigh, ?_, utoa_eq hbase value⟩
  rw [List.length_append, List.length_singleton, length_numeralBytes]
  omega

/-- Two values that leave the same memory are equal. -/
theorem utoa_injective (hbase : base = 10#8 ∨ base = 16#8) (m : Mem) (str : Nat) :
    Function.Injective fun value => utoa m value str base := by
  intro value value' heq
  obtain ⟨hlow, hhigh⟩ := base_bounds hbase
  change utoa m value str base = utoa m value' str base at heq
  rw [utoa_eq hbase, utoa_eq hbase] at heq
  injection heq with heq
  have htext := storeBytes_terminated_inj (numeralBytes_noNul hlow hhigh)
    (numeralBytes_noNul hlow hhigh) heq
  apply BitVec.eq_of_toNat_eq
  calc value.toNat
    _ = positional base.toNat (numeral base.toNat value.toNat) := (positional_numeral _ _).symm
    _ = positional base.toNat (numeral base.toNat value'.toNat) := by
        rw [← idxOf_numeralBytes hlow hhigh, htext, idxOf_numeralBytes hlow hhigh]
    _ = value'.toNat := positional_numeral _ _

/-- Every value is printed as its numeral, and no two of them in the same way. -/
theorem unsigned_formatting (base : Byte) (kernelBase : base = 10#8 ∨ base = 16#8) :
    (∀ value, PrintsUnsigned value base) ∧
      ∀ m str, Function.Injective fun value => utoa m value str base :=
  ⟨printsUnsigned kernelBase, utoa_injective kernelBase⟩

theorem unsigned_formatting_hex :
    PrintsUnsigned 0xBEEF#32 16#8 ∧
      ∀ m str, Function.Injective fun value => utoa m value str 16#8 := by
  obtain ⟨hprints, hinjective⟩ := unsigned_formatting 16#8 (Or.inr rfl)
  exact ⟨hprints 0xBEEF#32, hinjective⟩

end

end Bros
