import Bros.Lib.Memory
import Bros.Lib.Numerals

/-!
Numbers as text: `utoa`, `itoa` and `ltoa` of `lib/stdlib.c`.

`int` and `long` have 32 bits. Undefined behaviour is an error, and so is an index outside
the sixteen digits or the scratch buffer. The scratch buffer is the list of what `buf[i++]`
has stored, so that `i` is its length.
-/

namespace Bros
open ByteMemory Numerals

inductive CFault where
  | overflow
  | zeroDivisor
  | digitTable
  | scratch
deriving DecidableEq

/-- A value that has to fit into `int`. -/
def checkedInt (x : Int) : Except CFault Int :=
  if -2 ^ 31 ≤ x ∧ x < 2 ^ 31 then .ok x else .error .overflow

def charByte (c : Char) : Byte := BitVec.ofNat 8 c.toNat

def alphadigit : List Byte :=
  ['0', '1', '2', '3', '4', '5', '6', '7', '8', '9', 'A', 'B', 'C', 'D', 'E', 'F'].map charByte

def digitAt (r : Int) : Except CFault Byte :=
  if 0 ≤ r ∧ r < 16 then .ok (alphadigit.getD r.toNat 0#8) else .error .digitTable

/-- The loop of `strcpy_r` with `n` rounds left, and the terminator. -/
def strcpyRLoop (src : List Byte) (dst size : Nat) : Nat → Nat → Mem → Except CFault Mem
  | 0, k, m => .ok (store8 m (dst + k) 0#8)
  | n + 1, k, m =>
      match src[size - k]? with
      | none => .error .scratch
      | some c => strcpyRLoop src dst size n (k + 1) (store8 m (dst + k) c)

def strcpyR (src : List Byte) (m : Mem) (dst size : Nat) : Except CFault Mem :=
  strcpyRLoop src dst size (size + 1) 0 m

/-- The `do ... while` of the three functions, with room for so many more characters. A
quotient by a byte does not overflow. -/
def digitsLoop (base : Int) : Nat → Int → List Byte → Except CFault (List Byte)
  | 0, _, _ => .error .scratch
  | room + 1, value, buf =>
      if base = 0 then .error .zeroDivisor
      else do
        let c ← digitAt (value.tmod base)
        if 0 < value.tdiv base then digitsLoop base room (value.tdiv base) (buf ++ [c])
        else return buf ++ [c]

/-- From the `do` to the end, with a scratch buffer of `capacity` bytes. -/
def formatDigits (capacity : Nat) (m : Mem) (value : Int) (str : Nat) (base : Byte)
    (buf : List Byte) : Except CFault Mem := do
  let buf ← digitsLoop base.toNat (capacity - buf.length) value buf
  if buf.length < capacity then strcpyR (buf ++ [0#8]) m str (buf.length - 1)
  else throw .scratch

def utoa (m : Mem) (value : BitVec 32) (str : Nat) (base : Byte) : Except CFault Mem :=
  formatDigits 12 m value.toNat str base []

/-- The body that `itoa` and `ltoa` share: the sign goes in first. -/
def formatSigned (capacity : Nat) (m : Mem) (value : BitVec 32) (str : Nat) (base : Byte) :
    Except CFault Mem :=
  if value.toInt < 0 then do
    let value ← checkedInt (-value.toInt)
    formatDigits capacity m value str base [charByte '-']
  else formatDigits capacity m value.toInt str base []

def itoa : Mem → BitVec 32 → Nat → Byte → Except CFault Mem := formatSigned 13

def ltoa : Mem → BitVec 32 → Nat → Byte → Except CFault Mem := formatSigned 21

/-- The characters of a numeral. -/
def numeralBytes (base n : Nat) : List Byte :=
  (numeral base n).map fun d => alphadigit.getD d 0#8

/-- An optional sign and the numeral of the absolute value. -/
def signedBytes (base : Byte) (value : BitVec 32) : List Byte :=
  (if value.toInt < 0 then [charByte '-'] else []) ++ numeralBytes base.toNat value.toInt.natAbs

/-- Nothing goes wrong, and the numeral with its terminator is all that is written. -/
def FormatsSigned (format : Mem → BitVec 32 → Nat → Byte → Except CFault Mem)
    (value : BitVec 32) (base : Byte) : Prop :=
  ∀ m str, format m value str base = .ok (storeBytes m str (signedBytes base value ++ [0#8]))

/-! ### The reversing copy -/

theorem strcpyRLoop_eq {src : List Byte} {dst size n k : Nat} (m : Mem) (hk : n + k = size + 1)
    (hsize : size < src.length) :
    strcpyRLoop src dst size n k m =
      .ok (storeBytes m (dst + k) ((src.take n).reverse ++ [0#8])) := by
  induction n generalizing k m with
  | zero =>
      rw [List.take_zero, List.reverse_nil, List.nil_append, storeBytes_cons, storeBytes_nil,
        strcpyRLoop]
  | succ n ih =>
      have hindex : size - k = n := by omega
      have hget : src[size - k]? = some src[n] := by
        rw [hindex]
        exact List.getElem?_eq_getElem (by omega)
      rw [strcpyRLoop, hget]
      simp only []
      rw [ih _ (by omega), List.take_succ_eq_append_getElem (by omega), List.reverse_append,
        List.reverse_singleton, List.singleton_append, List.cons_append, storeBytes_cons,
        Nat.add_assoc]

/-- The characters come out in the opposite order. -/
theorem strcpyR_eq {buf : List Byte} (m : Mem) (str : Nat) (hbuf : buf ≠ []) :
    strcpyR (buf ++ [0#8]) m str (buf.length - 1) =
      .ok (storeBytes m str (buf.reverse ++ [0#8])) := by
  have hlength := List.length_pos_iff.mpr hbuf
  have hsize : buf.length - 1 + 1 = buf.length := by omega
  have hsrc : buf.length - 1 < (buf ++ [0#8]).length := by
    rw [List.length_append, List.length_singleton]
    omega
  rw [strcpyR, strcpyRLoop_eq m (Nat.add_zero _) hsrc, hsize, List.take_left, Nat.add_zero]

/-! ### The digits -/

theorem digitAt_natCast {d : Nat} (hd : d < 16) :
    digitAt (d : Int) = .ok (alphadigit.getD d 0#8) := by
  rw [digitAt, if_pos (by omega), Int.toNat_natCast]

/-- While there is room, the loop stores the digits least significant first. -/
theorem digitsLoop_eq {base : Nat} (hbase : 1 < base) (hle : base ≤ 16) {room n : Nat}
    (hroom : (lowFirst base n).length ≤ room) (buf : List Byte) :
    digitsLoop base room n buf =
      .ok (buf ++ (lowFirst base n).map fun d => alphadigit.getD d 0#8) := by
  induction room generalizing n buf with
  | zero => exact absurd (List.eq_nil_of_length_eq_zero (Nat.le_zero.mp hroom)) lowFirst_ne_nil
  | succ room ih =>
      have hzero : ¬ (base : Int) = 0 := by omega
      have hmod : (n : Int).tmod base = (n % base : Nat) := rfl
      have hdiv : (n : Int).tdiv base = (n / base : Nat) := rfl
      have hdigit : n % base < 16 := Nat.lt_of_lt_of_le (Nat.mod_lt _ (by omega)) hle
      rw [lowFirst_step hbase] at hroom ⊢
      rw [digitsLoop, if_neg hzero, hmod, hdiv, digitAt_natCast hdigit]
      by_cases hrest : n / base = 0
      · have hdone : ¬ (0 : Int) < (n / base : Nat) := by omega
        simp only [if_pos hrest, List.map_cons, List.map_nil]
        exact if_neg hdone
      · have hmore : (0 : Int) < (n / base : Nat) :=
          Int.natCast_pos.mpr (Nat.pos_of_ne_zero hrest)
        rw [if_neg hrest, List.length_cons] at hroom
        simp only [if_neg hrest, List.map_cons]
        refine (if_pos hmore).trans ?_
        rw [ih (by omega), List.append_assoc]
        rfl

/-- What is in the scratch buffer before the digits comes out behind them. -/
theorem formatDigits_eq {base : Byte} (hbase : 1 < base.toNat) (hle : base.toNat ≤ 16)
    {capacity n : Nat} (buf : List Byte)
    (hroom : buf.length + (lowFirst base.toNat n).length < capacity) (m : Mem) (str : Nat) :
    formatDigits capacity m n str base buf =
      .ok (storeBytes m str (numeralBytes base.toNat n ++ buf.reverse ++ [0#8])) := by
  have hdigits : digitsLoop base.toNat (capacity - buf.length) n buf = _ :=
    digitsLoop_eq hbase hle (by omega) buf
  have hne : buf ++ (lowFirst base.toNat n).map (fun d => alphadigit.getD d 0#8) ≠ [] := by
    simp [lowFirst_ne_nil]
  have hfits : (buf ++ (lowFirst base.toNat n).map fun d => alphadigit.getD d 0#8).length <
      capacity := by
    rwa [List.length_append, List.length_map]
  rw [formatDigits, hdigits]
  refine (if_pos hfits).trans ?_
  rw [strcpyR_eq m str hne, List.reverse_append, ← List.map_reverse]
  rfl

/-- Ten digits are enough for the absolute value of an `int`. -/
theorem length_lowFirst_int {base : Byte} (hbase : base = 10#8 ∨ base = 16#8) {n : Nat}
    (hn : n ≤ 2 ^ 31) : (lowFirst base.toNat n).length ≤ 10 := by
  cases hbase with
  | inl h =>
      subst h
      exact length_lowFirst_le (by decide) (by decide) (Nat.lt_of_le_of_lt hn (by decide))
  | inr h =>
      subst h
      exact length_lowFirst_le (by decide) (by decide) (Nat.lt_of_le_of_lt hn (by decide))

section
variable {capacity : Nat} {base : Byte} {value : BitVec 32}

theorem base_bounds (hbase : base = 10#8 ∨ base = 16#8) : 1 < base.toNat ∧ base.toNat ≤ 16 := by
  cases hbase with
  | inl h =>
      subst h
      decide
  | inr h =>
      subst h
      decide

theorem natAbs_toInt_le (value : BitVec 32) : value.toInt.natAbs ≤ 2 ^ 31 := by
  have hlow := BitVec.le_toInt value
  have hhigh := BitVec.toInt_lt (x := value)
  omega

theorem formatSigned_of_nonneg (hbase : base = 10#8 ∨ base = 16#8) (hcapacity : 11 < capacity)
    (hvalue : 0 ≤ value.toInt) (m : Mem) (str : Nat) :
    formatSigned capacity m value str base =
      .ok (storeBytes m str (numeralBytes base.toNat value.toInt.natAbs ++ [0#8])) := by
  have hlength := length_lowFirst_int hbase (natAbs_toInt_le value)
  obtain ⟨hlow, hhigh⟩ := base_bounds hbase
  have hroom : ([] : List Byte).length + (lowFirst base.toNat value.toInt.natAbs).length <
      capacity := by
    rw [List.length_nil]
    omega
  have hformat := formatDigits_eq hlow hhigh [] hroom m str
  rw [Int.natAbs_of_nonneg hvalue, List.reverse_nil, List.append_nil] at hformat
  rw [formatSigned, if_neg (Int.not_lt.mpr hvalue), hformat]

/-- The sign comes last. -/
theorem formatSigned_of_neg (hbase : base = 10#8 ∨ base = 16#8) (hcapacity : 11 < capacity)
    (hvalue : value.toInt < 0) (hmin : value.toInt ≠ -2 ^ 31) (m : Mem) (str : Nat) :
    formatSigned capacity m value str base =
      .ok (storeBytes m str
        (numeralBytes base.toNat value.toInt.natAbs ++ [charByte '-'] ++ [0#8])) := by
  have hbound := BitVec.le_toInt value
  have hlength := length_lowFirst_int hbase (natAbs_toInt_le value)
  obtain ⟨hlow, hhigh⟩ := base_bounds hbase
  have hroom : [charByte '-'].length + (lowFirst base.toNat value.toInt.natAbs).length <
      capacity := by
    rw [List.length_singleton]
    omega
  have hformat := formatDigits_eq hlow hhigh [charByte '-'] hroom m str
  have habs : ((value.toInt.natAbs : Nat) : Int) = -value.toInt := by omega
  have hnegated : checkedInt (-value.toInt) = .ok (-value.toInt) := if_pos (by omega)
  rw [habs] at hformat
  rw [formatSigned, if_pos hvalue, hnegated]
  exact hformat

theorem formatSigned_of_min (hvalue : value.toInt = -2 ^ 31) (m : Mem) (str : Nat) :
    formatSigned capacity m value str base = .error .overflow := by
  have hneg : value.toInt < 0 := by omega
  have hoverflow : checkedInt (-value.toInt) = .error .overflow := if_neg (by omega)
  rw [formatSigned, if_pos hneg, hoverflow]
  rfl

/-- A numeral does not start with a sign. -/
theorem numeralBytes_head (hbase : base = 10#8 ∨ base = 16#8) (n : Nat) :
    ∃ c cs, numeralBytes base.toNat n = c :: cs ∧ c ≠ charByte '-' := by
  obtain ⟨hlow, hhigh⟩ := base_bounds hbase
  have hne : numeral base.toNat n ≠ [] := List.reverse_ne_nil_iff.mpr lowFirst_ne_nil
  obtain ⟨d, ds, hds⟩ := List.exists_cons_of_ne_nil hne
  refine ⟨_, _, by rw [numeralBytes, hds, List.map_cons], ?_⟩
  have hd : d < base.toNat := by
    have hmem : d ∈ numeral base.toNat n := hds ▸ List.mem_cons_self
    exact lt_of_mem_lowFirst hlow (List.mem_reverse.mp hmem)
  have hdigits : ∀ d < 16, alphadigit.getD d 0#8 ≠ charByte '-' := by decide
  exact hdigits d (by omega)

/-- A negative value is either negated with overflow or printed with its sign behind it. -/
theorem formatsSigned_iff (hbase : base = 10#8 ∨ base = 16#8) (hcapacity : 11 < capacity) :
    FormatsSigned (formatSigned capacity) value base ↔ 0 ≤ value.toInt := by
  by_cases hvalue : 0 ≤ value.toInt
  · refine iff_of_true (fun m str => ?_) hvalue
    rw [formatSigned_of_nonneg hbase hcapacity hvalue, signedBytes,
      if_neg (Int.not_lt.mpr hvalue), List.nil_append]
  · refine iff_of_false (fun hformats => ?_) hvalue
    have hneg : value.toInt < 0 := by omega
    have hformat := hformats (fun _ => 0#8) 0
    rw [signedBytes, if_pos hneg] at hformat
    by_cases hmin : value.toInt = -2 ^ 31
    · rw [formatSigned_of_min hmin] at hformat
      cases hformat
    · rw [formatSigned_of_neg hbase hcapacity hneg hmin] at hformat
      obtain ⟨c, cs, hnumeral, hc⟩ := numeralBytes_head hbase value.toInt.natAbs
      injection hformat with hformat
      have hfirst := congrFun hformat 0
      rw [hnumeral] at hfirst
      simp only [List.cons_append, storeBytes_apply] at hfirst
      exact hc hfirst

/-- `itoa` and `ltoa` write the sign and the numeral exactly for the values that have no
sign. -/
theorem signed_formatting_iff (value : BitVec 32) (base : Byte)
    (kernelBase : base = 10#8 ∨ base = 16#8) :
    (FormatsSigned itoa value base ↔ 0 ≤ value.toInt) ∧
      (FormatsSigned ltoa value base ↔ 0 ≤ value.toInt) :=
  ⟨formatsSigned_iff kernelBase (by decide), formatsSigned_iff kernelBase (by decide)⟩

theorem signed_formatting_decimal :
    FormatsSigned itoa 1905#32 10#8 ∧ FormatsSigned ltoa 1905#32 10#8 := by
  obtain ⟨hitoa, hltoa⟩ := signed_formatting_iff 1905#32 10#8 (Or.inl rfl)
  exact ⟨hitoa.mpr (by decide), hltoa.mpr (by decide)⟩

/-- `-5` is printed as `5-`. -/
theorem itoa_sign_last : ¬ FormatsSigned itoa (-5#32) 10#8 := by
  have hnegative : ¬ 0 ≤ (-5#32).toInt := by decide
  exact (formatsSigned_iff (Or.inl rfl) (by decide)).not.mpr hnegative

end

end Bros
