import Bros.Stdlib
import Bros.Lib.CStrings
import Mathlib.Data.List.TakeWhile

/-!
`atoi` of `lib/stdlib.c`, with `isdigit` of `lib/ctype.c`.

The character is added to ten times the value before `'0'` is subtracted, so that the sum
in between is 48 more than the new value.
-/

namespace Bros
open ByteMemory CStrings Numerals

def digitZero : Nat := '0'.toNat

def digitNine : Nat := '9'.toNat

/-- `char` is signed. -/
def isdigit (ch : Byte) : Bool := (digitZero : Int) ≤ ch.toInt ∧ ch.toInt ≤ (digitNine : Int)

/-- `res = res * 10 + str[i] - '0'` -/
def atoiStep (res : Int) (c : Byte) : Except CFault Int := do
  let res ← checkedInt (res * 10)
  let res ← checkedInt (res + c.toInt)
  checkedInt (res - digitZero)

/-- The end of the list is a terminator, like the first byte that is no digit. -/
def atoiLoop : List Byte → Int → Except CFault Int
  | [], res => .ok res
  | c :: str, res => if isdigit c then atoiStep res c >>= atoiLoop str else .ok res

def atoi (str : List Byte) : Except CFault Int := atoiLoop str 0

def digitPrefix (str : List Byte) : List Byte := str.takeWhile isdigit

def digitValue (c : Byte) : Nat := c.toNat - digitZero

def decimalValue (ds : List Byte) : Nat := positional 10 (ds.map digitValue)

def intMax : Nat := 2147483647

/-- If the digits at the start of the string have a value that fits in an `int`, it is what
`atoi` returns, and nothing overflows on the way. -/
def AtoiExact (str : CString) : Prop :=
  decimalValue (digitPrefix str.bytes) ≤ intMax →
    atoi str.memory = .ok (decimalValue (digitPrefix str.bytes) : Int)

theorem isdigit_iff {c : Byte} : isdigit c = true ↔ 48 ≤ c.toNat ∧ c.toNat ≤ 57 := by
  have hzero : digitZero = 48 := rfl
  have hnine : digitNine = 57 := rfl
  have hlt := c.isLt
  rw [isdigit, decide_eq_true_eq, hzero, hnine, BitVec.toInt_eq_toNat_cond]
  split <;> omega

theorem toInt_of_isdigit {c : Byte} (h : isdigit c = true) : c.toInt = c.toNat := by
  obtain ⟨-, hle⟩ := isdigit_iff.mp h
  rw [BitVec.toInt_eq_toNat_cond, if_pos (by omega)]

theorem toNat_of_isdigit {c : Byte} (h : isdigit c = true) : c.toNat = digitValue c + 48 := by
  obtain ⟨hlow, -⟩ := isdigit_iff.mp h
  have hzero : digitZero = 48 := rfl
  rw [digitValue, hzero, Nat.sub_add_cancel hlow]

theorem checkedInt_natCast (n : Nat) :
    checkedInt n = if n ≤ intMax then .ok (n : Int) else .error .overflow := by
  have hmax : intMax = 2147483647 := rfl
  rw [checkedInt]
  exact if_congr (by omega) rfl rfl

/-- The new value with `'0'` still added has to fit too. -/
theorem atoiStep_eq {c : Byte} (h : isdigit c = true) (v : Nat) :
    atoiStep v c =
      if v * 10 + digitValue c + 48 ≤ intMax then .ok (v * 10 + digitValue c : Nat)
      else .error .overflow := by
  have htimes : (v : Int) * 10 = (v * 10 : Nat) := by omega
  have hsum : ((v * 10 : Nat) : Int) + c.toInt = (v * 10 + digitValue c + 48 : Nat) := by
    rw [toInt_of_isdigit h, toNat_of_isdigit h]
    omega
  have hless : ((v * 10 + digitValue c + 48 : Nat) : Int) - (digitZero : Nat) =
      (v * 10 + digitValue c : Nat) := by
    rw [show digitZero = 48 from rfl]
    omega
  rw [atoiStep, htimes, checkedInt_natCast]
  by_cases hfits : v * 10 + digitValue c + 48 ≤ intMax
  · rw [if_pos hfits, if_pos (by omega)]
    change (checkedInt (((v * 10 : Nat) : Int) + c.toInt) >>= fun res =>
      checkedInt (res - (digitZero : Nat))) = _
    rw [hsum, checkedInt_natCast, if_pos hfits]
    change checkedInt (((v * 10 + digitValue c + 48 : Nat) : Int) - (digitZero : Nat)) = _
    rw [hless, checkedInt_natCast, if_pos (by omega)]
  · rw [if_neg hfits]
    by_cases hproduct : v * 10 ≤ intMax
    · rw [if_pos hproduct]
      change (checkedInt (((v * 10 : Nat) : Int) + c.toInt) >>= fun res =>
        checkedInt (res - (digitZero : Nat))) = _
      rw [hsum, checkedInt_natCast, if_neg hfits]
      rfl
    · rw [if_neg hproduct]
      rfl

/-- The value after some more digits. -/
def valueFrom (v : Nat) (ds : List Byte) : Nat :=
  (ds.map digitValue).foldl (fun v d => v * 10 + d) v

theorem valueFrom_cons (v : Nat) (c : Byte) (ds : List Byte) :
    valueFrom v (c :: ds) = valueFrom (v * 10 + digitValue c) ds := by
  rw [valueFrom, List.map_cons, List.foldl_cons, valueFrom]

theorem le_valueFrom (v : Nat) (ds : List Byte) : v ≤ valueFrom v ds := by
  induction ds generalizing v with
  | nil => exact Nat.le_refl v
  | cons c ds ih =>
      have := ih (v * 10 + digitValue c)
      rw [valueFrom_cons]
      omega

theorem atoiLoop_ok {ds : List Byte} (hds : ∀ c ∈ ds, isdigit c = true) {rest : List Byte}
    (hrest : ∀ res, atoiLoop rest res = .ok res) {v : Nat}
    (h : valueFrom v ds + 48 ≤ intMax) :
    atoiLoop (ds ++ rest) v = .ok (valueFrom v ds : Int) := by
  induction ds generalizing v with
  | nil => exact hrest v
  | cons c ds ih =>
      obtain ⟨hc, hds⟩ := List.forall_mem_cons.mp hds
      have hle := le_valueFrom (v * 10 + digitValue c) ds
      rw [valueFrom_cons] at h ⊢
      rw [List.cons_append, atoiLoop, if_pos hc, atoiStep_eq hc, if_pos (by omega)]
      exact ih hds h

/-- All digits but the last are far from the bound. -/
theorem atoiLoop_overflow {ds : List Byte} (hds : ∀ c ∈ ds, isdigit c = true) (hne : ds ≠ [])
    (rest : List Byte) {v : Nat} (hle : valueFrom v ds ≤ intMax)
    (h : intMax < valueFrom v ds + 48) : atoiLoop (ds ++ rest) v = .error .overflow := by
  induction ds generalizing v with
  | nil => exact absurd rfl hne
  | cons c ds ih =>
      obtain ⟨hc, hds⟩ := List.forall_mem_cons.mp hds
      rw [valueFrom_cons] at hle h
      rw [List.cons_append, atoiLoop, if_pos hc, atoiStep_eq hc]
      cases ds with
      | nil =>
          have hv : valueFrom (v * 10 + digitValue c) [] = v * 10 + digitValue c := rfl
          rw [if_neg (by omega)]
          rfl
      | cons c' ds =>
          have hmax : intMax = 2 ^ 31 - 1 := rfl
          have hlater := le_valueFrom ((v * 10 + digitValue c) * 10 + digitValue c') ds
          rw [← valueFrom_cons] at hlater
          rw [if_pos (by omega)]
          exact ih hds (List.cons_ne_nil _ _) hle h

theorem digitPrefix_append (str : List Byte) :
    ∃ rest, str = digitPrefix str ++ rest ∧ ∀ res, atoiLoop rest res = .ok res := by
  refine ⟨str.dropWhile isdigit, List.takeWhile_append_dropWhile.symm, fun res => ?_⟩
  induction str with
  | nil => rfl
  | cons c str ih =>
      by_cases hc : isdigit c = true
      · rw [List.dropWhile_cons_of_pos hc]
        exact ih
      · rw [List.dropWhile_cons_of_neg hc, atoiLoop, if_neg hc]

/-- The terminator is no digit. -/
theorem digitPrefix_memory (str : CString) : digitPrefix str.memory = digitPrefix str.bytes := by
  rw [digitPrefix, digitPrefix, CString.memory, List.takeWhile_append]
  split
  · next hall =>
      have hself := List.takeWhile_prefix (p := isdigit) (l := str.bytes)
      rw [hself.eq_of_length hall]
      exact List.append_nil _
  · rfl

/-- The last 48 values of the range are out of reach. -/
theorem atoi_exact_iff (str : CString) :
    AtoiExact str ↔
      decimalValue (digitPrefix str.bytes) ≤ intMax - 48 ∨
        intMax < decimalValue (digitPrefix str.bytes) := by
  obtain ⟨rest, hsplit, hrest⟩ := digitPrefix_append str.memory
  rw [digitPrefix_memory] at hsplit
  have hdigits : ∀ c ∈ digitPrefix str.bytes, isdigit c = true := fun c hc =>
    List.mem_takeWhile_imp hc
  have hvalue : decimalValue (digitPrefix str.bytes) = valueFrom 0 (digitPrefix str.bytes) := rfl
  have hmax : 48 ≤ intMax := by decide
  rw [AtoiExact, atoi, hsplit, hvalue]
  by_cases hsmall : valueFrom 0 (digitPrefix str.bytes) + 48 ≤ intMax
  · refine iff_of_true (fun _ => ?_) (Or.inl (by omega))
    exact atoiLoop_ok hdigits hrest hsmall
  · by_cases hlarge : intMax < valueFrom 0 (digitPrefix str.bytes)
    · exact iff_of_true (fun hle => absurd hle (Nat.not_le.mpr hlarge)) (Or.inr hlarge)
    · refine iff_of_false (fun hexact => ?_) (by omega)
      have hne : digitPrefix str.bytes ≠ [] := by
        intro hnil
        rw [hnil] at hsmall
        exact hsmall hmax
      have hoverflow := atoiLoop_overflow (v := 0) hdigits hne rest (by omega) (by omega)
      have hok := hexact (by omega)
      change atoiLoop (digitPrefix str.bytes ++ rest) (0 : Nat) = _ at hok
      rw [hoverflow] at hok
      cases hok

/-- `INT_MAX` itself. -/
theorem atoi_int_max_overflow : ¬ AtoiExact ⟨"2147483647".toList.map charByte, by decide⟩ := by
  rw [AtoiExact]
  decide +kernel

end Bros
