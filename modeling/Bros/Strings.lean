import Bros.Lib.CStrings
import Mathlib.Data.List.Basic

/-!
`strlen` and `strnlen` of `lib/string.c`.

The argument is the list of the bytes that may be read from the pointer on; a read past
its end is `none`.
-/

namespace Bros
open ByteMemory CStrings

def strlen : List Byte → Option Nat
  | [] => none
  | c :: str => if c = 0#8 then some 0 else (strlen str).map (· + 1)

/-- The byte is read before `len` is compared with `max_length`. -/
def strnlen : List Byte → Nat → Option Nat
  | [], _ => none
  | c :: str, maxLength =>
      if c = 0#8 then some 0
      else
        match maxLength with
        | 0 => some 0
        | maxLength + 1 => (strnlen str maxLength).map (· + 1)

variable {text : List Byte}

theorem strlen_eq (h : 0#8 ∉ text) (rest : List Byte) :
    strlen (text ++ 0#8 :: rest) = some text.length := by
  induction text with
  | nil => rfl
  | cons c text ih =>
      rw [List.mem_cons, not_or] at h
      rw [List.cons_append, strlen, if_neg (Ne.symm h.1), ih h.2]
      rfl

theorem strnlen_eq (h : 0#8 ∉ text) {maxLength : Nat} (hle : text.length ≤ maxLength)
    (rest : List Byte) : strnlen (text ++ 0#8 :: rest) maxLength = some text.length := by
  induction text generalizing maxLength with
  | nil => rfl
  | cons c text ih =>
      rw [List.mem_cons, not_or] at h
      cases maxLength with
      | zero => exact absurd hle (Nat.not_succ_le_zero _)
      | succ maxLength =>
          rw [List.cons_append, strnlen, if_neg (Ne.symm h.1)]
          simp only [ih h.2 (Nat.le_of_succ_le_succ hle)]
          rfl

theorem strlen_memory (s : CString) : strlen s.memory = some s.bytes.length :=
  strlen_eq s.noNul []

/-! ### The bound of `strnlen` -/

/-- The index of the first NUL, or the number of bytes. -/
def firstNul (buf : List Byte) : Nat := buf.idxOf 0#8

/-- With just `max_length` readable bytes the first NUL or the bound is returned, and no
other byte is read. -/
def StrnlenBounded (buf : List Byte) : Prop := strnlen buf buf.length = some (firstNul buf)

/-- Without a NUL all bytes are read, and one more. -/
theorem strnlen_eq_none {buf : List Byte} (h : 0#8 ∉ buf) {maxLength : Nat}
    (hle : buf.length ≤ maxLength) : strnlen buf maxLength = none := by
  induction buf generalizing maxLength with
  | nil => rfl
  | cons c buf ih =>
      rw [List.mem_cons, not_or] at h
      cases maxLength with
      | zero => exact absurd hle (Nat.not_succ_le_zero _)
      | succ maxLength =>
          rw [strnlen, if_neg (Ne.symm h.1)]
          simp only [ih h.2 (Nat.le_of_succ_le_succ hle), Option.map_none]

/-- A NUL within the bound ends the loop. -/
theorem strnlen_of_nul {buf : List Byte} (h : 0#8 ∈ buf) : StrnlenBounded buf := by
  induction buf with
  | nil => cases h
  | cons c buf ih =>
      rw [StrnlenBounded, List.length_cons, strnlen, firstNul]
      by_cases hc : c = 0#8
      · rw [if_pos hc, hc, List.idxOf_cons_self]
      · have htail := (List.mem_cons.mp h).resolve_left (Ne.symm hc)
        rw [if_neg hc, List.idxOf_cons_ne _ hc]
        simp only [show strnlen buf buf.length = some (firstNul buf) from ih htail]
        rfl

/-- The bound is kept exactly when it does not end the search: without a NUL the byte behind
the buffer is read before `len` has been compared with `max_length`. -/
theorem strnlen_bounded_iff (buf : List Byte) : StrnlenBounded buf ↔ 0#8 ∈ buf := by
  refine ⟨fun h => ?_, strnlen_of_nul⟩
  by_contra hnul
  rw [StrnlenBounded, strnlen_eq_none hnul (Nat.le_refl _)] at h
  cases h

/-- The three characters of a buffer of three bytes. -/
theorem strnlen_reads_behind : ¬ StrnlenBounded [97#8, 98#8, 99#8] := by
  rw [StrnlenBounded]
  decide

end Bros
