import Bros.Lib.Memory

/-!
Strings with a terminator.

A `CString` is the bytes before its NUL; in memory the NUL follows them.
-/

namespace CStrings
open ByteMemory

structure CString where
  bytes : List Byte
  noNul : 0#8 ∉ bytes
deriving DecidableEq

/-- The bytes of the string's object. -/
def CString.memory (s : CString) : List Byte := s.bytes ++ [0#8]

/-- The string that starts where `bs` does. -/
def untilNul (bs : List Byte) : List Byte := bs.takeWhile (· ≠ 0#8)

theorem untilNul_append {text : List Byte} (h : 0#8 ∉ text) (rest : List Byte) :
    untilNul (text ++ 0#8 :: rest) = text := by
  induction text with
  | nil => rfl
  | cons c text ih =>
      rw [List.mem_cons, not_or] at h
      rw [untilNul, List.cons_append, List.takeWhile_cons_of_pos (by simpa using Ne.symm h.1)]
      exact congrArg (c :: ·) (ih h.2)

/-- A stored string as it is found in a part of memory that is longer. -/
theorem loadBytes_terminated {text : List Byte} (m : Mem) (a : Nat) {n : Nat}
    (hn : text.length < n) :
    ∃ rest, loadBytes (storeBytes m a (text ++ [0#8])) a n = text ++ 0#8 :: rest := by
  obtain ⟨rest, hrest⟩ := loadBytes_storeBytes m a (text ++ [0#8]) (n - (text.length + 1))
  rw [List.length_append, List.length_singleton, Nat.add_sub_cancel' hn] at hrest
  refine ⟨rest, ?_⟩
  rw [hrest, List.append_assoc, List.singleton_append]

/-- Strings that leave the same memory are equal. -/
theorem storeBytes_terminated_inj {text text' : List Byte} (h : 0#8 ∉ text) (h' : 0#8 ∉ text')
    {m : Mem} {a : Nat}
    (heq : storeBytes m a (text ++ [0#8]) = storeBytes m a (text' ++ [0#8])) : text = text' := by
  have hlt : text.length < text.length + text'.length + 1 := by omega
  have hlt' : text'.length < text.length + text'.length + 1 := by omega
  obtain ⟨rest, hrest⟩ := loadBytes_terminated m a hlt
  obtain ⟨rest', hrest'⟩ := loadBytes_terminated m a hlt'
  calc text
    _ = untilNul (text ++ 0#8 :: rest) := (untilNul_append h rest).symm
    _ = untilNul (text' ++ 0#8 :: rest') := by rw [← hrest, ← hrest', heq]
    _ = text' := untilNul_append h' rest'

end CStrings
