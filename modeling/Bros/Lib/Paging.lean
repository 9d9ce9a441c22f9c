import Bros.Lib.Memory

/-!
Two-level paging of a 32-bit processor with 4 KiB pages.

An entry is a frame address in bits 12..31 with flags below. `walk` is the translation
the processor makes from the directory that its `cr3` holds; tables are filled entry by
entry, and `load32_fill` reads such a table back.
-/

namespace Paging
open ByteMemory

/-- The frame address of an entry: its low 12 bits are flags. -/
def frameBase (entry : BitVec 32) : BitVec 32 := (entry >>> 12) <<< 12

def isPresent (entry : BitVec 32) : Bool := entry.getLsbD 0

def isWritable (entry : BitVec 32) : Bool := entry.getLsbD 1

def isUser (entry : BitVec 32) : Bool := entry.getLsbD 2

structure Mapping where
  phys : BitVec 32
  writable : Bool
  user : Bool
deriving DecidableEq

def directoryIndex (v : BitVec 32) : Nat := v.toNat / 2 ^ 22

def tableIndex (v : BitVec 32) : Nat := v.toNat / 2 ^ 12 % 2 ^ 10

/-- The translation of `v`; `none` is a page that is not present. -/
def walk (m : Mem) (cr3 v : BitVec 32) : Option Mapping :=
  let pde := load32 m ((frameBase cr3).toNat + 4 * directoryIndex v)
  if isPresent pde then
    let pte := load32 m ((frameBase pde).toNat + 4 * tableIndex v)
    if isPresent pte then
      some
        { phys := frameBase pte + BitVec.ofNat 32 (v.toNat % 2 ^ 12)
          writable := isWritable pde && isWritable pte
          user := isUser pde && isUser pte }
    else none
  else none

/-! ### Entries -/

theorem toNat_frameBase (entry : BitVec 32) :
    (frameBase entry).toNat = entry.toNat / 2 ^ 12 * 2 ^ 12 := by
  rw [frameBase, BitVec.toNat_shiftLeft, BitVec.toNat_ushiftRight, Nat.shiftLeft_eq,
    Nat.shiftRight_eq_div_pow]
  have := entry.isLt
  omega

/-- Flags added to a frame address: `base | flags`. -/
theorem toNat_entry {base flags : BitVec 32} (halign : base.toNat % 2 ^ 12 = 0)
    (hflags : flags.toNat < 2 ^ 12) : (base ||| flags).toNat = base.toNat + flags.toNat := by
  have hbase : base.toNat = base.toNat / 2 ^ 12 * 2 ^ 12 := by omega
  rw [BitVec.toNat_or, hbase, ← Nat.shiftLeft_eq, Nat.shiftLeft_add_eq_or_of_lt hflags]

theorem frameBase_entry {base flags : BitVec 32} (halign : base.toNat % 2 ^ 12 = 0)
    (hflags : flags.toNat < 2 ^ 12) : frameBase (base ||| flags) = base := by
  apply BitVec.eq_of_toNat_eq
  rw [toNat_frameBase, toNat_entry halign hflags]
  omega

/-- An aligned address leaves the flag bits as they are. -/
theorem flag_entry {base flags : BitVec 32} (halign : base.toNat % 2 ^ 12 = 0) {i : Nat}
    (hi : i < 12) : (base ||| flags).getLsbD i = flags.getLsbD i := by
  have hclear : base.getLsbD i = false := by
    rw [← BitVec.testBit_toNat, show base.toNat = 2 ^ 12 * (base.toNat / 2 ^ 12) by omega,
      Nat.testBit_two_pow_mul, decide_eq_false (by omega), Bool.false_and]
  rw [BitVec.getLsbD_or, hclear, Bool.false_or]

theorem frameBase_of_aligned {base : BitVec 32} (halign : base.toNat % 2 ^ 12 = 0) :
    frameBase base = base := by
  have h := frameBase_entry halign (show (0#32).toNat < 2 ^ 12 by decide)
  rwa [BitVec.or_zero] at h

/-! ### Tables -/

/-- Store `entry i` in slot `i` of the table at `base`, for the slots of a list in turn. -/
def fill (base : Nat) (entry : Nat → BitVec 32) (slots : List Nat) (m : Mem) : Mem :=
  slots.foldl (fun m i => store32 m (base + 4 * i) (entry i)) m

theorem fill_outside {base n : Nat} (entry : Nat → BitVec 32) {slots : List Nat}
    (hslots : ∀ i ∈ slots, i < n) (m : Mem) {a : Nat} (ha : a < base ∨ base + 4 * n ≤ a) :
    fill base entry slots m a = m a := by
  induction slots generalizing m with
  | nil => rfl
  | cons i slots ih =>
      have hi := hslots i List.mem_cons_self
      rw [fill, List.foldl_cons]
      refine (ih (fun j hj => hslots j (List.mem_cons_of_mem i hj)) _).trans ?_
      exact write_outside m _ (by omega)

theorem load32_fill (base : Nat) (entry : Nat → BitVec 32) (slots : List Nat) (m : Mem)
    (j : Nat) : load32 (fill base entry slots m) (base + 4 * j) =
      if j ∈ slots then entry j else load32 m (base + 4 * j) := by
  induction slots generalizing m with
  | nil => rfl
  | cons i slots ih =>
      rw [fill, List.foldl_cons]
      refine (ih _).trans ?_
      by_cases hj : j ∈ slots
      · rw [if_pos hj, if_pos (List.mem_cons_of_mem i hj)]
      · rw [if_neg hj]
        by_cases hji : j = i
        · rw [hji, load32_store32, if_pos List.mem_cons_self]
        · rw [if_neg (by simp [hji, hj]), store32, load32_write_outside _ _ (by omega)]

/-! ### The walk -/

section
variable {m : Mem} {cr3 v : BitVec 32}

theorem walk_not_present
    (h : isPresent (load32 m ((frameBase cr3).toNat + 4 * directoryIndex v)) = false) :
    walk m cr3 v = none := by
  rw [walk, h]
  exact if_neg Bool.false_ne_true

/-- A walk that ends at an entry of the table that is not present. -/
theorem walk_absent_page {table flags : BitVec 32} (htable : table.toNat % 2 ^ 12 = 0)
    (hflags : flags.toNat < 2 ^ 12) (hset : flags.getLsbD 0 = true)
    (hpde : load32 m ((frameBase cr3).toNat + 4 * directoryIndex v) = table ||| flags)
    (hpte : isPresent (load32 m (table.toNat + 4 * tableIndex v)) = false) :
    walk m cr3 v = none := by
  have hpresent : isPresent (table ||| flags) = true := by
    rw [isPresent, flag_entry htable (by decide), hset]
  rw [walk, hpde]
  simp only [hpresent, if_true, frameBase_entry htable hflags, hpte, Bool.false_eq_true, if_false]

/-- A walk through two present entries with the same flags. -/
theorem walk_present {table page flags : BitVec 32} (htable : table.toNat % 2 ^ 12 = 0)
    (hpage : page.toNat % 2 ^ 12 = 0) (hflags : flags.toNat < 2 ^ 12)
    (hset : flags.getLsbD 0 = true)
    (hpde : load32 m ((frameBase cr3).toNat + 4 * directoryIndex v) = table ||| flags)
    (hpte : load32 m (table.toNat + 4 * tableIndex v) = page ||| flags) :
    walk m cr3 v =
      some
        { phys := page + BitVec.ofNat 32 (v.toNat % 2 ^ 12)
          writable := flags.getLsbD 1
          user := flags.getLsbD 2 } := by
  have hpresent (base : BitVec 32) (halign : base.toNat % 2 ^ 12 = 0) :
      isPresent (base ||| flags) = true := by
    rw [isPresent, flag_entry halign (by decide), hset]
  rw [walk, hpde]
  simp only [hpresent table htable, if_true, frameBase_entry htable hflags, hpte,
    hpresent page hpage, frameBase_entry hpage hflags, isWritable, isUser,
    flag_entry htable (show 1 < 12 by decide), flag_entry hpage (show 1 < 12 by decide),
    flag_entry htable (show 2 < 12 by decide), flag_entry hpage (show 2 < 12 by decide),
    Bool.and_self]

end

end Paging
