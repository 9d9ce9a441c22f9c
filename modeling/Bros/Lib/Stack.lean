import Bros.Lib.Memory

/-!
A downward stack of 16-bit and 32-bit words in a 32-bit address space that wraps.

`Stored m a ws` says that the words `ws` lie one after the other from address `a` on,
without padding. It is what pushes build up from the top of the stack, what a packed
record is read from, and what pops take down again.
-/

namespace StackMemory
open ByteMemory

abbrev Ram := BitVec 32 → Byte

/-- The bytes from an address on. -/
def view (m : Ram) (a : BitVec 32) : Mem := fun i => m (a + BitVec.ofNat 32 i)

def read16 (m : Ram) (a : BitVec 32) : BitVec 16 := load16 (view m a) 0

def read32 (m : Ram) (a : BitVec 32) : BitVec 32 := load32 (view m a) 0

inductive Word where
  | w16 (v : BitVec 16)
  | w32 (v : BitVec 32)

def Word.size : Word → Nat
  | .w16 _ => 2
  | .w32 _ => 4

def Word.byte : Word → Nat → Byte
  | .w16 v => byteAt v
  | .w32 v => byteAt v

def storeWord (m : Ram) (a : BitVec 32) (w : Word) : Ram :=
  fun b => if (b - a).toNat < w.size then w.byte (b - a).toNat else m b

def Holds (m : Ram) (a : BitVec 32) (w : Word) : Prop :=
  ∀ i < w.size, view m a i = w.byte i

def wordsSize : List Word → Nat
  | [] => 0
  | w :: ws => w.size + wordsSize ws

/-- The words lie one after the other from `a` on. -/
def Stored (m : Ram) : BitVec 32 → List Word → Prop
  | _, [] => True
  | a, w :: ws => Holds m a w ∧ Stored m (a + BitVec.ofNat 32 w.size) ws

section
variable {m m' : Ram} {a : BitVec 32} {w : Word} {ws : List Word}

theorem view_add (m : Ram) (a : BitVec 32) (k i : Nat) :
    view m (a + BitVec.ofNat 32 k) i = view m a (k + i) := by
  rw [view, view, BitVec.ofNat_add, BitVec.add_assoc]

/-! ### Reading words -/

theorem Holds.read16 {v : BitVec 16} (h : Holds m a (.w16 v)) : read16 m a = v := by
  rw [← load16_store16 (view m a) 0 v]
  apply load16_congr
  intro b _ hb
  exact (h b (show b < 2 by omega)).trans (write_inside _ _ ⟨b.zero_le, hb⟩).symm

theorem Holds.read32 {v : BitVec 32} (h : Holds m a (.w32 v)) : read32 m a = v := by
  rw [← load32_store32 (view m a) 0 v]
  apply load32_congr
  intro b _ hb
  exact (h b (show b < 4 by omega)).trans (write_inside _ _ ⟨b.zero_le, hb⟩).symm

/-- Any four bytes hold the word that is read from them. -/
theorem holds_read32 (m : Ram) (a : BitVec 32) : Holds m a (.w32 (read32 m a)) := by
  intro i hi
  have hi' : i < 4 := hi
  apply BitVec.eq_of_getLsbD_eq
  intro j hj
  rw [Word.byte, getLsbD_byteAt _ _ _ hj, read32, getLsbD_load32 _ _ _ (by omega),
    show 0 + (8 * i + j) / 8 = i by omega, show (8 * i + j) % 8 = j by omega]

theorem read16_congr {b : BitVec 32} (h : ∀ i < 2, view m a i = view m' b i) :
    read16 m a = read16 m' b :=
  load16_congr fun i _ hi => h i (by omega)

theorem read32_congr {b : BitVec 32} (h : ∀ i < 4, view m a i = view m' b i) :
    read32 m a = read32 m' b :=
  load32_congr fun i _ hi => h i (by omega)

/-! ### Words in a row -/

theorem Stored.congr (h : Stored m a ws) (heq : ∀ i < wordsSize ws, view m' a i = view m a i) :
    Stored m' a ws := by
  induction ws generalizing a with
  | nil => trivial
  | cons w ws ih =>
      refine ⟨?_, ih h.2 ?_⟩
      · intro i hi
        rw [heq i (Nat.lt_add_right _ hi)]
        exact h.1 i hi
      · intro i hi
        rw [view_add, view_add, heq _ (Nat.add_lt_add_left hi _)]

theorem view_storeWord_inside {i : Nat} (hi : i < w.size) (hlt : i < 2 ^ 32) :
    view (storeWord m a w) a i = w.byte i := by
  have hoff : (a + BitVec.ofNat 32 i - a).toNat = i := by
    rw [BitVec.add_comm, BitVec.add_sub_cancel, BitVec.toNat_ofNat, Nat.mod_eq_of_lt hlt]
  rw [view, storeWord, hoff, if_pos hi]

theorem view_storeWord_outside {i : Nat} (hi : w.size ≤ i) (hlt : i < 2 ^ 32) :
    view (storeWord m a w) a i = view m a i := by
  have hoff : (a + BitVec.ofNat 32 i - a).toNat = i := by
    rw [BitVec.add_comm, BitVec.add_sub_cancel, BitVec.toNat_ofNat, Nat.mod_eq_of_lt hlt]
  rw [view, storeWord, hoff, if_neg (by omega), view]

/-- A push puts its word in front of what is stored at the stack pointer. -/
theorem Stored.push (h : Stored m a ws) (hroom : w.size + wordsSize ws ≤ 2 ^ 32) :
    Stored (storeWord m (a - BitVec.ofNat 32 w.size) w) (a - BitVec.ofNat 32 w.size)
      (w :: ws) := by
  refine ⟨?_, ?_⟩
  · intro i hi
    exact view_storeWord_inside hi (by omega)
  · rw [BitVec.sub_add_cancel]
    apply h.congr
    intro i hi
    have hback := view_storeWord_outside (m := m) (a := a - BitVec.ofNat 32 w.size) (w := w)
      (Nat.le_add_right w.size i) (by omega)
    rwa [← view_add, ← view_add, BitVec.sub_add_cancel] at hback

end

end StackMemory
