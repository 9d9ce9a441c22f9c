import Bros.Lib.Memory

/-!
The 80x25 text screen of `bios/vga.c` in video memory.

A cell is a character byte and a colour byte. `cell` reads the characters;
`vgaWriteChar_cell` and `vgaScrollDown_cell` say what the two writers do to them, and
that both stay inside the 4000 bytes of the screen.
-/

namespace Bros
open ByteMemory

def vgaMemText : Nat := 0xB8000

def vgaTextWidth : Nat := 80

def vgaTextHeight : Nat := 25

def vgaWriteChar (m : Mem) (x y : Int) (ch col : Byte) : Mem :=
  let off := (y * vgaTextWidth + x) * 2
  if off < 0 ∨ off > (vgaTextWidth * vgaTextHeight - 1) * 2 then m
  else store8 (store8 m (vgaMemText + off.toNat) ch) (vgaMemText + off.toNat + 1) col

/-- The bytes of the string up to its terminator. -/
def vgaWriteString (m : Mem) (x y : Int) (str : List Byte) (col : Byte) : Mem :=
  match str with
  | [] => m
  | c :: str =>
      if c = 0#8 then m else vgaWriteString (vgaWriteChar m x y c col) (x + 1) y str col

/-- The second loop of `VGA_scroll_down`, from byte `i` on, for `n` cells. -/
def vgaBlank (col : Byte) : Nat → Nat → Mem → Mem
  | 0, _, m => m
  | n + 1, i, m =>
      vgaBlank col n (i + 2) (store8 (store8 m (vgaMemText + i) 0#8) (vgaMemText + i + 1) col)

def vgaFill (m : Mem) (fgCol bgCol : Byte) : Mem :=
  vgaBlank (bgCol <<< 4 ||| fgCol) (vgaTextWidth * vgaTextHeight) 0 m

def vgaColorBlack : Byte := 0#8
def vgaColorGreen : Byte := 2#8
def vgaColorGray : Byte := 7#8
def vgaColorBrightGreen : Byte := 10#8
def vgaColorWhite : Byte := 15#8

def vgaClear (m : Mem) : Mem := vgaFill m vgaColorGray vgaColorBlack

def vgaScrollDown (m : Mem) : Mem :=
  let col := m (vgaMemText + (vgaTextWidth * vgaTextHeight * 2 - 1))
  let m := copyChunks 1 (vgaTextWidth * (vgaTextHeight - 1) * 2) m vgaMemText
    (vgaMemText + vgaTextWidth * 2)
  vgaBlank col vgaTextWidth (vgaTextWidth * (vgaTextHeight - 1) * 2) m

/-- The value `VGA_update_cursor` writes to the cursor registers. -/
def vgaUpdateCursor (x y : Byte) : BitVec 16 :=
  y.setWidth 16 * BitVec.ofNat 16 vgaTextWidth + x.setWidth 16

/-- `VGA_get_cursor_offset` reads the high byte of the registers and then the low one. -/
def vgaGetCursorOffset (cursor : BitVec 16) : Nat :=
  ((cursor >>> 8).setWidth 8).toNat <<< 8 + (cursor.setWidth 8).toNat

/-! ### Characters on the screen -/

def cell (m : Mem) (r c : Nat) : Byte := m (vgaMemText + (r * vgaTextWidth + c) * 2)

def OffScreen (a : Nat) : Prop :=
  a < vgaMemText ∨ vgaMemText + vgaTextWidth * vgaTextHeight * 2 ≤ a

theorem offScreen_iff {a : Nat} :
    OffScreen a ↔ a < vgaMemText ∨ vgaMemText + 4000 ≤ a := Iff.rfl

theorem vgaTextWidth_eq : vgaTextWidth = 80 := rfl

theorem vgaTextHeight_eq : vgaTextHeight = 25 := rfl

/-- `(y * VGA_TEXT_WIDTH + x) * 2` for coordinates that are not negative. -/
theorem vgaOffset_natCast (x y : Nat) :
    ((y : Int) * (vgaTextWidth : Nat) + x) * 2 = ((y * 80 + x) * 2 : Nat) := by
  rw [vgaTextWidth_eq]
  omega

/-- In range, the bounds check lets the write through. -/
theorem vgaWriteChar_eq (m : Mem) {x y : Nat} (hx : x < 80) (hy : y < 25) (ch col : Byte) :
    vgaWriteChar m x y ch col =
      store8 (store8 m (vgaMemText + (y * 80 + x) * 2) ch)
        (vgaMemText + (y * 80 + x) * 2 + 1) col := by
  rw [vgaWriteChar, vgaOffset_natCast, vgaTextWidth_eq, vgaTextHeight_eq, if_neg (by omega),
    Int.toNat_natCast]

theorem vgaWriteChar_cell (m : Mem) {x y : Nat} (hx : x < 80) (hy : y < 25) (ch col : Byte)
    {r c : Nat} (hc : c < 80) :
    cell (vgaWriteChar m x y ch col) r c = if r = y ∧ c = x then ch else cell m r c := by
  rw [vgaWriteChar_eq m hx hy, cell, cell, vgaTextWidth_eq, store8,
    write_outside _ _ (by omega), store8]
  split
  · next h =>
      obtain ⟨rfl, rfl⟩ := h
      exact write_inside m _ ⟨Nat.le_refl _, Nat.lt_succ_self _⟩
  · exact write_outside m _ (by omega)

theorem vgaWriteChar_offScreen (m : Mem) {x y : Nat} (hx : x < 80) (hy : y < 25)
    (ch col : Byte) {a : Nat} (ha : OffScreen a) : vgaWriteChar m x y ch col a = m a := by
  rw [offScreen_iff] at ha
  rw [vgaWriteChar_eq m hx hy, store8, write_outside _ _ (by omega), store8,
    write_outside _ _ (by omega)]

/-- The blanking loop writes character 0 to its cells and nothing outside them. -/
theorem vgaBlank_spec (col : Byte) (n i : Nat) (m : Mem) :
    (∀ k < n, vgaBlank col n i m (vgaMemText + i + 2 * k) = 0#8) ∧
      ∀ a, a < vgaMemText + i ∨ vgaMemText + i + 2 * n ≤ a → vgaBlank col n i m a = m a := by
  induction n generalizing i m with
  | zero => exact ⟨fun k hk => absurd hk (Nat.not_lt_zero k), fun _ _ => rfl⟩
  | succ n ih =>
      obtain ⟨hblank, hframe⟩ := ih (i + 2)
        (store8 (store8 m (vgaMemText + i) 0#8) (vgaMemText + i + 1) col)
      refine ⟨?_, ?_⟩
      · intro k hk
        cases k with
        | zero =>
            rw [vgaBlank, hframe _ (by omega), store8, write_outside _ _ (by omega), store8]
            exact write_offset m (vgaMemText + i) 1 0 _ (by decide)
        | succ k =>
            rw [vgaBlank, show vgaMemText + i + 2 * (k + 1) = vgaMemText + (i + 2) + 2 * k by omega]
            exact hblank k (by omega)
      · intro a ha
        rw [vgaBlank, hframe a (by omega), store8, write_outside _ _ (by omega), store8,
          write_outside _ _ (by omega)]

/-- The copy loop moves the lower 24 rows up; the blanking loop does the last row. -/
theorem vgaScrollDown_spec (m : Mem) :
    (∀ k < 80, vgaScrollDown m (vgaMemText + 3840 + 2 * k) = 0#8) ∧
      ∀ a, a < vgaMemText + 3840 ∨ vgaMemText + 4000 ≤ a →
        vgaScrollDown m a = write m vgaMemText 3840 (fun i => m (vgaMemText + 160 + i)) a := by
  rw [vgaScrollDown, copyChunks_apply _ _ _ _ _ (Or.inl (Nat.le_add_right _ _))]
  exact vgaBlank_spec _ 80 3840 _

theorem vgaScrollDown_cell (m : Mem) {r c : Nat} (hr : r < 25) (hc : c < 80) :
    cell (vgaScrollDown m) r c = if r < 24 then cell m (r + 1) c else 0#8 := by
  obtain ⟨hblank, hframe⟩ := vgaScrollDown_spec m
  rw [cell, cell, vgaTextWidth_eq]
  generalize vgaMemText = base at *
  split
  · rw [hframe _ (by omega), write_inside _ _ (by omega)]
    congr 1
    omega
  · have hlast := hblank c hc
    rwa [show base + 3840 + 2 * c = base + (r * 80 + c) * 2 by omega] at hlast

theorem vgaScrollDown_offScreen (m : Mem) {a : Nat} (ha : OffScreen a) :
    vgaScrollDown m a = m a := by
  have hframe := (vgaScrollDown_spec m).2 a
  rw [offScreen_iff] at ha
  generalize vgaMemText = base at *
  rw [hframe (by omega), write_outside _ _ (by omega)]

end Bros
